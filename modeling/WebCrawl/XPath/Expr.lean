import WebCrawl.Double.Basic
import WebCrawl.Text.Basic

/-!
# XPath expressions

The expressions of XPath 1.0 without variables and the namespace axis. Parentheses leave no trace,
and the abbreviated steps are held as the steps they stand for.

## Main definitions

* `WebCrawl.XPath.Axis`, `WebCrawl.XPath.NodeTest`, `WebCrawl.XPath.Step` — steps.
* `WebCrawl.XPath.Function` — the functions, with `WebCrawl.XPath.Function.takes` for the numbers of
  arguments they accept.
* `WebCrawl.XPath.Expr` — the expressions.
-/

set_option autoImplicit false

namespace WebCrawl.XPath

/-! ## Steps -/

/-- The direction of a step. -/
inductive Axis where
  | child
  | descendant
  | descendantOrSelf
  | self
  | parent
  | ancestor
  | ancestorOrSelf
  | followingSibling
  | precedingSibling
  | following
  | preceding
  | attributes
deriving DecidableEq, Repr

/-- The axis of a name. -/
def Axis.named? (name : Text) : Option Axis :=
  (([("child", .child), ("descendant", .descendant), ("descendant-or-self", .descendantOrSelf),
    ("self", .self), ("parent", .parent), ("ancestor", .ancestor),
    ("ancestor-or-self", .ancestorOrSelf), ("following-sibling", .followingSibling),
    ("preceding-sibling", .precedingSibling), ("following", .following),
    ("preceding", .preceding), ("attribute", .attributes)] : List (String × Axis)).find?
      fun entry => entry.1.toList == name).map (·.2)

/-- The kind of node that a step asks for. -/
inductive NodeTest where
  /-- An element or an attribute of any name. -/
  | anyName
  /-- An element or an attribute of the given name. -/
  | name (name : Text)
  /-- A node of any kind. -/
  | node
  /-- A text node. -/
  | text
  /-- A comment. -/
  | comment
deriving DecidableEq, Repr

/-! ## Operators and functions -/

/-- The comparisons. -/
inductive Comparison where
  | equal
  | unequal
  | less
  | lessEqual
  | greater
  | greaterEqual
deriving DecidableEq, Repr

/-- The arithmetic operators. -/
inductive Arithmetic where
  | add
  | sub
  | mul
  | div
  | mod
deriving DecidableEq, Repr

/-- The functions. -/
inductive Function where
  | last
  | position
  | count
  | not
  | true
  | false
  | boolean
  | number
  | string
  | concat
  | contains
  | startsWith
  | endsWith
  | substring
  | substringBefore
  | substringAfter
  | stringLength
  | normalizeSpace
  | translate
  | name
  | localName
  | sum
  | floor
  | ceiling
  | round
deriving DecidableEq, Repr

/-- The names of the functions, with the least and the greatest number of arguments they take. -/
def Function.table : List (String × Function × Nat × Option Nat) :=
  [("last", .last, 0, some 0),
   ("position", .position, 0, some 0),
   ("count", .count, 1, some 1),
   ("not", .not, 1, some 1),
   ("true", .true, 0, some 0),
   ("false", .false, 0, some 0),
   ("boolean", .boolean, 1, some 1),
   ("number", .number, 0, some 1),
   ("string", .string, 0, some 1),
   ("concat", .concat, 2, none),
   ("contains", .contains, 2, some 2),
   ("starts-with", .startsWith, 2, some 2),
   ("ends-with", .endsWith, 2, some 2),
   ("substring", .substring, 2, some 3),
   ("substring-before", .substringBefore, 2, some 2),
   ("substring-after", .substringAfter, 2, some 2),
   ("string-length", .stringLength, 0, some 1),
   ("normalize-space", .normalizeSpace, 0, some 1),
   ("translate", .translate, 3, some 3),
   ("name", .name, 0, some 1),
   ("local-name", .localName, 0, some 1),
   ("sum", .sum, 1, some 1),
   ("floor", .floor, 1, some 1),
   ("ceiling", .ceiling, 1, some 1),
   ("round", .round, 1, some 1)]

/-- The function of a name. -/
def Function.named? (name : Text) : Option Function :=
  (table.find? fun entry => entry.1.toList == name).map (·.2.1)

/-- Whether the function takes `n` arguments. -/
def Function.takes (f : Function) (n : Nat) : Bool :=
  table.any fun (_, g, least, greatest) => f == g && least ≤ n && greatest.all (n ≤ ·)

/-! ## Expressions -/

mutual

/-- An expression. -/
inductive Expr where
  | or (left right : Expr)
  | and (left right : Expr)
  | compare (comparison : Comparison) (left right : Expr)
  | arithmetic (operator : Arithmetic) (left right : Expr)
  | negate (operand : Expr)
  | union (left right : Expr)
  /-- The steps of a path, from the root if it is absolute. -/
  | path (absolute : Bool) (steps : List Step)
  /-- The nodes of an expression that satisfy the predicates, and the steps from them. -/
  | filter (primary : Expr) (predicates : List Expr) (steps : List Step)
  | literal (text : Text)
  | number (value : Double)
  | call (function : Function) (arguments : List Expr)

/-- One step: the nodes of an axis that pass a test and satisfy the predicates. -/
inductive Step where
  | mk (axis : Axis) (test : NodeTest) (predicates : List Expr)

end

instance : Inhabited Expr := ⟨.literal []⟩

namespace Step

/-- The direction of a step. -/
def axis : Step → Axis
  | mk axis _ _ => axis

/-- The kind of node that a step asks for. -/
def test : Step → NodeTest
  | mk _ test _ => test

/-- The predicates of a step. -/
def predicates : Step → List Expr
  | mk _ _ predicates => predicates

/-- The step written as a dot. -/
def here : Step := mk .self .node []

/-- The step written as two dots. -/
def up : Step := mk .parent .node []

/-- The step that stands between two slashes. -/
def throughout : Step := mk .descendantOrSelf .node []

end Step

end WebCrawl.XPath
