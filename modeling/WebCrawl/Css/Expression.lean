import WebCrawl.Css.Selector

/-!
# Selectors as XPath expressions

A selector group is written as an XPath union with one path for each alternative and one step for
each compound. The axis of a step is the one of its combinator; its predicate asks for the
qualities of its compound. A place among siblings of one type opens a predicate of its own, so
that it counts only the nodes that the qualities before it have left.

## Main definitions

* `WebCrawl.Css.literal` — a text as an XPath string expression.
* `WebCrawl.Css.Qualifier.condition`, `WebCrawl.Css.Compound.condition` — the qualities of one
  element as the content of a predicate.
* `WebCrawl.Css.Group.toXPath` — the expression of a whole group.
-/

set_option autoImplicit false

namespace WebCrawl.Css

open Text

/-! ## Literals -/

/-- A text as an XPath expression. A text that holds quotes of both kinds is put together from
pieces without double quotes. -/
def literal (text : Text) : Text :=
  if '"' ∉ text then "\"" ++ text ++ "\""
  else if '\'' ∉ text then "'" ++ text ++ "'"
  else
    let pieces := (splitAt '"' text).map fun piece => "\"".toList ++ piece ++ "\"".toList
    "concat(" ++ join ", '\"', " pieces ++ ")"

/-! ## Qualifiers -/

/-- The condition on the attribute `name` that a test makes. -/
def AttributeTest.condition (name : Text) : AttributeTest → Text
  | .present => "@" ++ name
  | .equals v => "@" ++ name ++ "=" ++ literal v
  | .includes v =>
    "contains(concat(\" \", @" ++ name ++ ", \" \"), concat(\" \", " ++ literal v ++ ", \" \"))"
  | .dashMatch v =>
    "(@" ++ name ++ "=" ++ literal v ++ " or starts-with(@" ++ name ++ ", concat(" ++ literal v ++
      ", \"-\")))"
  | .beginsWith v => "starts-with(@" ++ name ++ ", " ++ literal v ++ ")"
  | .endsWith v =>
    "substring(@" ++ name ++ ", string-length(@" ++ name ++ ") - string-length(" ++ literal v ++
      ") + 1) = " ++ literal v
  | .contains v => "contains(@" ++ name ++ ", " ++ literal v ++ ")"

/-- The distance of the position from `b`. -/
def distance (b : Int) : Text :=
  if b = 0 then "position()"
  else if 0 < b then "(position() - " ++ ofInt b ++ ")"
  else "(position() + " ++ ofInt (-b) ++ ")"

/-- The condition that the position is `a * k + b` for some natural number `k`. -/
def progressionCondition (a b : Int) : Text :=
  if a = 0 then "position() = " ++ ofInt b
  else if 0 < a then
    if 1 < b then "position() >= " ++ ofInt b ++ " and " ++ distance b ++ " mod " ++ ofInt a ++ " = 0"
    else distance b ++ " mod " ++ ofInt a ++ " = 0"
  else
    "position() <= " ++ ofInt b ++ " and (" ++ ofInt b ++ " - position()) mod " ++ ofInt (-a) ++ " = 0"

/-- The condition on the position that an index argument makes. -/
def Nth.condition : Nth → Text
  | .even => "position() mod 2 = 0"
  | .odd => "position() mod 2 = 1"
  | .progression a b => progressionCondition a b
  | .only b => "position() = " ++ ofInt b

/-- The condition on the position that a place makes. -/
def Place.condition : Place → Text
  | .first => "position()=1"
  | .last => "position()=last()"
  | .sole => "position() = 1 and position() = last()"
  | .nth argument => argument.condition

/-- What stands between the conditions before a qualifier and its own. -/
def Qualifier.connective (q : Qualifier) : Text :=
  if q.isTypeRelative then "][" else " and "

/-- Conditions in a row, each after the first with the connective that leads to it. -/
def joinConditions : List (Text × Text) → Text
  | [] => []
  | (_, condition) :: more => condition ++ more.flatMap fun (connective, c) => connective ++ c

/-- The condition on the type of an element. -/
def typeConditions : Option Text → List (Text × Text)
  | none => []
  | some name => [(" and ", "self::" ++ name)]

mutual

/-- The condition that a qualifier makes. -/
def Qualifier.condition : Qualifier → Text
  | .className name => "contains(concat(\" \", @class, \" \"), \" " ++ name ++ " \")"
  | .identifier name => "@id=" ++ literal name
  | .attr name test => test.condition name
  | .place _ place => place.condition
  | .negation type qualifiers =>
    "not(" ++ joinConditions (typeConditions type ++ qualifierConditions qualifiers) ++ ")"

/-- The conditions of a list of qualifiers, each with its connective. -/
def qualifierConditions : List Qualifier → List (Text × Text)
  | [] => []
  | q :: qs => (q.connective, q.condition) :: qualifierConditions qs

end

/-! ## Compounds and groups -/

/-- The axis of a combinator, with the test for any element. -/
def Combinator.axis : Combinator → Text
  | .descendant => "/descendant-or-self::*/*"
  | .child => "/child::*"
  | .adjacent => "/following-sibling::*"
  | .sibling => "/following-sibling::*"

/-- The condition that a combinator makes of its own: the next sibling is the first of the later
ones. -/
def Combinator.conditions : Combinator → List (Text × Text)
  | .adjacent => [(" and ", "position()=1")]
  | _ => []

/-- The content of the predicate of a compound reached by a combinator. -/
def Compound.condition (combinator : Combinator) (c : Compound) : Text :=
  joinConditions (combinator.conditions ++ typeConditions c.type ++ qualifierConditions c.qualifiers)

/-- The step to a compound. -/
def stepText (combinator : Combinator) (c : Compound) : Text :=
  combinator.axis ++ "[" ++ c.condition combinator ++ "]"

/-- What a path of the scope begins with. -/
def Scope.start : Scope → Text
  | .document => []
  | .node => "."

/-- The path of an alternative. -/
def Complex.toXPath (scope : Scope) (c : Complex) : Text :=
  scope.start ++ c.flatMap fun (combinator, compound) => stepText combinator compound

/-- The expression of a selector group. -/
def Group.toXPath (scope : Scope) (g : Group) : Text :=
  join " | " (g.map (Complex.toXPath scope))

end WebCrawl.Css
