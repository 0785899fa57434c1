import WebCrawl.Reader
import WebCrawl.XPath.Expr
import WebCrawl.XPath.Token

/-!
# Reading XPath expressions

The operators bind, from the weakest to the strongest: `or`, `and`, equality, order, addition,
multiplication, negation, union. The binary ones associate to the left. Their operands are paths.

## Main definitions

* `WebCrawl.XPath.expression` — reads an expression.
* `WebCrawl.XPath.parse` — the expression that a text spells, or the fault and the byte at which it
  was found.
-/

set_option autoImplicit false

namespace WebCrawl.XPath

open Reader

/-- Readers of expressions. -/
abbrev Parser := Reader Located Fault

/-! ## Tokens -/

/-- The next token. -/
def peek : Parser (Option Token) := do
  return ((← rest).head?).map (·.token)

/-- The token after the next. -/
def peekSecond : Parser (Option Token) := do
  return ((← rest)[1]?).map (·.token)

/-- Reads a token if it is the next, and says whether it is. -/
def accept (token : Token) : Parser Bool := do
  if (← peek) = some token then
    skip 1
    return true
  return false

/-- Reads a token that has to be next. -/
def expect (token : Token) (fault : Fault) : Parser Unit := do
  unless ← accept token do
    fail fault

/-! ## Operators -/

/-- How an operator puts two operands together. -/
abbrev Combination := Expr → Expr → Expr

/-- Reads an operator and the operand after it, if an operator of the kind is next. -/
def furtherOperand (operand : Parser Expr) (operator : Token → Option Combination) :
    Parser (Option (Combination × Expr)) := do
  match (← peek).bind operator with
  | none => return none
  | some combine =>
    skip 1
    return some (combine, ← operand)

/-- Reads operands with operators of one kind between them, put together from the left. -/
def chain (operand : Parser Expr) (operator : Token → Option Combination) : Parser Expr := do
  let first ← operand
  let more ← many (furtherOperand operand operator)
  return more.foldl (fun left (combine, right) => combine left right) first

/-- The disjunction. -/
def disjunction : Token → Option Combination
  | .or => some .or
  | _ => none

/-- The conjunction. -/
def conjunction : Token → Option Combination
  | .and => some .and
  | _ => none

/-- The comparisons for equality. -/
def equality : Token → Option Combination
  | .equal => some (.compare .equal)
  | .unequal => some (.compare .unequal)
  | _ => none

/-- The comparisons for order. -/
def order : Token → Option Combination
  | .less => some (.compare .less)
  | .lessEqual => some (.compare .lessEqual)
  | .greater => some (.compare .greater)
  | .greaterEqual => some (.compare .greaterEqual)
  | _ => none

/-- Addition and subtraction. -/
def additive : Token → Option Combination
  | .plus => some (.arithmetic .add)
  | .minus => some (.arithmetic .sub)
  | _ => none

/-- Multiplication and division. -/
def multiplicative : Token → Option Combination
  | .multiply => some (.arithmetic .mul)
  | .div => some (.arithmetic .div)
  | .mod => some (.arithmetic .mod)
  | _ => none

/-- The union of node sets. -/
def union : Token → Option Combination
  | .pipe => some .union
  | _ => none

/-! ## Paths -/

section Paths

variable (inner : Parser Expr)

/-- Reads a predicate with its brackets, if one follows. -/
def predicate : Parser (Option Expr) := do
  if ← accept .openBracket then
    let condition ← inner
    expect .closeBracket .expectedCloseBracket
    return some condition
  return none

/-- The names of kinds of nodes, which are no functions. -/
def nodeTypeNamed? (name : Text) : Option NodeTest :=
  if name = "node".toList then some .node
  else if name = "text".toList then some .text
  else if name = "comment".toList then some .comment
  else none

/-- Reads the axis of a step; without one, the step goes to the children. -/
def stepAxis : Parser Axis := do
  if ← accept .at then
    return .attributes
  match ← peek, ← peekSecond with
  | some (.name name), some .doubleColon =>
    let axis ← require .unknownAxis (Axis.named? name)
    skip 2
    return axis
  | _, _ => return .child

/-- Reads the test of a step. -/
def nodeTest : Parser NodeTest := do
  match ← peek with
  | some .star =>
    skip 1
    return .anyName
  | some (.name name) =>
    skip 1
    match nodeTypeNamed? name, ← peek with
    | some test, some .openParen =>
      skip 1
      expect .closeParen .expectedTypeEnd
      return test
    | _, _ => return .name name
  | _ => fail .expectedNodeTest

/-- Reads a step. -/
def step : Parser Step := do
  if ← accept .dot then
    return .here
  if ← accept .doubleDot then
    return .up
  let axis ← stepAxis
  let test ← nodeTest
  return .mk axis test (← many (predicate inner))

/-- Reads a slash or two and the step after them, if they follow. -/
def furtherSteps : Parser (Option (List Step)) := do
  if ← accept .slash then
    return some [← step inner]
  if ← accept .doubleSlash then
    return some [.throughout, ← step inner]
  return none

/-- Whether a step can begin with the token. -/
def startsStep : Token → Bool
  | .dot | .doubleDot | .at | .star | .name _ => true
  | _ => false

/-- Reads the steps of a path after what it begins with. -/
def stepsAfter (begun : List Step) : Parser (List Step) := do
  let first ← step inner
  let more ← many (furtherSteps inner)
  return begun ++ first :: more.flatten

/-- Reads a location path. A slash alone is the root. -/
def locationPath : Parser Expr := do
  if ← accept .slash then
    if (← peek).any startsStep then
      return .path true (← stepsAfter inner [])
    return .path true []
  if ← accept .doubleSlash then
    return .path true (← stepsAfter inner [.throughout])
  return .path false (← stepsAfter inner [])

/-- Reads a comma and the argument after it, if they follow. -/
def furtherArgument : Parser (Option Expr) := do
  if ← accept .comma then
    return some (← inner)
  return none

/-- Reads the arguments of a function with their parentheses. -/
def arguments : Parser (List Expr) := do
  skip 1
  if ← accept .closeParen then
    return []
  let first ← inner
  let more ← many (furtherArgument inner)
  expect .closeParen .expectedArgumentsEnd
  return first :: more

/-- Reads a function and its arguments. -/
def functionCall (name : Text) : Parser Expr := do
  let function ← require .unknownFunction (Function.named? name)
  skip 1
  let arguments ← arguments inner
  unless function.takes arguments.length do
    fail (.wrongArgumentCount name)
  return .call function arguments

/-- Reads an operand that is no location path. -/
def primary : Parser Expr := do
  match ← peek with
  | some .openParen =>
    skip 1
    let e ← inner
    expect .closeParen .expectedCloseParen
    return e
  | some (.literal text) =>
    skip 1
    return .literal text
  | some (.number value) =>
    skip 1
    return .number value
  | some (.name name) => functionCall inner name
  | _ => fail .expectedExpression

/-- Whether the two tokens begin an operand that is no location path. -/
def startsPrimary : Option Token → Option Token → Bool
  | some .openParen, _ | some (.literal _), _ | some (.number _), _ => true
  | some (.name name), some .openParen => (nodeTypeNamed? name).isNone
  | _, _ => false

/-- Reads an operand of the operators: a location path, or another operand with the predicates and
steps that follow it. -/
def path : Parser Expr := do
  if startsPrimary (← peek) (← peekSecond) then
    let e ← primary inner
    let predicates ← many (predicate inner)
    let steps ← many (furtherSteps inner)
    if predicates.isEmpty && steps.isEmpty then
      return e
    return .filter e predicates steps.flatten
  locationPath inner

/-- Reads a minus sign if it is next. -/
def minusSign : Parser (Option Unit) := do
  return if ← accept .minus then some () else none

/-- Reads a union with any number of minus signs before it. -/
def negation : Parser Expr := do
  let signs ← many minusSign
  let operand ← chain (path inner) union
  return signs.foldr (fun _ e => .negate e) operand

/-- Reads an expression in which `inner` reads what stands in parentheses and brackets. -/
def expressionWith : Parser Expr :=
  chain (chain (chain (chain (chain (chain (negation inner) multiplicative) additive) order)
    equality) conjunction) disjunction

end Paths

/-- Reads an expression whose parentheses and brackets are nested less than `depth` deep. -/
def expression : Nat → Parser Expr
  | 0 => fail .expectedExpression
  | depth + 1 => expressionWith (expression depth)

/-- The expression that the tokens spell, or the fault and the tokens left when it was found. Every
nesting takes up a token. -/
def parseTokens (tokens : List Located) : Except (Fault × List Located) Expr :=
  if tokens = [] then .error (.emptyExpression, [])
  else match expression (tokens.length + 1) tokens with
    | .error e => .error e
    | .ok (e, []) => .ok e
    | .ok (_, r) => .error (.trailingInput, r)

/-- The expression that a text spells, or the fault and the byte of the text at which it was
found. -/
def parse (s : Text) : Except (Fault × Nat) Expr :=
  match tokenize s with
  | .error e => .error e
  | .ok tokens =>
    match parseTokens tokens with
    | .ok e => .ok e
    | .error (fault, r) => .error (fault, (r.head?.map (·.offset)).getD (Text.byteSize s))

end WebCrawl.XPath
