import WebCrawl.Double.Decimal
import WebCrawl.Text.Blank

/-!
# Tokens of XPath expressions

An expression is a sequence of tokens with blanks between them. Whether a star multiplies and
whether a name is an operator depends on the token before it: after a token that ends an operand
only an operator can follow.

## Main definitions

* `WebCrawl.XPath.Token` — the tokens.
* `WebCrawl.XPath.Located` — a token with the byte at which it starts.
* `WebCrawl.XPath.tokenize` — the tokens of a text, or the fault and the byte at which it is.
-/

set_option autoImplicit false

namespace WebCrawl.XPath

open Text

/-! ## Tokens and faults -/

/-- A token of an expression. -/
inductive Token where
  | slash
  | doubleSlash
  | openParen
  | closeParen
  | openBracket
  | closeBracket
  | dot
  | doubleDot
  | at
  | comma
  | pipe
  | doubleColon
  | star
  | plus
  | minus
  | equal
  | unequal
  | less
  | lessEqual
  | greater
  | greaterEqual
  | and
  | or
  | mod
  | div
  | multiply
  /-- A name, which may be two names joined by a colon, or a name, a colon and a star. -/
  | name (text : Text)
  | literal (text : Text)
  | number (value : Double)
deriving DecidableEq, Repr

/-- Why a text is no expression. -/
inductive Fault where
  | unterminatedLiteral
  | unexpectedCharacter
  | expectedOperator
  | emptyExpression
  | trailingInput
  | expectedExpression
  | expectedCloseParen
  | unknownFunction
  | expectedArgumentsEnd
  /-- The function takes another number of arguments. -/
  | wrongArgumentCount (function : Text)
  | unknownAxis
  | expectedTypeEnd
  | expectedNodeTest
  | expectedCloseBracket
deriving DecidableEq, Repr

/-- The wording of a fault. -/
def Fault.reason : Fault → Text
  | .unterminatedLiteral => "unterminated string literal"
  | .unexpectedCharacter => "unexpected character"
  | .expectedOperator => "expected an operator"
  | .emptyExpression => "empty expression"
  | .trailingInput => "unexpected trailing input"
  | .expectedExpression => "expected an expression"
  | .expectedCloseParen => "expected ')'"
  | .unknownFunction => "unknown function"
  | .expectedArgumentsEnd => "expected ')' after arguments"
  | .wrongArgumentCount function => "wrong number of arguments to " ++ function ++ "()"
  | .unknownAxis => "unknown axis"
  | .expectedTypeEnd => "expected ')' after node type"
  | .expectedNodeTest => "expected a node test"
  | .expectedCloseBracket => "expected ']'"

/-- Whether only an operator can follow, where it can also be a name or a star. -/
def Token.endsOperand : Token → Bool
  | .closeParen | .closeBracket | .dot | .doubleDot | .star => true
  | .name _ | .literal _ | .number _ => true
  | _ => false

/-- A token with the byte of the text at which it starts. -/
structure Located where
  /-- The token. -/
  token : Token
  /-- The byte at which it starts. -/
  offset : Nat
deriving DecidableEq, Repr

/-! ## Names and numerals -/

/-- The characters that names begin with: letters, the underscore and all beyond ASCII. -/
def isNameStart (c : Char) : Bool := c.isAlpha || c == '_' || 128 ≤ c.toNat

/-- The characters of names. -/
def isNameChar (c : Char) : Bool := isNameStart c || c.isDigit || c == '-' || c == '.'

/-- How many characters after its first one a name takes. A colon joins a second name or a star to
it; a double colon does not belong to it. -/
def nameRest (s : Text) : Nat :=
  let first := (s.takeWhile isNameChar).length
  match s.drop first with
  | ':' :: '*' :: _ => first + 2
  | ':' :: c :: r => if isNameStart c then first + 2 + (r.takeWhile isNameChar).length else first
  | _ => first

/-- How many characters after its first one, `c`, a numeral takes: digits with at most one point. -/
def numeralRest (c : Char) (s : Text) : Nat :=
  let whole := (s.takeWhile Char.isDigit).length
  match c, s.drop whole with
  | '.', _ => whole
  | _, '.' :: r => whole + 1 + (r.takeWhile Char.isDigit).length
  | _, _ => whole

/-- The operator that a name stands for after an operand. -/
def operatorNamed? (name : Text) : Option Token :=
  if name = "and".toList then some .and
  else if name = "or".toList then some .or
  else if name = "mod".toList then some .mod
  else if name = "div".toList then some .div
  else none

/-! ## Reading tokens -/

/-- The token that begins with the character `c`, followed by `s`, and how many characters of `s`
belong to it. -/
def tokenAt (afterOperand : Bool) (c : Char) (s : Text) : Except Fault (Token × Nat) :=
  match c, s with
  | '/', '/' :: _ => .ok (.doubleSlash, 1)
  | '/', _ => .ok (.slash, 0)
  | '(', _ => .ok (.openParen, 0)
  | ')', _ => .ok (.closeParen, 0)
  | '[', _ => .ok (.openBracket, 0)
  | ']', _ => .ok (.closeBracket, 0)
  | '@', _ => .ok (.at, 0)
  | ',', _ => .ok (.comma, 0)
  | '|', _ => .ok (.pipe, 0)
  | '+', _ => .ok (.plus, 0)
  | '-', _ => .ok (.minus, 0)
  | '=', _ => .ok (.equal, 0)
  | '!', '=' :: _ => .ok (.unequal, 1)
  | '<', '=' :: _ => .ok (.lessEqual, 1)
  | '<', _ => .ok (.less, 0)
  | '>', '=' :: _ => .ok (.greaterEqual, 1)
  | '>', _ => .ok (.greater, 0)
  | ':', ':' :: _ => .ok (.doubleColon, 1)
  | '*', _ => .ok (if afterOperand then .multiply else .star, 0)
  | '.', '.' :: _ => .ok (.doubleDot, 1)
  | c, s =>
    if c = '"' ∨ c = '\'' then
      let text := s.takeWhile (· != c)
      if text.length = s.length then .error .unterminatedLiteral
      else .ok (.literal text, text.length + 1)
    else if c.isDigit ∨ c = '.' ∧ s.head?.any Char.isDigit then
      let size := numeralRest c s
      .ok (.number (Double.ofNumeral false (c :: s.take size)), size)
    else if c = '.' then .ok (.dot, 0)
    else if isNameStart c then
      let size := nameRest s
      let name := c :: s.take size
      if afterOperand then
        match operatorNamed? name with
        | some token => .ok (token, size)
        | none => .error .expectedOperator
      else .ok (.name name, size)
    else .error .unexpectedCharacter

/-- The tokens of the text `s`, which starts at the byte `offset`. -/
def tokensFrom (offset : Nat) (afterOperand : Bool) (s : Text) :
    Except (Fault × Nat) (List Located) :=
  match s with
  | [] => .ok []
  | c :: cs =>
    if isBlank c then tokensFrom (offset + c.utf8Size) afterOperand cs
    else match tokenAt afterOperand c cs with
      | .error fault => .error (fault, offset)
      | .ok (token, size) => do
        let later ← tokensFrom (offset + c.utf8Size + byteSize (cs.take size)) token.endsOperand
          (cs.drop size)
        return ⟨token, offset⟩ :: later
termination_by s.length
decreasing_by all_goals (simp only [List.length_cons, List.length_drop]; omega)

/-- The tokens of a text, or the fault and the byte at which it was found. -/
def tokenize (s : Text) : Except (Fault × Nat) (List Located) := tokensFrom 0 false s

end WebCrawl.XPath
