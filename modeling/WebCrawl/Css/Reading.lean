import WebCrawl.Css.Lexeme
import WebCrawl.Css.Selector
import WebCrawl.Reader

/-!
# Reading selectors

A text, without the blanks around it, is read lexeme by lexeme into a selector group. Blanks may
stand around commas and combinators, inside brackets, and before and inside parentheses.

## Main definitions

* `WebCrawl.Css.group` — reads a whole selector group.
* `WebCrawl.Css.parse` — the group that a text spells, or the fault and the byte at which it is.
-/

set_option autoImplicit false

namespace WebCrawl.Css

open Reader

/-- Readers of selectors. -/
abbrev Parser := Reader Char Fault

/-! ## Lexemes -/

/-- Reads a lexeme if it occurs. -/
def token? (lexeme : Lexeme) : Parser (Option Text) := fun s =>
  if lexeme s = 0 then .ok (none, s) else .ok (some (s.take (lexeme s)), s.drop (lexeme s))

/-- Reads a lexeme that has to occur. -/
def token (lexeme : Lexeme) (fault : Fault) : Parser Text := do
  require fault (← token? lexeme)

/-- Reads a lexeme and says whether it occurred. -/
def accept (lexeme : Lexeme) : Parser Bool := do
  return (← token? lexeme).isSome

/-- Passes over blanks. -/
def skipSpaces : Parser Unit := do
  discard (token? Lexeme.spaces)

/-! ## Arguments -/

/-- Reads the value of a numeral. -/
def integerOf (numeral : Text) : Parser Int := require .integerOutOfRange (integerValue? numeral)

/-- The factor of a progression: a sign alone or nothing stands for one. -/
def coefficientOf (numeral : Text) : Parser Int :=
  if numeral = [] ∨ numeral = ['+'] then pure 1
  else if numeral = ['-'] then pure (-1)
  else integerOf numeral

/-- The offset of a progression, zero if none is written. -/
def offsetOf : Option (Bool × Text) → Parser Int
  | none => pure 0
  | some (negative, digits) => do
    let b ← integerOf digits
    return if negative then -b else b

/-- Reads what stands between the parentheses of an index. -/
def nthArgument : Parser Nth := do
  if ← accept (Lexeme.keyword "even") then
    return .even
  if ← accept (Lexeme.keyword "odd") then
    return .odd
  match progression? (← rest) with
  | some parts =>
    let a ← coefficientOf parts.coefficient
    let b ← offsetOf parts.offset
    skip parts.size
    return .progression a b
  | none =>
    let numeral ← token Lexeme.integer .invalidNthArgument
    return .only (← integerOf numeral)

/-- Reads an index with its parentheses. -/
def nth : Parser Nth := do
  discard (token Lexeme.openParen .missingNthArgument)
  skipSpaces
  let argument ← nthArgument
  skipSpaces
  discard (token Lexeme.closeParen .unterminatedNthArgument)
  return argument

/-- The test that an operator and a value make. -/
def attributeTest (operator : Text) (value : Text) : AttributeTest :=
  match operator with
  | '=' :: _ => .equals value
  | '~' :: _ => .includes value
  | '|' :: _ => .dashMatch value
  | '^' :: _ => .beginsWith value
  | '$' :: _ => .endsWith value
  | _ => .contains value

/-- Reads the value of an attribute, quoted or bare. -/
def attributeValue : Parser Text := do
  match ← token? Lexeme.quoted with
  | some lexeme => return unquote lexeme
  | none => token Lexeme.bare .missingAttributeValue

/-- Reads an attribute with its brackets. -/
def bracketed : Parser Qualifier := do
  discard (token? Lexeme.openBracket)
  skipSpaces
  let name ← token Lexeme.attributeName .missingAttributeName
  skipSpaces
  if ← accept Lexeme.closeBracket then
    return .attr name.lower .present
  let operator ← token Lexeme.operator .missingAttributeOperator
  skipSpaces
  let value ← attributeValue
  skipSpaces
  discard (token Lexeme.closeBracket .unterminatedAttribute)
  return .attr name.lower (attributeTest operator value)

/-! ## Compounds -/

/-- Reads a compound whose qualifiers are read by `qualifier`. At least one part has to be there. -/
def compoundWith (qualifier : Parser (Option Qualifier)) : Parser Compound := do
  skipSpaces
  let type ← token? Lexeme.element
  let qualifiers ← many qualifier
  if type.isNone && qualifiers.isEmpty then
    fail .expectedCompound
  return ⟨type.map Text.lower, qualifiers⟩

/-- Reads a qualifier that may stand in a negation. -/
def negatable (qualifier : Parser (Option Qualifier)) : Parser (Option Qualifier) := do
  let read ← qualifier
  if read.any Qualifier.isTypeRelative then
    fail .typeRelativeNegation
  return read

/-- Reads a negation after its name. -/
def negationWith (qualifier : Parser (Option Qualifier)) : Parser Qualifier := do
  skipSpaces
  discard (token Lexeme.openParen .missingNegationArgument)
  skipSpaces
  let inner ← compoundWith (negatable qualifier)
  skipSpaces
  discard (token Lexeme.closeParen .unterminatedNegationArgument)
  return .negation inner.type inner.qualifiers

/-- What a pseudo-class asks for, read after its name. -/
def pseudoClassWith (negation : Parser Qualifier) (name : Text) : Parser Qualifier :=
  if name = ":first-child".toList then return .place .all .first
  else if name = ":first-of-type".toList then return .place .sameType .first
  else if name = ":last-child".toList then return .place .all .last
  else if name = ":last-of-type".toList then return .place .sameType .last
  else if name = ":only-child".toList then return .place .all .sole
  else if name = ":only-of-type".toList then return .place .sameType .sole
  else if name = ":nth-child".toList then return .place .all (.nth (← nth))
  else if name = ":nth-of-type".toList then return .place .sameType (.nth (← nth))
  else if name = ":not".toList then negation
  else fail (.unsupportedPseudoClass name)

/-- Reads a qualifier if one follows. -/
def qualifierWith (negation : Parser Qualifier) : Parser (Option Qualifier) := do
  if let some name ← token? Lexeme.className then
    return some (.className (name.drop 1))
  if let some name ← token? Lexeme.identifier then
    return some (.identifier (name.drop 1))
  if let some name ← token? Lexeme.pseudoClass then
    return some (← pseudoClassWith negation name.lower)
  if Lexeme.openBracket (← rest) ≠ 0 then
    return some (← bracketed)
  return none

/-- Reads a qualifier whose negations are nested at most `depth` deep. -/
def qualifier : Nat → Parser (Option Qualifier)
  | 0 => qualifierWith (fail .missingNegationArgument)
  | depth + 1 => qualifierWith (negationWith (qualifier depth))

/-- Reads a compound. Every negation takes up characters, so they are nested no deeper than the
text is long. -/
def compound : Parser Compound := do
  compoundWith (qualifier (← rest).length)

/-! ## Groups -/

/-- Reads a combinator if one follows. -/
def combinator : Parser (Option Combinator) := do
  if ← accept Lexeme.plus then
    return some .adjacent
  if ← accept Lexeme.tilde then
    return some .sibling
  if ← accept Lexeme.greater then
    return some .child
  if ← accept Lexeme.spaces then
    return some .descendant
  return none

/-- Reads a combinator and the compound it leads to, unless the alternative ends here. -/
def furtherCompound : Parser (Option (Combinator × Compound)) := do
  let s ← rest
  if s.isEmpty || Lexeme.comma s ≠ 0 then
    return none
  match ← combinator with
  | none => return none
  | some c => return some (c, ← compound)

/-- Reads one alternative. -/
def complex : Parser Complex := do
  let first := (← combinator).getD .descendant
  let head ← compound
  return (first, head) :: (← many furtherCompound)

/-- Reads a comma and the alternative after it. -/
def furtherComplex : Parser (Option Complex) := do
  if ← accept Lexeme.comma then
    skipSpaces
    return some (← complex)
  return none

/-- Reads a whole selector group. -/
def group : Parser Group := do
  let first ← complex
  let more ← many furtherComplex
  if (← rest) ≠ [] then
    fail .unexpectedInput
  return first :: more

/-- The group that a text spells, or the fault and the byte of the text at which it was found. -/
def parse (selector : Text) : Except (Fault × Nat) Group :=
  let body := Text.trim selector
  let lead := Text.byteSize selector - Text.byteSize (Text.trimStart selector)
  if body = [] then .error (.emptySelector, lead)
  else match group body with
    | .ok (g, _) => .ok g
    | .error (fault, r) => .error (fault, lead + (Text.byteSize body - Text.byteSize r))

end WebCrawl.Css
