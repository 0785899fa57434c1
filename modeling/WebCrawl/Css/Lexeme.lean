import WebCrawl.Text.Blank
import WebCrawl.Text.Word

/-!
# The lexemes of selectors

A lexeme is given by how many characters it takes at the start of a text; where it takes none it
does not occur there. Every lexeme takes as much as it can.

## Main definitions

* `WebCrawl.Css.Lexeme` — a lexeme as a length function, with one definition for each lexeme.
* `WebCrawl.Css.progression?` — the lexeme of `an+b` together with its parts.
* `WebCrawl.Css.unquote` — the text that a quoted value stands for.
-/

set_option autoImplicit false

namespace WebCrawl.Css

open Text

/-- How many characters of a text a lexeme takes; zero where it does not occur. -/
abbrev Lexeme := Text → Nat

namespace Lexeme

/-! ## Building blocks -/

/-- The longest run of characters of a class. -/
def run (p : Char → Bool) : Lexeme := fun s => (s.takeWhile p).length

/-- The character `c`, with any blanks before it. -/
def spaced (c : Char) : Lexeme := fun s =>
  if (s.dropWhile isBlank).head? = some c then run isBlank s + 1 else 0

/-- The character `c` with a run of at least one character of a class after it. -/
def marked (c : Char) (p : Char → Bool) : Lexeme
  | [] => 0
  | d :: s => if d = c ∧ run p s ≠ 0 then run p s + 1 else 0

/-- A character of one class with a run of characters of another class after it. -/
def headed (first later : Char → Bool) : Lexeme
  | [] => 0
  | d :: s => if first d then run later s + 1 else 0

/-- A word of lower-case letters, written in letters of either case. -/
def keyword (word : Text) : Lexeme := fun s =>
  if lower (s.take word.length) = word then word.length else 0

/-- The characters of names: word characters and hyphens. -/
def isNameChar (c : Char) : Bool := c == '-' || isWord c

/-- The characters of attribute names: those of names, colons and dots. -/
def isAttributeChar (c : Char) : Bool := isNameChar c || c == ':' || c == '.'

/-! ## The lexemes -/

/-- White space. -/
def spaces : Lexeme := run isBlank

/-- The comma between alternatives. -/
def comma : Lexeme := spaced ','

/-- A star, or the name of an element type. -/
def element : Lexeme
  | [] => 0
  | '*' :: _ => 1
  | s => headed (fun c => c == '_' || c.isAlpha) isNameChar s

/-- A class with its dot. -/
def className : Lexeme := marked '.' isNameChar

/-- An identifier with its number sign. -/
def identifier : Lexeme := marked '#' isNameChar

/-- A pseudo-class with its colon. -/
def pseudoClass : Lexeme := marked ':' fun c => c == '-' || c.isAlpha

/-- An opening square bracket. -/
def openBracket : Lexeme := fun s => if s.head? = some '[' then 1 else 0

/-- A closing square bracket. -/
def closeBracket : Lexeme := fun s => if s.head? = some ']' then 1 else 0

/-- The name of an attribute. -/
def attributeName : Lexeme :=
  headed (fun c => c == '-' || c == '_' || c == ':' || c.isAlpha) isAttributeChar

/-- The length of the rest of a quoted value, closing quote included. A backslash takes the next
character with it, which may not be a line feed. -/
def quotedRest (quote : Char) : Text → Option Nat
  | [] => none
  | '\\' :: [] => none
  | '\\' :: c :: s => if c = '\n' then none else (quotedRest quote s).map (· + 2)
  | c :: s => if c = quote then some 1 else (quotedRest quote s).map (· + 1)

/-- A value between quotes of one kind. -/
def quoted : Lexeme
  | [] => 0
  | c :: s => if c = '"' ∨ c = '\'' then (quotedRest c s).elim 0 (· + 1) else 0

/-- A value without quotes. -/
def bare : Lexeme := run isNameChar

/-- The operator between the name and the value of an attribute. -/
def operator : Lexeme
  | '=' :: _ => 1
  | c :: '=' :: _ => if c ∈ ['~', '|', '^', '$', '*'] then 2 else 0
  | _ => 0

/-- An opening parenthesis. -/
def openParen : Lexeme := spaced '('

/-- A closing parenthesis. -/
def closeParen : Lexeme := spaced ')'

/-- An optional sign. -/
def sign : Lexeme
  | c :: _ => if c = '-' ∨ c = '+' then 1 else 0
  | [] => 0

/-- A signed integer. -/
def integer : Lexeme := fun s =>
  let digits := run isDecimal (s.drop (sign s))
  if digits = 0 then 0 else sign s + digits

/-- The sign that makes the next sibling. -/
def plus : Lexeme := spaced '+'

/-- The sign that makes any later sibling. -/
def tilde : Lexeme := spaced '~'

/-- The sign that makes a child. -/
def greater : Lexeme := spaced '>'

end Lexeme

/-! ## Progressions -/

/-- The parts of `an+b`: the numeral before the letter, and the sign and numeral after it. -/
structure ProgressionLexeme where
  /-- The numeral before the letter, with its sign; it may be a sign alone, or empty. -/
  coefficient : Text
  /-- Whether the second numeral is subtracted, and the numeral. -/
  offset : Option (Bool × Text)
  /-- How many characters the whole takes. -/
  size : Nat

/-- The sign and numeral that may follow the letter of a progression, with their size. -/
def progressionOffset? (s : Text) : Option (Bool × Text × Nat) :=
  let before := Lexeme.run isBlank s
  match s.drop before with
  | [] => none
  | c :: r =>
    if c = '-' ∨ c = '+' then
      let between := Lexeme.run isBlank r
      let digits := (r.drop between).takeWhile isDecimal
      if digits.isEmpty then none
      else some (c = '-', digits, before + 1 + between + digits.length)
    else none

/-- The lexeme of `an+b` at the start of a text. The offset belongs to it only if it is complete. -/
def progression? (s : Text) : Option ProgressionLexeme :=
  let size := Lexeme.sign s + Lexeme.run isDecimal (s.drop (Lexeme.sign s))
  match s.drop size with
  | [] => none
  | c :: r =>
    if c = 'n' ∨ c = 'N' then
      match progressionOffset? r with
      | some (negative, digits, n) => some ⟨s.take size, some (negative, digits), size + 1 + n⟩
      | none => some ⟨s.take size, none, size + 1⟩
    else none

/-! ## Values of lexemes -/

/-- The text between the quotes, where a backslash stands for the character after it. -/
def unescape : Text → Text
  | [] => []
  | '\\' :: [] => []
  | '\\' :: c :: s => c :: unescape s
  | c :: s => c :: unescape s

/-- The text that a quoted value stands for. -/
def unquote (lexeme : Text) : Text := unescape (lexeme.drop 1).dropLast

/-- The greatest integer that an argument may hold. Its negative is the least one, so every
argument can be negated. -/
def maxInteger : Nat := Nat.pow 2 63 - 1

/-- The value of a numeral with an optional sign, if its digits are ASCII and it is in range. -/
def integerValue? (numeral : Text) : Option Int :=
  let unsigned := numeral.dropWhile (· == '+')
  let negative := unsigned.head? == some '-'
  let digits := if negative then unsigned.drop 1 else unsigned
  if digits.isEmpty || !digits.all Char.isDigit || maxInteger < natOfDigits digits then none
  else some (if negative then -(natOfDigits digits : Int) else natOfDigits digits)

end WebCrawl.Css
