/-!
# Text

Text is handled throughout as its list of characters: reading a prefix off a list leaves a list,
and every law about reading is then a law about lists. Strings appear only where values enter or
leave the library.

## Main definitions

* `WebCrawl.Text` — text as a list of characters.
* `WebCrawl.Text.byteSize` — how many bytes the text occupies in UTF-8.
* `WebCrawl.Text.lower`, `WebCrawl.Text.upper`, `WebCrawl.Text.sameLetters` — ASCII letter case.
* `WebCrawl.Text.ofNat`, `WebCrawl.Text.ofInt` — decimal numerals.
* `WebCrawl.Text.find?`, `WebCrawl.Text.contains` — the first occurrence of one text in another.
-/

set_option autoImplicit false

namespace WebCrawl

/-- Text as its list of characters. -/
abbrev Text := List Char

/-- A string literal may stand where text is expected. -/
instance : Coe String Text := ⟨String.toList⟩

namespace Text

/-! ## Size -/

/-- The number of bytes the text occupies in UTF-8. -/
def byteSize : Text → Nat
  | [] => 0
  | c :: cs => c.utf8Size + byteSize cs

@[simp] theorem byteSize_nil : byteSize [] = 0 := rfl

@[simp] theorem byteSize_cons (c : Char) (cs : Text) :
    byteSize (c :: cs) = c.utf8Size + byteSize cs := rfl

@[simp] theorem byteSize_append (s t : Text) : byteSize (s ++ t) = byteSize s + byteSize t := by
  induction s with
  | nil => simp
  | cons c cs ih => simp [ih, Nat.add_assoc]

/-! ## Letter case -/

/-- ASCII letters in lower case; every other character unchanged. -/
def lower (s : Text) : Text := s.map Char.toLower

/-- ASCII letters in upper case; every other character unchanged. -/
def upper (s : Text) : Text := s.map Char.toUpper

/-- Equality up to the case of ASCII letters. -/
def sameLetters (s t : Text) : Bool := s.lower == t.lower

theorem sameLetters_comm (s t : Text) : sameLetters s t = sameLetters t s := by
  unfold sameLetters
  exact Bool.eq_iff_iff.2 ⟨fun h => by simpa using (by simpa using h : s.lower = t.lower).symm,
    fun h => by simpa using (by simpa using h : t.lower = s.lower).symm⟩

/-! ## Numerals -/

/-- The decimal numeral of a natural number. -/
def ofNat (n : Nat) : Text := Nat.toDigits 10 n

/-- The decimal numeral of an integer, with a minus sign if it is negative. -/
def ofInt : Int → Text
  | .ofNat n => ofNat n
  | .negSucc n => '-' :: ofNat (n + 1)

/-- The value of a decimal digit. -/
def digitValue (c : Char) : Nat := c.toNat - '0'.toNat

/-- The number that a run of decimal digits stands for. -/
def natOfDigits (s : Text) : Nat := s.foldl (fun n c => 10 * n + digitValue c) 0

/-- The value of a hexadecimal digit. -/
def hexValue? (c : Char) : Option Nat :=
  if c.isDigit then some (c.toNat - '0'.toNat)
  else if 'a' ≤ c ∧ c ≤ 'f' then some (c.toNat - 'a'.toNat + 10)
  else if 'A' ≤ c ∧ c ≤ 'F' then some (c.toNat - 'A'.toNat + 10)
  else none

/-- Whether the character is a hexadecimal digit. -/
def isHexDigit (c : Char) : Bool := (hexValue? c).isSome

/-! ## Searching -/

/-- Whether `s` begins with `t`. -/
def startsWith (s t : Text) : Bool := t.isPrefixOf s

/-- Whether `s` ends with `t`. -/
def endsWith (s t : Text) : Bool := t.reverse.isPrefixOf s.reverse

/-- The text before and after the first occurrence of `t` in `s`. -/
def find? (s t : Text) : Option (Text × Text) :=
  if startsWith s t then some ([], s.drop t.length)
  else match s with
    | [] => none
    | c :: cs => (find? cs t).map fun (before, after) => (c :: before, after)

/-- Whether `t` occurs in `s`. -/
def contains (s t : Text) : Bool := (find? s t).isSome

/-- The pieces of `s` between the occurrences of the character `c`. -/
def splitAt (c : Char) (s : Text) : List Text := s.splitOn c

/-- The pieces joined with `separator` between them. -/
def join (separator : Text) (pieces : List Text) : Text := separator.intercalate pieces

end Text

end WebCrawl
