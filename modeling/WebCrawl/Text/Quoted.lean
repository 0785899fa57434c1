import WebCrawl.Text.Blank

/-!
# Quoted text

A text between double quotes in which every character that could not be told apart, or not be seen,
is written as an escape.

## Main definitions

* `WebCrawl.Text.quoteChar` — a character as it is written between quotes.
* `WebCrawl.Text.quoted` — a text between quotes.
-/

set_option autoImplicit false

namespace WebCrawl.Text

/-- Whether the character is a control character. -/
def isControl (c : Char) : Bool := c.toNat < 32 || (127 ≤ c.toNat && c.toNat ≤ 159)

/-- The hexadecimal numeral of a natural number. -/
def hexNumeral (n : Nat) : Text := Nat.toDigits 16 n

/-- A character as it is written between quotes. -/
def quoteChar (c : Char) : Text :=
  if c = '"' then "\\\""
  else if c = '\\' then "\\\\"
  else if c = '\n' then "\\n"
  else if c = '\r' then "\\r"
  else if c = '\t' then "\\t"
  else if c = '\x00' then "\\0"
  else if isControl c || (isBlank c && c != ' ') then
    "\\u\x7b".toList ++ hexNumeral c.toNat ++ "\x7d".toList
  else [c]

/-- A text between quotes. -/
def quoted (s : Text) : Text := '"' :: s.flatMap quoteChar ++ ['"']

end WebCrawl.Text
