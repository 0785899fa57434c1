import WebCrawl.Text.Utf8

/-!
# Percent encoding

A character that may not stand in some part of a URL is written as its bytes in UTF-8, each as a
percent sign with two hexadecimal digits.

## Main definitions

* `WebCrawl.Url.percentEncode` — a text with the characters outside a set encoded.
* `WebCrawl.Url.percentDecode` — the bytes that an encoded text stands for.
* `WebCrawl.Url.formEncode` — pairs of names and values as the query of a form.
-/

set_option autoImplicit false

namespace WebCrawl.Url

open Text

/-- The upper-case hexadecimal digit of a number below sixteen. -/
def upperDigit (n : Nat) : Char := (Nat.digitChar n).toUpper

/-- A byte as a percent sign and two digits. -/
def encodeByte (b : UInt8) : Text := ['%', upperDigit (b.toNat / 16), upperDigit (b.toNat % 16)]

/-- The text with every character encoded that is not ASCII or not in the set `kept`. -/
def percentEncode (kept : Char → Bool) (s : Text) : Text :=
  s.flatMap fun c =>
    if c.toNat < 128 && kept c then [c] else (String.utf8EncodeChar c).flatMap encodeByte

/-- The bytes that an encoded text stands for. A percent sign without two digits stands for
itself. -/
def percentDecode (s : Text) : List UInt8 :=
  match s with
  | [] => []
  | '%' :: a :: b :: r =>
    match hexValue? a, hexValue? b with
    | some x, some y => UInt8.ofNat (x * 16 + y) :: percentDecode r
    | _, _ => String.utf8EncodeChar '%' ++ percentDecode (a :: b :: r)
  | c :: r => String.utf8EncodeChar c ++ percentDecode r

/-! ## The parts of a URL -/

/-- Whether the character is neither a control character nor outside ASCII. -/
def isPrintable (c : Char) : Bool := 32 ≤ c.toNat && c.toNat < 127

/-- What stays as it is in an opaque path or host. -/
def keptInOpaque (c : Char) : Bool := isPrintable c

/-- What stays as it is in a fragment. -/
def keptInFragment (c : Char) : Bool :=
  isPrintable c && !([' ', '"', '<', '>', '\x60'].contains c)

/-- What stays as it is in a query. -/
def keptInQuery (c : Char) : Bool := isPrintable c && !([' ', '"', '#', '<', '>'].contains c)

/-- What stays as it is in the query of a URL with a special scheme. -/
def keptInSpecialQuery (c : Char) : Bool := keptInQuery c && c != '\''

/-- What stays as it is in a path. -/
def keptInPath (c : Char) : Bool := keptInFragment c && !(['#', '?', '\x7b', '\x7d'].contains c)

/-- What stays as it is in a user name or a password. -/
def keptInUser (c : Char) : Bool :=
  keptInPath c && !(['/', ':', ';', '=', '@', '[', '\\', ']', '^', '|'].contains c)

/-! ## Forms -/

/-- A character in the query of a form. -/
def formChar (c : Char) : Text :=
  if c.isAlphanum || ['*', '-', '.', '_'].contains c then [c]
  else if c = ' ' then ['+']
  else (String.utf8EncodeChar c).flatMap encodeByte

/-- A name or a value in the query of a form. -/
def formText (s : Text) : Text := s.flatMap formChar

/-- Pairs of names and values as the query of a form. -/
def formEncode (pairs : List (Text × Text)) : Text :=
  join ['&'] (pairs.map fun (name, value) => formText name ++ '=' :: formText value)

end WebCrawl.Url
