import WebCrawl.Json.Basic
import WebCrawl.Reader
import WebCrawl.Text.Utf8

/-!
# Reading JSON

The grammar is the strict one. A number without fraction and exponent is an integer if it fits into
64 bits; any other is a number of double precision, read as its leading digits times a power of
ten. Values may be nested less than 128 deep.

## Main definitions

* `WebCrawl.Json.numberFrom` — the number at the start of a text.
* `WebCrawl.Json.value` — reads a value.
* `WebCrawl.Json.parse?` — the value that a text spells.
-/

set_option autoImplicit false

namespace WebCrawl.Json

open Reader

/-- Readers of JSON. There is one kind of fault. -/
abbrev Parser := Reader Char Unit

/-! ## Characters -/

/-- The white space of JSON. -/
def isSpace (c : Char) : Bool := c == ' ' || c == '\n' || c == '\t' || c == '\r'

/-- Passes over white space. -/
def skipSpace : Parser Unit := do
  skip ((← rest).takeWhile isSpace).length

/-- Reads a character if it is next, and says whether it is. -/
def accept (c : Char) : Parser Bool := do
  if (← rest).head? = some c then
    skip 1
    return true
  return false

/-- Reads a text that has to be next. -/
def expect (s : Text) : Parser Unit := do
  if Text.startsWith (← rest) s then skip s.length else fail ()

/-! ## Strings -/

/-- The number that four hexadecimal digits stand for. -/
def hex4? (a b c d : Char) : Option Nat := do
  let a ← Text.hexValue? a
  let b ← Text.hexValue? b
  let c ← Text.hexValue? c
  let d ← Text.hexValue? d
  return ((a * 16 + b) * 16 + c) * 16 + d

/-- The character of a short escape. -/
def shortEscape? : Char → Option Char
  | '"' => some '"'
  | '\\' => some '\\'
  | '/' => some '/'
  | 'b' => some '\x08'
  | 'f' => some '\x0c'
  | 'n' => some '\n'
  | 'r' => some '\r'
  | 't' => some '\t'
  | _ => none

/-- The character of a numeric escape after its letter, and how many characters the escape takes
there. Two escapes may stand for one character; half of such a pair is none. -/
def numericEscape? : Text → Option (Char × Nat)
  | a :: b :: c :: d :: s => do
    let n ← hex4? a b c d
    if 0xd800 ≤ n ∧ n ≤ 0xdbff then
      match s with
      | '\\' :: 'u' :: e :: f :: g :: h :: _ =>
        let m ← hex4? e f g h
        if 0xdc00 ≤ m ∧ m ≤ 0xdfff then
          some (Char.ofNat (0x10000 + (n - 0xd800) * 0x400 + (m - 0xdc00)), 10)
        else none
      | _ => none
    else if 0xdc00 ≤ n ∧ n ≤ 0xdfff then none
    else some (Char.ofNat n, 4)
  | _ => none

/-- The content of a string after its opening quote, put after the reverse of `done`, and what
follows its closing quote. -/
def stringFrom (done : Text) (s : Text) : Option (Text × Text) :=
  match s with
  | [] => none
  | '"' :: r => some (done.reverse, r)
  | '\\' :: 'u' :: r =>
    match numericEscape? r with
    | some (c, n) => stringFrom (c :: done) (r.drop n)
    | none => none
  | '\\' :: c :: r =>
    match shortEscape? c with
    | some d => stringFrom (d :: done) r
    | none => none
  | c :: r => if c = '\\' ∨ c.toNat < 32 then none else stringFrom (c :: done) r
termination_by s.length
decreasing_by all_goals (simp only [List.length_cons, List.length_drop]; omega)

/-- Reads the content of a string after its opening quote. -/
def stringContent : Parser Text := do
  match stringFrom [] (← rest) with
  | some (content, r) => fun _ => .ok (content, r)
  | none => fail ()

/-! ## Numbers -/

/-- The digits at the start of a text, as a number of at most 64 bits, and how many digits it did
not take for want of room. -/
def leadingDigits (significand : Nat) : Text → Nat × Nat
  | [] => (significand, 0)
  | c :: s =>
    let n := significand * 10 + Text.digitValue c
    if n < Nat.pow 2 64 then leadingDigits n s else (significand, s.length + 1)

/-- The power of ten nearest to `10 ^ n`. -/
def powerOfTen (n : Nat) : Double := Double.ofDecimal false 1 n

/-- A significand times a power of ten: one multiplication or division, after as many divisions by
the greatest power of ten there is as the exponent asks for. None if it is too large. -/
def scale : Nat → Double → Int → Option Double
  | 0, x, _ => some x
  | steps + 1, x, exponent =>
    if exponent.natAbs ≤ 308 then
      if 0 ≤ exponent then
        let y := x * powerOfTen exponent.natAbs
        if y.isFinite then some y else none
      else some (x / powerOfTen exponent.natAbs)
    else if x.eq 0 then some x
    else if 0 ≤ exponent then none
    else scale steps (x / powerOfTen 308) (exponent + 308)

/-- The number with the given sign, digits before and after the point, and exponent. Digits for
which there is no room count as zeros before the point and do not count after it. -/
def floatOf (negative : Bool) (whole decimals : Text) (exponent : Int) : Option Double := do
  let (significand, dropped) := leadingDigits 0 whole
  let (significand, unread) := leadingDigits significand decimals
  let shift : Int := dropped - ((decimals.length - unread : Nat) : Int)
  if Int.pow 2 31 ≤ exponent then
    if significand = 0 then some (.finite negative 0) else none
  else if exponent ≤ -Int.pow 2 31 then some (.finite negative 0)
  else
    let x ← scale 10 (Double.ofNat significand) (shift + exponent)
    return if negative then -x else x

/-- The exponent at the start of a text, if there is one, and how many characters it takes. None if
it has no digits. -/
def exponentFrom : Text → Option (Int × Nat)
  | c :: s =>
    if c = 'e' ∨ c = 'E' then
      let sign := match s with
        | '+' :: _ | '-' :: _ => 1
        | _ => 0
      let digits := (s.drop sign).takeWhile Char.isDigit
      if digits.isEmpty then none
      else
        let n : Int := Text.natOfDigits digits
        some (if s.head? = some '-' then -n else n, 1 + sign + digits.length)
    else some (0, 0)
  | [] => some (0, 0)

/-- The decimals at the start of a text, if there is a point, and how many characters they take with
it. None if there is a point without digits. -/
def decimalsFrom : Text → Option (Text × Nat)
  | '.' :: s =>
    let digits := s.takeWhile Char.isDigit
    if digits.isEmpty then none else some (digits, digits.length + 1)
  | _ => some ([], 0)

/-- The integer of the given sign, as a number of double precision if it does not fit into 64
bits or is a negative zero. -/
def integerOf (negative : Bool) (whole : Text) : Option Json :=
  let n := Text.natOfDigits whole
  if !negative && n < Nat.pow 2 64 then some (.integer n)
  else if negative && n != 0 && n ≤ Nat.pow 2 63 then some (.integer (-n))
  else (floatOf negative whole [] 0).map .float

/-- The number at the start of a text, and how many characters it takes. -/
def numberFrom (s : Text) : Option (Json × Nat) := do
  let negative := s.head? == some '-'
  let sign := if negative then 1 else 0
  let r := s.drop sign
  let whole := r.takeWhile Char.isDigit
  if whole.isEmpty || (whole.head? == some '0' && 1 < whole.length) then none
  else
    let (decimals, n) ← decimalsFrom (r.drop whole.length)
    let (exponent, m) ← exponentFrom (r.drop (whole.length + n))
    let size := sign + whole.length + n + m
    if n + m = 0 then return (← integerOf negative whole, size)
    else return (.float (← floatOf negative whole decimals exponent), size)

/-- Reads a number. -/
def number : Parser Json := do
  let (v, n) ← require () (numberFrom (← rest))
  skip n
  return v

/-! ## Values -/

section Containers

variable (inner : Parser Json)

/-- Reads a value with white space around it. -/
def spaced : Parser Json := do
  skipSpace
  let v ← inner
  skipSpace
  return v

/-- Reads a comma and the value after it, if they follow. -/
def furtherItem : Parser (Option Json) := do
  if ← accept ',' then
    return some (← spaced inner)
  return none

/-- Reads an array after its opening bracket. -/
def arrayContent : Parser Json := do
  skipSpace
  if ← accept ']' then
    return .array []
  let first ← spaced inner
  let more ← many (furtherItem inner)
  expect "]"
  return .array (first :: more)

/-- Reads a field with white space around it. -/
def field : Parser (Text × Json) := do
  skipSpace
  expect "\""
  let name ← stringContent
  skipSpace
  expect ":"
  return (name, ← spaced inner)

/-- Reads a comma and the field after it, if they follow. -/
def furtherField : Parser (Option (Text × Json)) := do
  if ← accept ',' then
    return some (← field inner)
  return none

/-- Reads an object after its opening brace. -/
def objectContent : Parser Json := do
  skipSpace
  if ← accept '\x7d' then
    return .object []
  let first ← field inner
  let more ← many (furtherField inner)
  expect "\x7d"
  return .object (first :: more)

end Containers

/-- Reads a value whose arrays and objects are nested at most `depth` deep. -/
def value : Nat → Parser Json
  | 0 => do
    match (← rest).head? with
    | some '"' =>
      skip 1
      return .string (← stringContent)
    | some 't' =>
      expect "true"
      return .bool true
    | some 'f' =>
      expect "false"
      return .bool false
    | some 'n' =>
      expect "null"
      return .null
    | _ => number
  | depth + 1 => do
    match (← rest).head? with
    | some '[' =>
      skip 1
      arrayContent (value depth)
    | some '\x7b' =>
      skip 1
      objectContent (value depth)
    | _ => value 0

/-- How deep values may be nested. -/
def maxDepth : Nat := 127

/-- The value that a text spells. -/
def parse? (s : Text) : Option Json :=
  match spaced (value maxDepth) s with
  | .ok (v, []) => some v
  | _ => none

/-- The value that some bytes spell. -/
def parseBytes? (bytes : List UInt8) : Option Json := (Text.decode? bytes).bind parse?

end WebCrawl.Json
