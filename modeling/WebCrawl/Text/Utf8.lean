import WebCrawl.Text.Basic

/-!
# Text as bytes

The encoding of text in UTF-8 and its reading. A reader that meets bytes which are no character
takes the longest prefix that could have begun one, and at least one byte, as a single fault.

## Main definitions

* `WebCrawl.Text.encode` — the bytes of a text.
* `WebCrawl.Text.decodeChar` — the character at the start of some bytes and how many it takes.
* `WebCrawl.Text.decode?` — the text of bytes that have no fault.
* `WebCrawl.Text.decodeLossy` — the text of any bytes, with a replacement for every fault.
* `WebCrawl.Text.toHex` — bytes in hexadecimal.
-/

set_option autoImplicit false

namespace WebCrawl.Text

/-- The bytes of a text in UTF-8. -/
def encode (s : Text) : List UInt8 := s.flatMap String.utf8EncodeChar

/-! ## Single characters -/

/-- Whether the byte goes on with a character. -/
def isContinuation (b : UInt8) : Bool := 0x80 ≤ b && b ≤ 0xbf

/-- The six bits that a continuation byte adds. -/
def continuationBits (b : UInt8) : Nat := b.toNat % 64

/-- The second bytes that may follow a first byte, as a closed range; none if the byte does not
begin a character of several bytes. -/
def secondRange (b : UInt8) : Option (UInt8 × UInt8) :=
  if 0xc2 ≤ b ∧ b ≤ 0xdf then some (0x80, 0xbf)
  else if b = 0xe0 then some (0xa0, 0xbf)
  else if b = 0xed then some (0x80, 0x9f)
  else if 0xe1 ≤ b ∧ b ≤ 0xef then some (0x80, 0xbf)
  else if b = 0xf0 then some (0x90, 0xbf)
  else if 0xf1 ≤ b ∧ b ≤ 0xf3 then some (0x80, 0xbf)
  else if b = 0xf4 then some (0x80, 0x8f)
  else none

/-- The character that the bytes `b` and those after it begin with, or none if they have a fault,
and how many of the bytes after `b` the character or the fault takes. -/
def decodeChar (b : UInt8) (bytes : List UInt8) : Option Char × Nat :=
  if b < 0x80 then (some (Char.ofNat b.toNat), 0)
  else match secondRange b, bytes with
    | some (low, high), c :: rest =>
      if c < low ∨ high < c then (none, 0)
      else if b < 0xe0 then
        (some (Char.ofNat (b.toNat % 32 * 64 + continuationBits c)), 1)
      else match rest with
        | d :: rest =>
          if !isContinuation d then (none, 1)
          else if b < 0xf0 then
            (some (Char.ofNat ((b.toNat % 16 * 64 + continuationBits c) * 64 + continuationBits d)),
              2)
          else match rest with
            | e :: _ =>
              if !isContinuation e then (none, 2)
              else
                (some (Char.ofNat (((b.toNat % 8 * 64 + continuationBits c) * 64 +
                  continuationBits d) * 64 + continuationBits e)), 3)
            | [] => (none, 2)
        | [] => (none, 1)
    | _, _ => (none, 0)

/-! ## Texts -/

/-- The characters of some bytes in reverse, put before `done`; every fault is `none`. -/
def decodeOnto (done : List (Option Char)) (bytes : List UInt8) : List (Option Char) :=
  match bytes with
  | [] => done
  | b :: rest => decodeOnto ((decodeChar b rest).1 :: done) (rest.drop (decodeChar b rest).2)
termination_by bytes.length
decreasing_by simp only [List.length_cons, List.length_drop]; omega

/-- The characters of some bytes; every fault is `none`. -/
def decodeAll (bytes : List UInt8) : List (Option Char) := (decodeOnto [] bytes).reverse

/-- The text of any bytes, with the replacement character for every fault. -/
def decodeLossy (bytes : List UInt8) : Text := (decodeAll bytes).map (·.getD '\ufffd')

/-- The text of bytes that have no fault. -/
def decode? (bytes : List UInt8) : Option Text :=
  let characters := decodeAll bytes
  if characters.all Option.isSome then some (characters.filterMap id) else none

/-! ## Hexadecimal -/

/-- The digit of a number below sixteen. -/
def hexDigit (n : Nat) : Char := Nat.digitChar n

/-- Bytes in hexadecimal, two lower-case digits each. -/
def toHex (bytes : List UInt8) : Text :=
  bytes.flatMap fun b => [hexDigit (b.toNat / 16), hexDigit (b.toNat % 16)]

/-- The bytes that pairs of hexadecimal digits stand for. -/
def ofHex : Text → List UInt8
  | c :: d :: s => UInt8.ofNat ((hexValue? c).getD 0 * 16 + (hexValue? d).getD 0) :: ofHex s
  | _ => []

end WebCrawl.Text
