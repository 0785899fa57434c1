import WebCrawl.Http.Headers
import WebCrawl.Text.Utf8

/-!
# Header fields on the wire

Names and values that can be sent. A name is a token in lower case, a value is a row of bytes
without control characters. The values of one name stand together, where the name first appeared.

## Main definitions

* `WebCrawl.Http.isToken` — the names and methods that can be sent.
* `WebCrawl.Http.fieldValue?` — the bytes of a value that can be sent.
* `WebCrawl.Http.Fields` — the fields of a message.
-/

set_option autoImplicit false

namespace WebCrawl.Http

/-! ## Names and values -/

/-- Whether the character may stand in a token. -/
def isTokenChar (c : Char) : Bool :=
  c.isAlphanum || ['!', '#', '$', '%', '&', '\'', '*', '+', '-', '.', '^', '_', '\x60', '|', '~'].contains c

/-- Whether the text is a token. -/
def isToken (s : Text) : Bool := !s.isEmpty && s.all isTokenChar

/-- The name of a field as it is sent. -/
def fieldName? (s : Text) : Option Text :=
  if isToken s && s.length < Nat.pow 2 16 then some s.lower else none

/-- Whether the byte may stand in a value. -/
def isValueByte (b : UInt8) : Bool := b == 9 || (32 ≤ b && b != 127)

/-- The value of a field as it is sent. -/
def fieldValue? (bytes : List UInt8) : Option (List UInt8) :=
  if bytes.all isValueByte then some bytes else none

/-- The value of a field that is a text. -/
def textValue? (s : Text) : Option (List UInt8) := fieldValue? (Text.encode s)

/-- Whether the byte is a printable character of ASCII, or a tab. -/
def isPlainByte (b : UInt8) : Bool := b == 9 || (32 ≤ b && b < 127)

/-- A value as a text, if it has plain characters only. -/
def plainText? (bytes : List UInt8) : Option Text :=
  if bytes.all isPlainByte then some (bytes.map fun b => Char.ofNat b.toNat) else none

/-! ## Fields -/

/-- The fields of a message: names in the order of their first appearance, each with its values. -/
structure Fields where
  /-- The names with their values. -/
  groups : List (Text × List (List UInt8))
deriving DecidableEq, Repr

namespace Fields

/-- No fields. -/
def empty : Fields := ⟨[]⟩

/-- The values of a name. -/
def getAll (f : Fields) (name : Text) : List (List UInt8) := (f.groups.lookup name).getD []

/-- The first value of a name. -/
def get? (f : Fields) (name : Text) : Option (List UInt8) := (f.getAll name).head?

/-- Whether a name has a value. -/
def contains (f : Fields) (name : Text) : Bool := (f.groups.lookup name).isSome

/-- The values of a name changed by a function; a new name comes last. -/
def change (f : Fields) (name : Text) (values : List (List UInt8) → List (List UInt8)) : Fields :=
  if f.contains name then
    ⟨f.groups.map fun (n, vs) => if n = name then (n, values vs) else (n, vs)⟩
  else ⟨f.groups ++ [(name, values [])]⟩

/-- One more value of a name. -/
def append (f : Fields) (name : Text) (value : List UInt8) : Fields := f.change name (· ++ [value])

/-- A value in place of all the values of a name. -/
def insert (f : Fields) (name : Text) (value : List UInt8) : Fields := f.change name fun _ => [value]

/-- The names with their values one by one. -/
def toList (f : Fields) : List (Text × List UInt8) :=
  f.groups.flatMap fun (name, values) => values.map (name, ·)

/-- The fields as headers; bytes that are no text are replaced. -/
def toHeaders (f : Fields) : Headers :=
  .ofList (f.toList.map fun (name, value) => (name, Text.decodeLossy value))

end Fields

end WebCrawl.Http
