import WebCrawl.Double.Decimal
import WebCrawl.Text.Quoted

/-!
# JSON values

## Main definitions

* `WebCrawl.Json` — the values. An object keeps its fields as they are written, of which the last
  of one name counts.
* `WebCrawl.Json.field?` — the field of an object.
* `WebCrawl.Json.render` — the text of a value.
-/

set_option autoImplicit false

namespace WebCrawl

/-- A JSON value. -/
inductive Json where
  | null
  | bool (value : Bool)
  /-- A number without fraction and exponent. -/
  | integer (value : Int)
  /-- Any other number. -/
  | float (value : Double)
  | string (text : Text)
  | array (items : List Json)
  | object (fields : List (Text × Json))

namespace Json

instance : Inhabited Json := ⟨null⟩

/-- The fields of an object; other values have none. -/
def fields : Json → List (Text × Json)
  | object fields => fields
  | _ => []

/-- The field of the given name, the last one if there are several. -/
def field? (v : Json) (name : Text) : Option Json := v.fields.reverse.lookup name

/-- The fields of an object with those that count only. -/
def lastFields (fields : List (Text × Json)) : List (Text × Json) :=
  (fields.reverse.foldl (fun kept (name, v) =>
    if kept.any (·.1 == name) then kept else (name, v) :: kept) [])

/-! ## Text -/

/-- A character as it is written in a string. -/
def escapeChar (c : Char) : Text :=
  if c = '"' then "\\\""
  else if c = '\\' then "\\\\"
  else if c = '\n' then "\\n"
  else if c = '\r' then "\\r"
  else if c = '\t' then "\\t"
  else if c.toNat < 32 then
    let digits := Text.hexNumeral c.toNat
    "\\u".toList ++ List.replicate (4 - digits.length) '0' ++ digits
  else [c]

/-- A string as it is written. -/
def renderString (s : Text) : Text := '"' :: s.flatMap escapeChar ++ ['"']

/-- A number that is not an integer as it is written: its shortest digits with a point, or with an
exponent where that is far from them. A value that is not finite is written as null. -/
def renderFloat : Double → Text
  | .finite negative m =>
    let sign : Text := if negative then "-" else []
    if m ≤ 0 then sign ++ "0.0".toList
    else
      let (digits, exponent) := Double.shortest m
      if 0 ≤ exponent ∧ exponent ≤ 20 then sign ++ Double.positional digits exponent ++ ".0".toList
      else if -20 ≤ exponent ∧ exponent < 0 then sign ++ Double.positional digits exponent
      else sign ++ Text.ofNat digits ++ "e".toList ++ Text.ofInt exponent
  | _ => "null"

mutual

/-- A value as it is written. -/
def render : Json → Text
  | null => "null"
  | bool b => if b then "true" else "false"
  | integer n => Text.ofInt n
  | float x => renderFloat x
  | string s => renderString s
  | array items => '[' :: renderItems items ++ [']']
  | object fields => '\x7b' :: renderFields fields ++ ['\x7d']

/-- The items of an array as they are written. -/
def renderItems : List Json → Text
  | [] => []
  | [v] => render v
  | v :: vs => render v ++ ',' :: renderItems vs

/-- The fields of an object as they are written. -/
def renderFields : List (Text × Json) → Text
  | [] => []
  | [(name, v)] => renderString name ++ ':' :: render v
  | (name, v) :: more => renderString name ++ ':' :: render v ++ ',' :: renderFields more

end

end Json

end WebCrawl
