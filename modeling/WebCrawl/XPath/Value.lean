import WebCrawl.Double.Decimal
import WebCrawl.Html.Location
import WebCrawl.Text.Blank
import WebCrawl.XPath.Expr

/-!
# Values of XPath expressions

A value is a set of locations, a text, a number or a truth value, and each kind can be taken as any
of the last three.

## Main definitions

* `WebCrawl.XPath.Value` — the values.
* `WebCrawl.XPath.numberOfText` and `WebCrawl.XPath.textOfNumber` — numbers as texts and back.
* `WebCrawl.XPath.Value.toText`, `WebCrawl.XPath.Value.toNumber`, `WebCrawl.XPath.Value.toBool` — the
  conversions.
* `WebCrawl.XPath.compare` — the comparison of two values.
-/

set_option autoImplicit false

namespace WebCrawl.XPath

open Html

/-- The value of an expression. -/
inductive Value where
  | nodes (locations : List Location)
  | string (text : Text)
  | number (value : Double)
  | boolean (value : Bool)
deriving DecidableEq, Repr

/-! ## Numbers and texts -/

/-- Whether the text is a numeral: digits with at most one point, and not a point alone. -/
def isNumeral (s : Text) : Bool :=
  s != [] && s.all (fun c => c.isDigit || c == '.') && s.count '.' ≤ 1 && s != ['.']

/-- The number that a text is written as: a numeral with an optional minus sign and blanks around.
Any other text is not a number. -/
def numberOfText (s : Text) : Double :=
  match Text.trim s with
  | '-' :: digits => if isNumeral digits then .ofNumeral true digits else .nan
  | digits => if isNumeral digits then .ofNumeral false digits else .nan

/-- The text that a number is written as. An integer of fewer than sixteen digits is written as
one, so the negative zero has no sign. -/
def textOfNumber : Double → Text
  | .nan => "NaN"
  | .infinity negative => if negative then "-Infinity" else "Infinity"
  | .finite negative m =>
    if m.den = 1 ∧ m < Nat.pow 10 15 then Text.ofInt (if negative then -m.num else m.num)
    else Double.toText (.finite negative m)

/-- Whether a number counts as true. -/
def truthOfNumber (x : Double) : Bool := !Double.eq x 0 && !x.isNaN

/-- The number of a truth value. -/
def numberOfTruth (b : Bool) : Double := if b then 1 else 0

/-- The text of a truth value. -/
def textOfTruth (b : Bool) : Text := if b then "true" else "false"

/-- The nearest integer, a half going up. -/
def roundHalfUp (x : Double) : Double :=
  if x.isFinite then Double.floor (x + Double.ofRat (mkRat 1 2)) else x

/-! ## Conversions -/

namespace Value

variable (a : Arena)

/-- The locations of a value; a value of another kind has none. -/
def locations : Value → List Location
  | nodes locations => locations
  | _ => []

/-- The value as a text: of a set of locations, the text at the first. -/
def toText : Value → Text
  | nodes [] => []
  | nodes (x :: _) => a.textAt x
  | string text => text
  | number value => textOfNumber value
  | boolean value => textOfTruth value

/-- The value as a number. -/
def toNumber : Value → Double
  | nodes locations => numberOfText (toText a (nodes locations))
  | string text => numberOfText text
  | number value => value
  | boolean value => numberOfTruth value

/-- The value as a truth value: a set or a text that is not empty is true. -/
def toBool : Value → Bool
  | nodes locations => !locations.isEmpty
  | string text => !text.isEmpty
  | number value => truthOfNumber value
  | boolean value => value

end Value

/-! ## Comparison -/

/-- A single value that is compared. -/
inductive Atom where
  | text (text : Text)
  | number (value : Double)
  | truth (value : Bool)
deriving DecidableEq, Repr

namespace Atom

/-- The truth value of an atom. -/
def toBool : Atom → Bool
  | text t => !t.isEmpty
  | number x => truthOfNumber x
  | truth b => b

/-- The number of an atom. -/
def toNumber : Atom → Double
  | text t => numberOfText t
  | number x => x
  | truth b => numberOfTruth b

/-- Equality: as truth values if one of them is one, else as numbers if one of them is one, else as
texts. -/
def equal : Atom → Atom → Bool
  | text s, text t => s == t
  | truth b, y => b == y.toBool
  | x, truth b => x.toBool == b
  | x, y => Double.eq x.toNumber y.toNumber

/-- The comparison of two atoms. Order is always that of numbers. -/
def compare (c : Comparison) (x y : Atom) : Bool :=
  match c with
  | .equal => equal x y
  | .unequal => !equal x y
  | .less => Double.lt x.toNumber y.toNumber
  | .lessEqual => Double.le x.toNumber y.toNumber
  | .greater => Double.lt y.toNumber x.toNumber
  | .greaterEqual => Double.le y.toNumber x.toNumber

end Atom

/-- A value that is no set of locations, as an atom. -/
def Value.atom : Value → Atom
  | .nodes _ => .text []
  | .string text => .text text
  | .number value => .number value
  | .boolean value => .truth value

/-- The comparison of two values. Sets are compared by some of their texts, except with a truth
value, where they count as true if they are not empty. -/
def compare (a : Arena) (c : Comparison) : Value → Value → Bool
  | .nodes xs, .boolean b => Atom.compare c (.truth !xs.isEmpty) (.truth b)
  | .boolean b, .nodes ys => Atom.compare c (.truth b) (.truth !ys.isEmpty)
  | .nodes xs, .nodes ys =>
    xs.any fun x => ys.any fun y => Atom.compare c (.text (a.textAt x)) (.text (a.textAt y))
  | .nodes xs, v => xs.any fun x => Atom.compare c (.text (a.textAt x)) v.atom
  | v, .nodes ys => ys.any fun y => Atom.compare c v.atom (.text (a.textAt y))
  | v, w => Atom.compare c v.atom w.atom

end WebCrawl.XPath
