import WebCrawl.Double.Basic
import WebCrawl.Text.Basic

/-!
# Decimal texts of numbers

A number is written with the fewest decimal digits that read back as the same number; of several
such decimals the nearest to its value is taken.

## Main definitions

* `WebCrawl.Double.ofDecimal` — the number nearest to a decimal.
* `WebCrawl.Double.shortest` — the fewest digits that read back.
* `WebCrawl.Double.toText` — the positional text of a number.
* `WebCrawl.Double.fixed` — a rational with a fixed number of decimals.
-/

set_option autoImplicit false

namespace WebCrawl.Double

open Text

/-- A power of ten, the exponent of either sign. -/
def tenPow (e : Int) : Rat := if 0 ≤ e then (Nat.pow 10 e.toNat : Rat) else mkRat 1 (Nat.pow 10 (-e).toNat)

/-- The number of decimal digits of a natural number. -/
def digitCount (n : Nat) : Nat := (Text.ofNat n).length

/-- The number nearest to `digits * 10 ^ exponent`. Exponents far outside the range of finite
numbers are decided by their size. -/
def ofDecimal (negative : Bool) (digits : Nat) (exponent : Int) : Double :=
  if digits = 0 then .finite negative 0
  else if 400 < exponent then .infinity negative
  else if exponent + digitCount digits < -400 then .finite negative 0
  else ofMagnitude negative (digits * tenPow exponent)

/-- The number that a numeral of digits with at most one point stands for. -/
def ofNumeral (negative : Bool) (s : Text) : Double :=
  let whole := s.takeWhile (· != '.')
  let decimals := (s.dropWhile (· != '.')).drop 1
  ofDecimal negative (natOfDigits (whole ++ decimals)) (-(decimals.length : Int))

/-! ## Shortest digits -/

/-- The exponent of the greatest power of ten that is at most the positive rational `q`, looked for
from `e` downwards. -/
def log10From (q : Rat) : Nat → Int → Int
  | 0, e => e
  | fuel + 1, e => if tenPow e ≤ q then e else log10From q fuel (e - 1)

/-- The exponent of the first decimal digit of a positive magnitude. -/
def log10 (q : Rat) : Int :=
  log10From q 4 (((digitCount q.num.toNat : Int) - digitCount q.den) + 1)

/-- The multiple of `10 ^ e` that reads back as the magnitude `q`, if one of the two neighbours of
`q` does; the nearer one if both do, the even one if both are equally near. -/
def readsBackAt (q : Rat) (e : Int) : Option Nat :=
  let scaled := q / tenPow e
  let low := scaled.floor.toNat
  let good (n : Nat) : Bool := round? (n * tenPow e) == some q
  match good low, good (low + 1) with
  | false, false => none
  | true, false => some low
  | false, true => some (low + 1)
  | true, true =>
    let part := scaled - low
    if part < 1 / 2 then some low
    else if 1 / 2 < part then some (low + 1)
    else if low % 2 = 0 then some low else some (low + 1)

/-- The coarsest decimal grid, from the one whose unit is `10 ^ e` on, that has a point which reads
back as `q`: that point, and the exponent of the unit. -/
def shortestFrom (q : Rat) : Nat → Int → Nat × Int
  | 0, e => ((q / tenPow e).floor.toNat, e)
  | fuel + 1, e =>
    match readsBackAt q e with
    | some n => (n, e)
    | none => shortestFrom q fuel (e - 1)

/-- The fewest digits that read back as the positive magnitude `q`, and the exponent of the last.
The search starts above the first digit, where a power of ten just above `q` may read back.
Seventeen digits always do. -/
def shortest (q : Rat) : Nat × Int := shortestFrom q 18 (log10 q + 1)

/-- The text of `digits * 10 ^ exponent` without an exponent. -/
def positional (digits : Nat) (exponent : Int) : Text :=
  let s := Text.ofNat digits
  if 0 ≤ exponent then s ++ List.replicate exponent.toNat '0'
  else
    let places := (-exponent).toNat
    if places < s.length then s.take (s.length - places) ++ '.' :: s.drop (s.length - places)
    else "0." ++ List.replicate (places - s.length) '0' ++ s

/-- The positional text of a magnitude. -/
def magnitudeText (q : Rat) : Text :=
  if q ≤ 0 then "0" else let (digits, exponent) := shortest q; positional digits exponent

/-- The positional text of a number. -/
def toText : Double → Text
  | .nan => "NaN"
  | .infinity negative => if negative then "-inf" else "inf"
  | .finite negative m => if negative then '-' :: magnitudeText m else magnitudeText m

/-! ## Fixed decimals -/

/-- A rational that is not negative with the given number of decimals, rounded to nearest; a tie
goes to the even last digit. -/
def fixed (places : Nat) (q : Rat) : Text :=
  let n := (nearestEven (q * tenPow places)).toNat
  if places = 0 then Text.ofNat n
  else
    let s := Text.ofNat n
    let padded := List.replicate (places + 1 - s.length) '0' ++ s
    padded.take (padded.length - places) ++ '.' :: padded.drop (padded.length - places)

end WebCrawl.Double
