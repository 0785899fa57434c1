/-!
# Double-precision numbers

A number of double precision is not a number, an infinity, or finite; a finite one is held as its
sign and its exact magnitude. Every operation is the exact rational operation followed by rounding
to the nearest number of 53 significant bits, a tie going to the even one.

## Main definitions

* `WebCrawl.Double` — the numbers.
* `WebCrawl.Double.round?` — the nearest representable magnitude, if it is not too large.
* `WebCrawl.Double.ofRat` — the nearest number to a rational.
* the arithmetic operations, the comparisons, and `WebCrawl.Double.floor`,
  `WebCrawl.Double.ceiling`, `WebCrawl.Double.remainder`.
-/

set_option autoImplicit false

namespace WebCrawl

/-- A number of double precision. -/
inductive Double where
  /-- The result of an operation that has none. -/
  | nan
  /-- A value too large in magnitude to be held. -/
  | infinity (negative : Bool)
  /-- A finite value, with a sign that zero has too. -/
  | finite (negative : Bool) (magnitude : Rat)
deriving DecidableEq, Repr

namespace Double

/-! ## Rounding -/

/-- A power of two, the exponent of either sign. -/
def twoPow (e : Int) : Rat := if 0 ≤ e then (Nat.pow 2 e.toNat : Rat) else mkRat 1 (Nat.pow 2 (-e).toNat)

/-- The exponent of the greatest power of two that is at most the positive rational `q`. -/
def log2 (q : Rat) : Int :=
  let k : Int := (q.num.toNat.log2 : Int) - q.den.log2
  if twoPow k ≤ q then k else k - 1

/-- The exponent of the last of the 53 bits of `q`, which is at least the least exponent there
is. -/
def lastBit (q : Rat) : Int := max (log2 q - 52) (-1074)

/-- The integer nearest to a rational, of two equally near ones the even one. -/
def nearestEven (q : Rat) : Int :=
  let low := q.floor
  let part := q - low
  if part < 1 / 2 then low
  else if 1 / 2 < part then low + 1
  else if low % 2 = 0 then low else low + 1

/-- The representable magnitude nearest to the rational `q`, or none if that is too large. -/
def round? (q : Rat) : Option Rat :=
  if q ≤ 0 then some 0
  else
    let rounded := (nearestEven (q / twoPow (lastBit q)) : Rat) * twoPow (lastBit q)
    if twoPow 1024 ≤ rounded then none else some rounded

/-- The number of the given sign nearest to the magnitude `q`. -/
def ofMagnitude (negative : Bool) (q : Rat) : Double :=
  match round? q with
  | some m => .finite negative m
  | none => .infinity negative

/-- The number nearest to a rational; `zeroNegative` is the sign of zero. -/
def ofSignedRat (zeroNegative : Bool) (q : Rat) : Double :=
  if q = 0 then .finite zeroNegative 0
  else if q < 0 then ofMagnitude true (-q)
  else ofMagnitude false q

/-- The number nearest to a rational. -/
def ofRat (q : Rat) : Double := ofSignedRat false q

/-- The number nearest to a natural number. -/
def ofNat (n : Nat) : Double := ofRat n

instance (n : Nat) : OfNat Double n := ⟨Double.ofNat n⟩

/-- The value of a finite magnitude with its sign. -/
def signed (negative : Bool) (m : Rat) : Rat := if negative then -m else m

/-! ## Comparison -/

/-- Equality: nothing equals what is not a number, and the two zeros are equal. -/
def eq : Double → Double → Bool
  | .infinity s, .infinity t => s == t
  | .finite s m, .finite t n => signed s m == signed t n
  | _, _ => false

/-- Strict order: what is not a number is in no relation. -/
def lt : Double → Double → Bool
  | .nan, _ => false
  | _, .nan => false
  | .infinity s, .infinity t => s && !t
  | .infinity s, .finite _ _ => s
  | .finite _ _, .infinity t => !t
  | .finite s m, .finite t n => signed s m < signed t n

/-- Order: what is not a number is in no relation. -/
def le (x y : Double) : Bool := lt x y || eq x y

/-- Whether this is not a number. -/
def isNaN : Double → Bool
  | .nan => true
  | _ => false

/-- Whether the number is finite. -/
def isFinite : Double → Bool
  | .finite _ _ => true
  | _ => false

/-! ## Arithmetic -/

/-- The number with its sign reversed. -/
def neg : Double → Double
  | .nan => .nan
  | .infinity s => .infinity (!s)
  | .finite s m => .finite (!s) m

/-- The sum. Opposite values sum to positive zero, and so do zeros unless both are negative. -/
def add : Double → Double → Double
  | .nan, _ => .nan
  | _, .nan => .nan
  | .infinity s, .infinity t => if s = t then .infinity s else .nan
  | .infinity s, .finite _ _ => .infinity s
  | .finite _ _, .infinity t => .infinity t
  | .finite s m, .finite t n => ofSignedRat (s && t) (signed s m + signed t n)

/-- The difference. -/
def sub (x y : Double) : Double := add x (neg y)

/-- The product. -/
def mul : Double → Double → Double
  | .nan, _ => .nan
  | _, .nan => .nan
  | .infinity s, .infinity t => .infinity (s != t)
  | .infinity s, .finite t n => if n = 0 then .nan else .infinity (s != t)
  | .finite s m, .infinity t => if m = 0 then .nan else .infinity (s != t)
  | .finite s m, .finite t n => ofMagnitude (s != t) (m * n)

/-- The quotient. -/
def div : Double → Double → Double
  | .nan, _ => .nan
  | _, .nan => .nan
  | .infinity _, .infinity _ => .nan
  | .infinity s, .finite t _ => .infinity (s != t)
  | .finite s _, .infinity t => .finite (s != t) 0
  | .finite s m, .finite t n =>
    if n = 0 then if m = 0 then .nan else .infinity (s != t) else ofMagnitude (s != t) (m / n)

/-- The remainder of the division whose quotient is cut to an integer. It has the sign of the
dividend. -/
def remainder : Double → Double → Double
  | .nan, _ => .nan
  | _, .nan => .nan
  | .infinity _, _ => .nan
  | .finite s m, .infinity _ => .finite s m
  | .finite s m, .finite _ n => if n = 0 then .nan else .finite s (m - n * (m / n).floor)

/-- The greatest integer that is not above the number; zero keeps its sign. -/
def floor : Double → Double
  | .finite false m => .finite false m.floor
  | .finite true m => .finite true m.ceil
  | x => x

/-- The least integer that is not below the number; it has the sign of the number. -/
def ceiling : Double → Double
  | .finite false m => .finite false m.ceil
  | .finite true m => .finite true m.floor
  | x => x

instance : Neg Double := ⟨neg⟩
instance : Add Double := ⟨add⟩
instance : Sub Double := ⟨sub⟩
instance : Mul Double := ⟨mul⟩
instance : Div Double := ⟨div⟩

end Double

end WebCrawl
