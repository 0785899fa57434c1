import WebCrawl.Text.Basic

/-!
# Durations

## Main definitions

* `WebCrawl.Duration` — a length of time.
* `WebCrawl.Duration.toText` — its exact text in the largest unit that it holds.
-/

set_option autoImplicit false

namespace WebCrawl

/-- A length of time. -/
structure Duration where
  /-- How many nanoseconds it has. -/
  nanoseconds : Nat
deriving DecidableEq, Repr

namespace Duration

/-- A number of milliseconds. -/
def ofMilliseconds (n : Nat) : Duration := ⟨n * 1000000⟩

/-- The whole milliseconds of a duration. -/
def milliseconds (d : Duration) : Nat := d.nanoseconds / 1000000

/-- The digits after the point of a number of parts, of which `10 ^ places` make a whole. Zeros at
the end are left out. -/
def fraction (places n : Nat) : Text :=
  let digits := Text.ofNat n
  ((List.replicate (places - digits.length) '0' ++ digits).reverse.dropWhile (· == '0')).reverse

/-- A number of nanoseconds in a unit of `10 ^ places` nanoseconds. -/
def inUnit (places n : Nat) (unit : Text) : Text :=
  let decimals := fraction places (n % Nat.pow 10 places)
  Text.ofNat (n / Nat.pow 10 places) ++ (if decimals.isEmpty then [] else '.' :: decimals) ++ unit

/-- The exact text of a duration in the largest unit that it holds. -/
def toText (d : Duration) : Text :=
  let n := d.nanoseconds
  if Nat.pow 10 9 ≤ n then inUnit 9 n "s"
  else if Nat.pow 10 6 ≤ n then inUnit 6 n "ms"
  else if Nat.pow 10 3 ≤ n then inUnit 3 n "µs"
  else inUnit 0 n "ns"

end Duration

end WebCrawl
