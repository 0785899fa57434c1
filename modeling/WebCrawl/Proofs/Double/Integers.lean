import Mathlib.Algebra.Order.Field.Power
import Mathlib.Data.List.TakeWhile
import Mathlib.Data.Nat.Prime.Basic
import Mathlib.Data.Rat.Floor
import Mathlib.Tactic.Linarith
import Mathlib.Tactic.Ring
import WebCrawl.Double.Decimal

set_option autoImplicit false

/-!
# Integers as double-precision numbers

An integer of at most 53 bits is held exactly: it is a multiple of the last of its bits, so that
rounding leaves it as it is. Hence sums, differences and remainders of such integers are exact as long
as the result has 53 bits at most, and they are compared as integers.

## Main definitions

* `WebCrawl.Double.Is` — the number is an integer.

## Main results

* `WebCrawl.Double.round?_natCast` — an integer of 53 bits is not rounded.
* `WebCrawl.Double.is_ofNat`, `WebCrawl.Double.is_ofNumeral` — how such an integer is written.
* `WebCrawl.Double.Is.add`, `WebCrawl.Double.Is.sub`, `WebCrawl.Double.Is.remainder` — exact
  arithmetic.
* `WebCrawl.Double.Is.floor_add_half` — such an integer is not rounded to another one.
* `WebCrawl.Double.Is.eq_iff`, `WebCrawl.Double.Is.le_iff` — comparison.
-/

namespace WebCrawl.Double

/-! ## Rounding -/

lemma twoPow_eq_zpow (e : Int) : twoPow e = 2 ^ e := by
  unfold twoPow
  split
  case isTrue h =>
    obtain ⟨n, rfl⟩ := Int.eq_ofNat_of_zero_le h
    simp
  case isFalse h =>
    obtain ⟨n, rfl⟩ : ∃ n : Nat, e = -n := ⟨(-e).toNat, by omega⟩
    rw [neg_neg, Int.toNat_natCast, zpow_neg, zpow_natCast, Rat.mkRat_eq_div]
    simp

/-- The exponent of a natural number is one less than the number of its bits. -/
lemma log2_natCast {n : Nat} (hn : n ≠ 0) : log2 n = n.log2 := by
  have hpow : twoPow n.log2 ≤ n := by
    rw [twoPow_eq_zpow, zpow_natCast]
    exact_mod_cast Nat.log2_self_le hn
  have hone : Nat.log2 1 = 0 := rfl
  simp only [log2, Rat.num_natCast, Int.toNat_natCast, Rat.den_natCast, hone, Nat.cast_zero, sub_zero,
    if_pos hpow]

lemma nearestEven_intCast (z : Int) : nearestEven z = z := by
  have hpart : (z : Rat) - (z : Rat).floor < 1 / 2 := by
    rw [Rat.floor_intCast, sub_self]
    norm_num
  rw [nearestEven, if_pos hpart, Rat.floor_intCast]

/-- A magnitude that is a multiple of its last bit is not rounded, if it is not too large. -/
lemma round?_eq_some_self {q : Rat} (hpos : 0 < q) {m : Int} (hm : q = m * twoPow (lastBit q))
    (hsmall : q < 2 ^ 53) : round? q = some q := by
  have hunit : twoPow (lastBit q) ≠ 0 := by
    rw [twoPow_eq_zpow]
    positivity
  have hscaled : q / twoPow (lastBit q) = m := by
    rw [div_eq_iff hunit]
    exact hm
  have hrounded : (nearestEven (q / twoPow (lastBit q)) : Rat) * twoPow (lastBit q) = q := by
    rw [hscaled, nearestEven_intCast, ← hm]
  have hlarge : ¬twoPow 1024 ≤ q := by
    rw [twoPow_eq_zpow, not_le]
    calc q < 2 ^ (53 : Int) := by exact_mod_cast hsmall
      _ ≤ 2 ^ (1024 : Int) := zpow_le_zpow_right₀ (by norm_num) (by norm_num)
  rw [round?, if_neg (not_le.2 hpos)]
  simp only [hrounded, if_neg hlarge]

/-- A natural number of at most 53 bits is not rounded. It is a multiple of its last bit. -/
theorem round?_natCast {n : Nat} (hn : n < 2 ^ 53) : round? n = some (n : Rat) := by
  obtain rfl | hpos := Nat.eq_zero_or_pos n
  · simp [round?]
  have hbits : n.log2 < 53 := (Nat.log2_lt hpos.ne').2 hn
  obtain ⟨k, hk⟩ : ∃ k, n.log2 + k = 52 := ⟨52 - n.log2, by omega⟩
  have hlast : lastBit n = -(k : Int) := by
    rw [lastBit, log2_natCast hpos.ne']
    omega
  have hmultiple : (n : Rat) = ((n * 2 ^ k : Int) : Rat) * twoPow (lastBit n) := by
    rw [hlast, twoPow_eq_zpow, zpow_neg, zpow_natCast]
    push_cast
    rw [mul_inv_cancel_right₀ (by positivity)]
  exact round?_eq_some_self (by exact_mod_cast hpos) hmultiple (by exact_mod_cast hn)

/-- The exponent of half an odd number is one less than that of the number. -/
lemma log2_half {n : Nat} (hodd : n % 2 = 1) : log2 (n / 2) = n.log2 - 1 := by
  have hcoprime : Nat.Coprime (Int.natAbs n) (Int.natAbs 2) :=
    Nat.coprime_two_right.2 (Nat.odd_iff.2 hodd)
  have hnum : ((n : Rat) / 2).num = n := by
    have h := Rat.num_div_eq_of_coprime (by norm_num) hcoprime
    rwa [Int.cast_natCast, Int.cast_ofNat] at h
  have hden : ((n : Rat) / 2).den = 2 := by
    have h := Rat.den_div_eq_of_coprime (by norm_num) hcoprime
    rw [Int.cast_natCast, Int.cast_ofNat] at h
    exact_mod_cast h
  have hone : Nat.log2 2 = 1 := rfl
  have hpow : twoPow (n.log2 - 1) ≤ (n : Rat) / 2 := by
    rw [twoPow_eq_zpow, zpow_sub_one₀ (by norm_num), zpow_natCast, ← div_eq_mul_inv]
    have hle : ((2 ^ n.log2 : Nat) : Rat) ≤ n := by
      exact_mod_cast Nat.log2_self_le (by omega : n ≠ 0)
    push_cast at hle
    linarith
  simp only [log2, hnum, hden, Int.toNat_natCast, hone, Nat.cast_one, if_pos hpow]

/-- Half an odd number of at most 53 bits is not rounded. -/
lemma round?_half {n : Nat} (hodd : n % 2 = 1) (hn : n < 2 ^ 53) :
    round? (n / 2) = some ((n : Rat) / 2) := by
  have hpos : 0 < n := by omega
  have hbits : n.log2 < 53 := (Nat.log2_lt hpos.ne').2 hn
  obtain ⟨k, hk⟩ : ∃ k, n.log2 + k = 52 := ⟨52 - n.log2, by omega⟩
  have hlast : lastBit (n / 2) = -((k + 1 : Nat) : Int) := by
    rw [lastBit, log2_half hodd]
    omega
  have hmultiple : (n : Rat) / 2 = ((n * 2 ^ k : Int) : Rat) * twoPow (lastBit (n / 2)) := by
    rw [hlast, twoPow_eq_zpow, zpow_neg, zpow_natCast, pow_succ]
    push_cast
    field_simp
  have hsmall : (n : Rat) / 2 < 2 ^ 53 := by
    have hcast : (n : Rat) < 2 ^ 53 := by exact_mod_cast hn
    linarith [(by positivity : (0 : Rat) ≤ n)]
  exact round?_eq_some_self (by positivity) hmultiple hsmall

/-! ## Integers -/

/-- The number is the integer `z`; a zero may have either sign. -/
def Is (x : Double) (z : Int) : Prop :=
  ∃ negative, x = .finite negative (z.natAbs : Rat) ∧ signed negative z.natAbs = z

variable {x y : Double} {z w : Int}

/-- The magnitude of an integer with a sign is the integer if the sign is its own. -/
lemma signed_natAbs_eq_iff {negative : Bool} :
    signed negative z.natAbs = z ↔ if negative then z ≤ 0 else 0 ≤ z := by
  cases negative with
  | false =>
    have hcast : ((z.natAbs : Nat) : Rat) = z ↔ (z.natAbs : Int) = z := by
      rw [← Int.cast_natCast, Int.cast_inj]
    simp only [signed, Bool.false_eq_true, if_false, hcast]
    omega
  | true =>
    have hcast : -((z.natAbs : Nat) : Rat) = z ↔ -(z.natAbs : Int) = z := by
      rw [← Int.cast_natCast, ← Int.cast_neg, Int.cast_inj]
    simp only [signed, if_true, hcast]
    omega

/-- An integer of at most 53 bits that is rounded is itself. -/
lemma is_ofSignedRat (zeroNegative : Bool) (hz : z.natAbs < 2 ^ 53) :
    (ofSignedRat zeroNegative z).Is z := by
  have hround := round?_natCast hz
  rcases lt_trichotomy z 0 with hneg | rfl | hpos
  · have habs : ((z.natAbs : Nat) : Rat) = -z := by
      rw [← Int.cast_natCast, Int.ofNat_natAbs_of_nonpos hneg.le, Int.cast_neg]
    have hlt : (z : Rat) < 0 := by exact_mod_cast hneg
    rw [habs] at hround
    refine ⟨true, ?_, signed_natAbs_eq_iff.2 hneg.le⟩
    rw [ofSignedRat, if_neg hlt.ne, if_pos hlt, ofMagnitude, hround, habs]
  · exact ⟨zeroNegative, by simp [ofSignedRat], signed_natAbs_eq_iff.2 (by simp)⟩
  · have habs : ((z.natAbs : Nat) : Rat) = z := by
      rw [← Int.cast_natCast, Int.natAbs_of_nonneg hpos.le]
    have hgt : (0 : Rat) < z := by exact_mod_cast hpos
    rw [habs] at hround
    refine ⟨false, ?_, signed_natAbs_eq_iff.2 hpos.le⟩
    rw [ofSignedRat, if_neg hgt.ne', if_neg hgt.le.not_gt, ofMagnitude, hround, habs]

/-- A natural number of at most 53 bits is held exactly. -/
theorem is_ofNat {n : Nat} (hn : n < 2 ^ 53) : (ofNat n).Is n :=
  is_ofSignedRat (z := n) false hn

/-- The decimal numeral of a natural number of at most 53 bits is read exactly. -/
theorem is_ofNumeral {n : Nat} (hn : n < 2 ^ 53) : (ofNumeral false (Text.ofNat n)).Is n := by
  have hdigits : ∀ c ∈ Text.ofNat n, (c != '.') = true := fun c hc => by
    have hdigit := Nat.isDigit_of_mem_toDigits (by decide) (by decide) hc
    rw [bne_iff_ne]
    rintro rfl
    cases hdigit
  have hvalue : Text.natOfDigits (Text.ofNat n) = n :=
    Nat.ofDigitChars_toDigits (by decide) (by decide)
  have hnumeral : ofNumeral false (Text.ofNat n) = ofDecimal false n 0 := by
    rw [ofNumeral, List.takeWhile_eq_self_iff.2 hdigits, List.dropWhile_eq_nil_iff.2 hdigits]
    simp [hvalue]
  have hunit : tenPow 0 = 1 := rfl
  rw [hnumeral, ofDecimal]
  split
  case isTrue hzero =>
    subst hzero
    exact ⟨false, rfl, rfl⟩
  case isFalse =>
    rw [if_neg (by decide), if_neg (by omega), hunit, mul_one, ofMagnitude, round?_natCast hn]
    exact ⟨false, rfl, rfl⟩

namespace Is

variable (hx : x.Is z) (hy : y.Is w)
include hx

lemma neg : (-x).Is (-z) := by
  obtain ⟨s, rfl, hs⟩ := hx
  refine ⟨!s, ?_, ?_⟩
  · rw [Int.natAbs_neg]
    rfl
  · rw [Int.natAbs_neg, Int.cast_neg, ← hs]
    cases s <;> simp [signed]

include hy

/-- A sum of at most 53 bits is exact. -/
lemma add (hzw : (z + w).natAbs < 2 ^ 53) : (x + y).Is (z + w) := by
  obtain ⟨s, rfl, hs⟩ := hx
  obtain ⟨t, rfl, ht⟩ := hy
  have hsum : Double.finite s z.natAbs + Double.finite t w.natAbs =
      ofSignedRat (s && t) ((z + w : Int) : Rat) := by
    rw [Int.cast_add, ← hs, ← ht]
    rfl
  rw [hsum]
  exact is_ofSignedRat _ hzw

/-- A difference of at most 53 bits is exact. -/
lemma sub (hzw : (z - w).natAbs < 2 ^ 53) : (x - y).Is (z - w) := by
  rw [sub_eq_add_neg] at hzw ⊢
  exact hx.add hy.neg hzw

/-- The remainder of integers is exact, and it has the sign of the dividend. -/
lemma remainder (hw : w ≠ 0) : (x.remainder y).Is (z.tmod w) := by
  obtain ⟨s, rfl, hs⟩ := hx
  obtain ⟨t, rfl, -⟩ := hy
  have hne : ((w.natAbs : Nat) : Rat) ≠ 0 := by simpa using hw
  have hfloor : ((z.natAbs : Rat) / w.natAbs).floor = (z.natAbs / w.natAbs : Nat) := by
    exact Rat.floor_natCast_div_natCast z.natAbs w.natAbs
  have hmod : (z.natAbs : Rat) - w.natAbs * ((z.natAbs : Rat) / w.natAbs).floor =
      ((z.tmod w).natAbs : Nat) := by
    have hdivision : (z.natAbs : Rat) =
        w.natAbs * (z.natAbs / w.natAbs : Nat) + (z.natAbs % w.natAbs : Nat) := by
      exact_mod_cast (Nat.div_add_mod z.natAbs w.natAbs).symm
    rw [hfloor, Int.natAbs_tmod, sub_eq_iff_eq_add', Int.cast_natCast, hdivision]
  refine ⟨s, by rw [Double.remainder, if_neg hne, hmod], ?_⟩
  rw [signed_natAbs_eq_iff] at hs ⊢
  cases s with
  | false => exact Int.tmod_nonneg w hs
  | true =>
    have hneg := Int.tmod_nonneg w (Int.neg_nonneg_of_nonpos hs)
    rw [Int.neg_tmod] at hneg
    exact Int.nonpos_of_neg_nonneg hneg

omit hy in
/-- An integer of at most 52 bits is the floor of what is more by a half. -/
lemma floor_add_half (hz : z.natAbs < 2 ^ 52) : (x + Double.ofRat (mkRat 1 2)).floor.Is z := by
  obtain ⟨s, rfl, hs⟩ := hx
  have hhalf : Double.ofRat (mkRat 1 2) = .finite false (1 / 2) := by decide +kernel
  have hsum : Double.finite s z.natAbs + Double.ofRat (mkRat 1 2) =
      ofSignedRat (s && false) ((z : Rat) + 1 / 2) := by
    rw [hhalf, ← hs]
    rfl
  have hfloor : ((z : Rat) + 1 / 2).floor = z := by
    have hsplit : (z : Rat) + 1 / 2 = ((2 * z + 1 : Int) : Rat) / (2 : Nat) := by
      push_cast
      ring
    have hdiv : (2 * z + 1) / ((2 : Nat) : Int) = z := by omega
    rw [hsplit]
    exact (Rat.floor_intCast_div_natCast (2 * z + 1) 2).trans hdiv
  rw [hsum]
  rcases lt_or_ge z 0 with hneg | hnonneg
  · have hmagnitude : -((z : Rat) + 1 / 2) = ((2 * z.natAbs - 1 : Nat) : Rat) / 2 := by
      have habs : ((2 * z.natAbs - 1 : Nat) : Int) = -(2 * z + 1) := by omega
      rw [← Int.cast_natCast, habs]
      push_cast
      ring
    have hround := round?_half (n := 2 * z.natAbs - 1) (by omega) (by omega)
    have hlt : (z : Rat) + 1 / 2 < 0 := by
      have hle : (z : Rat) ≤ -1 := by exact_mod_cast Int.le_sub_one_of_lt hneg
      linarith
    have hceil : (-((z : Rat) + 1 / 2)).ceil = (z.natAbs : Int) := by
      rw [Rat.ceil_eq_neg_floor_neg, neg_neg, hfloor]
      omega
    rw [← hmagnitude] at hround
    refine ⟨true, ?_, signed_natAbs_eq_iff.2 hneg.le⟩
    rw [ofSignedRat, if_neg hlt.ne, if_pos hlt, ofMagnitude, hround]
    simp only [Double.floor, hceil, Int.cast_natCast]
  · have hmagnitude : (z : Rat) + 1 / 2 = ((2 * z.natAbs + 1 : Nat) : Rat) / 2 := by
      have habs : ((2 * z.natAbs + 1 : Nat) : Int) = 2 * z + 1 := by omega
      rw [← Int.cast_natCast, habs]
      push_cast
      ring
    have hround := round?_half (n := 2 * z.natAbs + 1) (by omega) (by omega)
    have hgt : 0 < (z : Rat) + 1 / 2 := by
      have hle : (0 : Rat) ≤ z := by exact_mod_cast hnonneg
      linarith
    rw [← hmagnitude] at hround
    refine ⟨false, ?_, signed_natAbs_eq_iff.2 hnonneg⟩
    rw [ofSignedRat, if_neg hgt.ne', if_neg hgt.le.not_gt, ofMagnitude, hround]
    simp only [Double.floor, hfloor]
    rw [← Int.cast_natCast, Int.natAbs_of_nonneg hnonneg]

/-- Integers are equal as numbers just if they are equal. -/
lemma eq_iff : x.eq y = true ↔ z = w := by
  obtain ⟨s, rfl, hs⟩ := hx
  obtain ⟨t, rfl, ht⟩ := hy
  rw [Double.eq, beq_iff_eq, hs, ht, Int.cast_inj]

/-- Integers are in order as numbers just if they are in order. -/
lemma le_iff : x.le y = true ↔ z ≤ w := by
  rw [le, Bool.or_eq_true, hx.eq_iff hy, le_iff_lt_or_eq]
  obtain ⟨s, rfl, hs⟩ := hx
  obtain ⟨t, rfl, ht⟩ := hy
  rw [lt, decide_eq_true_eq, hs, ht, Int.cast_lt]

end Is

end WebCrawl.Double
