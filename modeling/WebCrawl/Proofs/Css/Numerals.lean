import Mathlib.Tactic.Common
import WebCrawl.Proofs.Css.Joining
import WebCrawl.Proofs.Css.Patterns

set_option autoImplicit false

/-!
# The numbers of an index

A numeral stands for an integer of 64 bits, which is not the least one. A progression has a factor and an
offset, each of which may be missing, and what is read of a text is the longest of its beginnings that
is a progression or a numeral.

## Main definitions

* `WebCrawl.Css.IsNatural`, `WebCrawl.Css.IsInteger` — what numerals stand for.
* `WebCrawl.Css.IsFactor`, `WebCrawl.Css.IsOffset`, `WebCrawl.Css.IsProgression` — what progressions
  stand for.
* `WebCrawl.Css.OffsetParts` — the parts of an offset.

## Main results

* `WebCrawl.Css.integerValue?_eq_some_iff` — the value of a numeral.
* `WebCrawl.Css.recognizes_progression` — the pattern of progressions.
* `WebCrawl.Css.nthNumber_eq_ok_iff_of_some`, `WebCrawl.Css.nthNumber_eq_ok_iff_of_none` — what is read
  of an index that is no word.
-/

namespace WebCrawl.Css

open Reader Text Computability
open Lexeme (run_append drop_run take_run coefficientSize_eq_length take_coefficientSize_mem
  mem_optional_sign EndsNumeral)

/-! ## Integers -/

/-- The text has ASCII digits only, and stands for a number that has 63 bits at most. -/
structure IsNatural (x : Text) (n : Nat) : Prop where
  /-- There are digits. -/
  ne_nil : x ≠ []
  /-- All of them are ASCII digits. -/
  digits : ∀ c ∈ x, c.isDigit = true
  /-- They stand for the number. -/
  value : natOfDigits x = n
  /-- The number is in range. -/
  range : n < 2 ^ 63

/-- The text is a numeral, and stands for an integer of 64 bits that is not the least one. -/
inductive IsInteger : Text → Int → Prop where
  | unsigned {x : Text} {n : Nat} (h : IsNatural x n) : IsInteger x n
  | positive {x : Text} {n : Nat} (h : IsNatural x n) : IsInteger ('+' :: x) n
  | negative {x : Text} {n : Nat} (h : IsNatural x n) : IsInteger ('-' :: x) (-n)

section Integers

variable {x y : Text} {n : Nat} {a b : Int}

lemma isDecimal_of_isDigit {c : Char} (h : c.isDigit = true) : isDecimal c = true := by
  have hrange : c.toNat < 128 := by
    simp only [Char.isDigit, Bool.and_eq_true, decide_eq_true_eq, ge_iff_le,
      UInt32.le_iff_toNat_le] at h
    exact Nat.lt_of_le_of_lt h.2 (by decide)
  rw [isDecimal, if_pos hrange, h]

lemma not_isBlank_of_isDecimal {c : Char} (h : isDecimal c = true) : isBlank c = false := by
  by_contra hblank
  rw [Bool.not_eq_false] at hblank
  rw [excludes_isDecimal c (.inl hblank)] at h
  cases h

lemma not_sign_of_isDecimal {c : Char} (h : isDecimal c = true) : c ≠ '-' ∧ c ≠ '+' := by
  constructor <;> (rintro rfl; cases h)

/-- The value of some digits with a sign for which they are taken. -/
def signedValue? (negative : Bool) (digits : Text) : Option Int :=
  if digits.isEmpty || !digits.all Char.isDigit || maxInteger < natOfDigits digits then none
  else some (if negative then -(natOfDigits digits : Int) else natOfDigits digits)

lemma signedValue?_eq_some_iff {negative : Bool} : signedValue? negative x = some a ↔
    ∃ n, IsNatural x n ∧ a = if negative then -(n : Int) else n := by
  have hrange : natOfDigits x < 2 ^ 63 ↔ ¬maxInteger < natOfDigits x := by
    have hmax : maxInteger = 2 ^ 63 - 1 := rfl
    omega
  unfold signedValue?
  constructor
  · intro h
    split at h
    · cases h
    · rename_i hgood
      simp only [Bool.or_eq_true, not_or, Bool.not_eq_true, Bool.not_eq_false', List.all_eq_true,
        List.isEmpty_eq_false_iff, decide_eq_true_eq] at hgood
      exact ⟨_, ⟨hgood.1.1, hgood.1.2, rfl, hrange.2 hgood.2⟩, (Option.some.inj h).symm⟩
  · rintro ⟨_, ⟨hne, hdigits, rfl, hlt⟩, rfl⟩
    refine if_neg ?_
    simp only [Bool.or_eq_true, not_or, Bool.not_eq_true, Bool.not_eq_false', List.all_eq_true,
      List.isEmpty_eq_false_iff, decide_eq_true_eq]
    exact ⟨⟨hne, hdigits⟩, hrange.1 hlt⟩

lemma integerValue?_minus (y : Text) : integerValue? ('-' :: y) = signedValue? true y := rfl

/-- A text that begins with no sign is taken for itself, and so it is after a plus sign. -/
lemma integerValue?_unsigned (h : ∀ c ∈ y.head?, c ≠ '-' ∧ c ≠ '+') :
    integerValue? y = signedValue? false y ∧ integerValue? ('+' :: y) = signedValue? false y := by
  have hdrop : y.dropWhile (· == '+') = y ∧ ('+' :: y).dropWhile (· == '+') = y := by
    have hy : y.dropWhile (· == '+') = y := by
      cases y with
      | nil => rfl
      | cons c y => exact List.dropWhile_cons_of_neg (by simpa using (h c rfl).2)
    exact ⟨hy, (List.dropWhile_cons_of_pos rfl).trans hy⟩
  have hhead : (y.head? == some '-') = false := by
    cases y with
    | nil => rfl
    | cons c y => simpa using (h c rfl).1
  simp only [integerValue?, hdrop, hhead]
  exact ⟨rfl, rfl⟩

/-- The value of a numeral.

**Proof sketch.** The sign is the first character if there is one, and all others are digits. -/
lemma integerValue?_eq_some_iff (hx : x ∈ 1 + Pattern.sign) (hy : ∀ c ∈ y, isDecimal c = true) :
    integerValue? (x ++ y) = some a ↔ IsInteger (x ++ y) a := by
  have hhead : ∀ c ∈ y.head?, c ≠ '-' ∧ c ≠ '+' := fun c hc =>
    not_sign_of_isDecimal (hy c (List.mem_of_mem_head? hc))
  have hnatural : ∀ {z n}, IsNatural z n → ∀ c ∈ z.head?, c ≠ '-' ∧ c ≠ '+' := fun hz c hc =>
    not_sign_of_isDecimal (isDecimal_of_isDigit (hz.digits c (List.mem_of_mem_head? hc)))
  rcases mem_optional_sign.1 hx with rfl | rfl | rfl
  · rw [List.nil_append, (integerValue?_unsigned hhead).1, signedValue?_eq_some_iff]
    constructor
    · rintro ⟨n, hn, rfl⟩
      exact .unsigned hn
    · intro h
      cases h with
      | unsigned h => exact ⟨_, h, rfl⟩
      | positive h => exact absurd rfl (hhead _ rfl).2
      | negative h => exact absurd rfl (hhead _ rfl).1
  · rw [List.singleton_append, integerValue?_minus, signedValue?_eq_some_iff]
    constructor
    · rintro ⟨n, hn, rfl⟩
      exact .negative hn
    · intro h
      cases h with
      | unsigned h => exact absurd rfl (hnatural h _ rfl).1
      | negative h => exact ⟨_, h, rfl⟩
  · rw [List.singleton_append, (integerValue?_unsigned hhead).2, signedValue?_eq_some_iff]
    constructor
    · rintro ⟨n, hn, rfl⟩
      exact .positive hn
    · intro h
      cases h with
      | unsigned h => exact absurd rfl (hnatural h _ rfl).2
      | positive h => exact ⟨_, h, rfl⟩

/-- A sign alone, or nothing, is no numeral. -/
lemma IsInteger.exists_isDigit (h : IsInteger x a) : ∃ c ∈ x, c.isDigit = true := by
  have hnatural : ∀ {y n}, IsNatural y n → ∃ c ∈ y, c.isDigit = true := by
    intro y n hy
    obtain ⟨c, hc⟩ := List.exists_mem_of_ne_nil y hy.ne_nil
    exact ⟨c, hc, hy.digits c hc⟩
  cases h with
  | unsigned h => exact hnatural h
  | positive h | negative h =>
    obtain ⟨c, hc, hdigit⟩ := hnatural h
    exact ⟨c, .tail _ hc, hdigit⟩

end Integers

/-! ## Factors and offsets -/

/-- The text is the factor of a progression. A sign alone, or nothing, stands for one. -/
inductive IsFactor : Text → Int → Prop where
  | none : IsFactor [] 1
  | plus : IsFactor ['+'] 1
  | minus : IsFactor ['-'] (-1)
  | integer {x : Text} {a : Int} (h : IsInteger x a) : IsFactor x a

/-- The text is the offset of a progression. Nothing stands for zero. -/
inductive IsOffset : Text → Int → Prop where
  | none : IsOffset [] 0
  | plus {x y z : Text} {n : Nat} (hx : Blanks x) (hy : Blanks y) (h : IsNatural z n) :
    IsOffset (x ++ '+' :: (y ++ z)) n
  | minus {x y z : Text} {n : Nat} (hx : Blanks x) (hy : Blanks y) (h : IsNatural z n) :
    IsOffset (x ++ '-' :: (y ++ z)) (-n)

/-- The text is a progression. -/
inductive IsProgression : Text → Int → Int → Prop where
  | mk {x y : Text} {c : Char} {a b : Int} (factor : IsFactor x a) (letter : c = 'n' ∨ c = 'N')
    (offset : IsOffset y b) : IsProgression (x ++ c :: y) a b

/-- The parts of an offset, if there is one: whether it is subtracted, and its digits. -/
inductive OffsetParts : Text → Option (Bool × Text) → Prop where
  | none : OffsetParts [] none
  | some {x y z : Text} {c : Char} (hx : Blanks x) (hc : c = '-' ∨ c = '+') (hy : Blanks y)
    (hne : z ≠ []) (hz : ∀ d ∈ z, isDecimal d = true) :
    OffsetParts (x ++ c :: (y ++ z)) (some (decide (c = '-'), z))

section Parts

variable {x y z t w r s : Text} {c d : Char} {a b : Int} {n : Nat} {o : Option (Bool × Text)}

lemma mem_coefficient : x ∈ Pattern.coefficient ↔
    ∃ y z, y ∈ 1 + Pattern.sign ∧ (∀ c ∈ z, isDecimal c = true) ∧ x = y ++ z := by
  rw [Pattern.coefficient, Language.mem_mul]
  constructor
  · rintro ⟨y, hy, z, hz, rfl⟩
    exact ⟨y, z, hy, mem_star.1 hz, rfl⟩
  · rintro ⟨y, z, hy, hz, rfl⟩
    exact ⟨y, hy, z, mem_star.2 hz, rfl⟩

lemma isFactor_nil_iff : IsFactor [] a ↔ a = 1 := by
  refine ⟨fun h => ?_, fun h => h ▸ .none⟩
  cases h with
  | none => rfl
  | integer h => simpa using h.exists_isDigit

lemma isFactor_plus_iff : IsFactor ['+'] a ↔ a = 1 := by
  refine ⟨fun h => ?_, fun h => h ▸ .plus⟩
  cases h with
  | plus => rfl
  | integer h => simpa using h.exists_isDigit

lemma isFactor_minus_iff : IsFactor ['-'] a ↔ a = -1 := by
  refine ⟨fun h => ?_, fun h => h ▸ .minus⟩
  cases h with
  | minus => rfl
  | integer h => simpa using h.exists_isDigit

/-- The factor of a progression has the value that it stands for. -/
lemma coefficientOf_eq_ok_iff (hx : x ∈ Pattern.coefficient) :
    coefficientOf x s = .ok (a, r) ↔ s = r ∧ IsFactor x a := by
  obtain ⟨y, z, hy, hz, rfl⟩ := mem_coefficient.1 hx
  unfold coefficientOf
  split
  case isTrue h =>
    rw [pure_apply, Except.ok.injEq, Prod.mk.injEq, and_comm]
    refine and_congr_right fun _ => ?_
    rcases h with h | h
    · rw [h, isFactor_nil_iff, eq_comm]
    · rw [h, isFactor_plus_iff, eq_comm]
  case isFalse hnot =>
    rw [not_or] at hnot
    split
    case isTrue h =>
      rw [pure_apply, Except.ok.injEq, Prod.mk.injEq, and_comm, h, isFactor_minus_iff]
      exact and_congr_right fun _ => eq_comm
    case isFalse hnot' =>
      rw [integerOf, require_eq_ok_iff, integerValue?_eq_some_iff hy hz, and_comm]
      refine and_congr_right fun _ => ⟨.integer, fun ha => ?_⟩
      generalize y ++ z = x at *
      cases ha with
      | none => exact absurd rfl hnot.1
      | plus => exact absurd rfl hnot.2
      | minus => exact absurd rfl hnot'
      | integer h => exact h

/-- Blanks before a character that is none are known. -/
lemma blanks_append_inj (hx : Blanks x) (hy : Blanks y) (hc : isBlank c = false)
    (hd : isBlank d = false) (h : x ++ c :: z = y ++ d :: w) : x = y ∧ c = d ∧ z = w := by
  have htake : ∀ {x : Text} {c z}, Blanks x → isBlank c = false →
      (x ++ c :: z).takeWhile isBlank = x := fun hx hc => by
    rw [List.takeWhile_append_of_pos hx, List.takeWhile_cons_of_neg (by simp [hc]), List.append_nil]
  have hxy : x = y := by rw [← htake (z := z) hx hc, h, htake hy hd]
  subst hxy
  exact ⟨rfl, List.cons.inj (List.append_cancel_left h)⟩

/-- The parts of an offset are known. -/
lemma OffsetParts.unique {o' : Option (Bool × Text)} (h : OffsetParts x o) (h' : OffsetParts x o') :
    o = o' := by
  have hsign : ∀ {c}, c = '-' ∨ c = '+' → isBlank c = false := by
    rintro c (rfl | rfl) <;> rfl
  generalize hw : x = w at h'
  cases h with
  | none =>
    cases h' with
    | none => rfl
    | some => simp at hw
  | some hx hc hy hne hz =>
    cases h' with
    | none => simp at hw
    | some hx' hc' hy' hne' hz' =>
      obtain ⟨-, rfl, hrest⟩ := blanks_append_inj hx hx' (hsign hc) (hsign hc') hw
      obtain ⟨d, z, rfl⟩ := List.exists_cons_of_ne_nil hne
      obtain ⟨d', z', rfl⟩ := List.exists_cons_of_ne_nil hne'
      obtain ⟨-, rfl, rfl⟩ := blanks_append_inj hy hy'
        (not_isBlank_of_isDecimal (hz d (List.mem_cons_self ..)))
        (not_isBlank_of_isDecimal (hz' d' (List.mem_cons_self ..))) hrest
      rfl

/-- An offset has parts, and its digits stand for a number. -/
lemma exists_parts_of_isOffset (h : IsOffset y b) : ∃ o, OffsetParts y o ∧ match o with
    | none => b = 0
    | some (negative, digits) => ∃ n : Nat, IsNatural digits n ∧ b = if negative then -(n : Int) else n := by
  have hdecimal : ∀ {z n}, IsNatural z n → ∀ d ∈ z, isDecimal d = true := fun h d hd =>
    isDecimal_of_isDigit (h.digits d hd)
  cases h with
  | none => exact ⟨none, .none, rfl⟩
  | plus hx hy h => exact ⟨_, .some hx (.inr rfl) hy h.ne_nil (hdecimal h), _, h, rfl⟩
  | minus hx hy h => exact ⟨_, .some hx (.inl rfl) hy h.ne_nil (hdecimal h), _, h, rfl⟩

/-- The offset of a progression has the value that it stands for. -/
lemma offsetOf_eq_ok_iff (h : OffsetParts y o) :
    offsetOf o s = .ok (b, r) ↔ s = r ∧ IsOffset y b := by
  constructor
  · intro hb
    cases h with
    | none =>
      obtain ⟨rfl, rfl⟩ : (0 : Int) = b ∧ s = r := by simpa [offsetOf] using hb
      exact ⟨rfl, .none⟩
    | some hx hc hy hne hz =>
      obtain ⟨i, t, hread, hb⟩ := bind_eq_ok_iff.1 hb
      obtain ⟨hi, rfl⟩ := require_eq_ok_iff.1 hread
      obtain ⟨rfl, rfl⟩ : _ = b ∧ s = r := by simpa using hb
      have hhead := fun d hd => not_sign_of_isDecimal (hz d (List.mem_of_mem_head? hd))
      rw [(integerValue?_unsigned hhead).1, signedValue?_eq_some_iff] at hi
      obtain ⟨n, hn, rfl⟩ := hi
      refine ⟨rfl, ?_⟩
      rcases hc with rfl | rfl
      · exact .minus hx hy hn
      · exact .plus hx hy hn
  · rintro ⟨rfl, hb⟩
    obtain ⟨o', ho', hvalue⟩ := exists_parts_of_isOffset hb
    obtain rfl := h.unique ho'
    cases o with
    | none =>
      obtain rfl : b = 0 := hvalue
      rfl
    | some o =>
      obtain ⟨negative, digits⟩ := o
      obtain ⟨n, hn, rfl⟩ := hvalue
      have hhead := fun d hd => not_sign_of_isDecimal
        (isDecimal_of_isDigit (hn.digits d (List.mem_of_mem_head? hd)))
      have hint : integerValue? digits = some (n : Int) := by
        rw [(integerValue?_unsigned hhead).1, signedValue?_eq_some_iff]
        exact ⟨n, hn, rfl⟩
      exact bind_of_ok (require_eq_ok_iff.2 ⟨hint, rfl⟩)

end Parts

/-! ## Progressions -/

section Progressions

variable {x y t w r s : Text} {c : Char} {a b : Int} {n : Nat} {negative : Bool} {digits : Text}
  {parts : ProgressionLexeme}

lemma mem_offset : y ∈ Pattern.offset ↔ ∃ parts, OffsetParts y (some parts) := by
  rw [Pattern.offset, Language.mem_mul]
  constructor
  · rintro ⟨u, hu, _, hrest, rfl⟩
    obtain ⟨c, _, rfl, hc, hafter⟩ := mem_one_mul.1 hrest
    obtain ⟨v, hv, z, hdigits, rfl⟩ := Language.mem_mul.1 hafter
    obtain ⟨hne, hz⟩ := mem_several.1 hdigits
    exact ⟨_, .some (mem_star.1 hu) (by simpa using hc) (mem_star.1 hv) hne hz⟩
  · rintro ⟨_, h⟩
    cases h with
    | some hx hc hy hne hz =>
      refine ⟨_, mem_star.2 hx, _, mem_one_mul.2 ⟨_, _, rfl, by simpa using hc, ?_⟩, rfl⟩
      exact Language.append_mem_mul (mem_star.2 hy) (mem_several.2 ⟨hne, hz⟩)

/-- The offset that is read is the beginning of the text. -/
lemma exists_of_progressionOffset? (h : progressionOffset? s = some (negative, digits, n)) :
    ∃ y r, s = y ++ r ∧ y.length = n ∧ OffsetParts y (some (negative, digits)) := by
  cases hs : s.dropWhile isBlank with
  | nil =>
    rw [← drop_run] at hs
    simp [progressionOffset?, hs] at h
  | cons c r =>
    rw [progressionOffset?_eq hs] at h
    split_ifs at h with hc hempty
    obtain ⟨rfl, rfl, rfl⟩ : decide (c = '-') = negative ∧ _ = digits ∧ _ = n := by simpa using h
    have hsplit : s = s.takeWhile isBlank ++ c :: (r.takeWhile isBlank ++
        (r.dropWhile isBlank).takeWhile isDecimal) ++ (r.dropWhile isBlank).dropWhile isDecimal := by
      have hr : r.takeWhile isBlank ++ ((r.dropWhile isBlank).takeWhile isDecimal ++
          (r.dropWhile isBlank).dropWhile isDecimal) = r := by
        rw [List.takeWhile_append_dropWhile, List.takeWhile_append_dropWhile]
      rw [List.append_assoc, List.cons_append, List.append_assoc, hr, ← hs,
        List.takeWhile_append_dropWhile]
    refine ⟨_, _, hsplit, ?_, .some (takeWhile_blanks s) hc (takeWhile_blanks r)
      (by simpa using hempty) fun d hd => List.mem_takeWhile_imp hd⟩
    simp only [List.length_append, List.length_cons, Lexeme.run]
    omega

/-- An offset that stands at the beginning of a text is read, with the digits after it. -/
lemma progressionOffset?_append_eq (h : OffsetParts y (some (negative, digits))) (t : Text) :
    progressionOffset? (y ++ t) =
      some (negative, digits ++ t.takeWhile isDecimal, y.length + (t.takeWhile isDecimal).length) := by
  cases h with
  | @some u v _ c hu hc hv hne hz =>
    have hsign : isBlank c = false := by
      rcases hc with rfl | rfl <;> rfl
    obtain ⟨d, z, rfl⟩ := List.exists_cons_of_ne_nil hne
    have hd := not_isBlank_of_isDecimal (hz d (List.mem_cons_self ..))
    have hdrop : (u ++ c :: (v ++ d :: z) ++ t).dropWhile isBlank = c :: (v ++ d :: z ++ t) := by
      rw [List.append_assoc, List.dropWhile_append_of_pos hu, List.cons_append,
        List.dropWhile_cons_of_neg (by simp [hsign])]
    have hrest : (v ++ d :: z ++ t).dropWhile isBlank = d :: z ++ t := by
      rw [List.append_assoc, List.dropWhile_append_of_pos hv, List.cons_append,
        List.dropWhile_cons_of_neg (by simp [hd])]
    have hbefore : Lexeme.run isBlank (u ++ c :: (v ++ d :: z) ++ t) = u.length := by
      rw [List.append_assoc, run_append hu, List.cons_append, Lexeme.run,
        List.takeWhile_cons_of_neg (by simp [hsign])]
      rfl
    have hbetween : Lexeme.run isBlank (v ++ d :: z ++ t) = v.length := by
      rw [List.append_assoc, run_append hv, List.cons_append, Lexeme.run,
        List.takeWhile_cons_of_neg (by simp [hd])]
      rfl
    rw [progressionOffset?_eq hdrop, if_pos hc, hrest, hbefore, hbetween,
      List.takeWhile_append_of_pos hz, if_neg (by simp)]
    simp only [List.length_append, List.length_cons]
    refine congrArg (fun n => some (decide (c = '-'), d :: z ++ t.takeWhile isDecimal, n)) ?_
    omega

/-- The letter of a progression ends its factor. -/
lemma endsNumeral_of_letter (hc : c = 'n' ∨ c = 'N') (t : Text) : EndsNumeral (c :: t) := by
  intro d hd
  obtain rfl : c = d := by simpa using hd
  rcases hc with rfl | rfl <;> decide

/-- A progression is read of a text that begins with its factor and its letter. -/
lemma progression?_append_eq (hx : x ∈ Pattern.coefficient) (hc : c = 'n' ∨ c = 'N') (t : Text) :
    progression? (x ++ c :: t) = match progressionOffset? t with
      | some (negative, digits, n) => some ⟨x, some (negative, digits), x.length + 1 + n⟩
      | none => some ⟨x, none, x.length + 1⟩ := by
  have hsize := coefficientSize_eq_length hx (endsNumeral_of_letter hc t)
  have hdrop : (x ++ c :: t).drop (coefficientSize (x ++ c :: t)) = c :: t := by
    rw [hsize, List.drop_left]
  have hread := progression?_eq_some hdrop hc
  rw [hsize, List.take_left] at hread
  exact hread

/-- The parts of a progression that is read make up the beginning of the text. -/
lemma exists_of_progression? (h : progression? s = some parts) : ∃ c y r,
    s = parts.coefficient ++ c :: y ++ r ∧ parts.size = (parts.coefficient ++ c :: y).length ∧
      parts.coefficient ∈ Pattern.coefficient ∧ (c = 'n' ∨ c = 'N') ∧
        OffsetParts y parts.offset := by
  have hletter : ∃ c r, s.drop (coefficientSize s) = c :: r ∧ (c = 'n' ∨ c = 'N') := by
    by_contra hnot
    rw [progression?_eq_none] at h
    · cases h
    · intro c hc
      obtain ⟨r, hr⟩ := List.head?_eq_some_iff.1 hc
      exact not_or.1 fun hc => hnot ⟨c, r, hr, hc⟩
  obtain ⟨c, t, hdrop, hc⟩ := hletter
  have hsplit : s = s.take (coefficientSize s) ++ c :: t := by
    rw [← hdrop, List.take_append_drop]
  have hmem := take_coefficientSize_mem s
  rw [hsplit, progression?_append_eq hmem hc] at h
  cases ho : progressionOffset? t with
  | none =>
    rw [ho] at h
    obtain rfl := Option.some.inj h
    exact ⟨c, [], t, by simpa using hsplit, by simp, hmem, hc, .none⟩
  | some o =>
    obtain ⟨negative, digits, n⟩ := o
    obtain ⟨y, r, rfl, rfl, hy⟩ := exists_of_progressionOffset? ho
    rw [ho] at h
    obtain rfl := Option.some.inj h
    refine ⟨c, y, r, by simpa using hsplit, ?_, hmem, hc, hy⟩
    simp only [List.length_append, List.length_cons]
    omega

/-- How many characters the progression at the beginning of a text takes. -/
def progressionSize : Lexeme := fun s => ((progression? s).map (·.size)).getD 0

lemma progressionSize_eq (h : progression? s = some parts) : progressionSize s = parts.size := by
  rw [progressionSize, h]
  rfl

lemma recognizes_progression : progressionSize.Recognizes Pattern.progression := by
  have hspec : ∀ s, progressionSize s ≠ 0 → ∃ parts, progression? s = some parts := by
    intro s h
    refine Option.ne_none_iff_exists'.1 fun hnone => h ?_
    rw [progressionSize, hnone]
    rfl
  refine ⟨fun s h => ?_, fun s => ?_, fun w t hw => ?_⟩
  · obtain ⟨parts, hparts⟩ := hspec s h
    obtain ⟨c, y, r, hs, hsize, hmem, hc, hy⟩ := exists_of_progression? hparts
    rw [progressionSize_eq hparts, hsize, hs, List.take_left]
    refine Language.append_mem_mul hmem (mem_one_mul.2 ⟨c, y, rfl, by simpa using hc, ?_⟩)
    cases ho : parts.offset with
    | none =>
      rw [ho] at hy
      cases hy
      exact .inl rfl
    | some o =>
      rw [ho] at hy
      exact .inr (mem_offset.2 ⟨o, hy⟩)
  · by_cases hzero : progressionSize s = 0
    · rw [hzero]
      exact Nat.zero_le _
    · obtain ⟨parts, hparts⟩ := hspec s hzero
      obtain ⟨c, y, r, hs, hsize, -⟩ := exists_of_progression? hparts
      rw [progressionSize_eq hparts, hsize]
      conv_rhs => rw [hs, List.length_append]
      exact Nat.le_add_right _ _
  · obtain ⟨x, hx, _, hrest, rfl⟩ := Language.mem_mul.1 hw
    obtain ⟨c, u, rfl, hc, hu⟩ := mem_one_mul.1 hrest
    refine ⟨by simp, ?_⟩
    have hread := progression?_append_eq hx (by simpa using hc) (u ++ t)
    rw [List.append_assoc, List.cons_append, progressionSize, hread, List.length_append,
      List.length_cons]
    rcases hu with hu | hu
    · obtain rfl := (Language.mem_one _).1 hu
      split
      · exact Nat.le_add_right _ _
      · exact Nat.le_refl _
    · obtain ⟨⟨negative, digits⟩, hu⟩ := mem_offset.1 hu
      rw [progressionOffset?_append_eq hu]
      dsimp only [Option.map_some, Option.getD_some]
      omega

lemma takes_progression_iff : Takes Pattern.progression w s r ↔
    ∃ parts, progression? s = some parts ∧ w = s.take parts.size ∧ r = s.drop parts.size := by
  rw [recognizes_progression.takes_iff]
  constructor
  · rintro ⟨hne, hw, hr⟩
    obtain ⟨parts, hparts⟩ : ∃ parts, progression? s = some parts :=
      Option.ne_none_iff_exists'.1 fun hnone => hne (by rw [progressionSize, hnone]; rfl)
    rw [progressionSize_eq hparts] at hw hr
    exact ⟨parts, hparts, hw, hr⟩
  · rintro ⟨parts, hparts, hw, hr⟩
    rw [progressionSize_eq hparts]
    obtain ⟨c, y, t, -, hsize, -⟩ := exists_of_progression? hparts
    exact ⟨by rw [hsize]; simp, hw, hr⟩

/-- The letter of a progression, and so what stands before and after it, is known. -/
lemma letter_append_inj {x' y' : Text} {c' : Char} (hx : x ∈ Pattern.coefficient)
    (hx' : x' ∈ Pattern.coefficient) (hc : c = 'n' ∨ c = 'N') (hc' : c' = 'n' ∨ c' = 'N')
    (h : x ++ c :: y = x' ++ c' :: y') : x = x' ∧ y = y' := by
  have hsize := coefficientSize_eq_length hx (endsNumeral_of_letter hc y)
  have hsize' := coefficientSize_eq_length hx' (endsNumeral_of_letter hc' y')
  rw [h, hsize'] at hsize
  obtain ⟨rfl, hrest⟩ := List.append_inj h hsize.symm
  exact ⟨rfl, (List.cons.inj hrest).2⟩

/-- A factor has the pattern of factors. -/
lemma IsFactor.mem (h : IsFactor x a) : x ∈ Pattern.coefficient := by
  have hdigits : ∀ {z n}, IsNatural z n → ∀ c ∈ z, isDecimal c = true := fun h c hc =>
    isDecimal_of_isDigit (h.digits c hc)
  rw [mem_coefficient]
  cases h with
  | none => exact ⟨[], [], mem_optional_sign.2 (.inl rfl), by simp, rfl⟩
  | plus => exact ⟨['+'], [], mem_optional_sign.2 (.inr (.inr rfl)), by simp, rfl⟩
  | minus => exact ⟨['-'], [], mem_optional_sign.2 (.inr (.inl rfl)), by simp, rfl⟩
  | integer h =>
    cases h with
    | unsigned h => exact ⟨[], _, mem_optional_sign.2 (.inl rfl), hdigits h, rfl⟩
    | positive h => exact ⟨['+'], _, mem_optional_sign.2 (.inr (.inr rfl)), hdigits h, rfl⟩
    | negative h => exact ⟨['-'], _, mem_optional_sign.2 (.inr (.inl rfl)), hdigits h, rfl⟩

end Progressions

/-! ## Indices that are no words -/

section Indices

variable {s r : Text} {n : Nth} {parts : ProgressionLexeme}

/-- Where a progression occurs, it is read with the value that it stands for. -/
lemma nthNumber_eq_ok_iff_of_some (h : progression? s = some parts) : nthNumber s = .ok (n, r) ↔
    ∃ w a b, Takes Pattern.progression w s r ∧ IsProgression w a b ∧ n = .progression a b := by
  obtain ⟨c, y, t, hs, hsize, hmem, hc, hy⟩ := exists_of_progression? h
  have htake : s.take parts.size = parts.coefficient ++ c :: y := by
    rw [hsize]
    conv_lhs => rw [hs]
    exact List.take_left
  rw [nthNumber_of_some h]
  simp only [bind_eq_ok_iff, skip_apply, pure_apply, Except.ok.injEq, Prod.mk.injEq,
    coefficientOf_eq_ok_iff hmem, offsetOf_eq_ok_iff hy, takes_progression_iff]
  constructor
  · rintro ⟨a, _, ⟨rfl, ha⟩, b, _, ⟨rfl, hb⟩, _, _, ⟨-, rfl⟩, rfl, rfl⟩
    exact ⟨_, a, b, ⟨parts, h, rfl, rfl⟩, htake ▸ .mk ha hc hb, rfl⟩
  · rintro ⟨w, a, b, ⟨parts', h', rfl, rfl⟩, hvalue, rfl⟩
    obtain rfl := Option.some.inj (h.symm.trans h')
    rw [htake] at hvalue
    generalize hw : parts.coefficient ++ c :: y = w at hvalue
    cases hvalue with
    | mk factor letter offset =>
      obtain ⟨rfl, rfl⟩ := letter_append_inj factor.mem hmem letter hc hw.symm
      exact ⟨a, s, ⟨rfl, factor⟩, b, s, ⟨rfl, offset⟩, (), _, ⟨trivial, rfl⟩, rfl, rfl⟩

/-- Where no progression occurs, a numeral is read with the value that it stands for. -/
lemma nthNumber_eq_ok_iff_of_none (h : progression? s = none) : nthNumber s = .ok (n, r) ↔
    ∃ w b, Takes Pattern.integer w s r ∧ IsInteger w b ∧ n = .only b := by
  have hvalue : ∀ {w t b r}, Takes Pattern.integer w s t →
      (integerOf w t = .ok (b, r) ↔ IsInteger w b ∧ t = r) := by
    intro w t b r hw
    obtain ⟨x, hx, y, hy, rfl⟩ := Language.mem_mul.1 hw.mem
    rw [integerOf, require_eq_ok_iff, integerValue?_eq_some_iff hx (mem_several.1 hy).2]
  rw [nthNumber_of_none h]
  simp only [bind_eq_ok_iff, pure_apply, Except.ok.injEq, Prod.mk.injEq,
    Lexeme.recognizes_integer.token_eq_ok_iff]
  constructor
  · rintro ⟨w, t, hw, b, u, hread, rfl, rfl⟩
    obtain ⟨hb, rfl⟩ := (hvalue hw).1 hread
    exact ⟨w, b, hw, hb, rfl⟩
  · rintro ⟨w, b, hw, hb, rfl⟩
    exact ⟨w, r, hw, b, r, (hvalue hw).2 ⟨hb, rfl⟩, rfl, rfl⟩

end Indices

end WebCrawl.Css
