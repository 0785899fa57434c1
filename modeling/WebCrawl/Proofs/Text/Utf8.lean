import Mathlib.Tactic.Common
import WebCrawl.Text.Utf8

set_option autoImplicit false

/-!
# Bytes that are read back

The bytes of a text are read as that text. The bytes of a single character are a first byte, which
tells how many follow and what the second may be, and bytes of six bits each.

## Main definitions

* `WebCrawl.Text.isAscii` — whether a text is in ASCII.

## Main results

* `WebCrawl.Text.decodeChar_utf8EncodeChar` — the bytes of a character are read as that character.
* `WebCrawl.Text.decodeLossy_encode` — the bytes of a text are read as that text.
-/

namespace WebCrawl.Text

/-! ## Characters of ASCII and others -/

@[simp] lemma encode_nil : encode [] = [] := rfl

@[simp] lemma encode_cons (c : Char) (s : Text) :
    encode (c :: s) = String.utf8EncodeChar c ++ encode s := rfl

@[simp] lemma encode_append (s t : Text) : encode (s ++ t) = encode s ++ encode t :=
  List.flatMap_append

/-- A character of ASCII is one byte. -/
lemma utf8EncodeChar_of_ascii {c : Char} (h : c.toNat < 128) :
    String.utf8EncodeChar c = [UInt8.ofNat c.toNat] :=
  if_pos (Nat.le_of_lt_succ h)

/-- The bytes of all other characters are none of ASCII. -/
lemma le_of_mem_utf8EncodeChar {c : Char} (h : 128 ≤ c.toNat) :
    ∀ b ∈ String.utf8EncodeChar c, 128 ≤ b.toNat := by
  have hlow : 128 ≤ c.val.toNat := h
  have hvalid : c.val.toNat < 55296 ∨ 57343 < c.val.toNat ∧ c.val.toNat < 1114112 := c.valid
  intro b hb
  unfold String.utf8EncodeChar at hb
  dsimp only at hb
  generalize c.val.toNat = v at hlow hvalid hb
  split_ifs at hb <;> simp only [List.mem_cons, List.not_mem_nil, or_false] at hb
  · omega
  · rcases hb with rfl | rfl <;> simp only [UInt8.toNat_ofNat'] <;> omega
  · rcases hb with rfl | rfl | rfl <;> simp only [UInt8.toNat_ofNat'] <;> omega
  · rcases hb with rfl | rfl | rfl | rfl <;> simp only [UInt8.toNat_ofNat'] <;> omega

/-- Whether the text is in ASCII. -/
def isAscii (s : Text) : Bool := s.all fun c => decide (c.toNat < 128)

/-- The bytes of a text in ASCII are its characters. -/
lemma encode_of_isAscii {s : Text} (h : isAscii s = true) :
    encode s = s.map fun c => UInt8.ofNat c.toNat := by
  induction s with
  | nil => rfl
  | cons c s ih =>
    simp only [isAscii, List.all_cons, Bool.and_eq_true, decide_eq_true_eq] at h
    rw [encode_cons, utf8EncodeChar_of_ascii h.1, ih h.2]
    rfl

/-- No other character stands in a text in ASCII. -/
lemma not_mem_of_isAscii {s : Text} {c : Char} (h : isAscii s = true) (hc : 128 ≤ c.toNat) :
    c ∉ s := by
  intro hmem
  have hlow : c.toNat < 128 := by simpa using List.all_eq_true.1 h c hmem
  omega

/-! ## First bytes and those that follow -/

/-- The second bytes that go with the first byte of two. -/
lemma secondRange_two {b : UInt8} (h : 0xc2 ≤ b.toNat ∧ b.toNat ≤ 0xdf) :
    secondRange b = some (0x80, 0xbf) := by
  rw [secondRange, if_pos]
  simpa [UInt8.le_iff_toNat_le] using h

/-- The second bytes that go with the first byte of three. -/
lemma secondRange_three {b : UInt8} (h : 0xe0 ≤ b.toNat ∧ b.toNat ≤ 0xef) :
    secondRange b =
      some (if b.toNat = 0xe0 then 0xa0 else 0x80, if b.toNat = 0xed then 0x9f else 0xbf) := by
  simp only [secondRange, UInt8.le_iff_toNat_le, ← UInt8.toNat_inj, UInt8.reduceToNat]
  split_ifs <;> first | rfl | omega

/-- The second bytes that go with the first byte of four. -/
lemma secondRange_four {b : UInt8} (h : 0xf0 ≤ b.toNat ∧ b.toNat ≤ 0xf4) :
    secondRange b =
      some (if b.toNat = 0xf0 then 0x90 else 0x80, if b.toNat = 0xf4 then 0x8f else 0xbf) := by
  simp only [secondRange, UInt8.le_iff_toNat_le, ← UInt8.toNat_inj, UInt8.reduceToNat]
  split_ifs <;> first | rfl | omega

/-- A byte of six bits goes on with a character. -/
lemma isContinuation_ofNat (n : Nat) : isContinuation (UInt8.ofNat (n % 64 + 128)) = true := by
  simp only [isContinuation, UInt8.le_iff_toNat_le, UInt8.reduceToNat, UInt8.toNat_ofNat',
    Bool.and_eq_true, decide_eq_true_eq]
  omega

/-- What a byte of six bits adds. -/
lemma continuationBits_ofNat (n : Nat) :
    continuationBits (UInt8.ofNat (n % 64 + 128)) = n % 64 := by
  simp only [continuationBits, UInt8.toNat_ofNat']
  omega

/-! ## Characters of several bytes -/

section Several

variable {b c d e low high : UInt8} (rest : List UInt8)

lemma decodeChar_two (hb : 0xc2 ≤ b.toNat ∧ b.toNat ≤ 0xdf) (hc : isContinuation c = true) :
    decodeChar b (c :: rest) =
      (some (Char.ofNat (b.toNat % 32 * 64 + continuationBits c)), 1) := by
  simp only [isContinuation, UInt8.le_iff_toNat_le, Bool.and_eq_true, decide_eq_true_eq,
    UInt8.reduceToNat] at hc
  simp only [decodeChar, secondRange_two hb, UInt8.lt_iff_toNat_lt, UInt8.reduceToNat]
  rw [if_neg (by omega), if_neg (by omega), if_pos (by omega)]

lemma decodeChar_three (hb : 0xe0 ≤ b.toNat ∧ b.toNat ≤ 0xef)
    (hs : secondRange b = some (low, high)) (hc : ¬(c < low ∨ high < c))
    (hd : isContinuation d = true) :
    decodeChar b (c :: d :: rest) =
      (some (Char.ofNat ((b.toNat % 16 * 64 + continuationBits c) * 64 + continuationBits d)),
        2) := by
  simp only [decodeChar, hs, UInt8.lt_iff_toNat_lt (a := b), UInt8.reduceToNat]
  rw [if_neg (by omega), if_neg hc, if_neg (by omega), if_neg (by simp [hd]), if_pos (by omega)]

lemma decodeChar_four (hb : 0xf0 ≤ b.toNat ∧ b.toNat ≤ 0xf4)
    (hs : secondRange b = some (low, high)) (hc : ¬(c < low ∨ high < c))
    (hd : isContinuation d = true) (he : isContinuation e = true) :
    decodeChar b (c :: d :: e :: rest) =
      (some (Char.ofNat (((b.toNat % 8 * 64 + continuationBits c) * 64 + continuationBits d) * 64 +
        continuationBits e)), 3) := by
  simp only [decodeChar, hs, UInt8.lt_iff_toNat_lt (a := b), UInt8.reduceToNat]
  rw [if_neg (by omega), if_neg hc, if_neg (by omega), if_neg (by simp [hd]), if_neg (by omega),
    if_neg (by simp [he])]

end Several

/-- The bytes of a character are read as that character, whatever follows. -/
lemma decodeChar_utf8EncodeChar (c : Char) (rest : List UInt8) :
    ∃ b bytes, String.utf8EncodeChar c = b :: bytes ∧
      decodeChar b (bytes ++ rest) = (some c, bytes.length) := by
  have hchar : ∀ n, n = c.val.toNat → Char.ofNat n = c := by
    rintro n rfl
    exact Char.ofNat_toNat c
  have hvalid : c.val.toNat < 55296 ∨ 57343 < c.val.toNat ∧ c.val.toNat < 1114112 := c.valid
  unfold String.utf8EncodeChar
  dsimp only
  generalize c.val.toNat = v at hchar hvalid ⊢
  -- one case for each number of bytes
  split_ifs with h₁ h₂ h₃
  · have hv : (UInt8.ofNat v).toNat = v := by simp only [UInt8.toNat_ofNat']; omega
    have hb : UInt8.ofNat v < 0x80 := by
      rw [UInt8.lt_iff_toNat_lt, hv]
      exact Nat.lt_succ_of_le h₁
    refine ⟨_, _, rfl, ?_⟩
    simp only [decodeChar]
    rw [if_pos hb, hchar _ hv]
    rfl
  · have hb : (UInt8.ofNat (v / 64 % 32 + 192)).toNat = v / 64 % 32 + 192 := by
      simp only [UInt8.toNat_ofNat']; omega
    refine ⟨_, _, rfl, (decodeChar_two rest (by omega) (isContinuation_ofNat _)).trans ?_⟩
    rw [hb, continuationBits_ofNat, hchar _ (by omega)]
    rfl
  · have hb : (UInt8.ofNat (v / 4096 % 16 + 224)).toNat = v / 4096 % 16 + 224 := by
      simp only [UInt8.toNat_ofNat']; omega
    refine ⟨_, _, rfl, (decodeChar_three rest (by omega) (secondRange_three (by omega)) ?_
      (isContinuation_ofNat _)).trans ?_⟩
    · have hc : (UInt8.ofNat (v / 64 % 64 + 128)).toNat = v / 64 % 64 + 128 := by
        simp only [UInt8.toNat_ofNat']; omega
      simp only [UInt8.lt_iff_toNat_lt, apply_ite UInt8.toNat, UInt8.reduceToNat, hb, hc]
      split_ifs <;> omega
    · rw [hb, continuationBits_ofNat, continuationBits_ofNat, hchar _ (by omega)]
      rfl
  · have hb : (UInt8.ofNat (v / 262144 % 8 + 240)).toNat = v / 262144 % 8 + 240 := by
      simp only [UInt8.toNat_ofNat']; omega
    refine ⟨_, _, rfl, (decodeChar_four rest (by omega) (secondRange_four (by omega)) ?_
      (isContinuation_ofNat _) (isContinuation_ofNat _)).trans ?_⟩
    · have hc : (UInt8.ofNat (v / 4096 % 64 + 128)).toNat = v / 4096 % 64 + 128 := by
        simp only [UInt8.toNat_ofNat']; omega
      simp only [UInt8.lt_iff_toNat_lt, apply_ite UInt8.toNat, UInt8.reduceToNat, hb, hc]
      split_ifs <;> omega
    · rw [hb, continuationBits_ofNat, continuationBits_ofNat, continuationBits_ofNat,
        hchar _ (by omega)]
      rfl

/-! ## Texts -/

/-- The bytes of a text are read character by character, onto what was read before. -/
lemma decodeOnto_encode (s : Text) (done : List (Option Char)) :
    decodeOnto done (encode s) = (s.map some).reverse ++ done := by
  induction s generalizing done with
  | nil => simp [decodeOnto]
  | cons c s ih =>
    obtain ⟨b, bytes, hbytes, hc⟩ := decodeChar_utf8EncodeChar c (encode s)
    rw [encode_cons, hbytes, List.cons_append, decodeOnto, hc, List.drop_left, ih]
    simp

/-- The bytes of a text are read as that text. -/
theorem decodeLossy_encode (s : Text) : decodeLossy (encode s) = s := by
  rw [decodeLossy, decodeAll, decodeOnto_encode]
  simp [Function.comp_def]

end WebCrawl.Text
