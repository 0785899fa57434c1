import Mathlib.Tactic.Common
import WebCrawl.Proofs.Text.Utf8
import WebCrawl.Url.Percent

set_option autoImplicit false

/-!
# Forms that are read back

The query of a form is read by cutting it into pieces at the ampersands, each piece at its first
equals sign, and by decoding both sides. Of the characters that divide a query or a URL none stands
in an encoded text, so that what was written as a form is read as the same pairs, also when it stands
after another query.

## Main definitions

* `WebCrawl.Url.formDecode` — the pairs of names and values that a query stands for.

## Main results

* `WebCrawl.Url.formValue_formText` — an encoded text is read as that text.
* `WebCrawl.Url.formDecode_formEncode` — an encoded form is read as its pairs.
* `WebCrawl.Url.formDecode_append` — a query after another one adds its pairs.
-/

namespace WebCrawl.Url

open Text

/-! ## Reading a form -/

/-- A plus sign stands for a blank. -/
def blankOfPlus (c : Char) : Char := if c = '+' then ' ' else c

/-- What an encoded name or value stands for. -/
def formValue (s : Text) : Text := decodeLossy (percentDecode (s.map blankOfPlus))

/-- The name and the value in a piece of a query; without an equals sign the value is empty. -/
def formPair (piece : Text) : Text × Text :=
  (formValue (piece.takeWhile (· ≠ '=')), formValue ((piece.dropWhile (· ≠ '=')).drop 1))

/-- The pairs of names and values that a query stands for. Empty pieces are passed over. -/
def formDecode (query : Text) : List (Text × Text) :=
  ((splitAt '&' query).filter (· ≠ [])).map formPair

/-! ## Bytes as percent signs and digits -/

/-- A digit has its value. -/
lemma hexValue?_upperDigit {n : Nat} (h : n < 16) : hexValue? (upperDigit n) = some n := by
  have hall : ∀ n : Fin 16, hexValue? (upperDigit n) = some n.val := by decide
  exact hall ⟨n, h⟩

/-- A digit is a letter or a decimal digit. -/
lemma isAlphanum_upperDigit {n : Nat} (h : n < 16) : (upperDigit n).isAlphanum = true := by
  have hall : ∀ n : Fin 16, (upperDigit n).isAlphanum = true := by decide
  exact hall ⟨n, h⟩

/-- An encoded byte is read as that byte. -/
lemma percentDecode_encodeByte (b : UInt8) (rest : Text) :
    percentDecode (encodeByte b ++ rest) = b :: percentDecode rest := by
  have hb : b.toNat < 256 := b.toNat_lt
  rw [encodeByte, List.cons_append, List.cons_append, List.cons_append, List.nil_append,
    percentDecode, hexValue?_upperDigit (by omega), hexValue?_upperDigit (by omega)]
  have hsum : b.toNat / 16 * 16 + b.toNat % 16 = b.toNat := by omega
  simp only [hsum, UInt8.ofNat_toNat]

/-- Encoded bytes are read as those bytes. -/
lemma percentDecode_flatMap_encodeByte (bytes : List UInt8) (rest : Text) :
    percentDecode (bytes.flatMap encodeByte ++ rest) = bytes ++ percentDecode rest := by
  induction bytes with
  | nil => rfl
  | cons b bytes ih =>
    rw [List.flatMap_cons, List.append_assoc, percentDecode_encodeByte, ih, List.cons_append]

/-- A character that is no percent sign is read as itself. -/
lemma percentDecode_cons {c : Char} (h : c ≠ '%') (rest : Text) :
    percentDecode (c :: rest) = String.utf8EncodeChar c ++ percentDecode rest := by
  rw [percentDecode.eq_def]
  split
  · contradiction
  · rename_i heq
    exact absurd (List.cons.inj heq).1 h
  · rename_i heq
    obtain ⟨rfl, rfl⟩ := List.cons.inj heq
    rfl

/-! ## Encoded texts -/

/-- The characters of an encoded text are letters, digits and a few marks. -/
lemma of_mem_formChar {c d : Char} (h : d ∈ formChar c) :
    d.isAlphanum = true ∨ d ∈ ['*', '-', '.', '_', '+', '%'] := by
  unfold formChar at h
  split_ifs at h with hkept hblank
  · obtain rfl := List.mem_singleton.1 h
    simp only [Bool.or_eq_true, List.contains_iff_mem, List.mem_cons, List.not_mem_nil,
      or_false] at hkept
    simp only [List.mem_cons, List.not_mem_nil, or_false]
    tauto
  · obtain rfl := List.mem_singleton.1 h
    exact .inr (by decide)
  · obtain ⟨b, -, hd⟩ := List.mem_flatMap.1 h
    have hb : b.toNat < 256 := b.toNat_lt
    simp only [encodeByte, List.mem_cons, List.not_mem_nil, or_false] at hd
    rcases hd with rfl | rfl | rfl
    · exact .inr (by decide)
    · exact .inl (isAlphanum_upperDigit (by omega))
    · exact .inl (isAlphanum_upperDigit (by omega))

/-- No character that divides a form or a URL stands in an encoded text. -/
lemma not_mem_formText {d : Char} (hd : d ∈ ['&', '=', '#', '?']) (s : Text) : d ∉ formText s := by
  intro h
  obtain ⟨c, -, hc⟩ := List.mem_flatMap.1 h
  have hform := of_mem_formChar hc
  simp only [List.mem_cons, List.not_mem_nil, or_false] at hd
  rcases hd with rfl | rfl | rfl | rfl
  · exact absurd hform (by decide)
  · exact absurd hform (by decide)
  · exact absurd hform (by decide)
  · exact absurd hform (by decide)

/-- An encoded character is read as its bytes, whatever follows. -/
lemma percentDecode_formChar (c : Char) (rest : Text) :
    percentDecode ((formChar c).map blankOfPlus ++ rest) =
      String.utf8EncodeChar c ++ percentDecode rest := by
  unfold formChar
  split_ifs with hkept hblank
  · have hmarks : c ≠ '+' ∧ c ≠ '%' := by
      constructor <;> rintro rfl <;> exact absurd hkept (by decide)
    rw [List.map_singleton, blankOfPlus, if_neg hmarks.1, List.singleton_append,
      percentDecode_cons hmarks.2]
  · subst hblank
    exact percentDecode_cons (by decide) rest
  · have hplus : ∀ b : UInt8, (encodeByte b).map blankOfPlus = encodeByte b := by
      intro b
      have hb : b.toNat < 256 := b.toNat_lt
      have hdigit : ∀ n < 16, blankOfPlus (upperDigit n) = upperDigit n := by decide
      simp only [encodeByte, List.map_cons, List.map_nil, hdigit _ (Nat.mod_lt _ (by omega)),
        hdigit (b.toNat / 16) (by omega)]
      rfl
    rw [List.map_flatMap]
    simp only [hplus]
    exact percentDecode_flatMap_encodeByte _ rest

/-- An encoded text is read as that text. -/
theorem formValue_formText (s : Text) : formValue (formText s) = s := by
  have hbytes : percentDecode ((formText s).map blankOfPlus) = encode s := by
    induction s with
    | nil => rfl
    | cons c s ih =>
      rw [formText, List.flatMap_cons, List.map_append, percentDecode_formChar, ← formText, ih,
        encode_cons]
  rw [formValue, hbytes, decodeLossy_encode]

/-! ## Encoded forms -/

/-- A pair as a piece of a form. -/
def formPiece (pair : Text × Text) : Text := formText pair.1 ++ '=' :: formText pair.2

/-- A form is its pieces with ampersands between them. -/
lemma formEncode_eq (pairs : List (Text × Text)) :
    formEncode pairs = join ['&'] (pairs.map formPiece) := rfl

/-- No character that divides forms or the parts of a URL stands in a piece of a form. -/
lemma not_mem_formPiece {d : Char} (hd : d ∈ ['&', '#', '?']) (pair : Text × Text) :
    d ∉ formPiece pair := by
  have hne : d ≠ '=' := by
    rintro rfl
    exact absurd hd (by decide)
  have hform : d ∈ ['&', '=', '#', '?'] := by
    simp only [List.mem_cons, List.not_mem_nil, or_false] at hd ⊢
    tauto
  simp [formPiece, not_mem_formText hform, hne]

/-- A piece of a form is read as its pair. -/
lemma formPair_formPiece (pair : Text × Text) : formPair (formPiece pair) = pair := by
  have hname : ∀ c ∈ formText pair.1, decide (c ≠ '=') = true := fun c hc => by
    have hne : c ≠ '=' := by
      rintro rfl
      exact not_mem_formText (by decide) _ hc
    simpa using hne
  rw [formPair, formPiece, List.takeWhile_append_of_pos hname, List.dropWhile_append_of_pos hname]
  simp [formValue_formText]

/-- What divides the parts of a URL does not stand in a form. -/
lemma not_mem_formEncode {d : Char} (hd : d ∈ ['#', '?']) (pairs : List (Text × Text)) :
    d ∉ formEncode pairs := by
  have hpiece : d ∈ ['&', '#', '?'] := List.mem_cons_of_mem _ hd
  have hne : d ≠ '&' := by
    rintro rfl
    exact absurd hd (by decide)
  rw [formEncode_eq]
  induction pairs with
  | nil => simp [join]
  | cons pair pairs ih =>
    cases pairs with
    | nil => simpa [join] using not_mem_formPiece hpiece pair
    | cons next pairs =>
      rw [List.map_cons, List.map_cons, join, List.intercalate_cons_cons, ← join, ← List.map_cons]
      rw [List.mem_append, List.mem_append, List.mem_singleton]
      exact fun h => h.elim (fun h => h.elim (not_mem_formPiece hpiece pair) hne) ih

/-- Only the form without pairs is empty. -/
lemma formEncode_eq_nil_iff {pairs : List (Text × Text)} : formEncode pairs = [] ↔ pairs = [] := by
  rw [formEncode_eq]
  rcases pairs with _ | ⟨pair, _ | ⟨next, pairs⟩⟩ <;> simp [join, formPiece]

/-- An encoded form is read as its pairs. -/
theorem formDecode_formEncode (pairs : List (Text × Text)) :
    formDecode (formEncode pairs) = pairs := by
  cases hpairs : pairs with
  | nil => decide
  | cons pair others =>
    rw [← hpairs]
    have hpieces : splitAt '&' (formEncode pairs) = pairs.map formPiece := by
      refine List.splitOn_intercalate '&' (fun piece hpiece => ?_) (by simp [hpairs])
      obtain ⟨pair, -, rfl⟩ := List.mem_map.1 hpiece
      exact not_mem_formPiece (by decide) pair
    have hfull : ∀ piece ∈ pairs.map formPiece, decide (piece ≠ []) = true := by
      intro piece hpiece
      obtain ⟨pair, -, rfl⟩ := List.mem_map.1 hpiece
      simp [formPiece]
    rw [formDecode, hpieces, List.filter_eq_self.2 hfull, List.map_map]
    simp [Function.comp_def, formPair_formPiece]

/-- A query after another one adds its pairs. -/
theorem formDecode_append (first second : Text) :
    formDecode (first ++ '&' :: second) = formDecode first ++ formDecode second := by
  have hsplit : splitAt '&' (first ++ '&' :: second) = splitAt '&' first ++ splitAt '&' second :=
    List.splitOnP_append_cons first second (by simp)
  rw [formDecode, hsplit, List.filter_append, List.map_append]
  rfl

end WebCrawl.Url
