import Mathlib.Data.List.TakeWhile
import Mathlib.Tactic.Common
import WebCrawl.Text.Blank

set_option autoImplicit false

/-!
# Bytes at which characters begin

A text can be cut at a byte only where one of its characters begins, or at its end.

## Main definitions

* `WebCrawl.Text.sliceFrom?` — the text from a byte on.
* `WebCrawl.Text.IsBoundary` — the bytes at which a text can be cut.

## Main results

* `WebCrawl.Text.sliceFrom?_eq_some_iff` — what comes from a byte on is what is left when as many
  bytes are taken away.
* `WebCrawl.Text.trimEnd_eq` — where the trimmed text stands.
-/

namespace WebCrawl.Text

variable {s rest : Text} {n : Nat}

/-! ## Cutting -/

/-- The text from a byte on, if one of its characters begins there or the text ends there. -/
def sliceFrom? : Text → Nat → Option Text
  | s, 0 => some s
  | [], _ + 1 => none
  | c :: s, n + 1 => if c.utf8Size ≤ n + 1 then sliceFrom? s (n + 1 - c.utf8Size) else none

/-- One of the characters of the text begins at the byte, or the text ends there. -/
def IsBoundary (s : Text) (n : Nat) : Prop := (s.sliceFrom? n).isSome = true

instance (s : Text) (n : Nat) : Decidable (s.IsBoundary n) :=
  inferInstanceAs (Decidable (_ = true))

/-- A text is cut after any of its beginnings. -/
lemma sliceFrom?_append (before rest : Text) :
    (before ++ rest).sliceFrom? (byteSize before) = some rest := by
  induction before with
  | nil => cases rest <;> rfl
  | cons c before ih =>
    obtain ⟨k, hk⟩ := Nat.exists_eq_add_of_le' c.utf8Size_pos
    have hsize : byteSize (c :: before) = k + byteSize before + 1 := by
      rw [byteSize_cons, hk]
      omega
    rw [hsize, List.cons_append, sliceFrom?, if_pos (by omega), ← ih]
    congr 1
    omega

/-- What comes from a byte on is what is left when as many bytes are taken away. -/
lemma sliceFrom?_eq_some_iff :
    s.sliceFrom? n = some rest ↔ ∃ before, s = before ++ rest ∧ byteSize before = n := by
  refine ⟨fun h => ?_, ?_⟩
  · fun_induction sliceFrom? s n with
    | case1 s =>
      obtain rfl := Option.some.inj h
      exact ⟨[], rfl, rfl⟩
    | case2 n => cases h
    | case3 c s n hle ih =>
      obtain ⟨before, rfl, hsize⟩ := ih h
      exact ⟨c :: before, rfl, by rw [byteSize_cons, hsize]; omega⟩
    | case4 c s n hlt => cases h
  · rintro ⟨before, rfl, rfl⟩
    exact sliceFrom?_append before rest

lemma isBoundary_iff :
    s.IsBoundary n ↔ ∃ before rest, s = before ++ rest ∧ byteSize before = n := by
  rw [IsBoundary, Option.isSome_iff_exists, exists_comm]
  exact exists_congr fun rest => sliceFrom?_eq_some_iff

/-- A part of a text can be cut only where the whole can. -/
lemma IsBoundary.append (h : s.IsBoundary n) (before after : Text) :
    (before ++ s ++ after).IsBoundary (byteSize before + n) := by
  obtain ⟨front, rest, rfl, rfl⟩ := isBoundary_iff.1 h
  refine isBoundary_iff.2 ⟨before ++ front, rest ++ after, ?_, byteSize_append _ _⟩
  simp only [List.append_assoc]

/-- A text can be cut nowhere behind its end. -/
lemma IsBoundary.le (h : s.IsBoundary n) : n ≤ byteSize s := by
  obtain ⟨front, rest, rfl, rfl⟩ := isBoundary_iff.1 h
  rw [byteSize_append]
  exact Nat.le_add_right _ _

/-! ## Trimming -/

/-- The blanks that a text begins with are what is trimmed off its start. -/
lemma takeWhile_append_trimStart (s : Text) : s.takeWhile isBlank ++ trimStart s = s :=
  List.takeWhile_append_dropWhile

/-- What is trimmed off the end of a text does not reach beyond a part that is not blank. -/
lemma trimEnd_append {t : Text} (s : Text) (h : trimEnd t ≠ []) :
    trimEnd (s ++ t) = s ++ trimEnd t := by
  have hne : (t.reverse.dropWhile isBlank).isEmpty = false := by
    simpa [trimEnd, List.isEmpty_eq_false_iff] using h
  unfold trimEnd
  rw [List.reverse_append, List.dropWhile_append, hne, if_neg Bool.false_ne_true,
    List.reverse_append, List.reverse_reverse]

/-- A text without its blanks at the end is what it begins with. -/
lemma trimEnd_prefix (s : Text) : trimEnd s <+: s := by
  rw [trimEnd, ← List.reverse_suffix, List.reverse_reverse]
  exact List.dropWhile_suffix _

/-- A text of blanks is trimmed away, and no other. -/
lemma trim_eq_nil_iff : trim s = [] ↔ ∀ c ∈ s, isBlank c = true := by
  have hstart : trimStart s = [] ↔ ∀ c ∈ s, isBlank c = true := List.dropWhile_eq_nil_iff
  rw [← hstart]
  refine ⟨fun h => ?_, fun h => by rw [trim, h]; rfl⟩
  by_contra hne
  -- the first character that is left is not blank, so that it is not trimmed off the end
  have hhead := List.head?_dropWhile_not isBlank s
  obtain ⟨c, rest, hrest⟩ := List.exists_cons_of_ne_nil hne
  rw [show s.dropWhile isBlank = c :: rest from hrest] at hhead
  have hblanks : ∀ d ∈ (c :: rest).reverse, isBlank d = true := by
    rw [trim, hrest, trimEnd, List.reverse_eq_nil_iff] at h
    exact List.dropWhile_eq_nil_iff.1 h
  have hc := hblanks c (by simp)
  simp [hc] at hhead

/-- A text that is not blank is, without its blanks at the end, the blanks that it begins with and
the trimmed text. -/
lemma trimEnd_eq (h : trim s ≠ []) : trimEnd s = s.takeWhile isBlank ++ trim s := by
  conv_lhs => rw [← takeWhile_append_trimStart s]
  exact trimEnd_append _ h

end WebCrawl.Text
