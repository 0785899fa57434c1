import Mathlib.Data.List.Infix
import Mathlib.Tactic.Common
import WebCrawl.Text.Basic

set_option autoImplicit false

/-!
# What searching finds

Searching a text for another answers whether the other occurs in it. A text between separators
occurs in a longer one between separators just if it is one of the pieces of the longer one, so that
the pieces are found without cutting the text.

## Main results

* `WebCrawl.Text.startsWith_iff`, `WebCrawl.Text.contains_iff` — what is a prefix, and what occurs.
* `WebCrawl.Text.find?_eq_some` — where a text is found.
* `WebCrawl.Text.enclosed_infix_iff` — pieces are what occurs between separators.
* `WebCrawl.Text.mem_splitOnP_iff` — the same where the separators are the characters of a class.
-/

namespace WebCrawl.Text

variable {s t u v piece rest : Text} {c : Char}

/-! ## Occurrences -/

/-- A text begins with its prefixes. -/
lemma startsWith_iff : startsWith s t = true ↔ t <+: s := List.isPrefixOf_iff_prefix

/-- A text contains what occurs in it. -/
theorem contains_iff : contains s t = true ↔ t <:+: s := by
  unfold contains
  fun_induction find? s t with
  | case1 s hstarts => simpa using (startsWith_iff.1 hstarts).isInfix
  | case2 hstarts =>
    have hne : t ≠ [] := by
      rintro rfl
      exact hstarts rfl
    simpa [List.infix_nil] using hne
  | case3 d s hstarts ih =>
    have hne : ¬t <+: d :: s := fun h => hstarts (startsWith_iff.2 h)
    rw [Option.isSome_map, ih, List.infix_cons_iff, or_iff_right hne]

/-- What is found is before and after an occurrence, and none is earlier. -/
lemma find?_eq_some (h : find? s t = some (u, v)) :
    s = u ++ t ++ v ∧ ∀ u' v', s = u' ++ t ++ v' → u.length ≤ u'.length := by
  fun_induction find? s t generalizing u with
  | case1 s hstarts =>
    obtain ⟨rfl, rfl⟩ : [] = u ∧ s.drop t.length = v := by simpa using h
    obtain ⟨v, rfl⟩ := startsWith_iff.1 hstarts
    exact ⟨by simp, fun _ _ _ => Nat.zero_le _⟩
  | case2 => cases h
  | case3 c s hstarts ih =>
    obtain ⟨⟨u, v⟩, hfind, heq⟩ := Option.map_eq_some_iff.1 h
    obtain ⟨rfl, rfl⟩ : c :: u = _ ∧ v = _ := by simpa using heq
    obtain ⟨hs, hfirst⟩ := ih hfind
    refine ⟨by rw [hs]; simp, fun u' v' hu' => ?_⟩
    cases u' with
    | nil => exact absurd (startsWith_iff.2 ⟨v', hu'.symm⟩) hstarts
    | cons d u' =>
      obtain ⟨-, hrest⟩ : c = d ∧ s = u' ++ t ++ v' := by simpa using hu'
      exact Nat.succ_le_succ (hfirst u' v' hrest)

/-! ## Pieces -/

/-- What begins with a character that a text does not have does not begin in that text. -/
lemma cons_infix_append_iff (h : c ∉ s) : c :: t <:+: s ++ rest ↔ c :: t <:+: rest := by
  induction s with
  | nil => rfl
  | cons d s ih =>
    rw [List.mem_cons, not_or] at h
    obtain ⟨hd, hs⟩ := h
    rw [List.cons_append, List.infix_cons_iff, ih hs, List.cons_prefix_cons]
    simp [hd]

/-- A text without the separator between two of them occurs at the first piece or after it. -/
lemma enclosed_infix_cons_iff (ht : c ∉ t) (hpiece : c ∉ piece) :
    c :: (t ++ [c]) <:+: c :: (piece ++ c :: rest) ↔
      t = piece ∨ c :: (t ++ [c]) <:+: c :: rest := by
  have hfirst : t ++ [c] <+: piece ++ c :: rest ↔ t = piece := by
    constructor
    · rintro ⟨more, hmore⟩
      have hsplit := congrArg (splitAt c) hmore
      rw [List.append_assoc, List.singleton_append, splitAt, splitAt,
        List.splitOn_append_cons_self_of_not_mem ht,
        List.splitOn_append_cons_self_of_not_mem hpiece] at hsplit
      exact (List.cons.inj hsplit).1
    · rintro rfl
      exact ⟨rest, by simp⟩
  rw [List.infix_cons_iff, List.cons_prefix_cons, cons_infix_append_iff hpiece, hfirst]
  simp

/-- The pieces of a text are what occurs in it between separators, with one more at either end.

**Proof sketch.** By induction on the length: a text is a single piece, or a piece, a separator and
a shorter text. -/
theorem enclosed_infix_iff (ht : c ∉ t) :
    c :: (t ++ [c]) <:+: c :: (s ++ [c]) ↔ t ∈ splitAt c s := by
  induction hn : s.length using Nat.strongRecOn generalizing s with
  | _ n ih =>
    subst hn
    by_cases hs : c ∈ s
    · obtain ⟨piece, rest, rfl, hpiece⟩ := List.eq_append_cons_of_mem hs
      rw [splitAt, List.splitOn_append_cons_self_of_not_mem hpiece, List.mem_cons, ← splitAt,
        ← ih rest.length (by simp; omega) rfl, List.append_assoc, List.cons_append]
      exact enclosed_infix_cons_iff ht hpiece
    · have hshort : ¬c :: (t ++ [c]) <:+: [c] := fun h => by
        simpa using h.length_le
      rw [splitAt, List.splitOn_eq_singleton hs, List.mem_singleton,
        enclosed_infix_cons_iff ht hs, or_iff_left hshort]

/-- The pieces of a text between characters of a class are what occurs in it without such characters,
with one of them or an end of the text on either side. -/
theorem mem_splitOnP_iff {p : Char → Bool} : t ∈ s.splitOnP p ↔ (∀ c ∈ t, p c = false) ∧
    ∃ u w, s = u ++ t ++ w ∧ (∀ c ∈ u.getLast?, p c = true) ∧ ∀ c ∈ w.head?, p c = true := by
  constructor
  · induction hn : s.length using Nat.strongRecOn generalizing s with
    | _ n ih =>
      subst hn
      intro ht
      by_cases hs : ∀ c ∈ s, p c = false
      · rw [List.splitOnP_eq_singleton hs, List.mem_singleton] at ht
        subst ht
        exact ⟨hs, [], [], by simp, nofun, nofun⟩
      · obtain ⟨piece, sep, rest, rfl, hsep, hpiece⟩ : ∃ piece sep rest, s = piece ++ sep :: rest ∧
            p sep = true ∧ ∀ c ∈ piece, p c = false := by
          obtain ⟨sep, hfind⟩ : ∃ sep, List.find? p s = some sep := by
            rw [← Option.isSome_iff_exists, List.find?_isSome]
            simpa using hs
          obtain ⟨hsep, piece, rest, rfl, hpiece⟩ := List.find?_eq_some_iff_append.1 hfind
          exact ⟨piece, sep, rest, rfl, hsep, by simpa using hpiece⟩
        rw [List.splitOnP_append_cons_of_forall_mem hpiece sep hsep, List.mem_cons] at ht
        rcases ht with rfl | ht
        · exact ⟨hpiece, [], sep :: rest, by simp, nofun, by rintro c ⟨⟩; exact hsep⟩
        · obtain ⟨hclean, u, w, rfl, hu, hw⟩ := ih rest.length (by simp; omega) rfl ht
          refine ⟨hclean, piece ++ sep :: u, w, by simp, fun c hc => ?_, hw⟩
          cases u with
          | nil =>
            obtain rfl : sep = c := by simpa using hc
            exact hsep
          | cons d u => exact hu c (by simpa using hc)
  · rintro ⟨hclean, u, w, rfl, hu, hw⟩
    have hfirst : t ∈ (t ++ w).splitOnP p := by
      cases w with
      | nil => simp [List.splitOnP_eq_singleton hclean]
      | cons sep w =>
        rw [List.splitOnP_append_cons_of_forall_mem hclean sep (hw sep rfl)]
        exact .head _
    obtain rfl | ⟨u, sep, rfl⟩ := List.eq_nil_or_concat' u
    · exact hfirst
    · have hsep : p sep = true := hu sep (by simp)
      rw [List.append_assoc, List.append_assoc, List.singleton_append,
        List.splitOnP_append_cons u (t ++ w) hsep]
      exact List.mem_append_right _ hfirst

end WebCrawl.Text
