import Mathlib.Tactic.Common
import WebCrawl.Text.Blank

set_option autoImplicit false

/-!
# The words of a text

A blank divides a text into two that have words of their own. So the words of a text are found by
going from one blank to the next, and the text of the words with a single space between them has the
same words. No text with these words is shorter.

## Main definitions

* `WebCrawl.Text.SinglySpaced` — texts without idle blanks.

## Main results

* `WebCrawl.Text.words_append_blank` — the words on either side of a blank.
* `WebCrawl.Text.words_join_words` — the words of a text with a single space between them.
* `WebCrawl.Text.length_join_words_le` — it is the shortest text with these words.
* `WebCrawl.Text.singlySpaced_join_words` — so it has no idle blank.
-/

namespace WebCrawl.Text

variable {s u v : Text} {c d : Char} {w : Text} {ws : List Text}

/-! ## Blanks between words -/

/-- A blank at the start belongs to no word. -/
lemma words_cons_blank (hc : isBlank c = true) : words (c :: s) = words s := by
  rw [words.eq_def]
  simp only [hc, if_true]

/-- A single character that is not blank is a word. -/
lemma words_singleton (hc : isBlank c = false) : words [c] = [[c]] := by
  rw [words.eq_def]
  simp only [hc, Bool.false_eq_true, if_false]

/-- A character before a blank ends a word. -/
lemma words_cons_cons_blank (hc : isBlank c = false) (hd : isBlank d = true) :
    words (c :: d :: s) = [c] :: words (d :: s) := by
  rw [words.eq_def]
  simp only [hc, hd, Bool.false_eq_true, if_false, if_true]

/-- A text that begins with another character has a word. -/
lemma words_ne_nil (hc : isBlank c = false) : words (c :: s) ≠ [] := by
  rw [words.eq_def]
  simp only [hc, Bool.false_eq_true, if_false]
  split
  · exact List.cons_ne_nil _ _
  · split
    · exact List.cons_ne_nil _ _
    · split <;> exact List.cons_ne_nil _ _

/-- A character before a text without a blank at its start belongs to the first word of that. -/
lemma words_cons_cons (hc : isBlank c = false) (hd : isBlank d = false) :
    ∃ w ws, words (d :: s) = w :: ws ∧ words (c :: d :: s) = (c :: w) :: ws := by
  obtain ⟨w, ws, hwords⟩ := List.exists_cons_of_ne_nil (words_ne_nil (s := s) hd)
  refine ⟨w, ws, hwords, ?_⟩
  rw [words.eq_def]
  simp only [hc, hd, Bool.false_eq_true, if_false, hwords]

/-- A blank divides the words of a text.

**Proof sketch.** By induction on the text before the blank: its first character is a blank, a word
of its own, or the first of a longer word, whatever comes after the blank. -/
theorem words_append_blank (hc : isBlank c = true) :
    words (u ++ c :: v) = words u ++ words v := by
  induction u with
  | nil => exact words_cons_blank hc
  | cons d u ih =>
    rw [List.cons_append]
    cases hd : isBlank d with
    | true => rw [words_cons_blank hd, words_cons_blank hd, ih]
    | false =>
      cases u with
      | nil =>
        rw [List.nil_append, words_cons_cons_blank hd hc, words_cons_blank hc, words_singleton hd,
          List.singleton_append]
      | cons e u =>
        cases he : isBlank e with
        | true =>
          rw [List.cons_append, words_cons_cons_blank hd he, words_cons_cons_blank hd he,
            ← List.cons_append, ih, List.cons_append]
        | false =>
          obtain ⟨w, ws, hwords, hlonger⟩ := words_cons_cons (s := u) hd he
          obtain ⟨w', ws', hwords', hlonger'⟩ := words_cons_cons (s := u ++ c :: v) hd he
          rw [List.cons_append] at ih ⊢
          rw [hlonger', hlonger]
          rw [hwords', hwords, List.cons_append, List.cons.injEq] at ih
          rw [ih.1, ih.2, List.cons_append]

/-- A text without blanks is a single word. -/
lemma words_eq_singleton (hne : u ≠ []) (hu : ∀ c ∈ u, isBlank c = false) : words u = [u] := by
  induction u with
  | nil => exact absurd rfl hne
  | cons c u ih =>
    have hc : isBlank c = false := hu c (.head _)
    cases u with
    | nil => exact words_singleton hc
    | cons d u =>
      obtain ⟨w, ws, hwords, hlonger⟩ := words_cons_cons (s := u) hc (hu d (by simp))
      have hrest := ih (List.cons_ne_nil _ _) fun e he => hu e (.tail _ he)
      rw [hwords, List.cons.injEq] at hrest
      rw [hlonger, hrest.1, hrest.2]

/-- What holds of single words, and goes on to hold with a blank in front or with another word and a
blank in front, holds of all texts. -/
lemma word_induction {motive : Text → Prop} (nil : motive [])
    (word : ∀ u, u ≠ [] → (∀ c ∈ u, isBlank c = false) → motive u)
    (blank : ∀ c v, isBlank c = true → motive v → motive (c :: v))
    (next : ∀ u c v, u ≠ [] → (∀ d ∈ u, isBlank d = false) → isBlank c = true → motive v →
      motive (u ++ c :: v)) (s : Text) : motive s := by
  have hall : ∀ u, (∀ c ∈ u, isBlank c = false) → motive (u ++ s) := by
    induction s with
    | nil =>
      intro u hu
      by_cases hne : u = []
      · subst hne
        exact nil
      · simpa using word u hne hu
    | cons c s ih =>
      intro u hu
      cases hc : isBlank c with
      | true =>
        have hs : motive s := ih [] nofun
        by_cases hne : u = []
        · subst hne
          exact blank c s hc hs
        · exact next u c s hne hu hc hs
      | false =>
        have hlonger : ∀ d ∈ u ++ [c], isBlank d = false := fun d hd => by
          obtain hd | hd := List.mem_append.1 hd
          · exact hu d hd
          · exact List.mem_singleton.1 hd ▸ hc
        simpa using ih (u ++ [c]) hlonger
  exact hall [] nofun

/-! ## Words with spaces between them -/

/-- A space stands between a word and the next. -/
lemma join_cons (hws : ws ≠ []) : join [' '] (w :: ws) = w ++ ' ' :: join [' '] ws := by
  obtain ⟨w', ws', rfl⟩ := List.exists_cons_of_ne_nil hws
  simp [join, List.intercalate_cons_cons]

/-- A single word is joined to nothing. -/
lemma join_singleton (w : Text) : join [' '] [w] = w := by
  simp [join]

/-- The words of a text with a single space between them have the same words. -/
theorem words_join_words (s : Text) : words (join [' '] (words s)) = words s := by
  induction s using word_induction with
  | nil => rfl
  | word u hne hu => rw [words_eq_singleton hne hu, join_singleton, words_eq_singleton hne hu]
  | blank c v hc ih => rw [words_cons_blank hc, ih]
  | next u c v hne hu hc ih =>
    rw [words_append_blank hc, words_eq_singleton hne hu, List.singleton_append]
    by_cases hv : words v = []
    · rw [hv, join_singleton, words_eq_singleton hne hu]
    · rw [join_cons hv, words_append_blank rfl, ih, words_eq_singleton hne hu,
        List.singleton_append]

/-- The words of a text with a single space between them take up no more characters than the text.
-/
theorem length_join_words_le (s : Text) : (join [' '] (words s)).length ≤ s.length := by
  induction s using word_induction with
  | nil => exact Nat.le_refl _
  | word u hne hu =>
    have hjoin : join [' '] (words u) = u := by rw [words_eq_singleton hne hu, join_singleton]
    exact Nat.le_of_eq (congrArg List.length hjoin)
  | blank c v hc ih =>
    rw [words_cons_blank hc, List.length_cons]
    exact Nat.le_succ_of_le ih
  | next u c v hne hu hc ih =>
    rw [words_append_blank hc, words_eq_singleton hne hu, List.singleton_append,
      List.length_append, List.length_cons]
    by_cases hv : words v = []
    · rw [hv, join_singleton]
      exact Nat.le_add_right _ _
    · rw [join_cons hv, List.length_append, List.length_cons]
      exact Nat.add_le_add_left (Nat.succ_le_succ ih) _

/-! ## Texts without idle blanks -/

/-- No blank stands at an end of the text, and none beside another. -/
structure SinglySpaced (s : Text) : Prop where
  leading : ∀ c ∈ s.head?, isBlank c = false
  trailing : ∀ c ∈ s.getLast?, isBlank c = false
  doubled : ∀ u c d v, s = u ++ c :: d :: v → isBlank c = true → isBlank d = false

/-- Words with a single space between them have no idle blank: without it the text would have the
same words and be shorter. -/
theorem singlySpaced_join_words (s : Text) : SinglySpaced (join [' '] (words s)) := by
  have hshortest : ∀ r, words r = words (join [' '] (words s)) →
      (join [' '] (words s)).length ≤ r.length := fun r hr => by
    rw [← words_join_words s, ← hr]
    exact length_join_words_le r
  generalize join [' '] (words s) = n at hshortest
  constructor
  · intro c hc
    by_contra hblank
    obtain ⟨v, rfl⟩ := List.head?_eq_some_iff.1 hc
    exact absurd (hshortest v (words_cons_blank (by simpa using hblank)).symm) (by simp)
  · intro c hc
    by_contra hblank
    obtain ⟨u, rfl⟩ := List.getLast?_eq_some_iff.1 hc
    have hwords : words (u ++ [c]) = words u :=
      (words_append_blank (by simpa using hblank)).trans (List.append_nil _)
    exact absurd (hshortest u hwords.symm) (by simp)
  · rintro u c d v rfl hc
    by_contra hd
    have hwords : words (u ++ c :: d :: v) = words (u ++ c :: v) := by
      rw [words_append_blank hc, words_append_blank hc, words_cons_blank (by simpa using hd)]
    exact absurd (hshortest (u ++ c :: v) hwords.symm) (by simp)

end WebCrawl.Text
