import Mathlib.Tactic.Common
import WebCrawl.Proofs.Text.Searching
import WebCrawl.Proofs.Text.Words
import WebCrawl.XPath.Evaluation

set_option autoImplicit false

/-!
# Functions of texts

The functions that look for a text in another find the same occurrence: the first one. What is
before it, what is sought and what is after it make up the whole text again, and a text begins with
another if that is found with nothing before it. Normalizing a text leaves its words with a single
space between them, so that there is nothing left to normalize.

## Main results

* `WebCrawl.XPath.substrings_of_contains`, `WebCrawl.XPath.substrings_of_not_contains` — what the
  functions make of a text that is found, and of one that is not.
* `WebCrawl.XPath.startsWith_iff_substringBefore_eq_nil` — what a text begins with.
* `WebCrawl.XPath.normalizeSpace_normalizeSpace` — normalizing twice.
* `WebCrawl.XPath.text_functions_agree` — all of that for the values of expressions.
-/

namespace WebCrawl.XPath

open Html

section Texts

variable {s t : Text}

/-! ## Occurrences -/

/-- A text that is not found has nothing before and nothing after it. -/
lemma substrings_of_not_contains (h : Text.contains s t = false) :
    substringBefore s t = [] ∧ substringAfter s t = [] := by
  have hnone : Text.find? s t = none := by simpa [Text.contains] using h
  simp [substringBefore, substringAfter, hnone]

/-- A text that is found stands between what is before and what is after it, and nowhere earlier. -/
lemma substrings_of_contains (h : Text.contains s t = true) :
    s = substringBefore s t ++ t ++ substringAfter s t ∧
      ∀ u v, s = u ++ t ++ v → (substringBefore s t).length ≤ u.length := by
  obtain ⟨⟨u, v⟩, hfind⟩ := Option.isSome_iff_exists.1 h
  have hbefore : substringBefore s t = u := by simp [substringBefore, hfind]
  have hafter : substringAfter s t = v := by simp [substringAfter, hfind]
  rw [hbefore, hafter]
  exact Text.find?_eq_some hfind

/-- A text begins with another if that is found with nothing before it. -/
lemma startsWith_iff_substringBefore_eq_nil :
    Text.startsWith s t = true ↔ Text.contains s t = true ∧ substringBefore s t = [] := by
  rw [Text.startsWith_iff]
  constructor
  · rintro ⟨v, rfl⟩
    have hcontains : Text.contains (t ++ v) t = true := Text.contains_iff.2 ⟨[], v, by simp⟩
    have hfirst := (substrings_of_contains hcontains).2 [] v (by simp)
    exact ⟨hcontains, List.length_eq_zero_iff.1 (Nat.le_zero.1 hfirst)⟩
  · rintro ⟨hcontains, hbefore⟩
    have hs := (substrings_of_contains hcontains).1
    rw [hbefore, List.nil_append] at hs
    exact ⟨_, hs.symm⟩

/-! ## Normalizing -/

/-- Normalizing keeps the words of a text. -/
lemma words_normalizeSpace (s : Text) : Text.words (normalizeSpace s) = Text.words s :=
  Text.words_join_words s

/-- Normalizing depends on the words only, so that to normalize once more changes nothing. -/
lemma normalizeSpace_normalizeSpace (s : Text) :
    normalizeSpace (normalizeSpace s) = normalizeSpace s := by
  rw [normalizeSpace, words_normalizeSpace, normalizeSpace]

end Texts

/-! ## The values of expressions -/

section Values

variable (a : Arena) (f : Focus) (x y : Expr)

/-- Whether the text of `y` occurs in that of `x`. -/
lemma value_contains : (Expr.call .contains [x, y]).value a f =
    .boolean (Text.contains ((x.value a f).toText a) ((y.value a f).toText a)) := rfl

/-- Whether the text of `x` begins with that of `y`. -/
lemma value_startsWith : (Expr.call .startsWith [x, y]).value a f =
    .boolean (Text.startsWith ((x.value a f).toText a) ((y.value a f).toText a)) := rfl

/-- What is before the text of `y` in that of `x`. -/
lemma value_substringBefore : (Expr.call .substringBefore [x, y]).value a f =
    .string (substringBefore ((x.value a f).toText a) ((y.value a f).toText a)) := rfl

/-- What is after the text of `y` in that of `x`. -/
lemma value_substringAfter : (Expr.call .substringAfter [x, y]).value a f =
    .string (substringAfter ((x.value a f).toText a) ((y.value a f).toText a)) := rfl

/-- What is before the text of `y` in that of `x`, that text, and what is after it. -/
lemma value_concat_substrings :
    (Expr.call .concat [.call .substringBefore [x, y], y, .call .substringAfter [x, y]]).value a f =
      .string (substringBefore ((x.value a f).toText a) ((y.value a f).toText a) ++
        (y.value a f).toText a ++
        substringAfter ((x.value a f).toText a) ((y.value a f).toText a)) := by
  simp [Expr.value, argumentValues, Function.apply, textArgument, Value.toText]

/-- The functions of texts agree on what occurs where, at every focus in every document. For all
expressions `x` and `y`, with the texts `s` and `t` as their values:

* `contains(x, y)` is true or false. If it is true, `s` is the value of
  `concat(substring-before(x, y), y, substring-after(x, y))`, and `t` does not occur in `s` with
  fewer characters before it; if it is false, both substrings are empty;
* `starts-with(x, y)` is true if and only if `contains(x, y)` is and `substring-before(x, y)` is
  empty;
* `normalize-space`, of an argument or of the text at the focus, has the words of what it is given,
  no blank at either end and none beside another, and to normalize once more changes nothing. -/
theorem text_functions_agree :
    ((Expr.call .contains [x, y]).value a f = .boolean true ∨
      (Expr.call .contains [x, y]).value a f = .boolean false) ∧
    ((Expr.call .contains [x, y]).value a f = .boolean true →
      (Expr.call .concat
          [.call .substringBefore [x, y], y, .call .substringAfter [x, y]]).value a f =
        .string ((x.value a f).toText a) ∧
      ∃ before, (Expr.call .substringBefore [x, y]).value a f = .string before ∧
        ∀ u v, (x.value a f).toText a = u ++ (y.value a f).toText a ++ v →
          before.length ≤ u.length) ∧
    ((Expr.call .contains [x, y]).value a f = .boolean false →
      (Expr.call .substringBefore [x, y]).value a f = .string [] ∧
      (Expr.call .substringAfter [x, y]).value a f = .string []) ∧
    ((Expr.call .startsWith [x, y]).value a f = .boolean true ↔
      (Expr.call .contains [x, y]).value a f = .boolean true ∧
      (Expr.call .substringBefore [x, y]).value a f = .string []) ∧
    ∀ arguments : List Expr, ∃ n : Text,
      (Expr.call .normalizeSpace arguments).value a f = .string n ∧
      (Expr.call .normalizeSpace [.call .normalizeSpace arguments]).value a f = .string n ∧
      Text.words n = Text.words (textArgument a f (argumentValues a arguments f) 0) ∧
      Text.SinglySpaced n := by
  simp only [value_contains, value_startsWith, value_substringBefore, value_substringAfter,
    value_concat_substrings, Value.boolean.injEq, Value.string.injEq]
  refine ⟨Bool.eq_false_or_eq_true _, fun hcontains => ?_, substrings_of_not_contains,
    startsWith_iff_substringBefore_eq_nil, fun arguments => ?_⟩
  · obtain ⟨hs, hfirst⟩ := substrings_of_contains hcontains
    exact ⟨hs.symm, _, rfl, hfirst⟩
  · exact ⟨normalizeSpace (textArgument a f (argumentValues a arguments f) 0), rfl,
      congrArg Value.string (normalizeSpace_normalizeSpace _), words_normalizeSpace _,
      Text.singlySpaced_join_words _⟩

/-- In `aaab` the text `aab` is found after the first character, although an `a` comes before it. -/
theorem functions_agree_of_overlap :
    (Expr.call .contains [.literal "aaab", .literal "aab"]).value (.ofForest []) ⟨.node 0, 1, 1⟩ =
      .boolean true ∧
    (Expr.call .concat [.call .substringBefore [.literal "aaab", .literal "aab"], .literal "aab",
      .call .substringAfter [.literal "aaab", .literal "aab"]]).value (.ofForest [])
        ⟨.node 0, 1, 1⟩ = .string "aaab" := by
  have hcontains : (Expr.call .contains [.literal "aaab", .literal "aab"]).value (.ofForest [])
      ⟨.node 0, 1, 1⟩ = .boolean true := rfl
  have hagree := text_functions_agree (.ofForest []) ⟨.node 0, 1, 1⟩ (.literal "aaab")
    (.literal "aab")
  exact ⟨hcontains, (hagree.2.1 hcontains).1⟩

end Values

end WebCrawl.XPath
