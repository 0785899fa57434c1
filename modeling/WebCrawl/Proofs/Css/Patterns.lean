import Mathlib.Computability.Language
import Mathlib.Tactic.Common
import WebCrawl.Proofs.Css.Extension

set_option autoImplicit false

/-!
# The patterns of lexemes

Every lexeme is the longest beginning of a text that has a pattern, and the patterns are regular. What
a lexeme takes is so known from its pattern alone.

## Main definitions

* `WebCrawl.Css.one`, `WebCrawl.Css.several`, `WebCrawl.Css.mark` — the parts of patterns.
* `WebCrawl.Css.Pattern` — the patterns of the lexemes.
* `WebCrawl.Css.Takes` — a text is the longest beginning of another that has a pattern.
* `WebCrawl.Css.Lexeme.Recognizes` — a lexeme takes the longest beginning that has a pattern.

## Main results

* `WebCrawl.Css.Lexeme.Recognizes.takes_iff` — what such a lexeme takes.
* `WebCrawl.Css.Lexeme.recognizes_quoted`, `WebCrawl.Css.Lexeme.recognizes_integer` and others — the
  patterns of the lexemes.
-/

namespace WebCrawl.Css

open Reader Text Computability

/-! ## Patterns -/

/-- One character of a class. -/
def one (p : Char → Bool) : Language Char := {x | ∃ c, p c = true ∧ x = [c]}

/-- At least one character of a class. -/
def several (p : Char → Bool) : Language Char := one p * (one p)∗

/-- One certain character. -/
def mark (c : Char) : Language Char := one (· == c)

/-- A word in letters of either case. -/
def anyCase (word : Text) : Language Char := {x | lower x = word}

namespace Pattern

/-- White space that may be missing. -/
def blanks : Language Char := (one isBlank)∗

/-- White space. -/
def spaces : Language Char := several isBlank

/-- A character with white space before it that may be missing. -/
def spaced (c : Char) : Language Char := blanks * mark c

/-- A star, or the name of an element type. -/
def element : Language Char :=
  mark '*' + one (fun c => c == '_' || c.isAlpha) * (one Lexeme.isNameChar)∗

/-- A class with its dot. -/
def className : Language Char := mark '.' * several Lexeme.isNameChar

/-- An identifier with its number sign. -/
def identifier : Language Char := mark '#' * several Lexeme.isNameChar

/-- A pseudo-class with its colon. -/
def pseudoClass : Language Char := mark ':' * several fun c => c == '-' || c.isAlpha

/-- The name of an attribute. -/
def attributeName : Language Char :=
  one (fun c => c == '-' || c == '_' || c == ':' || c.isAlpha) * (one Lexeme.isAttributeChar)∗

/-- A character between quotes of one kind. A backslash takes the character after it along. -/
def quotable (quote : Char) : Language Char :=
  mark '\\' * one (· != '\n') + one fun c => c != quote && c != '\\'

/-- A value between quotes of one kind. -/
def quotedBy (quote : Char) : Language Char := mark quote * ((quotable quote)∗ * mark quote)

/-- A value between quotes. -/
def quoted : Language Char := quotedBy '"' + quotedBy '\''

/-- A value without quotes. -/
def bare : Language Char := several Lexeme.isNameChar

/-- The operator between the name and the value of an attribute. -/
def operator : Language Char :=
  mark '=' + one (fun c => c == '~' || c == '|' || c == '^' || c == '$' || c == '*') * mark '='

/-- A sign. -/
def sign : Language Char := one fun c => c == '-' || c == '+'

/-- An integer with a sign that may be missing. -/
def integer : Language Char := (1 + sign) * several isDecimal

/-- The factor of a progression, of which all may be missing. -/
def coefficient : Language Char := (1 + sign) * (one isDecimal)∗

/-- The offset of a progression, of which only white space may be missing. -/
def offset : Language Char := blanks * (sign * (blanks * several isDecimal))

/-- A progression. -/
def progression : Language Char := coefficient * (one (fun c => c == 'n' || c == 'N') * (1 + offset))

end Pattern

/-! ## The longest match -/

/-- `x` is the longest beginning of `s` that has the pattern, and `r` is left after it. -/
structure Takes (L : Language Char) (x s r : Text) : Prop where
  /-- The text is split. -/
  append : s = x ++ r
  /-- The beginning has the pattern. -/
  mem : x ∈ L
  /-- No longer one has it. -/
  longest : ∀ y t, s = y ++ t → y ∈ L → y.length ≤ x.length

/-- What is taken is known, and so is what is left. -/
lemma Takes.unique {L : Language Char} {x y s r t : Text} (h : Takes L x s r) (h' : Takes L y s t) :
    x = y ∧ r = t := by
  have hlength : x.length = y.length :=
    Nat.le_antisymm (h'.longest x r h.append h.mem) (h.longest y t h'.append h'.mem)
  exact List.append_inj (h.append.symm.trans h'.append) hlength

section Members

variable {p q : Char → Bool} {x s : Text} {c : Char} {L : Language Char}

@[simp] lemma mem_one : x ∈ one p ↔ ∃ c, p c = true ∧ x = [c] := Iff.rfl

@[simp] lemma mem_mark : x ∈ mark c ↔ x = [c] := by simp [mark]

lemma mem_star : x ∈ (one p)∗ ↔ ∀ c ∈ x, p c = true := by
  constructor
  · rw [Language.mem_kstar]
    rintro ⟨xs, rfl, hxs⟩ c hc
    obtain ⟨y, hy, hcy⟩ := List.mem_flatten.1 hc
    obtain ⟨d, hd, rfl⟩ := hxs y hy
    rwa [List.mem_singleton.1 hcy]
  · intro h
    refine Language.mem_kstar.2 ⟨x.map ([·]), ?_, ?_⟩
    · induction x with
      | nil => rfl
      | cons c x ih => simp [← ih fun d hd => h d (List.mem_cons_of_mem c hd)]
    · intro y hy
      obtain ⟨c, hc, rfl⟩ := List.mem_map.1 hy
      exact ⟨c, h c hc, rfl⟩

lemma mem_several : x ∈ several p ↔ x ≠ [] ∧ ∀ c ∈ x, p c = true := by
  rw [several, Language.mem_mul]
  constructor
  · rintro ⟨_, ⟨c, hc, rfl⟩, y, hy, rfl⟩
    rw [mem_star] at hy
    simpa [hc] using hy
  · rintro ⟨hne, h⟩
    obtain ⟨c, y, rfl⟩ := List.exists_cons_of_ne_nil hne
    exact ⟨[c], ⟨c, h c (List.mem_cons_self ..), rfl⟩, y,
      mem_star.2 fun d hd => h d (List.mem_cons_of_mem c hd), rfl⟩

/-- A character of a class with more of a pattern after it. -/
lemma mem_one_mul : x ∈ one p * L ↔ ∃ c y, x = c :: y ∧ p c = true ∧ y ∈ L := by
  rw [Language.mem_mul]
  constructor
  · rintro ⟨_, ⟨c, hc, rfl⟩, y, hy, rfl⟩
    exact ⟨c, y, rfl, hc, hy⟩
  · rintro ⟨c, y, rfl, hc, hy⟩
    exact ⟨[c], ⟨c, hc, rfl⟩, y, hy, rfl⟩

lemma mem_mark_mul : x ∈ mark c * L ↔ ∃ y, x = c :: y ∧ y ∈ L := by
  rw [mark, mem_one_mul]
  simp

lemma mem_spaced : x ∈ Pattern.spaced c ↔ ∃ y, x = y ++ [c] ∧ ∀ d ∈ y, isBlank d = true := by
  rw [Pattern.spaced, Language.mem_mul]
  constructor
  · rintro ⟨y, hy, _, hc, rfl⟩
    rw [mem_mark] at hc
    subst hc
    exact ⟨y, rfl, mem_star.1 hy⟩
  · rintro ⟨y, rfl, hy⟩
    exact ⟨y, mem_star.2 hy, [c], mem_mark.2 rfl, rfl⟩

end Members

namespace Lexeme

/-! ## Lexemes that take the longest match -/

/-- The lexeme takes the longest beginning of a text that has the pattern, and nothing if there is
none. -/
structure Recognizes (lexeme : Lexeme) (L : Language Char) : Prop where
  /-- What is taken has the pattern. -/
  mem : ∀ s, lexeme s ≠ 0 → s.take (lexeme s) ∈ L
  /-- No more is taken than there is. -/
  le : ∀ s, lexeme s ≤ s.length
  /-- Nothing that has the pattern is empty, or longer than what is taken. -/
  longest : ∀ x t, x ∈ L → x ≠ [] ∧ x.length ≤ lexeme (x ++ t)

section Recognizes

variable {lexeme : Lexeme} {L : Language Char} {x s r : Text}

/-- What a lexeme takes is known from its pattern. -/
theorem Recognizes.takes_iff (h : lexeme.Recognizes L) :
    Takes L x s r ↔ lexeme s ≠ 0 ∧ x = s.take (lexeme s) ∧ r = s.drop (lexeme s) := by
  constructor
  · rintro ⟨rfl, hx, hlongest⟩
    obtain ⟨hne, hle⟩ := h.longest x r hx
    have hzero : lexeme (x ++ r) ≠ 0 := by
      have := List.length_pos_iff.2 hne
      omega
    have hmax := hlongest _ _ (List.take_append_drop (lexeme (x ++ r)) _).symm (h.mem _ hzero)
    rw [List.length_take, Nat.min_eq_left (h.le _)] at hmax
    obtain heq : lexeme (x ++ r) = x.length := Nat.le_antisymm hmax hle
    exact ⟨hzero, by rw [heq, List.take_left], by rw [heq, List.drop_left]⟩
  · rintro ⟨hzero, rfl, rfl⟩
    refine ⟨(List.take_append_drop _ _).symm, h.mem s hzero, fun y t hs hy => ?_⟩
    rw [List.length_take, Nat.min_eq_left (h.le _)]
    subst hs
    exact (h.longest y t hy).2

/-- A match is taken if the lexeme takes as many characters. -/
lemma Recognizes.takes_append (h : lexeme.Recognizes L) (hx : x ∈ L)
    (hlength : lexeme (x ++ r) = x.length) : Takes L x (x ++ r) r where
  append := rfl
  mem := hx
  longest y t hsplit hy := by
    rw [← hlength, hsplit]
    exact (h.longest y t hy).2

/-- Where a lexeme takes nothing, no beginning has its pattern. -/
lemma Recognizes.eq_zero_iff (h : lexeme.Recognizes L) :
    lexeme s = 0 ↔ ∀ x r, ¬Takes L x s r := by
  simp only [h.takes_iff]
  constructor
  · exact fun hzero _ _ hne => hne.1 hzero
  · intro hnone
    by_contra hne
    exact hnone _ _ ⟨hne, rfl, rfl⟩

end Recognizes

/-! ## Reading lexemes -/

section Reading

variable {lexeme : Lexeme} {L : Language Char} {x s r : Text} {fault : Fault}

lemma Recognizes.token?_eq_some_iff (h : lexeme.Recognizes L) :
    token? lexeme s = .ok (some x, r) ↔ Takes L x s r := by
  rw [h.takes_iff]
  refine ⟨token?_eq_some, ?_⟩
  rintro ⟨hne, rfl, rfl⟩
  exact if_neg hne

lemma Recognizes.token_eq_ok_iff (h : lexeme.Recognizes L) :
    token lexeme fault s = .ok (x, r) ↔ Takes L x s r := by
  rw [h.takes_iff]
  refine ⟨token_eq_ok, ?_⟩
  rintro ⟨hne, rfl, rfl⟩
  have htoken : token? lexeme s = .ok (some (s.take (lexeme s)), s.drop (lexeme s)) := if_neg hne
  exact bind_of_ok htoken

lemma Recognizes.discard_token_eq_ok_iff (h : lexeme.Recognizes L) {u : Unit} :
    discard (token lexeme fault) s = .ok (u, r) ↔ ∃ x, Takes L x s r := by
  show (token lexeme fault >>= fun _ => pure ()) s = _ ↔ _
  simp only [bind_eq_ok_iff, pure_apply, Except.ok.injEq, Prod.mk.injEq, true_and,
    h.token_eq_ok_iff]
  constructor
  · rintro ⟨x, t, hx, rfl⟩
    exact ⟨x, hx⟩
  · rintro ⟨x, hx⟩
    exact ⟨x, r, hx, rfl⟩

/-- A lexeme that may be missing decides what is read next. -/
lemma Recognizes.token?_bind_eq_ok_iff (h : lexeme.Recognizes L) {α : Type}
    {f : Option Text → Parser α} {a : α} : (token? lexeme >>= f) s = .ok (a, r) ↔
      (∃ x t, Takes L x s t ∧ f (some x) t = .ok (a, r)) ∨
        (∀ x t, ¬Takes L x s t) ∧ f none s = .ok (a, r) := by
  rw [← h.eq_zero_iff]
  by_cases hzero : lexeme s = 0
  · have hnone := h.eq_zero_iff.1 hzero
    rw [bind_of_ok (token?_of_eq_zero hzero)]
    refine ⟨fun hread => .inr ⟨hzero, hread⟩, ?_⟩
    rintro (⟨x, t, hx, -⟩ | ⟨-, hread⟩)
    · exact absurd hx (hnone x t)
    · exact hread
  · have htoken : token? lexeme s = .ok (some (s.take (lexeme s)), s.drop (lexeme s)) := if_neg hzero
    rw [bind_of_ok htoken]
    constructor
    · exact fun hread => .inl ⟨_, _, h.takes_iff.2 ⟨hzero, rfl, rfl⟩, hread⟩
    · rintro (⟨x, t, hx, hread⟩ | ⟨hzero', -⟩)
      · obtain ⟨-, rfl, rfl⟩ := h.takes_iff.1 hx
        exact hread
      · exact absurd hzero' hzero

/-- A lexeme that is accepted or not decides what is read next. -/
lemma Recognizes.accept_bind_eq_ok_iff (h : lexeme.Recognizes L) {α : Type} {f : Bool → Parser α}
    {a : α} : (accept lexeme >>= f) s = .ok (a, r) ↔
      (∃ x t, Takes L x s t ∧ f true t = .ok (a, r)) ∨
        (∀ x t, ¬Takes L x s t) ∧ f false s = .ok (a, r) := by
  have hassoc : (accept lexeme >>= f) s = (token? lexeme >>= fun o => f o.isSome) s := by
    show ((token? lexeme >>= fun o => pure o.isSome) >>= f) s = _
    cases hread : token? lexeme s with
    | error e => simp only [Bind.bind, hread]
    | ok x => simp only [Bind.bind, hread, pure_apply]
  rw [hassoc, h.token?_bind_eq_ok_iff]
  rfl

end Reading

/-! ## Runs -/

section Runs

variable {p first later : Char → Bool} {c : Char} {s x : Text}

lemma take_run (p : Char → Bool) (s : Text) : s.take (run p s) = s.takeWhile p :=
  (List.prefix_iff_eq_take.1 (List.takeWhile_prefix p)).symm

lemma drop_run (p : Char → Bool) (s : Text) : s.drop (run p s) = s.dropWhile p :=
  XPath.drop_length_takeWhile p s

/-- A run takes characters of its class along. -/
lemma run_append (h : ∀ c ∈ x, p c = true) (t : Text) : run p (x ++ t) = x.length + run p t := by
  rw [run, run, List.takeWhile_append_of_pos h, List.length_append]

lemma take_run_mem_star : s.take (run p s) ∈ (one p)∗ := by
  rw [take_run]
  exact mem_star.2 fun c hc => List.mem_takeWhile_imp hc

lemma take_run_mem_several (h : run p s ≠ 0) : s.take (run p s) ∈ several p := by
  refine mem_several.2 ⟨fun hnil => ?_, mem_star.1 take_run_mem_star⟩
  rw [take_run] at hnil
  exact h (congrArg List.length hnil)

lemma recognizes_run (p : Char → Bool) : (run p).Recognizes (several p) where
  mem _ h := take_run_mem_several h
  le := run_le p
  longest x t hx := by
    obtain ⟨hne, hall⟩ := mem_several.1 hx
    refine ⟨hne, ?_⟩
    rw [run_append hall]
    exact Nat.le_add_right _ _

lemma recognizes_spaces : spaces.Recognizes Pattern.spaces := recognizes_run isBlank

lemma recognizes_bare : bare.Recognizes Pattern.bare := recognizes_run isNameChar

/-- A character with blanks before it, if it is none itself. -/
lemma recognizes_spaced (hc : isBlank c = false) : (spaced c).Recognizes (Pattern.spaced c) where
  mem s h := by
    have hhead : (s.dropWhile isBlank).head? = some c := by
      by_contra hne
      exact h (if_neg hne)
    obtain ⟨t, ht⟩ := List.head?_eq_some_iff.1 hhead
    have hsize : spaced c s = run isBlank s + 1 := if_pos hhead
    refine mem_spaced.2 ⟨s.take (run isBlank s), ?_, mem_star.1 take_run_mem_star⟩
    rw [hsize, List.take_add_one, ← List.head?_drop, drop_run, hhead]
    rfl
  le := (settled_spaced c).le
  longest x t hx := by
    obtain ⟨y, rfl, hy⟩ := mem_spaced.1 hx
    refine ⟨by simp, ?_⟩
    have hdrop : ((y ++ [c] ++ t).dropWhile isBlank).head? = some c := by
      rw [List.append_assoc, List.dropWhile_append_of_pos hy]
      simp [hc]
    rw [spaced, if_pos hdrop, List.append_assoc, run_append hy, List.length_append]
    simp only [List.length_cons, List.length_nil]
    omega

/-- A mark with a run after it. -/
lemma recognizes_marked (c : Char) (p : Char → Bool) :
    (marked c p).Recognizes (mark c * several p) where
  mem s h := by
    cases s with
    | nil => exact absurd rfl h
    | cons d s =>
      have hmark : d = c ∧ run p s ≠ 0 := by
        by_contra hnot
        exact h (if_neg hnot)
      have hsize : marked c p (d :: s) = run p s + 1 := if_pos hmark
      rw [hsize, List.take_succ_cons, hmark.1]
      exact mem_mark_mul.2 ⟨_, rfl, take_run_mem_several hmark.2⟩
  le s := by
    cases s with
    | nil => exact Nat.le_refl _
    | cons d s =>
      have := run_le p s
      rw [marked, List.length_cons]
      split <;> omega
  longest x t hx := by
    obtain ⟨y, rfl, hy⟩ := mem_mark_mul.1 hx
    obtain ⟨hne, hle⟩ := (recognizes_run p).longest y t hy
    refine ⟨List.cons_ne_nil _ _, ?_⟩
    have hpos := List.length_pos_iff.2 hne
    rw [List.cons_append, marked, if_pos ⟨rfl, by omega⟩, List.length_cons]
    omega

/-- A character of one class with a run of another after it. -/
lemma recognizes_headed (first later : Char → Bool) :
    (headed first later).Recognizes (one first * (one later)∗) where
  mem s h := by
    cases s with
    | nil => exact absurd rfl h
    | cons d s =>
      have hfirst : first d = true := by
        by_contra hnot
        exact h (if_neg hnot)
      have hsize : headed first later (d :: s) = run later s + 1 := if_pos hfirst
      rw [hsize, List.take_succ_cons]
      exact mem_one_mul.2 ⟨d, _, rfl, hfirst, take_run_mem_star⟩
  le s := by
    cases s with
    | nil => exact Nat.le_refl _
    | cons d s =>
      have := run_le later s
      rw [headed, List.length_cons]
      split <;> omega
  longest x t hx := by
    obtain ⟨c, y, rfl, hc, hy⟩ := mem_one_mul.1 hx
    refine ⟨List.cons_ne_nil _ _, ?_⟩
    rw [List.cons_append, headed, if_pos hc, run_append (mem_star.1 hy), List.length_cons]
    omega

lemma recognizes_className : className.Recognizes Pattern.className := recognizes_marked ..

lemma recognizes_identifier : identifier.Recognizes Pattern.identifier := recognizes_marked ..

lemma recognizes_pseudoClass : pseudoClass.Recognizes Pattern.pseudoClass := recognizes_marked ..

lemma recognizes_attributeName : attributeName.Recognizes Pattern.attributeName :=
  recognizes_headed ..

/-- A single character. -/
lemma recognizes_head (c : Char) :
    Recognizes (fun s => if s.head? = some c then 1 else 0) (mark c) where
  mem s h := by
    have hhead : s.head? = some c := by
      by_contra hnot
      exact h (if_neg hnot)
    obtain ⟨t, rfl⟩ := List.head?_eq_some_iff.1 hhead
    rw [if_pos hhead]
    exact mem_mark.2 rfl
  le s := by
    cases s with
    | nil => exact Nat.le_refl _
    | cons d s => split <;> simp
  longest x t hx := by
    obtain rfl := mem_mark.1 hx
    exact ⟨List.cons_ne_nil _ _, by simp⟩

lemma recognizes_openBracket : openBracket.Recognizes (mark '[') := recognizes_head '['

lemma recognizes_closeBracket : closeBracket.Recognizes (mark ']') := recognizes_head ']'

lemma recognizes_element : element.Recognizes Pattern.element := by
  have hheaded := recognizes_headed (fun c => c == '_' || c.isAlpha) isNameChar
  refine ⟨fun s h => ?_, settled_element.1.le, fun x t hx => ?_⟩
  · cases s with
    | nil => exact absurd rfl h
    | cons c s =>
      by_cases hc : c = '*'
      · subst hc
        exact .inl (mem_mark.2 rfl)
      · rw [element_cons hc] at h ⊢
        exact .inr (hheaded.mem _ h)
  · rcases hx with hx | hx
    · obtain rfl := mem_mark.1 hx
      exact ⟨List.cons_ne_nil _ _, Nat.le_refl 1⟩
    · obtain ⟨hne, hle⟩ := hheaded.longest x t hx
      obtain ⟨c, y, rfl, hc, -⟩ := mem_one_mul.1 hx
      refine ⟨hne, ?_⟩
      have hstar : c ≠ '*' := by
        rintro rfl
        cases hc
      rw [List.cons_append] at hle ⊢
      rwa [element_cons hstar]

lemma recognizes_operator : operator.Recognizes Pattern.operator := by
  refine ⟨fun s h => ?_, settled_operator.le, fun x t hx => ?_⟩
  · cases s with
    | nil => exact absurd rfl h
    | cons c s =>
      by_cases hc : c = '='
      · subst hc
        exact .inl (mem_mark.2 rfl)
      · rw [operator_cons hc] at h ⊢
        have hboth : s.head? = some '=' ∧ c ∈ ['~', '|', '^', '$', '*'] := by
          by_contra hnot
          exact h (if_neg hnot)
        obtain ⟨t, rfl⟩ := List.head?_eq_some_iff.1 hboth.1
        rw [if_pos hboth]
        exact .inr (mem_one_mul.2 ⟨c, ['='], rfl, by simpa [or_assoc] using hboth.2, mem_mark.2 rfl⟩)
  · rcases hx with hx | hx
    · obtain rfl := mem_mark.1 hx
      exact ⟨List.cons_ne_nil _ _, Nat.le_refl 1⟩
    · obtain ⟨c, y, rfl, hc, hy⟩ := mem_one_mul.1 hx
      obtain rfl := mem_mark.1 hy
      have hne : c ≠ '=' := by
        rintro rfl
        cases hc
      refine ⟨List.cons_ne_nil _ _, ?_⟩
      rw [List.cons_append, operator_cons hne, if_pos ⟨rfl, by simpa [or_assoc] using hc⟩]
      exact Nat.le_refl 2

/-- A word in letters of either case. -/
lemma recognizes_keyword {word : Text} (hne : word ≠ []) :
    (keyword word).Recognizes (anyCase word) where
  mem s h := by
    have heq : lower (s.take word.length) = word := by
      by_contra hnot
      exact h (if_neg hnot)
    rw [keyword, if_pos heq]
    exact heq
  le s := by
    rw [keyword]
    split
    case isTrue h =>
      have hlength := congrArg List.length h
      rw [lower, List.length_map, List.length_take] at hlength
      omega
    case isFalse => exact Nat.zero_le _
  longest x t hx := by
    have hlength : x.length = word.length := by
      rw [← show lower x = word from hx, lower, List.length_map]
    refine ⟨fun hnil => hne ?_, ?_⟩
    · rw [hnil] at hlength
      exact List.length_eq_zero_iff.1 hlength.symm
    · rw [keyword, ← hlength, List.take_left, if_pos (show lower x = word from hx)]

end Runs

/-! ## Quoted values -/

section Quoted

variable {quote c : Char} {s x y : Text}

lemma mem_quotable : x ∈ Pattern.quotable quote ↔
    (∃ c, x = ['\\', c] ∧ c ≠ '\n') ∨ ∃ c, x = [c] ∧ c ≠ quote ∧ c ≠ '\\' := by
  rw [Pattern.quotable, Language.mem_add, mem_mark_mul]
  refine or_congr ⟨?_, ?_⟩ ⟨?_, ?_⟩
  · rintro ⟨_, rfl, c, hc, rfl⟩
    exact ⟨c, rfl, by simpa using hc⟩
  · rintro ⟨c, rfl, hc⟩
    exact ⟨[c], rfl, c, by simpa using hc, rfl⟩
  · rintro ⟨c, hc, rfl⟩
    exact ⟨c, rfl, by simpa using hc⟩
  · rintro ⟨c, rfl, hc⟩
    exact ⟨c, by simpa using hc, rfl⟩

/-- What stands between quotes can be longer by one character. -/
lemma append_mem_quotable (hx : x ∈ Pattern.quotable quote)
    (hy : y ∈ (Pattern.quotable quote)∗ * mark quote) :
    x ++ y ∈ (Pattern.quotable quote)∗ * mark quote := by
  obtain ⟨z, hz, w, hw, rfl⟩ := Language.mem_mul.1 hy
  rw [← List.append_assoc]
  refine Language.append_mem_mul ?_ hw
  exact Set.mem_of_mem_of_subset (Language.append_mem_mul hx hz) (mul_kstar_le_kstar (a := Pattern.quotable quote))

/-- What is left of a quoted value ends with the quote. -/
lemma quotedRest_mem {n : Nat} (h : quotedRest quote s = some n) :
    s.take n ∈ (Pattern.quotable quote)∗ * mark quote := by
  fun_induction quotedRest quote s generalizing n with
  | case1 => cases h
  | case2 => cases h
  | case3 => cases h
  | case4 c s hc ih =>
    obtain ⟨m, hm, rfl⟩ := Option.map_eq_some_iff.1 h
    exact append_mem_quotable (mem_quotable.2 (.inl ⟨c, rfl, hc⟩)) (ih hm)
  | case5 s hlast hescaped =>
    obtain rfl := Option.some.inj h
    rw [List.take_succ_cons, List.take_zero]
    exact Language.append_mem_mul (Language.nil_mem_kstar _) (mem_mark.2 rfl)
  | case6 c s hlast hescaped hquote ih =>
    have hc : c ≠ '\\' := by
      rintro rfl
      cases s with
      | nil => exact hlast rfl rfl
      | cons d s => exact hescaped d s rfl rfl
    obtain ⟨m, hm, rfl⟩ := Option.map_eq_some_iff.1 h
    exact append_mem_quotable (mem_quotable.2 (.inr ⟨c, rfl, hquote, hc⟩)) (ih hm)

/-- A quoted value ends at its first quote that no backslash takes along. -/
lemma quotedRest_eq (hquote : quote ≠ '\\') (hx : x ∈ (Pattern.quotable quote)∗ * mark quote)
    (t : Text) : quotedRest quote (x ++ t) = some x.length := by
  obtain ⟨y, hy, w, hw, rfl⟩ := Language.mem_mul.1 hx
  obtain rfl := mem_mark.1 hw
  obtain ⟨xs, rfl, hxs⟩ := Language.mem_kstar.1 hy
  clear hx hy
  induction xs with
  | nil =>
    exact (quotedRest_cons hquote).trans (if_pos rfl)
  | cons z zs ih =>
    have hrest := ih fun y hy => hxs y (List.mem_cons_of_mem z hy)
    rcases mem_quotable.1 (hxs z (List.mem_cons_self ..)) with ⟨c, rfl, hc⟩ | ⟨c, rfl, hne, hc⟩
    · simp only [List.flatten_cons, List.cons_append, List.nil_append, quotedRest, if_neg hc] at hrest ⊢
      rw [hrest]
      rfl
    · simp only [List.flatten_cons, List.cons_append, List.nil_append] at hrest ⊢
      rw [quotedRest_cons hc, if_neg hne, hrest]
      rfl

lemma recognizes_quoted : quoted.Recognizes Pattern.quoted := by
  refine ⟨fun s h => ?_, fun s => ?_, fun x t hx => ?_⟩
  · cases s with
    | nil => exact absurd rfl h
    | cons c s =>
      rw [quoted_cons] at h ⊢
      split at h
      case isFalse => exact absurd rfl h
      case isTrue hc =>
        rw [if_pos hc]
        cases hn : quotedRest c s with
        | none =>
          rw [hn] at h
          exact absurd rfl h
        | some n =>
          have hmem : (c :: s).take (n + 1) ∈ Pattern.quotedBy c :=
            mem_mark_mul.2 ⟨_, rfl, quotedRest_mem hn⟩
          rcases hc with rfl | rfl
          · exact .inl hmem
          · exact .inr hmem
  · by_cases hzero : quoted s = 0
    · rw [hzero]
      exact Nat.zero_le _
    · exact (quoted_append (t := []) hzero).1
  · have hby : ∀ {c}, c = '"' ∨ c = '\'' → x ∈ Pattern.quotedBy c →
        x ≠ [] ∧ x.length ≤ quoted (x ++ t) := by
      intro c hc hx
      obtain ⟨y, rfl, hy⟩ := mem_mark_mul.1 hx
      have hne : c ≠ '\\' := by
        rintro rfl
        revert hc
        decide
      refine ⟨List.cons_ne_nil _ _, ?_⟩
      rw [List.cons_append, quoted_cons, if_pos hc, quotedRest_eq hne hy]
      exact Nat.le_refl _
    rcases hx with hx | hx
    · exact hby (.inl rfl) hx
    · exact hby (.inr rfl) hx

end Quoted

/-! ## Numerals -/

section Numerals

variable {c : Char} {s t x : Text}

lemma mem_optional_sign : x ∈ 1 + Pattern.sign ↔ x = [] ∨ x = ['-'] ∨ x = ['+'] := by
  rw [Language.mem_add, Language.mem_one, Pattern.sign, mem_one]
  refine or_congr Iff.rfl ⟨?_, ?_⟩
  · rintro ⟨c, hc, rfl⟩
    simpa using hc
  · rintro (rfl | rfl)
    · exact ⟨'-', rfl, rfl⟩
    · exact ⟨'+', rfl, rfl⟩

lemma sign_cons (c : Char) (s : Text) : sign (c :: s) = if c = '-' ∨ c = '+' then 1 else 0 := rfl

lemma take_sign_mem (s : Text) : s.take (sign s) ∈ 1 + Pattern.sign := by
  rw [mem_optional_sign]
  cases s with
  | nil => exact .inl rfl
  | cons c s =>
    rw [sign_cons]
    split
    case isTrue hc =>
      rcases hc with rfl | rfl
      · exact .inr (.inl rfl)
      · exact .inr (.inr rfl)
    case isFalse => exact .inl rfl

/-- A sign is taken, if no other stands after it. -/
lemma sign_eq_length (hx : x ∈ 1 + Pattern.sign) (ht : ∀ c ∈ t.head?, c ≠ '-' ∧ c ≠ '+') :
    sign (x ++ t) = x.length := by
  rcases mem_optional_sign.1 hx with rfl | rfl | rfl
  · cases t with
    | nil => rfl
    | cons c t =>
      rw [List.nil_append, sign_cons, if_neg (not_or.2 (ht c rfl))]
      rfl
  · rfl
  · rfl

lemma coefficientSize_eq (s : Text) :
    coefficientSize s = sign s + run isDecimal (s.drop (sign s)) := rfl

lemma take_coefficientSize (s : Text) : s.take (coefficientSize s) =
    s.take (sign s) ++ (s.drop (sign s)).take (run isDecimal (s.drop (sign s))) := by
  rw [coefficientSize_eq, List.take_add]

lemma take_coefficientSize_mem (s : Text) : s.take (coefficientSize s) ∈ Pattern.coefficient := by
  rw [take_coefficientSize]
  exact Language.append_mem_mul (take_sign_mem s) take_run_mem_star

/-- The character is neither a sign nor a digit. -/
def EndsNumeral (t : Text) : Prop := ∀ c ∈ t.head?, isDecimal c = false ∧ c ≠ '-' ∧ c ≠ '+'

/-- A factor is taken as a whole where it ends. -/
lemma coefficientSize_eq_length (hx : x ∈ Pattern.coefficient) (ht : EndsNumeral t) :
    coefficientSize (x ++ t) = x.length := by
  obtain ⟨y, hy, z, hz, rfl⟩ := Language.mem_mul.1 hx
  rw [mem_star] at hz
  have hhead : ∀ c ∈ (z ++ t).head?, c ≠ '-' ∧ c ≠ '+' := by
    intro c hc
    cases z with
    | nil => exact (ht c hc).2
    | cons d z =>
      obtain rfl : d = c := by simpa using hc
      have hd := hz d (List.mem_cons_self ..)
      constructor
      · rintro rfl
        cases hd
      · rintro rfl
        cases hd
  have hrun : run isDecimal t = 0 := by
    cases t with
    | nil => rfl
    | cons c t =>
      rw [run, List.takeWhile_cons_of_neg (by simp [(ht c rfl).1])]
      rfl
  rw [coefficientSize_eq, List.append_assoc, sign_eq_length hy hhead, List.drop_left,
    run_append hz, hrun, List.length_append, Nat.add_zero]

lemma recognizes_integer : integer.Recognizes Pattern.integer where
  mem s h := by
    have hdigits : run isDecimal (s.drop (sign s)) ≠ 0 := by
      intro hzero
      exact h (if_pos hzero)
    rw [show integer s = coefficientSize s from if_neg hdigits, take_coefficientSize]
    exact Language.append_mem_mul (take_sign_mem s) (take_run_mem_several hdigits)
  le := settled_integer.le
  longest x t hx := by
    obtain ⟨y, hy, z, hz, rfl⟩ := Language.mem_mul.1 hx
    obtain ⟨hne, hall⟩ := mem_several.1 hz
    obtain ⟨d, z, rfl⟩ := List.exists_cons_of_ne_nil hne
    have hd := hall d (List.mem_cons_self ..)
    have hhead : ∀ c ∈ (d :: z ++ t).head?, c ≠ '-' ∧ c ≠ '+' := by
      rintro c hc
      obtain rfl : d = c := by simpa using hc
      constructor
      · rintro rfl
        cases hd
      · rintro rfl
        cases hd
    have hrun := run_append hall t
    refine ⟨by simp, ?_⟩
    rw [integer, List.append_assoc, sign_eq_length hy hhead, List.drop_left]
    rw [hrun, if_neg (by simp), List.length_append]
    omega

end Numerals

end Lexeme

end WebCrawl.Css
