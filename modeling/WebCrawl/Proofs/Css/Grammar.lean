import Mathlib.Tactic.Common
import WebCrawl.Proofs.Css.Numerals

set_option autoImplicit false

/-!
# The grammar of selectors

What texts spell which selectors, said without reference to how they are read. A selector group is a
list of alternatives with commas between them, an alternative is a chain of compounds with combinators
between them, and a compound is a type with qualifiers after it. Each lexeme is the longest match of its
pattern. White space may stand around commas and combinators, within brackets, and before and within the
parentheses of indices and negations.

Which compounds there are is left open: of a grammar in which a compound may have any parts, those are
singled out that have at least one.

## Main definitions

* `WebCrawl.Css.Gap`, `WebCrawl.Css.Sign` — white space, and a character with white space before it.
* `WebCrawl.Css.Bracketed`, `WebCrawl.Css.Indexed` — attributes and indices.
* `WebCrawl.Css.Phrase`, `WebCrawl.Css.Spells` — qualifiers and compounds.
* `WebCrawl.Css.Joins`, `WebCrawl.Css.Chained`, `WebCrawl.Css.Alternative`, `WebCrawl.Css.Alternatives` —
  chains of compounds, and alternatives.
* `WebCrawl.Css.Group.Spelled` — the text spells the selector group.
* `WebCrawl.Css.Compound.HasPart` — a compound has at least one part.
* `WebCrawl.Css.Begins` — a text begins as compounds do.

## Main results

* `WebCrawl.Css.gap_iff`, `WebCrawl.Css.sign_iff` — what is left after white space.
* `WebCrawl.Css.Spells.begins` — how a compound begins.
-/

namespace WebCrawl.Css

open Text Computability

/-! ## White space -/

/-- White space is passed over, as far as there is any. -/
def Gap (s r : Text) : Prop := ∃ x, Takes Pattern.blanks x s r

/-- A character is passed over, with the white space before it. -/
def Sign (c : Char) (s r : Text) : Prop := ∃ x, Takes (Pattern.spaced c) x s r

/-! ## Attributes -/

/-- The operators between the name and the value of an attribute, with the tests that they make. -/
def operators : List (Text × (Text → AttributeTest)) :=
  [("=".toList, .equals), ("~=".toList, .includes), ("|=".toList, .dashMatch),
    ("^=".toList, .beginsWith), ("$=".toList, .endsWith), ("*=".toList, .contains)]

/-- The value of an attribute, quoted or bare. -/
inductive Valued : Text → Text → Text → Prop where
  | quoted {x s r : Text} (h : Takes Pattern.quoted x s r) : Valued (unquote x) s r
  | bare {x s r : Text} (h : Takes Pattern.bare x s r) : Valued x s r

/-- An attribute with its brackets. -/
inductive Bracketed : Text → AttributeTest → Text → Text → Prop where
  | present {name x y s t u v w r : Text} (opening : Takes (mark '[') x s t) (first : Gap t u)
    (named : Takes Pattern.attributeName name u v) (last : Gap v w)
    (closing : Takes (mark ']') y w r) : Bracketed (lower name) .present s r
  | compared {name operator value x y s t u v w t' u' v' w' r : Text} {test : Text → AttributeTest}
    (opening : Takes (mark '[') x s t) (first : Gap t u)
    (named : Takes Pattern.attributeName name u v) (second : Gap v w)
    (compared : Takes Pattern.operator operator w t') (makes : (operator, test) ∈ operators)
    (third : Gap t' u') (valued : Valued value u' v') (last : Gap v' w')
    (closing : Takes (mark ']') y w' r) : Bracketed (lower name) (test value) s r

/-! ## Places -/

/-- The pseudo-classes that ask for a place, with the siblings among which it is counted. -/
def places : List (Text × Peers × Place) :=
  [(":first-child".toList, .all, .first), (":first-of-type".toList, .sameType, .first),
    (":last-child".toList, .all, .last), (":last-of-type".toList, .sameType, .last),
    (":only-child".toList, .all, .sole), (":only-of-type".toList, .sameType, .sole)]

/-- The pseudo-classes that ask for an index, with the siblings among which it is counted. -/
def indices : List (Text × Peers) :=
  [(":nth-child".toList, .all), (":nth-of-type".toList, .sameType)]

/-- The argument of an index. -/
inductive Argument : Nth → Text → Text → Prop where
  | even {x s r : Text} (h : Takes (anyCase "even") x s r) : Argument .even s r
  | odd {x s r : Text} (h : Takes (anyCase "odd") x s r) : Argument .odd s r
  | progression {x s r : Text} {a b : Int} (h : Takes Pattern.progression x s r)
    (value : IsProgression x a b) : Argument (.progression a b) s r
  | only {x s r : Text} {b : Int} (h : Takes Pattern.integer x s r) (value : IsInteger x b) :
    Argument (.only b) s r

/-- The argument of an index with its parentheses. -/
inductive Indexed : Nth → Text → Text → Prop where
  | mk {n : Nth} {s t u v r : Text} (opening : Sign '(' s t) (first : Gap t u)
    (argument : Argument n u v) (closing : Sign ')' v r) : Indexed n s r

/-! ## Compounds -/

/-- What a text can spell: a qualifier, any number of them, or a compound. -/
inductive Phrase where
  | qualifier (q : Qualifier)
  | qualifiers (qs : List Qualifier)
  | compound (c : Compound)

/-- The compound has a type or a qualifier. -/
def Compound.HasPart (c : Compound) : Prop := c.type ≠ none ∨ c.qualifiers ≠ []

/-- A beginning of the first text spells the phrase, and the second is left, where the compounds are
those that are allowed. -/
inductive Spells (allowed : Compound → Prop) : Phrase → Text → Text → Prop where
  | className {name s r : Text} (h : Takes Pattern.className ('.' :: name) s r) :
    Spells allowed (.qualifier (.className name)) s r
  | identifier {name s r : Text} (h : Takes Pattern.identifier ('#' :: name) s r) :
    Spells allowed (.qualifier (.identifier name)) s r
  | attr {name s r : Text} {test : AttributeTest} (h : Bracketed name test s r) :
    Spells allowed (.qualifier (.attr name test)) s r
  | place {word s r : Text} {peers : Peers} {place : Place} (h : Takes Pattern.pseudoClass word s r)
    (named : (lower word, peers, place) ∈ places) :
    Spells allowed (.qualifier (.place peers place)) s r
  | index {word s t r : Text} {peers : Peers} {n : Nth} (h : Takes Pattern.pseudoClass word s t)
    (named : (lower word, peers) ∈ indices) (argument : Indexed n t r) :
    Spells allowed (.qualifier (.place peers (.nth n))) s r
  /-- A negation has no place among siblings of one type directly in it. -/
  | negation {word s t u v r : Text} {c : Compound} (h : Takes Pattern.pseudoClass word s t)
    (named : lower word = ":not".toList) (opening : Sign '(' t u)
    (inner : Spells allowed (.compound c) u v)
    (negatable : ∀ q ∈ c.qualifiers, q.isTypeRelative = false) (closing : Sign ')' v r) :
    Spells allowed (.qualifier (.negation c.type c.qualifiers)) s r
  | nil {s : Text} : Spells allowed (.qualifiers []) s s
  | cons {q : Qualifier} {qs : List Qualifier} {s t r : Text}
    (head : Spells allowed (.qualifier q) s t) (tail : Spells allowed (.qualifiers qs) t r) :
    Spells allowed (.qualifiers (q :: qs)) s r
  | untyped {qs : List Qualifier} {s t r : Text} (first : Gap s t)
    (qualifiers : Spells allowed (.qualifiers qs) t r) (hallowed : allowed ⟨none, qs⟩) :
    Spells allowed (.compound ⟨none, qs⟩) s r
  | typed {name : Text} {qs : List Qualifier} {s t u r : Text} (first : Gap s t)
    (type : Takes Pattern.element name t u) (qualifiers : Spells allowed (.qualifiers qs) u r)
    (hallowed : allowed ⟨some (lower name), qs⟩) :
    Spells allowed (.compound ⟨some (lower name), qs⟩) s r

/-! ## Groups -/

/-- A combinator. -/
inductive Joins : Combinator → Text → Text → Prop where
  | descendant {x s r : Text} (h : Takes Pattern.spaces x s r) : Joins .descendant s r
  | child {s r : Text} (h : Sign '>' s r) : Joins .child s r
  | adjacent {s r : Text} (h : Sign '+' s r) : Joins .adjacent s r
  | sibling {s r : Text} (h : Sign '~' s r) : Joins .sibling s r

section Groups

variable (allowed : Compound → Prop)

/-- Any number of further compounds, each with the combinator before it. -/
inductive Chained : Complex → Text → Text → Prop where
  | nil {s : Text} : Chained [] s s
  | cons {combinator : Combinator} {c : Compound} {cs : Complex} {s t u r : Text}
    (joins : Joins combinator s t) (head : Spells allowed (.compound c) t u) (tail : Chained cs u r) :
    Chained ((combinator, c) :: cs) s r

/-- An alternative. Without a combinator it begins with a descendant. -/
inductive Alternative : Complex → Text → Text → Prop where
  | plain {c : Compound} {cs : Complex} {s t r : Text} (head : Spells allowed (.compound c) s t)
    (tail : Chained allowed cs t r) : Alternative ((.descendant, c) :: cs) s r
  | joined {combinator : Combinator} {c : Compound} {cs : Complex} {s t u r : Text}
    (joins : Joins combinator s t) (head : Spells allowed (.compound c) t u)
    (tail : Chained allowed cs u r) : Alternative ((combinator, c) :: cs) s r

/-- Any number of further alternatives, each with the comma before it. -/
inductive Alternatives : Group → Text → Text → Prop where
  | nil {s : Text} : Alternatives [] s s
  | cons {c : Complex} {cs : Group} {s t u v r : Text} (comma : Sign ',' s t) (first : Gap t u)
    (head : Alternative allowed c u v) (tail : Alternatives cs v r) : Alternatives (c :: cs) s r

/-- The text spells the selector group. -/
inductive Group.Spelled : Group → Text → Prop where
  | mk {c : Complex} {cs : Group} {s t : Text} (head : Alternative allowed c s t)
    (tail : Alternatives allowed cs t []) : Group.Spelled (c :: cs) s

end Groups

/-! ## What is left after white space -/

section Space

variable {s r : Text} {c : Char}

lemma gap_iff : Gap s r ↔ s.dropWhile isBlank = r := by
  constructor
  · rintro ⟨x, rfl, hx, hlongest⟩
    have hblanks := mem_star.1 hx
    have hmax := hlongest _ _ (List.takeWhile_append_dropWhile (p := isBlank)).symm
      (mem_star.2 fun c hc => List.mem_takeWhile_imp hc)
    rw [List.dropWhile_append_of_pos hblanks]
    rw [List.takeWhile_append_of_pos hblanks, List.length_append] at hmax
    have hnil : r.takeWhile isBlank = [] := List.length_eq_zero_iff.1 (by omega)
    conv_rhs => rw [← List.takeWhile_append_dropWhile (p := isBlank) (l := r), hnil]
    rfl
  · rintro rfl
    refine ⟨s.takeWhile isBlank, (List.takeWhile_append_dropWhile).symm,
      mem_star.2 fun c hc => List.mem_takeWhile_imp hc, fun y t hs hy => ?_⟩
    rw [hs, List.takeWhile_append_of_pos (mem_star.1 hy), List.length_append]
    exact Nat.le_add_right _ _

lemma sign_iff (hc : isBlank c = false) : Sign c s r ↔ s.dropWhile isBlank = c :: r := by
  have hhead : (s.dropWhile isBlank).head? = some c ↔ ∃ t, s.dropWhile isBlank = c :: t :=
    List.head?_eq_some_iff
  simp only [Sign, (Lexeme.recognizes_spaced hc).takes_iff]
  constructor
  · rintro ⟨x, hne, -, rfl⟩
    have hfound : (s.dropWhile isBlank).head? = some c := by
      by_contra hnot
      exact hne (if_neg hnot)
    obtain ⟨t, ht⟩ := hhead.1 hfound
    have hsize : Lexeme.spaced c s = Lexeme.run isBlank s + 1 := if_pos hfound
    rw [hsize, ← List.drop_drop, Lexeme.drop_run, ht]
    rfl
  · intro h
    have hsize : Lexeme.spaced c s = Lexeme.run isBlank s + 1 := if_pos (hhead.2 ⟨r, h⟩)
    refine ⟨_, by rw [hsize]; omega, rfl, ?_⟩
    rw [hsize, ← List.drop_drop, Lexeme.drop_run, h]
    rfl

/-- A character is found after white space as without it. -/
lemma sign_dropWhile_iff (hc : isBlank c = false) : Sign c (s.dropWhile isBlank) r ↔ Sign c s r := by
  rw [sign_iff hc, sign_iff hc, List.dropWhile_idempotent]

lemma discard_spaced_eq_ok_iff (hc : isBlank c = false) {fault : Fault} {u : Unit} :
    discard (token (Lexeme.spaced c) fault) s = .ok (u, r) ↔ Sign c s r :=
  (Lexeme.recognizes_spaced hc).discard_token_eq_ok_iff

end Space

/-! ## What is left of a text -/

section Suffixes

variable {L : Language Char} {x s r name value : Text} {c : Char} {n : Nth} {test : AttributeTest}

lemma Takes.suffix (h : Takes L x s r) : r <:+ s := ⟨x, h.append.symm⟩

lemma Gap.suffix (h : Gap s r) : r <:+ s := h.elim fun _ hx => hx.suffix

lemma Sign.suffix (h : Sign c s r) : r <:+ s := h.elim fun _ hx => hx.suffix

lemma Sign.shorter (h : Sign c s r) (hc : isBlank c = false) : r.length < s.length := by
  have hlength := (List.dropWhile_suffix isBlank (l := s)).length_le
  rwa [(sign_iff hc).1 h, List.length_cons] at hlength

lemma Valued.suffix (h : Valued value s r) : r <:+ s := by
  cases h with
  | quoted h => exact h.suffix
  | bare h => exact h.suffix

lemma Argument.suffix (h : Argument n s r) : r <:+ s := by
  cases h with
  | even h => exact h.suffix
  | odd h => exact h.suffix
  | progression h => exact h.suffix
  | only h => exact h.suffix

lemma Indexed.suffix (h : Indexed n s r) : r <:+ s := by
  obtain ⟨opening, first, argument, closing⟩ := h
  exact closing.suffix.trans (argument.suffix.trans (first.suffix.trans opening.suffix))

/-- Something is taken of a text that begins with a certain character. -/
lemma Takes.shorter (h : Takes (mark c * L) x s r) : r.length < s.length := by
  obtain ⟨y, rfl, -⟩ := mem_mark_mul.1 h.mem
  rw [h.append, List.length_append, List.length_cons]
  omega

lemma Bracketed.shorter (h : Bracketed name test s r) : r.length < s.length := by
  have hopen : ∀ {x t}, Takes (mark '[') x s t → t.length < s.length := fun h => by
    rw [h.append, mem_mark.1 h.mem, List.length_append, List.length_singleton]
    omega
  cases h with
  | present opening first named last closing =>
    have hsuffix := closing.suffix.trans (last.suffix.trans (named.suffix.trans first.suffix))
    exact Nat.lt_of_le_of_lt hsuffix.length_le (hopen opening)
  | compared opening first named second compared makes third valued last closing =>
    have hname := (second.suffix.trans named.suffix).trans first.suffix
    have hvalue := valued.suffix.trans (third.suffix.trans compared.suffix)
    have hsuffix := closing.suffix.trans (last.suffix.trans (hvalue.trans hname))
    exact Nat.lt_of_le_of_lt hsuffix.length_le (hopen opening)

end Suffixes

/-! ## How phrases begin -/

/-- The characters that begin a qualifier. -/
def startsQualifier (c : Char) : Bool := c == '.' || c == '#' || c == ':' || c == '['

/-- The characters that begin a compound. -/
def startsCompound (c : Char) : Bool :=
  startsQualifier c || c == '*' || c == '_' || c.isAlpha

/-- The text begins as compounds do, after white space. -/
def Begins (s : Text) : Prop := ∃ c, (s.dropWhile isBlank).head? = some c ∧ startsCompound c = true

section Heads

variable {allowed : Compound → Prop} {s r x : Text} {c : Char} {L : Language Char}

lemma Takes.head_mark (h : Takes (mark c) x s r) : s.head? = some c := by
  rw [h.append, mem_mark.1 h.mem]
  rfl

/-- A text that begins with a match of a pattern begins as the pattern does. -/
lemma Takes.head (h : Takes (mark c * L) x s r) : s.head? = some c := by
  obtain ⟨y, hy, -⟩ := mem_mark_mul.1 h.mem
  rw [h.append, hy]
  rfl

lemma Bracketed.head {name : Text} {test : AttributeTest} (h : Bracketed name test s r) :
    s.head? = some '[' := by
  cases h with
  | present opening => exact opening.head_mark
  | compared opening => exact opening.head_mark

/-- A qualifier begins as qualifiers do. -/
lemma Spells.head_qualifier {q : Qualifier} (h : Spells allowed (.qualifier q) s r) :
    ∃ c, s.head? = some c ∧ startsQualifier c = true := by
  cases h with
  | className h => exact ⟨_, h.head, rfl⟩
  | identifier h => exact ⟨_, h.head, rfl⟩
  | attr h => exact ⟨_, h.head, rfl⟩
  | place h => exact ⟨_, h.head, rfl⟩
  | index h => exact ⟨_, h.head, rfl⟩
  | negation h => exact ⟨_, h.head, rfl⟩

/-- A type begins with no character that begins a qualifier. -/
lemma Takes.head_element (h : Takes Pattern.element x s r) : ∃ c, s.head? = some c ∧
    startsQualifier c = false ∧ startsCompound c = true := by
  have hstarts : ∀ {c}, c = '*' ∨ c = '_' ∨ c.isAlpha = true →
      startsQualifier c = false ∧ startsCompound c = true := by
    rintro c (rfl | rfl | hc)
    · exact ⟨rfl, rfl⟩
    · exact ⟨rfl, rfl⟩
    · refine ⟨?_, by simp [startsCompound, hc]⟩
      by_contra hstarts
      simp only [startsQualifier, Bool.not_eq_false, Bool.or_eq_true, beq_iff_eq] at hstarts
      rcases hstarts with ((rfl | rfl) | rfl) | rfl <;> cases hc
  rcases h.mem with hstar | hname
  · exact ⟨'*', by rw [h.append, mem_mark.1 hstar]; rfl, hstarts (.inl rfl)⟩
  · obtain ⟨c, y, rfl, hc, -⟩ := mem_one_mul.1 hname
    exact ⟨c, by rw [h.append]; rfl, hstarts (.inr (by simpa using hc))⟩

/-- A compound with a part begins as compounds do, after white space. -/
lemma Spells.begins {d : Compound} (h : Spells Compound.HasPart (.compound d) s r) : Begins s := by
  cases h with
  | untyped first qualifiers hallowed =>
    obtain rfl := gap_iff.1 first
    cases qualifiers with
    | nil => exact absurd hallowed (by simp [Compound.HasPart])
    | cons head tail =>
      obtain ⟨c, hc, hstarts⟩ := head.head_qualifier
      exact ⟨c, hc, by simp [startsCompound, hstarts]⟩
  | typed first type =>
    obtain rfl := gap_iff.1 first
    obtain ⟨c, hc, -, hstarts⟩ := type.head_element
    exact ⟨c, hc, hstarts⟩

/-- The characters that begin a compound are neither blank nor signs between compounds. -/
lemma startsCompound_spec (h : startsCompound c = true) :
    isBlank c = false ∧ c ≠ '+' ∧ c ≠ '~' ∧ c ≠ '>' ∧ c ≠ ',' := by
  have hne : ∀ {d}, startsCompound d = false → c ≠ d := by
    rintro d hd rfl
    cases h.symm.trans hd
  refine ⟨?_, hne rfl, hne rfl, hne rfl, hne rfl⟩
  simp only [startsCompound, startsQualifier, Bool.or_eq_true, beq_iff_eq] at h
  rcases h with (((((rfl | rfl) | rfl) | rfl) | rfl) | rfl) | h
  all_goals first | rfl | exact isBlank_of_isAlpha h

end Heads

end WebCrawl.Css
