import Mathlib.Tactic.Common
import WebCrawl.Proofs.Css.Arguments
import WebCrawl.Query.Compiled

set_option autoImplicit false

/-!
# What is spelled is read

A text is read as the selector group that it spells. Readers take what they can and never go back, but
each kind of qualifier, each combinator and each comma begins with a character of its own, and no
compound that has a part begins like a combinator or a comma; so what is taken first is what is spelled.
A text hence spells one group at most, and its expression is the one of this group.

## Main definitions

* `WebCrawl.Css.Sound` — what a reader of qualifiers reads is spelled.
* `WebCrawl.Css.Phrase.Readable` — what a text is read as that spells a phrase.
* `WebCrawl.Css.Ends`, `WebCrawl.Css.Stops` — what may follow qualifiers, and alternatives.
* `WebCrawl.Css.Complex.Written` — the text of a single alternative.

## Main results

* `WebCrawl.Css.spelled_of_group` — a group that is read is spelled.
* `WebCrawl.Css.Group.Spelled.group_eq` — a group that is spelled is read.
* `WebCrawl.Css.expressionOf_recognizes` — which texts have an expression, and what the others are
  reported as.
-/

namespace WebCrawl.Css

open Reader Text Computability
open Lexeme (recognizes_className recognizes_element recognizes_identifier recognizes_pseudoClass
  recognizes_openBracket recognizes_spaced recognizes_spaces)

/-! ## Qualifiers -/

section Qualifiers

variable {s t u v r x word : Text} {q : Qualifier} {o : Option Qualifier} {c : Compound}
  {negation : Parser Qualifier} {qualifier : Parser (Option Qualifier)}

/-- What is read after the name of a pseudo-class. -/
lemma pseudoClassWith_eq_ok_iff : pseudoClassWith negation word s = .ok (q, r) ↔
    (∃ peers place, (word, peers, place) ∈ places ∧ q = .place peers place ∧ s = r) ∨
      (∃ peers n, (word, peers) ∈ indices ∧ q = .place peers (.nth n) ∧ Indexed n s r) ∨
        word = ":not".toList ∧ negation s = .ok (q, r) := by
  unfold pseudoClassWith
  split_ifs
  case neg => simp_all [places, indices]
  all_goals
    subst_vars
    simp [places, indices, bind_eq_ok_iff, nth_eq_ok_iff, eq_comm (a := q), and_comm]

/-- A qualifier is a class, an identifier, a pseudo-class or an attribute, tried one after the other. -/
lemma qualifierWith_eq_ok_iff : qualifierWith negation s = .ok (o, r) ↔
    (∃ name, Takes Pattern.className ('.' :: name) s r ∧ o = some (.className name)) ∨
      (∀ x t, ¬Takes Pattern.className x s t) ∧
        ((∃ name, Takes Pattern.identifier ('#' :: name) s r ∧ o = some (.identifier name)) ∨
          (∀ x t, ¬Takes Pattern.identifier x s t) ∧
            ((∃ word t q, Takes Pattern.pseudoClass word s t ∧
                pseudoClassWith negation (lower word) t = .ok (q, r) ∧ o = some q) ∨
              (∀ x t, ¬Takes Pattern.pseudoClass x s t) ∧ attributeIfAny s = .ok (o, r))) := by
  have hmarked : ∀ {c : Char} {L : Language Char} {f : Text → Qualifier},
      (∃ x t, Takes (mark c * L) x s t ∧
        (pure (some (f (x.drop 1))) : Parser (Option Qualifier)) t = .ok (o, r)) ↔
      ∃ name, Takes (mark c * L) (c :: name) s r ∧ o = some (f name) := by
    intro c L f
    simp only [pure_apply, Except.ok.injEq, Prod.mk.injEq]
    constructor
    · rintro ⟨x, t, hx, rfl, rfl⟩
      obtain ⟨name, rfl, -⟩ := mem_mark_mul.1 hx.mem
      exact ⟨name, hx, rfl⟩
    · rintro ⟨name, hname, rfl⟩
      exact ⟨_, _, hname, rfl, rfl⟩
  have hread : ∀ t word, (pseudoClassWith negation (lower word) >>= fun q => pure (some q)) t =
      .ok (o, r) ↔ ∃ q, pseudoClassWith negation (lower word) t = .ok (q, r) ∧ o = some q := by
    intro t word
    simp only [bind_eq_ok_iff, pure_apply, Except.ok.injEq, Prod.mk.injEq]
    constructor
    · rintro ⟨q, _, hq, rfl, rfl⟩
      exact ⟨q, hq, rfl⟩
    · rintro ⟨q, hq, rfl⟩
      exact ⟨q, r, hq, rfl, rfl⟩
  refine recognizes_className.token?_bind_eq_ok_iff.trans (or_congr hmarked (and_congr_right fun _ =>
    recognizes_identifier.token?_bind_eq_ok_iff.trans (or_congr hmarked (and_congr_right fun _ =>
      recognizes_pseudoClass.token?_bind_eq_ok_iff.trans (or_congr ?_ (and_congr_right fun _ =>
        Iff.rfl))))))
  refine exists_congr fun word => exists_congr fun t => ?_
  rw [hread]
  simp only [exists_and_left]

/-- A compound has a type or a qualifier, after white space. -/
lemma compoundWith_eq_ok_iff : compoundWith qualifier s = .ok (c, r) ↔ ∃ t, Gap s t ∧
    ((∃ name u, Takes Pattern.element name t u ∧ many qualifier u = .ok (c.qualifiers, r) ∧
        c.type = some (lower name)) ∨
      (∀ x u, ¬Takes Pattern.element x t u) ∧ many qualifier t = .ok (c.qualifiers, r) ∧
        c.type = none ∧ c.qualifiers ≠ []) := by
  obtain ⟨type, qs⟩ := c
  unfold compoundWith
  rw [bind_of_ok (skipSpaces_apply s), recognizes_element.token?_bind_eq_ok_iff]
  simp only [gap_iff, exists_eq_left']
  refine or_congr (exists_congr fun name => exists_congr fun u => and_congr_right fun _ => ?_)
    (and_congr_right fun _ => ?_)
  · simp only [Option.isNone_some, Bool.false_and, Bool.false_eq_true, if_false, bind_eq_ok_iff,
      pure_apply, Except.ok.injEq, Prod.mk.injEq, Compound.mk.injEq, Option.map_some]
    constructor
    · rintro ⟨_, _, hqs, ⟨rfl, rfl⟩, rfl⟩
      exact ⟨hqs, rfl⟩
    · rintro ⟨hqs, rfl⟩
      exact ⟨_, _, hqs, ⟨rfl, rfl⟩, rfl⟩
  · simp only [Option.isNone_none, Bool.true_and, List.isEmpty_iff, bind_eq_ok_iff, Option.map_none]
    constructor
    · rintro ⟨qs', u, hqs, h⟩
      by_cases hnil : qs' = []
      · simp [hnil, bind_eq_ok_iff] at h
      · obtain ⟨⟨rfl, rfl⟩, rfl⟩ : (none = type ∧ qs' = qs) ∧ u = r := by simpa [hnil] using h
        exact ⟨hqs, rfl, hnil⟩
    · rintro ⟨hqs, rfl, hne⟩
      exact ⟨qs, r, hqs, by simp [hne]⟩

lemma compoundWith_dropWhile (s : Text) :
    compoundWith qualifier (s.dropWhile isBlank) = compoundWith qualifier s := by
  unfold compoundWith
  rw [bind_of_ok (skipSpaces_apply _), bind_of_ok (skipSpaces_apply _), List.dropWhile_idempotent]

/-- Qualifiers may stand in a negation unless they count places among siblings of one type. -/
lemma negatable_eq_ok_iff : negatable qualifier s = .ok (o, r) ↔
    qualifier s = .ok (o, r) ∧ ∀ q ∈ o, q.isTypeRelative = false := by
  unfold negatable
  rw [bind_eq_ok_iff]
  constructor
  · rintro ⟨o', t, ho, h⟩
    by_cases hrelative : o'.any Qualifier.isTypeRelative = true
    · simp [hrelative, bind_eq_ok_iff] at h
    · obtain ⟨rfl, rfl⟩ : o' = o ∧ t = r := by simpa [hrelative] using h
      refine ⟨ho, fun q hq => ?_⟩
      rw [hq] at hrelative
      simpa using hrelative
  · rintro ⟨ho, hall⟩
    refine ⟨o, r, ho, ?_⟩
    have hnone : o.any Qualifier.isTypeRelative = false := by
      cases o with
      | none => rfl
      | some q => exact hall q rfl
    simp [hnone]

lemma negationWith_eq_ok_iff : negationWith qualifier s = .ok (q, r) ↔
    ∃ c t u, Sign '(' s t ∧ compoundWith (negatable qualifier) t = .ok (c, u) ∧ Sign ')' u r ∧
      q = .negation c.type c.qualifiers := by
  unfold negationWith
  simp only [Lexeme.openParen, Lexeme.closeParen, bind_of_ok (skipSpaces_apply _), bind_eq_ok_iff,
    discard_spaced_eq_ok_iff (c := '(') rfl, discard_spaced_eq_ok_iff (c := ')') rfl,
    sign_dropWhile_iff (c := '(') rfl, sign_dropWhile_iff (c := ')') rfl, compoundWith_dropWhile,
    pure_apply, Except.ok.injEq, Prod.mk.injEq]
  constructor
  · rintro ⟨_, t, hopen, c, u, hc, _, v, hclose, rfl, rfl⟩
    exact ⟨c, t, u, hopen, hc, hclose, rfl⟩
  · rintro ⟨c, t, u, hopen, hc, hclose, rfl⟩
    exact ⟨(), t, hopen, c, u, hc, (), r, hclose, rfl, rfl⟩

end Qualifiers

/-! ## What is read is spelled -/

/-- What the reader reads is spelled, and where there is nothing to read nothing is taken. -/
structure Sound (p : Parser (Option Qualifier)) : Prop where
  /-- A qualifier is spelled. -/
  some : ∀ {s r q}, p s = .ok (some q, r) → Spells Compound.HasPart (.qualifier q) s r
  /-- Nothing is taken. -/
  none : ∀ {s r}, p s = .ok (none, r) → s = r

namespace Sound

variable {s r : Text} {q : Qualifier} {qs : List Qualifier} {c : Compound}
  {p : Parser (Option Qualifier)}

lemma negatable (h : Sound p) : Sound (negatable p) where
  some hq := h.some (negatable_eq_ok_iff.1 hq).1
  none hq := h.none (negatable_eq_ok_iff.1 hq).1

lemma many (h : Sound p) (hqs : many p s = .ok (qs, r)) :
    Spells Compound.HasPart (.qualifiers qs) s r :=
  many_induction (R := fun qs s r => Spells Compound.HasPart (.qualifiers qs) s r) (fun _ => .nil)
    (fun _ _ hnone => h.none hnone ▸ .nil) (fun _ _ _ _ _ head tail => .cons (h.some head) tail) hqs

lemma compoundWith (h : Sound p) (hc : compoundWith p s = .ok (c, r)) :
    Spells Compound.HasPart (.compound c) s r := by
  obtain ⟨type, qs⟩ := c
  obtain ⟨t, hgap, ⟨name, u, hname, hqs, rfl⟩ | ⟨-, hqs, rfl, hne⟩⟩ := compoundWith_eq_ok_iff.1 hc
  · exact .typed hgap hname (h.many hqs) (.inl (by simp))
  · exact .untyped hgap (h.many hqs) (.inr hne)

/-- A negation is spelled, and what is read in it may stand there. -/
lemma negationWith (h : Sound p) {word t : Text} (hword : Takes Pattern.pseudoClass word s t)
    (hnot : lower word = ":not".toList) (hq : negationWith p t = .ok (q, r)) :
    Spells Compound.HasPart (.qualifier q) s r := by
  obtain ⟨c, u, v, hopen, hc, hclose, rfl⟩ := negationWith_eq_ok_iff.1 hq
  have hensures : Ensures p fun o => ∀ q ∈ o, True := fun _ _ _ _ _ _ => trivial
  have hrelative := (compoundWith_ensures (negatable_ensures hensures) hc).2.2
  exact .negation hword hnot hopen (h.negatable.compoundWith hc) (fun q hq => (hrelative q hq).2) hclose

/-- What is read of a qualifier is spelled if negations are. -/
lemma qualifierWith {negation : Parser Qualifier}
    (h : ∀ {word s t r q}, Takes Pattern.pseudoClass word s t → lower word = ":not".toList →
      negation t = .ok (q, r) → Spells Compound.HasPart (.qualifier q) s r) :
    Sound (qualifierWith negation) := by
  refine ⟨fun hq => ?_, fun hq => ?_⟩
  · rcases qualifierWith_eq_ok_iff.1 hq with ⟨name, hname, ho⟩ | ⟨-, ⟨name, hname, ho⟩ | ⟨-,
      ⟨word, t, q, hword, hread, ho⟩ | ⟨-, hattr⟩⟩⟩
    · obtain rfl := Option.some.inj ho
      exact .className hname
    · obtain rfl := Option.some.inj ho
      exact .identifier hname
    · obtain rfl := Option.some.inj ho
      rcases pseudoClassWith_eq_ok_iff.1 hread with ⟨peers, place, hplace, rfl, rfl⟩ |
        ⟨peers, n, hindex, rfl, hn⟩ | ⟨hnot, hnegation⟩
      · exact .place hword hplace
      · exact .index hword hindex hn
      · exact h hword hnot hnegation
    · obtain ⟨name, test, rfl, hbracketed⟩ := attributeIfAny_eq_some_iff.1 hattr
      exact .attr hbracketed
  · rcases qualifierWith_eq_ok_iff.1 hq with ⟨_, -, ho⟩ | ⟨-, ⟨_, -, ho⟩ | ⟨-, ⟨_, _, _, -, -, ho⟩ |
      ⟨-, hattr⟩⟩⟩
    · cases ho
    · cases ho
    · cases ho
    · exact attributeIfAny_eq_none hattr

lemma qualifier (depth : Nat) : Sound (Css.qualifier depth) := by
  induction depth with
  | zero => exact qualifierWith fun _ _ h => by cases h
  | succ depth ih => exact qualifierWith ih.negationWith

lemma compound (h : compound s = .ok (c, r)) : Spells Compound.HasPart (.compound c) s r := by
  unfold Css.compound at h
  rw [bind_of_ok (rest_apply s)] at h
  exact (Sound.qualifier _).compoundWith h

end Sound

/-! ## What is spelled is read -/

/-- Nothing that begins a qualifier follows. -/
def Ends (r : Text) : Prop := ∀ c ∈ r.head?, startsQualifier c = false

section Ends

variable {s t r x : Text} {c : Char} {L : Language Char} {negation : Parser Qualifier}

lemma Ends.not_takes (h : Ends s) (hc : startsQualifier c = true) (x t : Text) :
    ¬Takes (mark c * L) x s t := by
  intro htakes
  rw [h c htakes.head] at hc
  cases hc

/-- White space does not begin a qualifier. -/
lemma startsQualifier_of_isBlank (h : isBlank c = true) : startsQualifier c = false := by
  by_contra hstarts
  rw [Bool.not_eq_false] at hstarts
  have hcompound : startsCompound c = true := by simp [startsCompound, hstarts]
  rw [(startsCompound_spec hcompound).1] at h
  cases h

lemma ends_of_dropWhile (h : Ends (s.dropWhile isBlank)) : Ends s := by
  intro c hc
  obtain ⟨t, rfl⟩ := List.head?_eq_some_iff.1 hc
  by_cases hblank : isBlank c = true
  · exact startsQualifier_of_isBlank hblank
  · rw [List.dropWhile_cons_of_neg hblank] at h
    exact h c rfl

lemma Sign.ends (h : Sign c s r) (hblank : isBlank c = false) (hc : startsQualifier c = false) :
    Ends s := by
  refine ends_of_dropWhile ?_
  rw [(sign_iff hblank).1 h]
  rintro d ⟨⟩
  exact hc

lemma Ends.qualifierWith (h : Ends s) : qualifierWith negation s = .ok (none, s) := by
  have hopen : Lexeme.openBracket s = 0 := recognizes_openBracket.eq_zero_iff.2 fun x t hx =>
    absurd (h '[' hx.head_mark) (by decide)
  exact qualifierWith_eq_ok_iff.2 (.inr ⟨h.not_takes rfl, .inr ⟨h.not_takes rfl,
    .inr ⟨h.not_takes rfl, attributeIfAny_of_none hopen⟩⟩⟩)

lemma Ends.qualifier (h : Ends s) (depth : Nat) : Css.qualifier depth s = .ok (none, s) := by
  cases depth with
  | zero => exact h.qualifierWith
  | succ depth => exact h.qualifierWith

end Ends

/-- What a text that spells the phrase is read as, if negations may be nested as deep as the text is
long. -/
def Phrase.Readable (s r : Text) : Phrase → Prop
  | .qualifier q => r.length < s.length ∧
      ∀ depth, s.length ≤ depth → Css.qualifier depth s = .ok (some q, r)
  | .qualifiers qs => ∀ depth, s.length ≤ depth → Repeats (Css.qualifier depth) s qs r
  | .compound c => r.length ≤ s.length ∧ ∀ depth, s.length ≤ depth → Ends r →
      compoundWith (Css.qualifier depth) s = .ok (c, r) ∧
        ((∀ q ∈ c.qualifiers, q.isTypeRelative = false) →
          compoundWith (negatable (Css.qualifier depth)) s = .ok (c, r))

section Readable

variable {s t r u : Text} {q : Qualifier} {qs : List Qualifier} {depth : Nat} {ph : Phrase}

lemma exists_qualifier_eq (depth : Nat) : ∃ negation, Css.qualifier depth = qualifierWith negation := by
  cases depth with
  | zero => exact ⟨_, rfl⟩
  | succ depth => exact ⟨_, rfl⟩

/-- Qualifiers are read until none follows, also where they may stand in a negation. -/
lemma many_of_readable (h : (Phrase.qualifiers qs).Readable s r) (hdepth : s.length ≤ depth)
    (hr : Ends r) : many (Css.qualifier depth) s = .ok (qs, r) ∧
      ((∀ q ∈ qs, q.isTypeRelative = false) →
        many (negatable (Css.qualifier depth)) s = .ok (qs, r)) := by
  refine ⟨many_of_repeats (h depth hdepth) (hr.qualifier depth), fun hall => ?_⟩
  refine many_of_repeats ((h depth hdepth).of_imp fun q hq s t hread => ?_)
    (negatable_eq_ok_iff.2 ⟨hr.qualifier depth, nofun⟩)
  refine negatable_eq_ok_iff.2 ⟨hread, fun q' hq' => ?_⟩
  obtain rfl := Option.some.inj hq'
  exact hall q hq

/-- A text that begins with one character begins with no pattern of another. -/
lemma not_takes_of_head {c d : Char} {L : Language Char} (h : s.head? = some c) (hne : c ≠ d)
    (x t : Text) : ¬Takes (mark d * L) x s t := fun hx =>
  hne (Option.some.inj (h.symm.trans hx.head))

/-- A pseudo-class is read when what follows its name is. -/
lemma qualifierWith_of_pseudoClass {negation : Parser Qualifier} {word : Text}
    (h : Takes Pattern.pseudoClass word s t)
    (hread : pseudoClassWith negation (lower word) t = .ok (q, r)) :
    qualifierWith negation s = .ok (some q, r) := by
  have hne : ∀ {c L}, ':' ≠ c → ∀ x t, ¬Takes (mark c * L) x s t := fun h' => not_takes_of_head h.head h'
  exact qualifierWith_eq_ok_iff.2 (.inr ⟨hne (by decide), .inr ⟨hne (by decide),
    .inl ⟨_, _, _, h, hread, rfl⟩⟩⟩)

/-- What is spelled is read.

**Proof sketch.** By induction on the spelling. Of the kinds of qualifiers each begins with a character
of its own, so that none is mistaken for another. -/
theorem Spells.readable (h : Spells Compound.HasPart ph s r) : ph.Readable s r := by
  induction h with
  | className h =>
    refine ⟨h.shorter, fun depth _ => ?_⟩
    obtain ⟨negation, hnegation⟩ := exists_qualifier_eq depth
    rw [hnegation]
    exact qualifierWith_eq_ok_iff.2 (.inl ⟨_, h, rfl⟩)
  | identifier h =>
    refine ⟨h.shorter, fun depth _ => ?_⟩
    obtain ⟨negation, hnegation⟩ := exists_qualifier_eq depth
    rw [hnegation]
    exact qualifierWith_eq_ok_iff.2 (.inr ⟨not_takes_of_head h.head (by decide), .inl ⟨_, h, rfl⟩⟩)
  | attr h =>
    refine ⟨h.shorter, fun depth _ => ?_⟩
    obtain ⟨negation, hnegation⟩ := exists_qualifier_eq depth
    have hne : ∀ {c L}, '[' ≠ c → ∀ x t, ¬Takes (mark c * L) x _ t := fun h' =>
      not_takes_of_head h.head h'
    rw [hnegation]
    exact qualifierWith_eq_ok_iff.2 (.inr ⟨hne (by decide), .inr ⟨hne (by decide),
      .inr ⟨hne (by decide), attributeIfAny_eq_some_iff.2 ⟨_, _, rfl, h⟩⟩⟩⟩)
  | place h named =>
    refine ⟨h.shorter, fun depth _ => ?_⟩
    obtain ⟨negation, hnegation⟩ := exists_qualifier_eq depth
    rw [hnegation]
    exact qualifierWith_of_pseudoClass h
      (pseudoClassWith_eq_ok_iff.2 (.inl ⟨_, _, named, rfl, rfl⟩))
  | index h named argument =>
    refine ⟨Nat.lt_of_le_of_lt argument.suffix.length_le h.shorter, fun depth _ => ?_⟩
    obtain ⟨negation, hnegation⟩ := exists_qualifier_eq depth
    rw [hnegation]
    exact qualifierWith_of_pseudoClass h
      (pseudoClassWith_eq_ok_iff.2 (.inr (.inl ⟨_, _, named, rfl, argument⟩)))
  | negation h named opening inner negatable closing ih =>
    obtain ⟨hle, hread⟩ := ih
    have hshorter := h.shorter
    have hopen := opening.suffix.length_le
    have hclose := closing.suffix.length_le
    refine ⟨by omega, fun depth hdepth => ?_⟩
    -- The name of the negation takes up the depth that is lost within it.
    obtain ⟨depth, rfl⟩ : ∃ n, depth = n + 1 := ⟨depth - 1, by omega⟩
    have hinner := (hread depth (by omega) (closing.ends rfl rfl)).2 negatable
    have hnegation := negationWith_eq_ok_iff.2 ⟨_, _, _, opening, hinner, closing, rfl⟩
    exact qualifierWith_of_pseudoClass h
      (pseudoClassWith_eq_ok_iff.2 (.inr (.inr ⟨named, hnegation⟩)))
  | nil => exact fun _ _ => .stop
  | cons head tail ihhead ihtail =>
    obtain ⟨hshorter, hread⟩ := ihhead
    exact fun depth hdepth => .next (hread depth hdepth) hshorter (ihtail depth (by omega))
  | @untyped qs s t r first qualifiers hallowed ih =>
    have hgap := first.suffix.length_le
    refine ⟨Nat.le_trans (ih _ (Nat.le_refl _)).length_le hgap, fun depth hdepth hr => ?_⟩
    obtain ⟨hmany, hmany'⟩ := many_of_readable ih (hgap.trans hdepth) hr
    obtain ⟨hne, hnone⟩ : qs ≠ [] ∧ ∀ x u, ¬Takes Pattern.element x t u := by
      cases qualifiers with
      | nil => exact absurd hallowed (by simp [Compound.HasPart])
      | cons head tail =>
        obtain ⟨c, hc, hstarts⟩ := head.head_qualifier
        refine ⟨List.cons_ne_nil _ _, fun x u hx => ?_⟩
        obtain ⟨d, hd, hnot, -⟩ := hx.head_element
        obtain rfl := Option.some.inj (hc.symm.trans hd)
        rw [hstarts] at hnot
        cases hnot
    exact ⟨compoundWith_eq_ok_iff.2 ⟨t, first, .inr ⟨hnone, hmany, rfl, hne⟩⟩, fun hall =>
      compoundWith_eq_ok_iff.2 ⟨t, first, .inr ⟨hnone, hmany' hall, rfl, hne⟩⟩⟩
  | @typed name qs s t u r first type qualifiers hallowed ih =>
    have hgap := type.suffix.length_le.trans first.suffix.length_le
    refine ⟨Nat.le_trans (ih _ (Nat.le_refl _)).length_le hgap, fun depth hdepth hr => ?_⟩
    obtain ⟨hmany, hmany'⟩ := many_of_readable ih (hgap.trans hdepth) hr
    exact ⟨compoundWith_eq_ok_iff.2 ⟨t, first, .inl ⟨_, _, type, hmany, rfl⟩⟩, fun hall =>
      compoundWith_eq_ok_iff.2 ⟨t, first, .inl ⟨_, _, type, hmany' hall, rfl⟩⟩⟩

lemma compound_of_spells {c : Compound} (h : Spells Compound.HasPart (.compound c) s r) (hr : Ends r) :
    compound s = .ok (c, r) := by
  unfold compound
  rw [bind_of_ok (rest_apply s)]
  exact (h.readable.2 _ (Nat.le_refl _) hr).1

end Readable

/-! ## Combinators -/

section Combinators

variable {s t r : Text} {c : Combinator} {d : Compound}

lemma exists_takes_spaces_iff : (∃ x, Takes Pattern.spaces x s r) ↔
    s.takeWhile isBlank ≠ [] ∧ s.dropWhile isBlank = r := by
  simp only [recognizes_spaces.takes_iff]
  have hne : Lexeme.spaces s ≠ 0 ↔ s.takeWhile isBlank ≠ [] :=
    not_congr List.length_eq_zero_iff
  have hdrop : s.drop (Lexeme.spaces s) = s.dropWhile isBlank := Lexeme.drop_run isBlank s
  constructor
  · rintro ⟨_, hzero, -, rfl⟩
    exact ⟨hne.1 hzero, hdrop.symm⟩
  · rintro ⟨hzero, rfl⟩
    exact ⟨_, hne.2 hzero, rfl, hdrop.symm⟩

/-- A combinator that is read is spelled. -/
lemma joins_of_combinator (h : combinator s = .ok (some c, r)) : Joins c s r := by
  have hsign : ∀ {c : Char}, isBlank c = false → (s.dropWhile isBlank).head? = some c →
      Sign c s (s.dropWhile isBlank).tail := by
    intro c hc hhead
    obtain ⟨t, ht⟩ := List.head?_eq_some_iff.1 hhead
    rw [sign_iff hc, ht]
    rfl
  rw [combinator_eq] at h
  split_ifs at h with hplus htilde hgreater hnil
  · obtain ⟨rfl, rfl⟩ : Combinator.adjacent = c ∧ _ = r := by simpa using h
    exact .adjacent (hsign rfl hplus)
  · obtain ⟨rfl, rfl⟩ : Combinator.sibling = c ∧ _ = r := by simpa using h
    exact .sibling (hsign rfl htilde)
  · obtain ⟨rfl, rfl⟩ : Combinator.child = c ∧ _ = r := by simpa using h
    exact .child (hsign rfl hgreater)
  · simp at h
  · obtain ⟨rfl, rfl⟩ : Combinator.descendant = c ∧ _ = r := by simpa using h
    obtain ⟨x, hx⟩ := exists_takes_spaces_iff.2 ⟨hnil, rfl⟩
    exact .descendant hx

/-- A combinator is read where it is spelled, in front of a compound. -/
lemma Joins.combinator_eq (h : Joins c s r) (hr : Begins r) : combinator s = .ok (some c, r) := by
  have hsign : ∀ {c : Char}, isBlank c = false → Sign c s r → s.dropWhile isBlank = c :: r :=
    fun hc h => (sign_iff hc).1 h
  rw [Css.combinator_eq]
  cases h with
  | child h => rw [hsign rfl h]; rfl
  | adjacent h => rw [hsign rfl h]; rfl
  | sibling h => rw [hsign rfl h]; rfl
  | descendant h =>
    obtain ⟨hne, rfl⟩ := exists_takes_spaces_iff.1 ⟨_, h⟩
    obtain ⟨d, hd, hstarts⟩ := hr
    obtain ⟨-, hplus, htilde, hgreater, -⟩ := startsCompound_spec hstarts
    rw [List.dropWhile_idempotent] at hd
    simp [hd, hplus, htilde, hgreater, hne]

end Combinators

/-! ## Alternatives -/

section Chains

variable {s t r : Text} {c : Combinator} {d : Compound} {cs : Complex}

/-- A compound is spelled after white space as with it. -/
lemma Spells.dropWhile (h : Spells Compound.HasPart (.compound d) s r) :
    Spells Compound.HasPart (.compound d) (s.dropWhile isBlank) r := by
  have hgap : ∀ {t}, Gap s t → Gap (s.dropWhile isBlank) t := fun h => by
    rw [gap_iff] at h ⊢
    rw [List.dropWhile_idempotent, h]
  cases h with
  | untyped first qualifiers hallowed => exact .untyped (hgap first) qualifiers hallowed
  | typed first type qualifiers hallowed => exact .typed (hgap first) type qualifiers hallowed

lemma Begins.comma_eq_zero (h : Begins s) : Lexeme.comma s = 0 := by
  obtain ⟨c, hc, hstarts⟩ := h
  have hcomma := (startsCompound_spec hstarts).2.2.2.2
  refine if_neg fun hhead => ?_
  exact hcomma (Option.some.inj (hc.symm.trans hhead))

/-- A combinator in front of a compound is no comma, and takes up characters. -/
lemma Joins.spec (h : Joins c s r) (hr : Begins r) : s ≠ [] ∧ Lexeme.comma s = 0 ∧
    r.length < s.length ∧ Ends s := by
  have hsign : ∀ {c : Char}, isBlank c = false → c ≠ ',' → startsQualifier c = false → Sign c s r →
      s ≠ [] ∧ Lexeme.comma s = 0 ∧ r.length < s.length ∧ Ends s := by
    intro c hblank hcomma hc h
    have hdrop := (sign_iff hblank).1 h
    refine ⟨?_, if_neg ?_, h.shorter hblank, h.ends hblank hc⟩
    · rintro rfl
      cases hdrop
    · rw [hdrop]
      exact fun hhead => hcomma (Option.some.inj hhead)
  cases h with
  | child h => exact hsign rfl (by decide) rfl h
  | adjacent h => exact hsign rfl (by decide) rfl h
  | sibling h => exact hsign rfl (by decide) rfl h
  | descendant h =>
    obtain ⟨hne, rfl⟩ := exists_takes_spaces_iff.1 ⟨_, h⟩
    cases s with
    | nil => exact absurd rfl hne
    | cons c s =>
      have hc : isBlank c = true := by
        by_contra hc
        exact hne (List.takeWhile_cons_of_neg hc)
      rw [List.dropWhile_cons_of_pos hc] at hr ⊢
      obtain ⟨d, hd, hstarts⟩ := hr
      rw [List.dropWhile_idempotent] at hd
      have hbegins : Begins (c :: s) := ⟨d, by rwa [List.dropWhile_cons_of_pos hc], hstarts⟩
      have hlength := (List.dropWhile_suffix isBlank (l := s)).length_le
      refine ⟨List.cons_ne_nil _ _, hbegins.comma_eq_zero, Nat.lt_succ_of_le hlength, ?_⟩
      rintro _ ⟨⟩
      exact startsQualifier_of_isBlank hc

/-- A further compound that is read is spelled with its combinator. -/
lemma exists_of_furtherCompound (h : furtherCompound s = .ok (some (c, d), r)) :
    ∃ t, Joins c s t ∧ Spells Compound.HasPart (.compound d) t r := by
  by_cases hend : s = [] ∨ Lexeme.comma s ≠ 0
  case pos =>
    rw [furtherCompound_of_end hend] at h
    simp at h
  case neg =>
    rw [not_or, not_not] at hend
    rw [furtherCompound_of_inside hend.1 hend.2] at h
    obtain ⟨o, t, ho, h⟩ := bind_eq_ok_iff.1 h
    cases o with
    | none => cases h
    | some c' =>
      obtain ⟨d', u, hd, h⟩ := bind_eq_ok_iff.1 h
      obtain ⟨⟨rfl, rfl⟩, rfl⟩ : (c' = c ∧ d' = d) ∧ u = r := by simpa using h
      exact ⟨t, joins_of_combinator ho, Sound.compound hd⟩

lemma furtherCompound_of_joins (hjoins : Joins c s t)
    (hd : Spells Compound.HasPart (.compound d) t r) (hr : Ends r) :
    furtherCompound s = .ok (some (c, d), r) := by
  obtain ⟨hne, hcomma, -, -⟩ := hjoins.spec hd.begins
  have hcombinator := hjoins.combinator_eq hd.begins
  have hcompound := compound_of_spells hd hr
  rw [furtherCompound_of_inside hne hcomma]
  exact (bind_of_ok hcombinator).trans (bind_of_ok hcompound)

/-- An alternative that is read is spelled. -/
lemma alternative_of_complex {c : Complex} (h : complex s = .ok (c, r)) :
    Alternative Compound.HasPart c s r := by
  obtain ⟨o, t, ho, h⟩ := bind_eq_ok_iff.1 h
  obtain ⟨d, u, hd, h⟩ := bind_eq_ok_iff.1 h
  obtain ⟨cs, r', hcs, h⟩ := bind_eq_ok_iff.1 h
  obtain ⟨rfl, rfl⟩ : (o.getD .descendant, d) :: cs = c ∧ r' = r := by simpa using h
  have hchained : Chained Compound.HasPart cs u r' := by
    refine many_induction (fun _ => .nil) (fun _ _ hnone => furtherCompound_eq_none hnone ▸ .nil)
      (fun x cs s t r head tail => ?_) hcs
    obtain ⟨v, hjoins, hd⟩ := exists_of_furtherCompound head
    exact .cons hjoins hd tail
  cases o with
  | none =>
    obtain rfl := combinator_eq_none ho
    exact .plain (Sound.compound hd) hchained
  | some c => exact .joined (joins_of_combinator ho) (Sound.compound hd) hchained

/-- What may follow an alternative. -/
def Stops (r : Text) : Prop := r = [] ∨ ∃ t, Sign ',' r t

lemma Stops.ends (h : Stops r) : Ends r := by
  rcases h with rfl | ⟨t, ht⟩
  · nofun
  · exact ht.ends rfl rfl

lemma comma_ne_zero (h : Sign ',' s r) : Lexeme.comma s ≠ 0 :=
  h.elim fun _ hx => ((recognizes_spaced rfl).takes_iff.1 hx).1

lemma Stops.furtherCompound (h : Stops r) : furtherCompound r = .ok (none, r) := by
  refine furtherCompound_of_end ?_
  rcases h with rfl | ⟨t, ht⟩
  · exact .inl rfl
  · exact .inr (comma_ne_zero ht)

/-- Further compounds are read where they are spelled. -/
lemma Chained.repeats (h : Chained Compound.HasPart cs s r) (hr : Stops r) :
    Ends s ∧ Repeats furtherCompound s cs r := by
  induction h with
  | nil => exact ⟨hr.ends, .stop⟩
  | cons joins head tail ih =>
    obtain ⟨hends, hrepeats⟩ := ih hr
    obtain ⟨-, -, hshorter, hends'⟩ := joins.spec head.begins
    have hle := head.readable.1
    exact ⟨hends', .next (furtherCompound_of_joins joins head hends) (by omega) hrepeats⟩

/-- An alternative is read where it is spelled. -/
lemma Alternative.complex_eq {c : Complex} (h : Alternative Compound.HasPart c s r) (hr : Stops r) :
    complex s = .ok (c, r) ∧ r.length ≤ s.length := by
  cases h with
  | plain head tail =>
    obtain ⟨hends, hrepeats⟩ := tail.repeats hr
    obtain ⟨d, hd, hstarts⟩ := head.begins
    obtain ⟨-, hplus, htilde, hgreater, -⟩ := startsCompound_spec hstarts
    have hcombinator := Css.combinator_eq s
    simp only [hd, Option.some.injEq, hplus, htilde, hgreater, if_false] at hcombinator
    have hcompound := compound_of_spells head.dropWhile hends
    have hmany := many_of_repeats hrepeats hr.furtherCompound
    refine ⟨(bind_of_ok hcombinator).trans ((bind_of_ok hcompound).trans
      ((bind_of_ok hmany).trans ?_)), hrepeats.length_le.trans head.readable.1⟩
    split <;> rfl
  | joined joins head tail =>
    obtain ⟨hends, hrepeats⟩ := tail.repeats hr
    have hcombinator := joins.combinator_eq head.begins
    have hcompound := compound_of_spells head hends
    have hmany := many_of_repeats hrepeats hr.furtherCompound
    have hshorter := (joins.spec head.begins).2.2.1
    exact ⟨(bind_of_ok hcombinator).trans ((bind_of_ok hcompound).trans (bind_of_ok hmany)),
      hrepeats.length_le.trans (head.readable.1.trans hshorter.le)⟩

end Chains

/-! ## Groups -/

section Groups

variable {s t r : Text} {c : Complex} {g : Group}

/-- A further alternative is read after a comma, and nothing where none is. -/
lemma furtherComplex_eq_ok_iff {o : Option Complex} : furtherComplex s = .ok (o, r) ↔
    (∃ t c, Sign ',' s t ∧ complex (t.dropWhile isBlank) = .ok (c, r) ∧ o = some c) ∨
      (∀ t, ¬Sign ',' s t) ∧ o = none ∧ s = r := by
  refine (recognizes_spaced (c := ',') rfl).accept_bind_eq_ok_iff.trans (or_congr ?_ ?_)
  · rw [exists_comm]
    refine exists_congr fun t => ?_
    rw [exists_and_right]
    have hread : (skipSpaces >>= fun _ => complex >>= fun c => pure (some c)) t = .ok (o, r) ↔
        ∃ c, complex (t.dropWhile isBlank) = .ok (c, r) ∧ o = some c := by
      simp only [bind_of_ok (skipSpaces_apply _), bind_eq_ok_iff, pure_apply, Except.ok.injEq,
        Prod.mk.injEq]
      constructor
      · rintro ⟨c, _, hc, rfl, rfl⟩
        exact ⟨c, hc, rfl⟩
      · rintro ⟨c, hc, rfl⟩
        exact ⟨c, r, hc, rfl, rfl⟩
    rw [exists_and_left]
    exact and_congr Iff.rfl hread
  · rw [forall_comm]
    simp only [Sign, not_exists, Bool.false_eq_true, if_false, pure_apply, Except.ok.injEq,
      Prod.mk.injEq, eq_comm (a := o)]

/-- A group that is read is spelled. -/
lemma spelled_of_group (h : group s = .ok (g, r)) : Group.Spelled Compound.HasPart g s := by
  obtain ⟨c, t, hc, h⟩ := bind_eq_ok_iff.1 h
  obtain ⟨cs, u, hcs, h⟩ := bind_eq_ok_iff.1 h
  rw [bind_of_ok (rest_apply u)] at h
  split at h
  case isTrue => cases h
  case isFalse hend =>
    rw [not_not] at hend
    subst hend
    obtain ⟨rfl, rfl⟩ : c :: cs = g ∧ [] = r := by simpa using h
    have hcomplex := alternative_of_complex hc
    refine .mk hcomplex (many_induction (fun _ => .nil) (fun s r hnone => ?_)
      (fun c cs s t r head tail => ?_) hcs)
    · rcases furtherComplex_eq_ok_iff.1 hnone with ⟨t, c, -, -, ho⟩ | ⟨-, -, rfl⟩
      · cases ho
      · exact .nil
    · rcases furtherComplex_eq_ok_iff.1 head with ⟨u, d, hcomma, hd, ho⟩ | ⟨-, ho, -⟩
      · obtain rfl := Option.some.inj ho
        exact .cons hcomma (gap_iff.2 rfl) (alternative_of_complex hd) tail
      · cases ho

/-- Further alternatives are read where they are spelled. -/
lemma Alternatives.repeats (h : Alternatives Compound.HasPart g s r) (hr : Stops r) :
    Stops s ∧ Repeats furtherComplex s g r := by
  induction h with
  | nil => exact ⟨hr, .stop⟩
  | cons comma first head tail ih =>
    obtain ⟨hstops, hrepeats⟩ := ih hr
    obtain ⟨hcomplex, hle⟩ := head.complex_eq hstops
    have hshorter := comma.shorter rfl
    have hgap := first.suffix.length_le
    obtain rfl := gap_iff.1 first
    exact ⟨.inr ⟨_, comma⟩, .next (furtherComplex_eq_ok_iff.2 (.inl ⟨_, _, comma, hcomplex, rfl⟩))
      (by omega) hrepeats⟩

/-- A group is read where it is spelled. -/
lemma Group.Spelled.group_eq (h : Group.Spelled Compound.HasPart g s) : group s = .ok (g, []) := by
  cases h with
  | mk head tail =>
    obtain ⟨hstops, hrepeats⟩ := tail.repeats (.inl rfl)
    exact group_of_repeats (head.complex_eq hstops).1 hrepeats

lemma parse_eq_ok_iff_spelled : parse s = .ok g ↔ Group.Spelled Compound.HasPart g (trim s) := by
  rw [parse_eq_ok_iff]
  refine ⟨fun h => spelled_of_group h.2, fun h => ⟨fun hnil => ?_, h.group_eq⟩⟩
  have hgroup := h.group_eq
  rw [hnil] at hgroup
  exact bind_ne_ok complex_nil _ hgroup

/-- The text, but for blanks around it, spells the alternative alone. -/
def Complex.Written (c : Complex) (s : Text) : Prop := Group.Spelled Compound.HasPart [c] (trim s)

lemma Complex.Written.parse_eq {c : Complex} (h : Complex.Written c s) : parse s = .ok [c] :=
  parse_eq_ok_iff_spelled.2 h

/-- A text has an expression exactly if it spells a selector group, whose compounds have a part each,
and the expression is the one of this group. No text spells two. Any other text is reported as no
selector, or with a pseudo-class for which there is no expression.

**Proof sketch.** What is read is spelled, by induction on the depth of negations, and what is spelled
is read, by induction on the spelling. Two groups that a text spells are both what is read of it. -/
theorem expressionOf_recognizes (s : Text) (scope : Scope) :
    (∀ x, Query.expressionOf s scope = .ok x ↔
      ∃ g, Group.Spelled Compound.HasPart g (trim s) ∧ x = Group.toXPath scope g) ∧
    (∀ g g', Group.Spelled Compound.HasPart g (trim s) →
      Group.Spelled Compound.HasPart g' (trim s) → g = g') ∧
    ((∃ x, Query.expressionOf s scope = .ok x) ∨
      (∃ offset reason, Query.expressionOf s scope = .error (.invalidCss s offset reason)) ∨
        ∃ name, Query.expressionOf s scope = .error (.unsupportedPseudoClass name)) := by
  have hfault : ∀ fault offset, parse s = .error (fault, offset) →
      Query.expressionOf s scope = .error (.invalidCss s offset fault.reason) ∨
        ∃ name, Query.expressionOf s scope = .error (.unsupportedPseudoClass name) := by
    intro fault offset h
    unfold Query.expressionOf
    rw [h]
    cases fault with
    | unsupportedPseudoClass name => exact .inr ⟨name, rfl⟩
    | _ => exact .inl rfl
  have hok : ∀ g, parse s = .ok g → Query.expressionOf s scope = .ok (Group.toXPath scope g) := by
    intro g h
    unfold Query.expressionOf
    rw [h]
  refine ⟨fun x => ?_, fun g g' h h' => ?_, ?_⟩
  · simp only [← parse_eq_ok_iff_spelled]
    constructor
    · intro hx
      cases hparse : parse s with
      | ok g =>
        rw [hok g hparse] at hx
        exact ⟨g, rfl, (Except.ok.inj hx).symm⟩
      | error e =>
        obtain h | ⟨name, h⟩ := hfault e.1 e.2 hparse
        all_goals
          rw [h] at hx
          cases hx
    · rintro ⟨g, hg, rfl⟩
      exact hok g hg
  · exact Except.ok.inj
      ((parse_eq_ok_iff_spelled.2 h).symm.trans (parse_eq_ok_iff_spelled.2 h'))
  · cases hparse : parse s with
    | ok g => exact .inl ⟨_, hok g hparse⟩
    | error e =>
      obtain h | h := hfault e.1 e.2 hparse
      · exact .inr (.inl ⟨_, _, h⟩)
      · exact .inr (.inr h)

/-- In a grammar in which compounds may have no part, a text spells an alternative after its comma
that is not read. -/
theorem expressionOf_rejects_empty_compound :
    Group.Spelled (fun _ => True) [[(.descendant, ⟨some "a", []⟩)], [(.descendant, ⟨none, []⟩)]]
      (trim "a,") ∧
    Query.expressionOf "a," .document =
      .error (.invalidCss "a," 2 "expected an element or a qualifier") := by
  have htext : "a,".toList = ['a', ','] := by simp
  have hname : "a".toList = lower ['a'] := by simp [lower]
  have hgap : ∀ {s r : Text}, s.dropWhile isBlank = r → Gap s r := gap_iff.2
  have htype : Takes Pattern.element ['a'] ['a', ','] [','] :=
    recognizes_element.takes_iff.2 ⟨by decide, rfl, rfl⟩
  have hcomma : Sign ',' [','] [] := (sign_iff rfl).2 rfl
  rw [htext, hname]
  constructor
  · exact .mk (.plain (.typed (hgap rfl) htype .nil trivial) .nil)
      (.cons hcomma (hgap rfl) (.plain (.untyped (hgap rfl) .nil trivial) .nil) .nil)
  · rfl

end Groups

end WebCrawl.Css
