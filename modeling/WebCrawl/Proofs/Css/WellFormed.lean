import Mathlib
import WebCrawl.Css.Reading
import WebCrawl.Proofs.Reader
import WebCrawl.Proofs.XPath.Lexing

set_option autoImplicit false

/-!
# Selectors that can be read

A selector that was read from a text has names of the kinds of characters that the lexemes allow, no
compound without parts, and no place among siblings of one type in a negation.

## Main definitions

* `WebCrawl.Css.IsTypeName`, `WebCrawl.Css.IsAttributeName` — the shapes of names.
* `WebCrawl.Css.Qualifier.WellFormed`, `WebCrawl.Css.Group.WellFormed` — well-formed selectors.

## Main results

* `WebCrawl.Css.wellFormed_of_parse` — what is read is well-formed.
-/

namespace WebCrawl.Css

open Reader Text

/-! ## Characters -/

/-- A letter begins a name. -/
lemma isNameStart_of_isAlpha {c : Char} (h : c.isAlpha = true) : XPath.isNameStart c = true := by
  simp [XPath.isNameStart, h]

/-- The characters of names are characters of names in expressions. -/
lemma isNameChar_of_css {c : Char} (h : Lexeme.isNameChar c = true) :
    XPath.isNameChar c = true := by
  by_cases hascii : c.toNat < 128
  · simp only [Lexeme.isNameChar, isWord, hascii, if_true, Char.isAlphanum, Bool.or_eq_true,
      beq_iff_eq] at h
    simp only [XPath.isNameChar, XPath.isNameStart, Bool.or_eq_true, beq_iff_eq]
    tauto
  · simp only [XPath.isNameChar, XPath.isNameStart, Bool.or_eq_true, decide_eq_true_eq]
    omega

/-- The characters of attribute names are characters of names in expressions, or colons. -/
lemma isNameChar_of_isAttributeChar {c : Char} (h : Lexeme.isAttributeChar c = true) :
    XPath.isNameChar c = true ∨ c = ':' := by
  simp only [Lexeme.isAttributeChar, Bool.or_eq_true, beq_iff_eq] at h
  obtain (h | rfl) | rfl := h
  · exact .inl (isNameChar_of_css h)
  · exact .inr rfl
  · exact .inl rfl

/-- The characters of names are the same in lower case. -/
lemma isNameChar_toLower {c : Char} (h : XPath.isNameChar c = true) :
    XPath.isNameChar c.toLower = true := by
  by_cases hupper : c.isUpper = true
  · have halpha : c.toLower.isAlpha = true := by
      rw [Char.isAlpha_toLower_eq_isAlpha, Char.isAlpha, hupper, Bool.true_or]
    exact XPath.isNameChar_of_isNameStart (isNameStart_of_isAlpha halpha)
  · rw [Char.toLower_eq_of_not_isUpper hupper]
    exact h

/-- Blanks are no letters. -/
lemma isBlank_of_isAlpha {c : Char} (h : c.isAlpha = true) : isBlank c = false := by
  have hletters : 'A'.val.toNat = 65 ∧ 'Z'.val.toNat = 90 ∧ 'a'.val.toNat = 97 ∧
      'z'.val.toNat = 122 := ⟨rfl, rfl, rfl, rfl⟩
  have hval : c.toNat = c.val.toNat := rfl
  simp only [Char.isAlpha, Char.isUpper, Char.isLower, Bool.or_eq_true, Bool.and_eq_true,
    decide_eq_true_eq, ge_iff_le, UInt32.le_iff_toNat_le] at h
  simp only [isBlank, Bool.or_eq_false_iff, Bool.and_eq_false_iff, beq_eq_false_iff_ne,
    decide_eq_false_iff_not]
  omega

/-! ## Names -/

/-- The text is a star, or the name of a type. -/
def IsTypeName (name : Text) : Prop := name = ['*'] ∨ XPath.isName name = true

/-- The text has the characters of names of attributes. -/
def IsAttributeName (name : Text) : Prop :=
  ∃ c s, name = c :: s ∧ (c = '-' ∨ c = ':' ∨ c = '_' ∨ c.isAlpha = true) ∧
    ∀ d ∈ s, XPath.isNameChar d = true ∨ d = ':'

/-- A text of characters of names is a name, if it begins as one. -/
lemma isName_of_all {c : Char} {s : Text} (hc : XPath.isNameStart c = true)
    (hblank : isBlank c = false) (hs : ∀ d ∈ s, XPath.isNameChar d = true) :
    XPath.isName (c :: s) = true := by
  have htake : s.takeWhile XPath.isNameChar = s := List.takeWhile_eq_self_iff.2 hs
  have hrest : XPath.nameRest s = s.length := by
    rw [XPath.nameRest_eq, ← XPath.drop_length_takeWhile, htake, List.drop_length]
    rfl
  simp [XPath.isName, hc, hblank, hrest]

/-! ## Lexemes -/

/-- What a run of characters takes is of its class. -/
lemma mem_of_run {p : Char → Bool} {s : Text} {c : Char} (h : c ∈ s.take (Lexeme.run p s)) :
    p c = true := by
  have htake : s.take (Lexeme.run p s) = s.takeWhile p :=
    List.prefix_iff_eq_take.1 (List.takeWhile_prefix p) |>.symm
  rw [htake] at h
  exact List.mem_takeWhile_imp h

/-- What a marked lexeme takes, after its mark. -/
lemma marked_spec {c : Char} {p : Char → Bool} {s : Text} (h : Lexeme.marked c p s ≠ 0) :
    (s.take (Lexeme.marked c p s)).drop 1 ≠ [] ∧
      ∀ d ∈ (s.take (Lexeme.marked c p s)).drop 1, p d = true := by
  cases s with
  | nil => exact absurd rfl h
  | cons d s =>
    have heq : Lexeme.marked c p (d :: s) =
        if d = c ∧ Lexeme.run p s ≠ 0 then Lexeme.run p s + 1 else 0 := rfl
    by_cases hmark : d = c ∧ Lexeme.run p s ≠ 0
    · rw [heq, if_pos hmark, List.take_succ_cons, List.drop_one, List.tail_cons]
      refine ⟨fun hnil => ?_, fun e he => mem_of_run he⟩
      have hlength := congrArg List.length hnil
      have hle : Lexeme.run p s ≤ s.length := (List.takeWhile_prefix p).length_le
      rw [List.length_take, Nat.min_eq_left hle] at hlength
      exact hmark.2 hlength
    · rw [heq, if_neg hmark] at h
      exact absurd rfl h

/-- What a headed lexeme takes. -/
lemma headed_spec {first later : Char → Bool} {s : Text} (h : Lexeme.headed first later s ≠ 0) :
    ∃ c t, s.take (Lexeme.headed first later s) = c :: t ∧ first c = true ∧
      ∀ d ∈ t, later d = true := by
  cases s with
  | nil => exact absurd rfl h
  | cons c s =>
    have heq : Lexeme.headed first later (c :: s) =
        if first c then Lexeme.run later s + 1 else 0 := rfl
    by_cases hfirst : first c = true
    · rw [heq, if_pos hfirst, List.take_succ_cons]
      exact ⟨c, _, rfl, hfirst, fun d hd => mem_of_run hd⟩
    · rw [heq, if_neg hfirst] at h
      exact absurd rfl h

/-- Underscores and letters begin names. -/
lemma isNameStart_of_first {c : Char} (h : c = '_' ∨ c.isAlpha = true) :
    XPath.isNameStart c = true ∧ isBlank c = false := by
  obtain rfl | halpha := h
  · exact ⟨rfl, rfl⟩
  · exact ⟨isNameStart_of_isAlpha halpha, isBlank_of_isAlpha halpha⟩

/-- The first characters of names stay such in lower case. -/
lemma first_toLower {c : Char} (h : c = '_' ∨ c.isAlpha = true) :
    c.toLower = '_' ∨ c.toLower.isAlpha = true := by
  obtain rfl | halpha := h
  · exact .inl rfl
  · exact .inr ((Char.isAlpha_toLower_eq_isAlpha c).trans halpha)

/-- The name of a type is one in lower case. -/
lemma isTypeName_of_element {s : Text} (h : Lexeme.element s ≠ 0) :
    IsTypeName (lower (s.take (Lexeme.element s))) := by
  match s with
  | [] => exact absurd rfl h
  | c :: s =>
    by_cases hstar : c = '*'
    · subst hstar
      exact .inl rfl
    · have helement : Lexeme.element (c :: s) =
          Lexeme.headed (fun c => c == '_' || c.isAlpha) Lexeme.isNameChar (c :: s) := by
        unfold Lexeme.element
        split
        · contradiction
        · simp_all
        · rfl
      rw [helement] at h ⊢
      obtain ⟨d, t, htake, hfirst, hlater⟩ := headed_spec h
      rw [htake]
      simp only [Bool.or_eq_true, beq_iff_eq] at hfirst
      obtain ⟨hstart, hblank⟩ := isNameStart_of_first (first_toLower hfirst)
      refine .inr (isName_of_all hstart hblank fun e he => ?_)
      obtain ⟨f, hf, rfl⟩ := List.mem_map.1 he
      exact isNameChar_toLower (isNameChar_of_css (hlater f hf))

/-- The name of an attribute has its shape in lower case. -/
lemma isAttributeName_of_lexeme {s : Text} (h : Lexeme.attributeName s ≠ 0) :
    IsAttributeName (lower (s.take (Lexeme.attributeName s))) := by
  obtain ⟨c, t, htake, hfirst, hlater⟩ := headed_spec h
  refine ⟨c.toLower, lower t, congrArg lower htake, ?_, fun d hd => ?_⟩
  · simp only [Bool.or_eq_true, beq_iff_eq] at hfirst
    obtain ((rfl | hscore) | rfl) | halpha := hfirst
    · exact .inl rfl
    · exact .inr (.inr (first_toLower (.inl hscore)))
    · exact .inr (.inl rfl)
    · exact .inr (.inr (first_toLower (.inr halpha)))
  · obtain ⟨e, he, rfl⟩ := List.mem_map.1 hd
    obtain hchar | rfl := isNameChar_of_isAttributeChar (hlater e he)
    · exact .inl (isNameChar_toLower hchar)
    · exact .inr rfl

/-! ## Well-formed selectors -/

/-- A qualifier that can be read. -/
inductive Qualifier.WellFormed : Qualifier → Prop
  | className {name : Text} (hne : name ≠ [])
    (h : ∀ c ∈ name, Lexeme.isNameChar c = true) : WellFormed (.className name)
  | identifier (name : Text) : WellFormed (.identifier name)
  | attr {name : Text} (h : IsAttributeName name) (test : AttributeTest) :
    WellFormed (.attr name test)
  | place (peers : Peers) (place : Place) : WellFormed (.place peers place)
  | negation {type : Option Text} {qs : List Qualifier} (htype : ∀ t ∈ type, IsTypeName t)
    (some : type ≠ none ∨ qs ≠ []) (hqs : ∀ q ∈ qs, q.WellFormed)
    (hrelative : ∀ q ∈ qs, q.isTypeRelative = false) : WellFormed (.negation type qs)

/-- A compound that can be read. -/
structure Compound.WellFormed (c : Compound) : Prop where
  /-- The type has the shape of one. -/
  type : ∀ t ∈ c.type, IsTypeName t
  /-- There is a part at least. -/
  some : c.type ≠ none ∨ c.qualifiers ≠ []
  /-- The qualifiers can be read. -/
  qualifiers : ∀ q ∈ c.qualifiers, q.WellFormed

/-- An alternative that can be read. -/
def Complex.WellFormed (c : Complex) : Prop := c ≠ [] ∧ ∀ part ∈ c, part.2.WellFormed

/-- A selector group that can be read. -/
def Group.WellFormed (g : Group) : Prop := g ≠ [] ∧ ∀ c ∈ g, Complex.WellFormed c

/-! ## Readers -/

/-- Whatever the reader reads has the property. -/
def Ensures {α : Type} (p : Parser α) (Q : α → Prop) : Prop :=
  ∀ ⦃s a r⦄, p s = .ok (a, r) → Q a

section Readers

variable {s r : Text} {x : Text} {lexeme : Lexeme}

/-- A lexeme that was read is what the text begins with. -/
lemma token?_eq_some (h : token? lexeme s = .ok (some x, r)) :
    lexeme s ≠ 0 ∧ x = s.take (lexeme s) ∧ r = s.drop (lexeme s) := by
  unfold token? at h
  split at h
  case isTrue => simp at h
  case isFalse hne =>
    simp only [Except.ok.injEq, Prod.mk.injEq, Option.some.injEq] at h
    exact ⟨hne, h.1.symm, h.2.symm⟩

/-- A lexeme that has to be read is what the text begins with. -/
lemma token_eq_ok {fault : Fault} (h : token lexeme fault s = .ok (x, r)) :
    lexeme s ≠ 0 ∧ x = s.take (lexeme s) ∧ r = s.drop (lexeme s) := by
  simp only [token, bind_eq_ok_iff, require_eq_ok_iff] at h
  obtain ⟨o, t, ho, rfl, rfl⟩ := h
  exact token?_eq_some ho

/-- All of many values have the property that each of them has. -/
lemma Ensures.many {α : Type} {p : Parser (Option α)} {Q : α → Prop}
    (h : Ensures p fun o => ∀ a ∈ o, Q a) : Ensures (many p) fun as => ∀ a ∈ as, Q a := by
  intro s as r hs
  refine many_induction (R := fun as _ _ => ∀ a ∈ as, Q a) ?_ ?_ ?_ hs
  · exact fun _ a ha => absurd ha List.not_mem_nil
  · exact fun _ _ _ a ha => absurd ha List.not_mem_nil
  · intro a as s t r ha has
    rw [List.forall_mem_cons]
    exact ⟨h ha a rfl, has⟩

/-- What a compound consists of when its qualifiers have a property. -/
lemma compoundWith_ensures {qualifier : Parser (Option Qualifier)} {Q : Qualifier → Prop}
    (h : Ensures qualifier fun o => ∀ q ∈ o, Q q) :
    Ensures (compoundWith qualifier) fun c => (∀ t ∈ c.type, IsTypeName t) ∧
      (c.type ≠ none ∨ c.qualifiers ≠ []) ∧ ∀ q ∈ c.qualifiers, Q q := by
  intro s c r hs
  unfold compoundWith at hs
  simp only [bind_eq_ok_iff] at hs
  obtain ⟨_, t, -, type, u, htype, qs, v, hqs, hs⟩ := hs
  split at hs
  case isTrue => simp [bind_eq_ok_iff] at hs
  case isFalse hparts =>
    obtain ⟨rfl, -⟩ : (⟨type.map Text.lower, qs⟩ : Compound) = c ∧ v = r := by
      simpa using hs
    refine ⟨fun name hname => ?_, ?_, h.many hqs⟩
    · obtain ⟨lexeme, rfl, rfl⟩ := Option.map_eq_some_iff.1 hname
      obtain ⟨hne, rfl, -⟩ := token?_eq_some htype
      exact isTypeName_of_element hne
    · cases type <;> cases qs <;> simp_all

/-- In a negation, no qualifier counts places among siblings of one type. -/
lemma negatable_ensures {qualifier : Parser (Option Qualifier)} {Q : Qualifier → Prop}
    (h : Ensures qualifier fun o => ∀ q ∈ o, Q q) :
    Ensures (negatable qualifier) fun o => ∀ q ∈ o, Q q ∧ q.isTypeRelative = false := by
  intro s o r hs
  unfold negatable at hs
  rw [bind_eq_ok_iff] at hs
  obtain ⟨o', t, ho, hs⟩ := hs
  split at hs
  case isTrue => simp [bind_eq_ok_iff] at hs
  case isFalse hrelative =>
    obtain ⟨rfl, -⟩ : o' = o ∧ t = r := by simpa using hs
    intro q hq
    obtain rfl : o' = some q := hq
    exact ⟨h ho q rfl, by simpa using hrelative⟩

/-- A negation is well-formed when its qualifiers are. -/
lemma negationWith_ensures {qualifier : Parser (Option Qualifier)}
    (h : Ensures qualifier fun o => ∀ q ∈ o, q.WellFormed) :
    Ensures (negationWith qualifier) Qualifier.WellFormed := by
  intro s q r hs
  simp only [negationWith, bind_eq_ok_iff, pure_apply, Except.ok.injEq, Prod.mk.injEq] at hs
  obtain ⟨_, _, -, _, _, -, _, _, -, inner, _, hinner, _, _, -, _, _, -, rfl, -⟩ := hs
  obtain ⟨htype, hsome, hqs⟩ := compoundWith_ensures (negatable_ensures h) hinner
  exact .negation htype hsome (fun q hq => (hqs q hq).1) fun q hq => (hqs q hq).2

/-- A pseudo-class is well-formed when a negation is. -/
lemma pseudoClassWith_ensures {negation : Parser Qualifier}
    (h : Ensures negation Qualifier.WellFormed) (name : Text) :
    Ensures (pseudoClassWith negation name) Qualifier.WellFormed := by
  intro s q r hs
  unfold pseudoClassWith at hs
  repeat' split at hs
  all_goals first
    | exact h hs
    | (simp only [bind_eq_ok_iff, pure_apply, Except.ok.injEq, Prod.mk.injEq] at hs
       obtain ⟨_, _, -, rfl, -⟩ := hs
       exact .place _ _)
    | (simp only [pure_apply, Except.ok.injEq, Prod.mk.injEq] at hs
       obtain ⟨rfl, -⟩ := hs
       exact .place _ _)
    | cases hs

/-- An attribute with its brackets is well-formed. -/
lemma bracketed_ensures : Ensures bracketed Qualifier.WellFormed := by
  intro s q r hs
  simp only [bracketed, bind_eq_ok_iff] at hs
  obtain ⟨_, _, -, _, t, -, name, u, hname, _, _, -, b, _, -, hs⟩ := hs
  obtain ⟨hne, rfl, -⟩ := token_eq_ok hname
  have hshape := isAttributeName_of_lexeme hne
  cases b with
  | true =>
    obtain ⟨rfl, -⟩ : Qualifier.attr (lower (t.take (Lexeme.attributeName t))) .present = q ∧
        _ = r := by simpa using hs
    exact .attr hshape _
  | false =>
    simp only [Bool.false_eq_true, if_false, bind_eq_ok_iff, pure_apply, Except.ok.injEq,
      Prod.mk.injEq] at hs
    obtain ⟨_, _, -, _, _, -, _, _, -, _, _, -, _, _, -, rfl, -⟩ := hs
    exact .attr hshape _

/-- A qualifier is well-formed when a negation is. -/
lemma qualifierWith_ensures {negation : Parser Qualifier}
    (h : Ensures negation Qualifier.WellFormed) :
    Ensures (qualifierWith negation) fun o => ∀ q ∈ o, q.WellFormed := by
  intro s o r hs
  unfold qualifierWith at hs
  rw [bind_eq_ok_iff] at hs
  obtain ⟨className, t, hclass, hs⟩ := hs
  cases className with
  | some name =>
    obtain ⟨rfl, -⟩ : some (Qualifier.className (name.drop 1)) = o ∧ t = r := by simpa using hs
    rintro q ⟨⟩
    obtain ⟨hne, rfl, -⟩ := token?_eq_some hclass
    obtain ⟨hname, hall⟩ := marked_spec hne
    exact .className hname hall
  | none =>
    rw [bind_eq_ok_iff] at hs
    obtain ⟨identifier, t, -, hs⟩ := hs
    cases identifier with
    | some name =>
      obtain ⟨rfl, -⟩ : some (Qualifier.identifier (name.drop 1)) = o ∧ t = r := by simpa using hs
      rintro q ⟨⟩
      exact .identifier _
    | none =>
      rw [bind_eq_ok_iff] at hs
      obtain ⟨pseudoClass, t, -, hs⟩ := hs
      cases pseudoClass with
      | some name =>
        simp only [bind_eq_ok_iff, pure_apply, Except.ok.injEq, Prod.mk.injEq] at hs
        obtain ⟨q, _, hq, rfl, -⟩ := hs
        rintro q' ⟨⟩
        exact pseudoClassWith_ensures h _ hq
      | none =>
        simp only [bind_eq_ok_iff, rest_apply, Except.ok.injEq, Prod.mk.injEq] at hs
        obtain ⟨_, _, ⟨rfl, rfl⟩, hs⟩ := hs
        split at hs
        case isTrue =>
          simp only [bind_eq_ok_iff, pure_apply, Except.ok.injEq, Prod.mk.injEq] at hs
          obtain ⟨q, _, hq, rfl, -⟩ := hs
          rintro q' ⟨⟩
          exact bracketed_ensures hq
        case isFalse =>
          obtain ⟨rfl, -⟩ : none = o ∧ _ = r := by simpa using hs
          simp

/-- A qualifier that is read is well-formed, however deep its negations are nested. -/
lemma qualifier_ensures (depth : Nat) :
    Ensures (qualifier depth) fun o => ∀ q ∈ o, q.WellFormed := by
  induction depth with
  | zero => exact qualifierWith_ensures fun s a r hs => by cases hs
  | succ depth ih => exact qualifierWith_ensures (negationWith_ensures ih)

/-- A compound that is read is well-formed. -/
lemma compound_ensures : Ensures compound Compound.WellFormed := by
  intro s c r hs
  simp only [compound, bind_eq_ok_iff, rest_apply, Except.ok.injEq, Prod.mk.injEq] at hs
  obtain ⟨_, _, ⟨rfl, rfl⟩, hs⟩ := hs
  obtain ⟨htype, hsome, hqs⟩ := compoundWith_ensures (qualifier_ensures _) hs
  exact ⟨htype, hsome, hqs⟩

/-- A compound that is read after a combinator is well-formed. -/
lemma furtherCompound_ensures :
    Ensures furtherCompound fun o => ∀ part ∈ o, part.2.WellFormed := by
  intro s o r hs
  simp only [furtherCompound, bind_eq_ok_iff, rest_apply, Except.ok.injEq, Prod.mk.injEq] at hs
  obtain ⟨_, _, ⟨rfl, rfl⟩, hs⟩ := hs
  split at hs
  case isTrue =>
    obtain ⟨rfl, -⟩ : none = o ∧ _ = r := by simpa using hs
    simp
  case isFalse =>
    rw [bind_eq_ok_iff] at hs
    obtain ⟨c, t, -, hs⟩ := hs
    cases c with
    | none =>
      obtain ⟨rfl, -⟩ : none = o ∧ _ = r := by simpa using hs
      simp
    | some c =>
      simp only [bind_eq_ok_iff, pure_apply, Except.ok.injEq, Prod.mk.injEq] at hs
      obtain ⟨d, _, hd, rfl, -⟩ := hs
      rintro part ⟨⟩
      exact compound_ensures hd

/-- An alternative that is read is well-formed. -/
lemma complex_ensures : Ensures complex Complex.WellFormed := by
  intro s c r hs
  simp only [complex, bind_eq_ok_iff, pure_apply, Except.ok.injEq, Prod.mk.injEq] at hs
  obtain ⟨_, _, -, head, _, hhead, more, _, hmore, rfl, -⟩ := hs
  refine ⟨by simp, ?_⟩
  rw [List.forall_mem_cons]
  exact ⟨compound_ensures hhead, furtherCompound_ensures.many hmore⟩

/-- An alternative that is read after a comma is well-formed. -/
lemma furtherComplex_ensures :
    Ensures furtherComplex fun o => ∀ c ∈ o, Complex.WellFormed c := by
  intro s o r hs
  unfold furtherComplex at hs
  rw [bind_eq_ok_iff] at hs
  obtain ⟨b, t, -, hs⟩ := hs
  cases b with
  | false =>
    obtain ⟨rfl, -⟩ : none = o ∧ t = r := by simpa using hs
    simp
  | true =>
    simp only [if_true, bind_eq_ok_iff, pure_apply, Except.ok.injEq, Prod.mk.injEq] at hs
    obtain ⟨_, _, -, c, _, hc, rfl, -⟩ := hs
    rintro c' ⟨⟩
    exact complex_ensures hc

/-- A selector group that is read is well-formed. -/
lemma group_ensures : Ensures group Group.WellFormed := by
  intro s g r hs
  simp only [group, bind_eq_ok_iff] at hs
  obtain ⟨first, _, hfirst, more, _, hmore, _, _, -, hs⟩ := hs
  split at hs
  case isTrue => simp [bind_eq_ok_iff] at hs
  case isFalse =>
    obtain ⟨rfl, -⟩ : first :: more = g ∧ _ = r := by simpa using hs
    refine ⟨by simp, ?_⟩
    rw [List.forall_mem_cons]
    exact ⟨complex_ensures hfirst, furtherComplex_ensures.many hmore⟩

/-- What a text is read as is well-formed. -/
theorem wellFormed_of_parse {selector : Text} {g : Group} (h : parse selector = .ok g) :
    Group.WellFormed g := by
  unfold parse at h
  dsimp only at h
  split at h
  case isTrue => cases h
  case isFalse =>
    split at h
    case h_1 g' r heq =>
      obtain rfl : g' = g := by simpa using h
      exact group_ensures heq
    case h_2 => cases h

end Readers

end WebCrawl.Css
