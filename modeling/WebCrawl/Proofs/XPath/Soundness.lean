import Mathlib.Tactic.Common
import WebCrawl.Proofs.Reader
import WebCrawl.Proofs.XPath.Grammar

set_option autoImplicit false

/-!
# What is read is spelled

Each reader of expressions takes off the tokens that spell what it returns. Nothing is said here of
the tokens that are left.

## Main definitions

* `WebCrawl.XPath.Takes` — a reader takes off tokens that spell its value.

## Main results

* `WebCrawl.XPath.expression_takes` — an expression is read off tokens that spell it.
* `WebCrawl.XPath.spells_of_parseTokens` — an expression that the tokens are read as is spelled by
  them.
-/

namespace WebCrawl.XPath

open Reader

/-! ## Single tokens -/

section Tokens

variable {s r : List Located} {t : Token} {b : Bool} {fault : Fault}

@[simp] lemma peek_apply (s : List Located) : peek s = .ok (s.head?.map (·.token), s) := rfl

@[simp] lemma peekSecond_apply (s : List Located) :
    peekSecond s = .ok (s[1]?.map (·.token), s) := rfl

/-- A token that is asked for is taken off if it is the next. -/
lemma accept_apply (t : Token) (s : List Located) :
    accept t s = if s.head?.map (·.token) = some t then .ok (true, s.drop 1) else .ok (false, s) := by
  unfold accept
  rw [bind_of_ok (peek_apply s)]
  split <;> rfl

/-- A token that is next is taken off. -/
lemma accept_eq_true (h : accept t s = .ok (true, r)) : ∃ l, l.token = t ∧ s = l :: r := by
  rw [accept_apply] at h
  split at h
  case isTrue hnext =>
    cases s with
    | nil => cases hnext
    | cons l s =>
      obtain rfl : s = r := by simpa using h
      exact ⟨l, by simpa using hnext, rfl⟩
  case isFalse => cases h

/-- A token that is not next leaves all as it is. -/
lemma accept_eq_false (h : accept t s = .ok (false, r)) : s = r := by
  rw [accept_apply] at h
  split at h
  case isTrue => cases h
  case isFalse => simpa using h

/-- A token that has to be next is taken off. -/
lemma expect_eq_ok {u : Unit} (h : expect t fault s = .ok (u, r)) :
    ∃ l, l.token = t ∧ s = l :: r := by
  unfold expect at h
  rw [bind_eq_ok_iff] at h
  obtain ⟨b, q, hb, h⟩ := h
  cases b with
  | false => cases h
  | true =>
    obtain rfl : q = r := by simpa using h
    exact accept_eq_true hb

end Tokens

/-! ## Readers and what they take off -/

/-- A reader takes off tokens that spell its value. -/
def Takes {α : Type} (p : Parser α) (spells : α → List Token → Prop) : Prop :=
  ∀ ⦃s a r⦄, p s = .ok (a, r) → ∃ c : List Located, s = c ++ r ∧ spells a (c.map (·.token))

/-- A reader of expressions at a level takes off tokens that spell one. -/
abbrev TakesExpr (l : Level) (p : Parser Expr) : Prop := Takes p fun e => Spells (.expr l e)

section Chains

variable {operand : Parser Expr} {l : Level} {s r : List Located}

/-- A further operand takes up at least its operator. -/
lemma furtherOperand_takes (h : TakesExpr l.next operand) {f : Combination} {e : Expr}
    (hr : furtherOperand operand l.operator s = .ok (some (f, e), r)) :
    ∃ (t : Located) (c : List Located), s = t :: c ++ r ∧ l.operator t.token = some f ∧
      Spells (.expr l.next e) (c.map (·.token)) := by
  unfold furtherOperand at hr
  rw [bind_of_ok (peek_apply s)] at hr
  cases s with
  | nil => cases hr
  | cons t s =>
    cases hf : l.operator t.token with
    | none => simp [hf] at hr
    | some g =>
      simp only [List.head?_cons, Option.map_some, Option.bind_some, hf, bind_eq_ok_iff, skip_apply,
        pure_apply, Except.ok.injEq, Prod.mk.injEq, Option.some.injEq] at hr
      obtain ⟨_, _, ⟨-, rfl⟩, e', r', he, ⟨rfl, rfl⟩, rfl⟩ := hr
      obtain ⟨c, hc, hs⟩ := h he
      exact ⟨t, c, by simpa using hc, hf, hs⟩

/-- Operands that are put together from the left are spelled one after the other. -/
lemma foldl_spelled (h : TakesExpr l.next operand) {more : List (Combination × Expr)}
    (hm : Repeats (furtherOperand operand l.operator) s more r) {left : Expr} {ts : List Token}
    (hl : Spells (.expr l left) ts) :
    ∃ c : List Located, s = c ++ r ∧
      Spells (.expr l (more.foldl (fun left (combine, right) => combine left right) left))
        (ts ++ c.map (·.token)) := by
  induction hm generalizing left ts with
  | stop => exact ⟨[], rfl, by simpa using hl⟩
  | @next s u r a as head shorter tail ih =>
    obtain ⟨f, e⟩ := a
    obtain ⟨t, c, rfl, ht, he⟩ := furtherOperand_takes h head
    obtain ⟨d, rfl, hd⟩ := ih (.binary ht hl he)
    exact ⟨t :: c ++ d, by simp, by simpa using hd⟩

/-- Operands with operators between them are read off tokens that spell them together. -/
lemma chain_takes (h : TakesExpr l.next operand) : TakesExpr l (chain operand l.operator) := by
  intro s e r hr
  simp only [chain, bind_eq_ok_iff, pure_apply, Except.ok.injEq, Prod.mk.injEq] at hr
  obtain ⟨first, t, hfirst, more, u, hmore, rfl, rfl⟩ := hr
  obtain ⟨c, rfl, hc⟩ := h hfirst
  have hprogress : ∀ s a t, furtherOperand operand l.operator s = .ok (some a, t) →
      t.length < s.length := by
    rintro s ⟨f, e⟩ t ht
    obtain ⟨o, d, rfl, -, -⟩ := furtherOperand_takes h ht
    simp only [List.length_append, List.length_cons]
    omega
  obtain ⟨v, hrepeats, hnone⟩ := repeats_of_many hprogress hmore
  obtain ⟨d, rfl, hd⟩ := foldl_spelled h hrepeats (.stronger hc)
  refine ⟨c ++ d, ?_, by simpa using hd⟩
  have hv : v = u := by
    unfold furtherOperand at hnone
    rw [bind_of_ok (peek_apply v)] at hnone
    cases ho : (v.head?.map (·.token)).bind l.operator with
    | none => simpa [ho] using hnone
    | some g => simp [ho, bind_eq_ok_iff] at hnone
  simp [hv]

end Chains

/-! ## Parts of paths -/

section Paths

variable {inner : Parser Expr} {s r : List Located}

/-- A predicate is an expression with its brackets. -/
lemma predicate_takes (h : TakesExpr .disjunction inner) {e : Expr}
    (hr : predicate inner s = .ok (some e, r)) :
    ∃ (b : Located) (c : List Located) (b' : Located), s = b :: c ++ b' :: r ∧
      b.token = .openBracket ∧ b'.token = .closeBracket ∧
      Spells (.expr .disjunction e) (c.map (·.token)) := by
  unfold predicate at hr
  rw [bind_eq_ok_iff] at hr
  obtain ⟨b, q, hb, hr⟩ := hr
  cases b with
  | false => cases hr
  | true =>
    obtain ⟨l, hl, rfl⟩ := accept_eq_true hb
    simp only [if_true, bind_eq_ok_iff, pure_apply, Except.ok.injEq, Prod.mk.injEq,
      Option.some.injEq] at hr
    obtain ⟨e', t, he, u, r', hclose, rfl, rfl⟩ := hr
    obtain ⟨l', hl', rfl⟩ := expect_eq_ok hclose
    obtain ⟨c, rfl, hc⟩ := h he
    exact ⟨l, c, l', rfl, hl, hl', hc⟩

/-- Where there is no predicate, nothing is taken off. -/
lemma eq_of_predicate_none (hr : predicate inner s = .ok (none, r)) : s = r := by
  unfold predicate at hr
  rw [bind_eq_ok_iff] at hr
  obtain ⟨b, q, hb, hr⟩ := hr
  cases b with
  | false =>
    obtain rfl := accept_eq_false hb
    simpa using hr
  | true => simp [bind_eq_ok_iff] at hr

/-- Predicates are read off tokens that spell them. -/
lemma predicates_take (h : TakesExpr .disjunction inner) :
    Takes (many (predicate inner)) fun es => Spells (.predicates es) := by
  intro s es r hr
  have hprogress : ∀ s e t, predicate inner s = .ok (some e, t) → t.length < s.length := by
    intro s e t ht
    obtain ⟨b, c, b', rfl, -⟩ := predicate_takes h ht
    simp only [List.length_append, List.length_cons]
    omega
  obtain ⟨t, hrepeats, hnone⟩ := repeats_of_many hprogress hr
  obtain rfl := eq_of_predicate_none hnone
  clear hr hnone
  induction hrepeats with
  | stop => exact ⟨[], rfl, .noPredicates⟩
  | next head shorter tail ih =>
    obtain ⟨b, c, b', rfl, hb, hb', hc⟩ := predicate_takes h head
    obtain ⟨d, rfl, hd⟩ := ih
    exact ⟨b :: c ++ b' :: d, by simp, by simpa [hb, hb'] using Spells.predicate hc hd⟩

/-- The axis of a step is read off tokens that stand for it. -/
lemma stepAxis_takes : Takes stepAxis AxisSpelled := by
  intro s axis r hr
  unfold stepAxis at hr
  rw [bind_eq_ok_iff] at hr
  obtain ⟨b, q, hb, hr⟩ := hr
  cases b with
  | true =>
    obtain ⟨l, hl, rfl⟩ := accept_eq_true hb
    obtain ⟨rfl, rfl⟩ : .attributes = axis ∧ q = r := by simpa using hr
    exact ⟨[l], rfl, by simpa [hl] using AxisSpelled.attributes⟩
  | false =>
    obtain rfl := accept_eq_false hb
    simp only [Bool.false_eq_true, if_false] at hr
    rw [bind_of_ok (peek_apply s), bind_of_ok (peekSecond_apply s)] at hr
    generalize hfirst : s.head?.map (·.token) = first at hr
    generalize hsecond : s[1]?.map (·.token) = second at hr
    revert hr
    split
    case h_1 name =>
      intro hr
      simp only [bind_eq_ok_iff, require_eq_ok_iff, skip_apply, pure_apply, Except.ok.injEq,
        Prod.mk.injEq] at hr
      obtain ⟨axis', t, ⟨haxis, rfl⟩, u, v, ⟨-, rfl⟩, rfl, rfl⟩ := hr
      match s, hfirst, hsecond with
      | l :: l' :: s, hfirst, hsecond =>
        have hl : l.token = .name name := by simpa using hfirst
        have hl' : l'.token = .doubleColon := by simpa using hsecond
        exact ⟨[l, l'], rfl, by
          simpa [hl, hl'] using AxisSpelled.named (Axis.named?_eq_some_iff.1 haxis)⟩
    case h_2 =>
      intro hr
      obtain ⟨rfl, rfl⟩ : .child = axis ∧ s = r := by simpa using hr
      exact ⟨[], rfl, .child⟩

/-- The test of a step is read off tokens that stand for it. -/
lemma nodeTest_takes : Takes nodeTest TestSpelled := by
  intro s test r hr
  unfold nodeTest at hr
  rw [bind_of_ok (peek_apply s)] at hr
  cases s with
  | nil => cases hr
  | cons l s =>
    rw [List.head?_cons, Option.map_some] at hr
    generalize hfirst : some l.token = first at hr
    revert hr
    split
    case h_1 =>
      intro hr
      have hl : l.token = .star := Option.some.inj hfirst
      obtain ⟨rfl, rfl⟩ : .anyName = test ∧ s = r := by simpa [bind_eq_ok_iff] using hr
      exact ⟨[l], rfl, by simpa [hl] using TestSpelled.any⟩
    case h_2 name =>
      intro hr
      have hl : l.token = .name name := Option.some.inj hfirst
      rw [bind_of_ok (skip_apply 1 _), List.drop_one, List.tail_cons,
        bind_of_ok (peek_apply s)] at hr
      generalize htype : nodeTypeNamed? name = type at hr
      generalize hparen : s.head?.map (·.token) = second at hr
      revert hr
      split
      case h_1 test' =>
        simp only [bind_eq_ok_iff, skip_apply, pure_apply, Except.ok.injEq, Prod.mk.injEq]
        rintro ⟨_, _, ⟨-, rfl⟩, _, q, hclose, rfl, rfl⟩
        cases s with
        | nil => cases hparen
        | cons l' s =>
          have hl' : l'.token = .openParen := by simpa using hparen
          obtain ⟨l'', hl'', hs⟩ := expect_eq_ok hclose
          obtain rfl : s = l'' :: q := by simpa using hs
          exact ⟨[l, l', l''], rfl, by
            simpa [hl, hl', hl''] using TestSpelled.type (nodeTypeNamed?_eq_some_iff.1 htype)⟩
      case h_2 =>
        intro hr
        obtain ⟨rfl, rfl⟩ : .name name = test ∧ s = r := by simpa using hr
        exact ⟨[l], rfl, by simpa [hl] using TestSpelled.name name⟩
    case h_3 => intro hr; cases hr

/-- A step is read off tokens that spell it. -/
lemma step_takes (h : TakesExpr .disjunction inner) :
    Takes (step inner) fun s => Spells (.step s) := by
  intro s st r hr
  unfold step at hr
  rw [bind_eq_ok_iff] at hr
  obtain ⟨b, q, hb, hr⟩ := hr
  cases b with
  | true =>
    obtain ⟨l, hl, rfl⟩ := accept_eq_true hb
    obtain ⟨rfl, rfl⟩ : .here = st ∧ q = r := by simpa using hr
    exact ⟨[l], rfl, by simpa [hl] using Spells.here⟩
  | false =>
    obtain rfl := accept_eq_false hb
    simp only [Bool.false_eq_true, if_false] at hr
    rw [bind_eq_ok_iff] at hr
    obtain ⟨b, q, hb, hr⟩ := hr
    cases b with
    | true =>
      obtain ⟨l, hl, rfl⟩ := accept_eq_true hb
      obtain ⟨rfl, rfl⟩ : .up = st ∧ q = r := by simpa using hr
      exact ⟨[l], rfl, by simpa [hl] using Spells.up⟩
    | false =>
      obtain rfl := accept_eq_false hb
      simp only [Bool.false_eq_true, if_false, bind_eq_ok_iff, pure_apply, Except.ok.injEq,
        Prod.mk.injEq] at hr
      obtain ⟨axis, t, haxis, test, u, htest, ps, v, hps, rfl, rfl⟩ := hr
      obtain ⟨c, rfl, hc⟩ := stepAxis_takes haxis
      obtain ⟨d, rfl, hd⟩ := nodeTest_takes htest
      obtain ⟨e, rfl, he⟩ := predicates_take h hps
      exact ⟨c ++ d ++ e, by simp, by simpa using Spells.step hc hd he⟩

/-- Further steps are a slash or two and the step after them. -/
lemma furtherSteps_take (h : TakesExpr .disjunction inner) {ss : List Step}
    (hr : furtherSteps inner s = .ok (some ss, r)) :
    ∃ (l : Located) (c : List Located) (st : Step), s = l :: c ++ r ∧
      Spells (.step st) (c.map (·.token)) ∧
      (l.token = .slash ∧ ss = [st] ∨ l.token = .doubleSlash ∧ ss = [.throughout, st]) := by
  unfold furtherSteps at hr
  rw [bind_eq_ok_iff] at hr
  obtain ⟨b, q, hb, hr⟩ := hr
  cases b with
  | true =>
    obtain ⟨l, hl, rfl⟩ := accept_eq_true hb
    simp only [if_true, bind_eq_ok_iff, pure_apply, Except.ok.injEq, Prod.mk.injEq,
      Option.some.injEq] at hr
    obtain ⟨st, t, hst, rfl, rfl⟩ := hr
    obtain ⟨c, rfl, hc⟩ := step_takes h hst
    exact ⟨l, c, st, rfl, hc, .inl ⟨hl, rfl⟩⟩
  | false =>
    obtain rfl := accept_eq_false hb
    simp only [Bool.false_eq_true, if_false] at hr
    rw [bind_eq_ok_iff] at hr
    obtain ⟨b, q, hb, hr⟩ := hr
    cases b with
    | true =>
      obtain ⟨l, hl, rfl⟩ := accept_eq_true hb
      simp only [if_true, bind_eq_ok_iff, pure_apply, Except.ok.injEq, Prod.mk.injEq,
        Option.some.injEq] at hr
      obtain ⟨st, t, hst, rfl, rfl⟩ := hr
      obtain ⟨c, rfl, hc⟩ := step_takes h hst
      exact ⟨l, c, st, rfl, hc, .inr ⟨hl, rfl⟩⟩
    | false => cases hr

/-- Where there is no further step, nothing is taken off. -/
lemma eq_of_furtherSteps_none (hr : furtherSteps inner s = .ok (none, r)) : s = r := by
  unfold furtherSteps at hr
  rw [bind_eq_ok_iff] at hr
  obtain ⟨b, q, hb, hr⟩ := hr
  cases b with
  | true => simp [bind_eq_ok_iff] at hr
  | false =>
    obtain rfl := accept_eq_false hb
    simp only [Bool.false_eq_true, if_false] at hr
    rw [bind_eq_ok_iff] at hr
    obtain ⟨b, q, hb, hr⟩ := hr
    cases b with
    | true => simp [bind_eq_ok_iff] at hr
    | false =>
      obtain rfl := accept_eq_false hb
      simpa using hr

/-- The steps of a path after the first are read off tokens that spell them. -/
lemma steps_take (h : TakesExpr .disjunction inner) :
    Takes (many (furtherSteps inner)) fun sss ts =>
      Spells (.steps sss.flatten) ts ∧ (sss.flatten = [] → sss = []) := by
  intro s sss r hr
  have hprogress : ∀ s ss t, furtherSteps inner s = .ok (some ss, t) → t.length < s.length := by
    intro s ss t ht
    obtain ⟨l, c, st, rfl, -⟩ := furtherSteps_take h ht
    simp only [List.length_append, List.length_cons]
    omega
  obtain ⟨t, hrepeats, hnone⟩ := repeats_of_many hprogress hr
  obtain rfl := eq_of_furtherSteps_none hnone
  clear hr hnone
  induction hrepeats with
  | stop => exact ⟨[], rfl, .noSteps, fun _ => rfl⟩
  | next head shorter tail ih =>
    obtain ⟨d, rfl, hd, -⟩ := ih
    obtain ⟨l, c, st, rfl, hc, ⟨hl, rfl⟩ | ⟨hl, rfl⟩⟩ := furtherSteps_take h head
    · exact ⟨l :: c ++ d, by simp, by simpa [hl] using Spells.slash hc hd, by simp⟩
    · exact ⟨l :: c ++ d, by simp, by simpa [hl] using Spells.doubleSlash hc hd, by simp⟩

/-- The steps of a path are read off tokens that spell a step and further ones. -/
lemma stepsAfter_takes (h : TakesExpr .disjunction inner) {begun ss : List Step}
    (hr : stepsAfter inner begun s = .ok (ss, r)) :
    ∃ (c d : List Located) (st : Step) (more : List Step), s = c ++ d ++ r ∧
      ss = begun ++ st :: more ∧ Spells (.step st) (c.map (·.token)) ∧
      Spells (.steps more) (d.map (·.token)) := by
  simp only [stepsAfter, bind_eq_ok_iff, pure_apply, Except.ok.injEq, Prod.mk.injEq] at hr
  obtain ⟨st, t, hst, more, u, hmore, rfl, rfl⟩ := hr
  obtain ⟨c, rfl, hc⟩ := step_takes h hst
  obtain ⟨d, rfl, hd, -⟩ := steps_take h hmore
  exact ⟨c, d, st, more.flatten, by simp, rfl, hc, hd⟩

/-- A location path is read off tokens that spell it. -/
lemma locationPath_takes (h : TakesExpr .disjunction inner) :
    TakesExpr .path (locationPath inner) := by
  intro s e r hr
  unfold locationPath at hr
  rw [bind_eq_ok_iff] at hr
  obtain ⟨b, q, hb, hr⟩ := hr
  cases b with
  | true =>
    obtain ⟨l, hl, rfl⟩ := accept_eq_true hb
    simp only [if_true] at hr
    rw [bind_of_ok (peek_apply q)] at hr
    split at hr
    · simp only [bind_eq_ok_iff, pure_apply, Except.ok.injEq, Prod.mk.injEq] at hr
      obtain ⟨ss, t, hss, rfl, rfl⟩ := hr
      obtain ⟨c, d, st, more, rfl, rfl, hc, hd⟩ := stepsAfter_takes h hss
      exact ⟨l :: c ++ d, by simp, by simpa [hl] using Spells.absolute hc hd⟩
    · obtain ⟨rfl, rfl⟩ : Expr.path true [] = e ∧ q = r := by simpa using hr
      exact ⟨[l], rfl, by simpa [hl] using Spells.root⟩
  | false =>
    obtain rfl := accept_eq_false hb
    simp only [Bool.false_eq_true, if_false] at hr
    rw [bind_eq_ok_iff] at hr
    obtain ⟨b, q, hb, hr⟩ := hr
    cases b with
    | true =>
      obtain ⟨l, hl, rfl⟩ := accept_eq_true hb
      simp only [if_true, bind_eq_ok_iff, pure_apply, Except.ok.injEq, Prod.mk.injEq] at hr
      obtain ⟨ss, t, hss, rfl, rfl⟩ := hr
      obtain ⟨c, d, st, more, rfl, rfl, hc, hd⟩ := stepsAfter_takes h hss
      exact ⟨l :: c ++ d, by simp, by simpa [hl] using Spells.throughout hc hd⟩
    | false =>
      obtain rfl := accept_eq_false hb
      simp only [Bool.false_eq_true, if_false, bind_eq_ok_iff, pure_apply, Except.ok.injEq,
        Prod.mk.injEq] at hr
      obtain ⟨ss, t, hss, rfl, rfl⟩ := hr
      obtain ⟨c, d, st, more, rfl, rfl, hc, hd⟩ := stepsAfter_takes h hss
      exact ⟨c ++ d, by simp, by simpa using Spells.relative hc hd⟩

/-! ## Operands -/

/-- No predicates are spelled by no tokens. -/
lemma Spells.eq_nil_of_predicates {ts : List Token} (h : Spells (.predicates []) ts) :
    ts = [] := by
  cases h
  rfl

/-- No steps are spelled by no tokens. -/
lemma Spells.eq_nil_of_steps {ts : List Token} (h : Spells (.steps []) ts) : ts = [] := by
  cases h
  rfl

/-- A further argument is an expression with the comma before it. -/
lemma furtherArgument_takes (h : TakesExpr .disjunction inner) {e : Expr}
    (hr : furtherArgument inner s = .ok (some e, r)) :
    ∃ (l : Located) (c : List Located), s = l :: c ++ r ∧ l.token = .comma ∧
      Spells (.expr .disjunction e) (c.map (·.token)) := by
  unfold furtherArgument at hr
  rw [bind_eq_ok_iff] at hr
  obtain ⟨b, q, hb, hr⟩ := hr
  cases b with
  | false => cases hr
  | true =>
    obtain ⟨l, hl, rfl⟩ := accept_eq_true hb
    simp only [if_true, bind_eq_ok_iff, pure_apply, Except.ok.injEq, Prod.mk.injEq,
      Option.some.injEq] at hr
    obtain ⟨e', t, he, rfl, rfl⟩ := hr
    obtain ⟨c, rfl, hc⟩ := h he
    exact ⟨l, c, rfl, hl, hc⟩

/-- Where there is no comma, nothing is taken off. -/
lemma eq_of_furtherArgument_none (hr : furtherArgument inner s = .ok (none, r)) : s = r := by
  unfold furtherArgument at hr
  rw [bind_eq_ok_iff] at hr
  obtain ⟨b, q, hb, hr⟩ := hr
  cases b with
  | true => simp [bind_eq_ok_iff] at hr
  | false =>
    obtain rfl := accept_eq_false hb
    simpa using hr

/-- The arguments after the first are read off tokens that spell them. -/
lemma furtherArguments_take (h : TakesExpr .disjunction inner) :
    Takes (many (furtherArgument inner)) fun es => Spells (.arguments es) := by
  intro s es r hr
  have hprogress : ∀ s e t, furtherArgument inner s = .ok (some e, t) → t.length < s.length := by
    intro s e t ht
    obtain ⟨l, c, rfl, -⟩ := furtherArgument_takes h ht
    simp only [List.length_append, List.length_cons]
    omega
  obtain ⟨t, hrepeats, hnone⟩ := repeats_of_many hprogress hr
  obtain rfl := eq_of_furtherArgument_none hnone
  clear hr hnone
  induction hrepeats with
  | stop => exact ⟨[], rfl, .noArguments⟩
  | next head shorter tail ih =>
    obtain ⟨l, c, rfl, hl, hc⟩ := furtherArgument_takes h head
    obtain ⟨d, rfl, hd⟩ := ih
    exact ⟨l :: c ++ d, by simp, by simpa [hl] using Spells.argument hc hd⟩

/-- The tokens of a function and its arguments, when the parenthesis after the name is there. -/
lemma functionCall_takes (h : TakesExpr .disjunction inner) {l l' : Located} {name : Text}
    {e : Expr} (hl : l.token = .name name) (hl' : l'.token = .openParen)
    (hr : functionCall inner name (l :: l' :: s) = .ok (e, r)) :
    ∃ c : List Located, l :: l' :: s = c ++ r ∧ Spells (.primary e) (c.map (·.token)) := by
  simp only [functionCall, arguments, bind_eq_ok_iff, require_eq_ok_iff, skip_apply,
    Except.ok.injEq, Prod.mk.injEq] at hr
  obtain ⟨f, _, ⟨hf, rfl⟩, _, _, ⟨-, rfl⟩, es, u, ⟨_, _, ⟨-, rfl⟩, b, q, hb, hes⟩, hr⟩ := hr
  split at hr
  case isFalse => simp [bind_eq_ok_iff] at hr
  case isTrue htakes =>
    obtain ⟨rfl, rfl⟩ : Expr.call f es = e ∧ u = r := by simpa [bind_eq_ok_iff] using hr
    clear hr
    cases b with
    | true =>
      obtain ⟨l'', hl'', rfl⟩ := accept_eq_true hb
      obtain ⟨rfl, rfl⟩ : [] = es ∧ q = u := by simpa using hes
      exact ⟨[l, l', l''], rfl, by simpa [hl, hl', hl''] using Spells.callNone hf htakes⟩
    | false =>
      obtain rfl := accept_eq_false hb
      simp only [Bool.false_eq_true, if_false, bind_eq_ok_iff, pure_apply, Except.ok.injEq,
        Prod.mk.injEq] at hes
      obtain ⟨first, v, hfirst, more, w, hmore, _, x, hclose, rfl, rfl⟩ := hes
      obtain ⟨l'', hl'', rfl⟩ := expect_eq_ok hclose
      obtain ⟨c, rfl, hc⟩ := h hfirst
      obtain ⟨d, rfl, hd⟩ := furtherArguments_take h hmore
      exact ⟨l :: l' :: c ++ d ++ [l''], by simp, by
        simpa [hl, hl', hl''] using Spells.call hf hc hd (by simpa using htakes)⟩

/-- An operand that is no location path is read off tokens that spell it. -/
lemma primary_takes (h : TakesExpr .disjunction inner) {e : Expr}
    (hstart : startsPrimary (s.head?.map (·.token)) (s[1]?.map (·.token)) = true)
    (hr : primary inner s = .ok (e, r)) :
    ∃ c : List Located, s = c ++ r ∧ Spells (.primary e) (c.map (·.token)) := by
  unfold primary at hr
  rw [bind_of_ok (peek_apply s)] at hr
  cases s with
  | nil => cases hr
  | cons l s =>
    rw [List.head?_cons, Option.map_some] at hr hstart
    cases hl : l.token with
    | openParen =>
      simp only [hl, bind_eq_ok_iff, skip_apply, pure_apply, Except.ok.injEq, Prod.mk.injEq,
        List.drop_succ_cons, List.drop_zero] at hr
      obtain ⟨_, _, ⟨-, rfl⟩, e', t, he, _, q, hclose, rfl, rfl⟩ := hr
      obtain ⟨l', hl', rfl⟩ := expect_eq_ok hclose
      obtain ⟨c, rfl, hc⟩ := h he
      exact ⟨l :: c ++ [l'], by simp, by simpa [hl, hl'] using Spells.parens hc⟩
    | literal text =>
      obtain ⟨rfl, rfl⟩ : .literal text = e ∧ s = r := by simpa [hl, bind_eq_ok_iff] using hr
      exact ⟨[l], rfl, by simpa [hl] using Spells.literal text⟩
    | number value =>
      obtain ⟨rfl, rfl⟩ : .number value = e ∧ s = r := by simpa [hl, bind_eq_ok_iff] using hr
      exact ⟨[l], rfl, by simpa [hl] using Spells.number value⟩
    | name name =>
      rw [hl] at hr hstart
      cases s with
      | nil => cases hstart
      | cons l' s =>
        have hl' : l'.token = .openParen := by
          cases ht : l'.token <;> simp [ht, startsPrimary] at hstart ⊢
        exact functionCall_takes h hl hl' hr
    | _ => simp [hl] at hr

/-- An operand of the operators is read off tokens that spell it. -/
lemma path_takes (h : TakesExpr .disjunction inner) : TakesExpr .path (path inner) := by
  intro s e r hr
  unfold path at hr
  rw [bind_of_ok (peek_apply s), bind_of_ok (peekSecond_apply s)] at hr
  split at hr
  case isTrue hstart =>
    simp only [bind_eq_ok_iff] at hr
    obtain ⟨e', t, he, ps, u, hps, sss, v, hsss, hr⟩ := hr
    obtain ⟨c, rfl, hc⟩ := primary_takes h hstart he
    obtain ⟨d, rfl, hd⟩ := predicates_take h hps
    obtain ⟨f, rfl, hf, hnone⟩ := steps_take h hsss
    split at hr
    case isTrue hempty =>
      obtain ⟨rfl, rfl⟩ : ps = [] ∧ sss = [] := by simpa using hempty
      obtain ⟨rfl, rfl⟩ : e' = e ∧ v = r := by simpa using hr
      obtain rfl : d = [] := List.map_eq_nil_iff.1 hd.eq_nil_of_predicates
      obtain rfl : f = [] := List.map_eq_nil_iff.1 hf.eq_nil_of_steps
      exact ⟨c, by simp, .operand hc⟩
    case isFalse hsome =>
      obtain ⟨rfl, rfl⟩ : Expr.filter e' ps sss.flatten = e ∧ v = r := by simpa using hr
      have hparts : ps ≠ [] ∨ sss.flatten ≠ [] := by
        by_contra hno
        rw [not_or, not_not, not_not] at hno
        exact hsome (by simp [hno.1, hnone hno.2])
      exact ⟨c ++ d ++ f, by simp, by simpa using Spells.filter hc hd hf hparts⟩
  case isFalse => exact locationPath_takes h hr

/-- A minus sign is taken off if it is next. -/
lemma minusSign_cases {o : Option Unit} (h : minusSign s = .ok (o, r)) :
    o = none ∧ s = r ∨ o = some () ∧ ∃ l : Located, l.token = .minus ∧ s = l :: r := by
  unfold minusSign at h
  rw [bind_eq_ok_iff] at h
  obtain ⟨b, q, hb, h⟩ := h
  cases b with
  | false =>
    obtain rfl := accept_eq_false hb
    obtain ⟨rfl, rfl⟩ : none = o ∧ s = r := by simpa using h
    exact .inl ⟨rfl, rfl⟩
  | true =>
    obtain ⟨rfl, rfl⟩ : some () = o ∧ q = r := by simpa using h
    exact .inr ⟨rfl, accept_eq_true hb⟩

/-- Minus signs are read until there is none. -/
lemma repeats_minusSign {signs : List Unit} (h : many minusSign s = .ok (signs, r)) :
    Repeats minusSign s signs r ∧ minusSign r = .ok (none, r) := by
  have hprogress : ∀ s a t, minusSign s = .ok (some a, t) → t.length < s.length := by
    intro s a t ht
    obtain ⟨hno, -⟩ | ⟨-, l, -, rfl⟩ := minusSign_cases ht
    · cases hno
    · exact Nat.lt_succ_self _
  obtain ⟨t, hrepeats, hnone⟩ := repeats_of_many hprogress h
  obtain ⟨-, rfl⟩ | ⟨hsome, -⟩ := minusSign_cases hnone
  · exact ⟨hrepeats, hnone⟩
  · cases hsome

/-- Minus signs before a union are read off together with what follows. -/
lemma foldr_spelled {signs : List Unit} (hm : Repeats minusSign s signs r) {e : Expr}
    {ts : List Token} (he : Spells (.expr .negation e) ts) :
    ∃ c : List Located, s = c ++ r ∧
      Spells (.expr .negation (signs.foldr (fun _ e => .negate e) e))
        (c.map (·.token) ++ ts) := by
  induction hm with
  | stop => exact ⟨[], rfl, he⟩
  | @next s u r a as head shorter tail ih =>
    obtain ⟨hno, -⟩ | ⟨-, l, hl, rfl⟩ := minusSign_cases head
    · cases hno
    · obtain ⟨c, rfl, hc⟩ := ih
      exact ⟨l :: c, rfl, by simpa [hl] using Spells.negate hc⟩

/-- A union with minus signs before it is read off tokens that spell it. -/
lemma negation_takes (h : TakesExpr .disjunction inner) : TakesExpr .negation (negation inner) := by
  intro s e r hr
  simp only [negation, bind_eq_ok_iff, pure_apply, Except.ok.injEq, Prod.mk.injEq] at hr
  obtain ⟨signs, t, hsigns, operand, u, hoperand, rfl, rfl⟩ := hr
  obtain ⟨hrepeats, -⟩ := repeats_minusSign hsigns
  rw [← Level.operator_union] at hoperand
  obtain ⟨c, rfl, hc⟩ := chain_takes (l := .union) (path_takes h) hoperand
  obtain ⟨d, rfl, hd⟩ := foldr_spelled hrepeats (.stronger hc)
  exact ⟨d ++ c, by simp, by simpa using hd⟩

/-- An expression is read off tokens that spell it, if what stands in parentheses and brackets
is. -/
lemma expressionWith_takes (h : TakesExpr .disjunction inner) :
    TakesExpr .disjunction (expressionWith inner) := by
  have hmultiplicative := chain_takes (l := .multiplicative) (negation_takes h)
  have hadditive := chain_takes (l := .additive) hmultiplicative
  have horder := chain_takes (l := .order) hadditive
  have hequality := chain_takes (l := .equality) horder
  have hconjunction := chain_takes (l := .conjunction) hequality
  have hdisjunction := chain_takes (l := .disjunction) hconjunction
  rwa [Level.operator_multiplicative, Level.operator_additive, Level.operator_order,
    Level.operator_equality, Level.operator_conjunction, Level.operator_disjunction]
    at hdisjunction

end Paths

/-! ## Expressions -/

/-- An expression is read off tokens that spell it. -/
theorem expression_takes (depth : Nat) : TakesExpr .disjunction (expression depth) := by
  induction depth with
  | zero => intro s e r hr; cases hr
  | succ depth ih => exact expressionWith_takes ih

/-- An expression that the tokens are read as is spelled by them. -/
theorem spells_of_parseTokens {tokens : List Located} {e : Expr}
    (h : parseTokens tokens = .ok e) : Spells (.expr .disjunction e) (tokens.map (·.token)) := by
  unfold parseTokens at h
  split at h
  case isTrue => cases h
  case isFalse =>
    split at h
    case h_1 => cases h
    case h_2 e' heq =>
      obtain rfl : e' = e := by simpa using h
      obtain ⟨c, hc, hs⟩ := expression_takes _ heq
      obtain rfl : tokens = c := by simpa using hc
      exact hs
    case h_3 => cases h

end WebCrawl.XPath
