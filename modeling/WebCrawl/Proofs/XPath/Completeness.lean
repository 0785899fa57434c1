import Mathlib.Tactic.Common
import WebCrawl.Proofs.XPath.Soundness
import WebCrawl.Query.Compiled

set_option autoImplicit false

/-!
# What is spelled is read

Tokens that spell a phrase are read as it, provided that what follows them does not hold on to
them. How strongly the next token may hold depends on the level of the phrase.

## Main definitions

* `WebCrawl.XPath.Level.parser` — the reader of expressions at a level.
* `WebCrawl.XPath.Weak` — what follows holds less strongly than a level.
* `WebCrawl.XPath.Phrase.Readable` — tokens are read as a phrase wherever weak tokens follow.

## Main results

* `WebCrawl.XPath.Spells.readable` — tokens that spell a phrase are read as it.
* `WebCrawl.XPath.parseTokens_eq_ok_iff` — an expression is read exactly where it is spelled.
* `WebCrawl.XPath.Spells.unique` — tokens spell at most one expression.
* `WebCrawl.XPath.parse_eq_ok_iff_tokenize` — a text is read as the expression that its tokens spell.
* `WebCrawl.XPath.parse_recognizes` — which texts are expressions, and what the others are reported
  as.
-/

namespace WebCrawl.XPath

open Reader

/-! ## Readers of levels -/

namespace Level

/-- The reader of expressions at a level. -/
def parser (inner : Parser Expr) : Level → Parser Expr
  | disjunction => expressionWith inner
  | conjunction =>
    chain (chain (chain (chain (chain (XPath.negation inner) XPath.multiplicative) XPath.additive)
      XPath.order) XPath.equality) XPath.conjunction
  | equality =>
    chain (chain (chain (chain (XPath.negation inner) XPath.multiplicative) XPath.additive)
      XPath.order) XPath.equality
  | order =>
    chain (chain (chain (XPath.negation inner) XPath.multiplicative) XPath.additive) XPath.order
  | additive => chain (chain (XPath.negation inner) XPath.multiplicative) XPath.additive
  | multiplicative => chain (XPath.negation inner) XPath.multiplicative
  | negation => XPath.negation inner
  | union => chain (XPath.path inner) XPath.union
  | path => XPath.path inner

lemma parser_eq_chain (inner : Parser Expr) {l : Level} (h : l.isBinary = true) :
    l.parser inner = chain (l.next.parser inner) l.operator := by
  cases l with
  | disjunction => rw [operator_disjunction]; rfl
  | conjunction => rw [operator_conjunction]; rfl
  | equality => rw [operator_equality]; rfl
  | order => rw [operator_order]; rfl
  | additive => rw [operator_additive]; rfl
  | multiplicative => rw [operator_multiplicative]; rfl
  | union => rw [operator_union]; rfl
  | negation => cases h
  | path => cases h

/-- Levels with operators are those with operands on either side. -/
lemma isBinary_of_operator {l : Level} {t : Token} {f : Combination} (h : l.operator t = some f) :
    l.isBinary = true := by
  cases l <;> first | rfl | cases h

end Level

/-! ## What may follow -/

/-- What follows holds on to what stands before it less strongly than `n`. -/
def Weak (n : Nat) (r : List Located) : Prop := ∀ l ∈ r.head?, l.token.strength < n

namespace Weak

variable {n m : Nat} {r c : List Located} {l : Located}

lemma nil : Weak n [] := by
  intro l hl
  cases hl

lemma cons (h : l.token.strength < n) : Weak n (l :: r) := by
  intro l' hl'
  obtain rfl : l = l' := by simpa using hl'
  exact h

lemma mono (h : Weak n r) (hle : n ≤ m) : Weak m r := fun l hl => Nat.lt_of_lt_of_le (h l hl) hle

/-- The next token is none of those that hold more strongly. -/
lemma head_ne (h : Weak n r) {t : Token} (ht : n ≤ t.strength) :
    r.head?.map (·.token) ≠ some t := by
  intro heq
  rw [Option.map_eq_some_iff] at heq
  obtain ⟨l, hl, rfl⟩ := heq
  have := h l hl
  omega

/-- What follows begins with what is read first, if there is any. -/
lemma append {ts : List Token} (hc : c.map (·.token) = ts) (ht : ∀ t ∈ ts.head?, t.strength < n)
    (hr : Weak n r) : Weak n (c ++ r) := by
  subst hc
  cases c with
  | nil => exact hr
  | cons l c => exact .cons (ht _ rfl)

/-- No operator of a level follows. -/
lemma operator_eq_none {l : Level} (h : Weak l.rank r) :
    (r.head?.map (·.token)).bind l.operator = none := by
  cases r with
  | nil => rfl
  | cons t r => exact Level.operator_eq_none (h t rfl)

/-- No step begins with what follows. -/
lemma startsStep_eq_false (h : Weak 12 r) :
    (r.head?.map (·.token)).any XPath.startsStep = false := by
  cases r with
  | nil => rfl
  | cons l r =>
    have := h l rfl
    rw [List.head?_cons, Option.map_some, Option.any_some]
    cases ht : l.token <;> first | rfl | (rw [ht] at this; exact absurd this (Nat.lt_irrefl 12))

end Weak

/-! ## Tokens -/

section Tokens

variable {s r : List Located} {l : Located} {t : Token}

/-- The token that is next is accepted. -/
lemma accept_cons (h : l.token = t) : accept t (l :: r) = .ok (true, r) := by
  rw [accept_apply, if_pos (by rw [← h]; rfl)]
  rfl

/-- A token that is not next is not accepted. -/
lemma accept_of_head_ne (h : s.head?.map (·.token) ≠ some t) : accept t s = .ok (false, s) := by
  rw [accept_apply, if_neg h]

/-- The token that has to be next is passed over. -/
lemma expect_cons {fault : Fault} (h : l.token = t) : expect t fault (l :: r) = .ok ((), r) := by
  unfold expect
  rw [bind_of_ok (accept_cons h)]
  rfl

end Tokens

/-! ## Phrases that are read -/

/-- The operands of a level are read one after the other, and give the expression when put together
from the left. A level without operators is read as a whole. -/
def Level.Reads (inner : Parser Expr) (s r : List Located) (e : Expr) (l : Level) : Prop :=
  if l.isBinary then
    ∃ first t more, l.next.parser inner s = .ok (first, t) ∧
      Repeats (furtherOperand (l.next.parser inner) l.operator) t more r ∧
      more.foldl (fun left (combine, right) => combine left right) first = e
  else l.parser inner s = .ok (e, r)

/-- The phrase is read off `s` when what is left, `r`, does not hold on to it. -/
def Phrase.IsRead (inner : Parser Expr) (s r : List Located) : Phrase → Prop
  | .expr l e => Weak (l.rank + 1) r → l.Reads inner s r e
  | .primary e => XPath.primary inner s = .ok (e, r)
  | .predicates es => Repeats (XPath.predicate inner) s es r
  | .step st => Weak 11 r → XPath.step inner s = .ok (st, r)
  | .steps ss => Weak 11 r → ∃ sss, Repeats (furtherSteps inner) s sss r ∧ sss.flatten = ss ∧
      (ss = [] → sss = [])
  | .arguments es => Weak 1 r → Repeats (furtherArgument inner) s es r

namespace Level

variable {inner : Parser Expr} {s r : List Located} {e : Expr} {l : Level}

/-- No operand follows where no operator does. -/
lemma furtherOperand_of_weak {operand : Parser Expr} (h : Weak l.rank r) :
    furtherOperand operand l.operator r = .ok (none, r) := by
  unfold furtherOperand
  rw [bind_of_ok (peek_apply r), h.operator_eq_none]
  rfl

/-- An operand follows where an operator does. -/
lemma furtherOperand_cons {operand : Parser Expr} {t : Located} {f : Combination}
    (ht : l.operator t.token = some f) (h : operand s = .ok (e, r)) :
    furtherOperand operand l.operator (t :: s) = .ok (some (f, e), r) := by
  unfold furtherOperand
  rw [bind_of_ok (peek_apply _), List.head?_cons, Option.map_some, Option.bind_some, ht]
  show (skip 1 >>= fun _ => _) (t :: s) = _
  rw [bind_of_ok (skip_apply 1 _), List.drop_one, List.tail_cons, bind_of_ok h]
  rfl

/-- An expression whose operands are read is read, if no operator of its level follows. -/
lemma Reads.parser_eq (h : l.Reads inner s r e) (hr : Weak l.rank r) :
    l.parser inner s = .ok (e, r) := by
  unfold Reads at h
  split at h
  case isFalse => exact h
  case isTrue hbinary =>
    obtain ⟨first, t, more, hfirst, hmore, rfl⟩ := h
    rw [parser_eq_chain inner hbinary, chain, bind_of_ok hfirst,
      bind_of_ok (many_of_repeats hmore (furtherOperand_of_weak hr))]
    rfl

/-- An expression of the next level is one without operators of this one. -/
lemma reads_of_next (hne : l ≠ path) (hs : l = negation → s.head?.map (·.token) ≠ some .minus)
    (h : l.next.parser inner s = .ok (e, r)) : l.Reads inner s r e := by
  unfold Reads
  by_cases hbinary : l.isBinary = true
  · rw [if_pos hbinary]
    exact ⟨e, r, [], h, .stop, rfl⟩
  · rw [if_neg hbinary]
    cases l with
    | negation =>
      have hminus : minusSign s = .ok (none, s) := by
        unfold minusSign
        rw [bind_of_ok (accept_of_head_ne (hs rfl))]
        rfl
      have h : chain (XPath.path inner) XPath.union s = .ok (e, r) := h
      show XPath.negation inner s = _
      unfold XPath.negation
      rw [bind_of_ok (many_of_repeats .stop hminus), bind_of_ok h]
      rfl
    | path => exact absurd rfl hne
    | _ => exact absurd rfl hbinary

/-- An operator and an operand of the next level go on with an expression. -/
lemma reads_binary {t : Located} {f : Combination} {s' : List Located} {right : Expr}
    (ht : l.operator t.token = some f) (hl : l.Reads inner s (t :: s') e)
    (hr : l.next.parser inner s' = .ok (right, r)) (hle : r.length ≤ s'.length) :
    l.Reads inner s r (f e right) := by
  have hbinary := isBinary_of_operator ht
  unfold Reads at hl ⊢
  rw [if_pos hbinary] at hl ⊢
  obtain ⟨first, u, more, hfirst, hmore, rfl⟩ := hl
  have hnext := Repeats.next (furtherOperand_cons ht hr) (Nat.lt_succ_of_le hle) .stop
  exact ⟨first, u, more ++ [(f, right)], hfirst, hmore.append hnext, by simp⟩

end Level

/-! ## Parts of paths -/

section Paths

variable {inner : Parser Expr} {c c' r : List Located}

/-- The tokens of a test are read as it. -/
lemma nodeTest_of_spelled {test : NodeTest} (h : TestSpelled test (c.map (·.token)))
    (hr : Weak 12 r) : nodeTest (c ++ r) = .ok (test, r) := by
  generalize hts : c.map (·.token) = ts at h
  unfold nodeTest
  rw [bind_of_ok (peek_apply _)]
  cases h with
  | any =>
    obtain ⟨l, rfl, hl⟩ := List.map_eq_singleton_iff.1 hts
    rw [List.singleton_append, List.head?_cons, Option.map_some, hl]
    rfl
  | name name =>
    obtain ⟨l, rfl, hl⟩ := List.map_eq_singleton_iff.1 hts
    rw [List.singleton_append, List.head?_cons, Option.map_some, hl]
    show (skip 1 >>= fun _ => _) (l :: r) = _
    rw [bind_of_ok (skip_apply 1 _), List.drop_one, List.tail_cons, bind_of_ok (peek_apply r)]
    have hparen : r.head?.map (·.token) ≠ some .openParen := hr.head_ne (Nat.le_refl 12)
    generalize r.head?.map (·.token) = second at hparen ⊢
    generalize nodeTypeNamed? name = type
    split
    case h_1 => exact absurd rfl hparen
    case h_2 => rfl
  | @type name _ hname =>
    obtain ⟨l, c, rfl, hl, hc⟩ := List.map_eq_cons_iff.1 hts
    obtain ⟨l', c, rfl, hl', hc⟩ := List.map_eq_cons_iff.1 hc
    obtain ⟨l'', rfl, hl''⟩ := List.map_eq_singleton_iff.1 hc
    rw [List.cons_append, List.head?_cons, Option.map_some, hl]
    show (skip 1 >>= fun _ => _) (l :: l' :: l'' :: r) = _
    rw [bind_of_ok (skip_apply 1 _), List.drop_one, List.tail_cons, bind_of_ok (peek_apply _),
      List.head?_cons, Option.map_some, hl', nodeTypeNamed?_eq_some_iff.2 hname]
    show (skip 1 >>= fun _ => _) (l' :: l'' :: r) = _
    rw [bind_of_ok (skip_apply 1 _), List.drop_one, List.tail_cons, bind_of_ok (expect_cons hl'')]
    rfl

/-- The tokens of an axis are read as it, in front of a test. -/
lemma stepAxis_of_spelled {axis : Axis} {test : NodeTest}
    (haxis : AxisSpelled axis (c.map (·.token))) (htest : TestSpelled test (c'.map (·.token)))
    (hr : Weak 12 r) : stepAxis (c ++ (c' ++ r)) = .ok (axis, c' ++ r) := by
  generalize hts : c.map (·.token) = ts at haxis
  unfold stepAxis
  cases haxis with
  | attributes =>
    obtain ⟨l, rfl, hl⟩ := List.map_eq_singleton_iff.1 hts
    rw [List.singleton_append, bind_of_ok (accept_cons hl)]
    rfl
  | @named name _ hname =>
    obtain ⟨l, c, rfl, hl, hc⟩ := List.map_eq_cons_iff.1 hts
    obtain ⟨l', rfl, hl'⟩ := List.map_eq_singleton_iff.1 hc
    have hat : ((l :: [l'] ++ (c' ++ r)).head?.map (·.token)) ≠ some .at := by simp [hl]
    rw [bind_of_ok (accept_of_head_ne hat)]
    show (peek >>= fun _ => _) (l :: l' :: (c' ++ r)) = _
    rw [bind_of_ok (peek_apply _), bind_of_ok (peekSecond_apply _), List.head?_cons,
      Option.map_some, hl, List.getElem?_cons_succ, List.getElem?_cons_zero, Option.map_some, hl']
    show (require _ _ >>= fun _ => _) (l :: l' :: (c' ++ r)) = _
    rw [Axis.named?_eq_some_iff.2 hname, bind_of_ok (require_some _ _ _)]
    rfl
  | child =>
    obtain rfl : c = [] := List.map_eq_nil_iff.1 hts
    obtain ⟨hfirst, hsecond⟩ : (c' ++ r).head?.map (·.token) ≠ some .at ∧
        (c' ++ r)[1]?.map (·.token) ≠ some .doubleColon := by
      have hcolon : r.head?.map (·.token) ≠ some .doubleColon := hr.head_ne (Nat.le_refl 12)
      rw [List.head?_eq_getElem?] at hcolon
      generalize hus : c'.map (·.token) = us at htest
      cases htest with
      | any =>
        obtain ⟨l, rfl, hl⟩ := List.map_eq_singleton_iff.1 hus
        exact ⟨by simp [hl], by simpa using hcolon⟩
      | name name =>
        obtain ⟨l, rfl, hl⟩ := List.map_eq_singleton_iff.1 hus
        exact ⟨by simp [hl], by simpa using hcolon⟩
      | type =>
        obtain ⟨l, c, rfl, hl, hc⟩ := List.map_eq_cons_iff.1 hus
        obtain ⟨l', c, rfl, hl', hc⟩ := List.map_eq_cons_iff.1 hc
        exact ⟨by simp [hl], by simp [hl']⟩
    rw [List.nil_append, bind_of_ok (accept_of_head_ne hfirst)]
    show (peek >>= fun _ => _) (c' ++ r) = _
    rw [bind_of_ok (peek_apply _), bind_of_ok (peekSecond_apply _)]
    generalize (c' ++ r).head?.map (·.token) = first
    generalize (c' ++ r)[1]?.map (·.token) = second at hsecond ⊢
    split
    case h_1 => exact absurd rfl hsecond
    case h_2 => rfl

/-- A predicate is read when its condition is. -/
lemma predicate_of_ok {b b' : Located} {s : List Located} {e : Expr} (hb : b.token = .openBracket)
    (hb' : b'.token = .closeBracket) (h : inner s = .ok (e, b' :: r)) :
    predicate inner (b :: s) = .ok (some e, r) := by
  unfold predicate
  rw [bind_of_ok (accept_cons hb)]
  show (inner >>= fun _ => _) s = _
  rw [bind_of_ok h, bind_of_ok (expect_cons hb')]
  rfl

/-- No predicate is read where no bracket opens. -/
lemma predicate_of_head_ne {s : List Located} (h : s.head?.map (·.token) ≠ some .openBracket) :
    predicate inner s = .ok (none, s) := by
  unfold predicate
  rw [bind_of_ok (accept_of_head_ne h)]
  rfl

/-- A step with an axis and a test is read when its predicates are. -/
lemma step_of_spelled {axis : Axis} {test : NodeTest} {s : List Located} {ps : List Expr}
    (haxis : AxisSpelled axis (c.map (·.token))) (htest : TestSpelled test (c'.map (·.token)))
    (hs : Weak 12 s) (hps : many (predicate inner) s = .ok (ps, r)) :
    step inner (c ++ (c' ++ s)) = .ok (.mk axis test ps, r) := by
  have hdots : ∀ {t}, t = .dot ∨ t = .doubleDot →
      (c ++ (c' ++ s)).head?.map (·.token) ≠ some t := by
    intro t ht
    rw [← List.head?_map, List.map_append, List.map_append]
    generalize c.map (·.token) = ts at haxis ⊢
    generalize c'.map (·.token) = us at htest ⊢
    obtain rfl | rfl := ht <;> cases haxis <;> cases htest <;> simp
  unfold step
  rw [bind_of_ok (accept_of_head_ne (hdots (.inl rfl)))]
  show (accept _ >>= fun _ => _) (c ++ (c' ++ s)) = _
  rw [bind_of_ok (accept_of_head_ne (hdots (.inr rfl)))]
  show (stepAxis >>= fun _ => _) (c ++ (c' ++ s)) = _
  rw [bind_of_ok (stepAxis_of_spelled haxis htest hs), bind_of_ok (nodeTest_of_spelled htest hs),
    bind_of_ok hps]
  rfl

/-- Further steps are read when the step after the slash is. -/
lemma furtherSteps_of_slash {l : Located} {s : List Located} {st : Step} (hl : l.token = .slash)
    (h : step inner s = .ok (st, r)) : furtherSteps inner (l :: s) = .ok (some [st], r) := by
  unfold furtherSteps
  rw [bind_of_ok (accept_cons hl)]
  show (step inner >>= fun _ => _) s = _
  rw [bind_of_ok h]
  rfl

/-- Further steps are read when the step after the two slashes is. -/
lemma furtherSteps_of_doubleSlash {l : Located} {s : List Located} {st : Step}
    (hl : l.token = .doubleSlash) (h : step inner s = .ok (st, r)) :
    furtherSteps inner (l :: s) = .ok (some [.throughout, st], r) := by
  unfold furtherSteps
  rw [bind_of_ok (accept_of_head_ne (by simp [hl]))]
  show (accept _ >>= fun _ => _) (l :: s) = _
  rw [bind_of_ok (accept_cons hl)]
  show (step inner >>= fun _ => _) s = _
  rw [bind_of_ok h]
  rfl

/-- No argument is read where no comma follows. -/
lemma furtherArgument_of_head_ne {s : List Located} (h : s.head?.map (·.token) ≠ some .comma) :
    furtherArgument inner s = .ok (none, s) := by
  unfold furtherArgument
  rw [bind_of_ok (accept_of_head_ne h)]
  rfl

/-- No further step is read where no slash follows. -/
lemma furtherSteps_of_weak (h : Weak 10 r) : furtherSteps inner r = .ok (none, r) := by
  unfold furtherSteps
  rw [bind_of_ok (accept_of_head_ne (h.head_ne (by decide)))]
  show (accept _ >>= fun _ => _) r = _
  rw [bind_of_ok (accept_of_head_ne (h.head_ne (by decide)))]
  rfl

end Paths

/-! ## Phrases -/

/-- Tokens that spell the phrase are read as it, whatever weak tokens follow, at any depth that is
enough for them. -/
def Phrase.Readable (ph : Phrase) (ts : List Token) : Prop :=
  ∀ (d : Nat) (c r : List Located), c.map (·.token) = ts → c.length ≤ d →
    ph.IsRead (expression d) (c ++ r) r

namespace Phrase.Readable

variable {l : Level} {e : Expr} {ts us vs : List Token} {st : Step} {ss : List Step}
  {ps : List Expr}

/-- An expression between parentheses, brackets or commas is read. -/
lemma expression_eq {d : Nat} {c r : List Located} (h : Readable (.expr .disjunction e) ts)
    (hc : c.map (·.token) = ts) (hd : c.length < d) (hr : Weak 1 r) :
    expression d (c ++ r) = .ok (e, r) := by
  cases d with
  | zero => omega
  | succ d =>
    exact Level.Reads.parser_eq (h d c r hc (by omega) (hr.mono (by decide))) hr

lemma stronger (hs : Spells (.expr l.next e) ts) (h : Readable (.expr l.next e) ts) :
    Readable (.expr l e) ts := by
  intro d c r hc hd hr
  by_cases hne : l = .path
  · subst hne
    exact h d c r hc hd hr
  · have hrank := Level.rank_next hne
    refine Level.reads_of_next hne ?_
      ((h d c r hc hd (hr.mono (by omega))).parser_eq (hr.mono (by omega)))
    rintro rfl
    have hpos := hs.length_pos rfl
    have hhead : ts.head? ≠ some .minus := hs.head_ne_minus rfl
    cases c with
    | nil => simp [← hc] at hpos
    | cons t c => simpa [← hc] using hhead

lemma binary {left right : Expr} {t : Token} {f : Combination} (ht : l.operator t = some f)
    (hl : Readable (.expr l left) ts) (hr : Readable (.expr l.next right) us) :
    Readable (.expr l (f left right)) (ts ++ t :: us) := by
  intro d c r hc hd hweak
  obtain ⟨c₁, c₂, rfl, rfl, hc₂⟩ := List.map_eq_append_iff.1 hc
  obtain ⟨o, c₂, rfl, rfl, rfl⟩ := List.map_eq_cons_iff.1 hc₂
  have hne : l ≠ .path := by
    rintro rfl
    cases ht
  have hrank := Level.rank_next hne
  rw [List.length_append, List.length_cons] at hd
  have hleft := hl d c₁ (o :: c₂ ++ r) rfl (by omega)
    (.cons (by rw [Level.strength_of_operator ht]; omega))
  have hright := hr d c₂ r rfl (by omega) (hweak.mono (by omega))
  rw [List.append_assoc]
  exact Level.reads_binary ht hleft (hright.parser_eq (hweak.mono (by omega))) (by simp)

lemma negate (h : Readable (.expr .negation e) ts) :
    Readable (.expr .negation (.negate e)) (.minus :: ts) := by
  intro d c r hc hd hweak
  obtain ⟨o, c, rfl, ho, rfl⟩ := List.map_eq_cons_iff.1 hc
  rw [List.length_cons] at hd
  have hread : XPath.negation (expression d) (c ++ r) = .ok (e, r) := h d c r rfl (by omega) hweak
  show XPath.negation (expression d) (o :: c ++ r) = .ok (.negate e, r)
  simp only [XPath.negation, bind_eq_ok_iff, pure_apply, Except.ok.injEq, Prod.mk.injEq] at hread ⊢
  obtain ⟨signs, t, hsigns, operand, u, hoperand, rfl, rfl⟩ := hread
  obtain ⟨hrepeats, hnone⟩ := repeats_minusSign hsigns
  have hminus : minusSign (o :: c ++ u) = .ok (some (), c ++ u) := by
    unfold minusSign
    rw [List.cons_append, bind_of_ok (accept_cons ho)]
    rfl
  exact ⟨() :: signs, t, many_of_repeats (.next hminus (Nat.lt_succ_self _) hrepeats) hnone,
    operand, u, hoperand, rfl, rfl⟩

/-! ### Steps -/

lemma noPredicates : Readable (.predicates []) [] := by
  intro d c r hc hd
  obtain rfl : c = [] := List.map_eq_nil_iff.1 hc
  exact .stop

lemma predicate (h : Readable (.expr .disjunction e) ts) (hps : Readable (.predicates ps) us) :
    Readable (.predicates (e :: ps)) (.openBracket :: ts ++ .closeBracket :: us) := by
  intro d c r hc hd
  obtain ⟨b, c, rfl, hb, hc⟩ := List.map_eq_cons_iff.1 hc
  obtain ⟨c₁, c₂, rfl, rfl, hc₂⟩ := List.map_eq_append_iff.1 hc
  obtain ⟨b', c₂, rfl, hb', rfl⟩ := List.map_eq_cons_iff.1 hc₂
  simp only [List.length_cons, List.length_append] at hd
  have hinner := expression_eq (r := b' :: (c₂ ++ r)) h rfl (by omega : c₁.length < d)
    (.cons (by rw [hb']; decide))
  have hhead := predicate_of_ok hb hb' hinner
  rw [List.cons_append, List.append_assoc]
  refine .next hhead ?_ (hps d c₂ r rfl (by omega))
  simp only [List.length_cons, List.length_append]
  omega

lemma here : Readable (.step .here) [.dot] := by
  intro d c r hc hd hweak
  obtain ⟨l, rfl, hl⟩ := List.map_eq_singleton_iff.1 hc
  show XPath.step _ (l :: r) = _
  unfold XPath.step
  rw [bind_of_ok (accept_cons hl)]
  rfl

lemma up : Readable (.step .up) [.doubleDot] := by
  intro d c r hc hd hweak
  obtain ⟨l, rfl, hl⟩ := List.map_eq_singleton_iff.1 hc
  show XPath.step _ (l :: r) = _
  unfold XPath.step
  rw [bind_of_ok (accept_of_head_ne (by simp [hl]))]
  show (accept _ >>= fun _ => _) (l :: r) = _
  rw [bind_of_ok (accept_cons hl)]
  rfl

lemma step {axis : Axis} {test : NodeTest} (haxis : AxisSpelled axis ts)
    (htest : TestSpelled test us) (hs : Spells (.predicates ps) vs)
    (hps : Readable (.predicates ps) vs) : Readable (.step (.mk axis test ps)) (ts ++ us ++ vs) := by
  intro d c r hc hd hweak
  obtain ⟨c, c₃, rfl, hc', rfl⟩ := List.map_eq_append_iff.1 hc
  obtain ⟨c₁, c₂, rfl, rfl, rfl⟩ := List.map_eq_append_iff.1 hc'
  simp only [List.length_append] at hd
  have hmany := many_of_repeats (hps d c₃ r rfl (by omega))
    (predicate_of_head_ne (hweak.head_ne (by decide)))
  have hfollow : Weak 12 (c₃ ++ r) := by
    refine .append rfl ?_ (hweak.mono (by decide))
    generalize c₃.map (·.token) = vs at hs
    cases hs with
    | noPredicates => simp
    | predicate => simp [Token.strength]
  rw [List.append_assoc, List.append_assoc]
  exact step_of_spelled haxis htest hfollow hmany

lemma noSteps : Readable (.steps []) [] := by
  intro d c r hc hd hweak
  obtain rfl : c = [] := List.map_eq_nil_iff.1 hc
  exact ⟨[], .stop, rfl, fun _ => rfl⟩

/-- What follows a step in a path: further steps, or what follows the path. -/
lemma weak_steps (hs : Spells (.steps ss) ts) {c r : List Located} (hc : c.map (·.token) = ts)
    (hr : Weak 11 r) : Weak 11 (c ++ r) := by
  refine .append hc ?_ hr
  cases hs with
  | noSteps => simp
  | slash => simp [Token.strength]
  | doubleSlash => simp [Token.strength]

/-- What follows an argument: further arguments, or what follows them all. -/
lemma weak_arguments (hs : Spells (.arguments ps) ts) {c r : List Located}
    (hc : c.map (·.token) = ts) (hr : Weak 1 r) : Weak 1 (c ++ r) := by
  refine .append hc ?_ hr
  cases hs with
  | noArguments => simp
  | argument => simp [Token.strength]

lemma slash (hs : Readable (.step st) ts) (hspells : Spells (.steps ss) us)
    (hss : Readable (.steps ss) us) : Readable (.steps (st :: ss)) (.slash :: ts ++ us) := by
  intro d c r hc hd hweak
  obtain ⟨o, c, rfl, ho, hc⟩ := List.map_eq_cons_iff.1 hc
  obtain ⟨c₁, c₂, rfl, rfl, rfl⟩ := List.map_eq_append_iff.1 hc
  simp only [List.length_cons, List.length_append] at hd
  obtain ⟨sss, hsss, rfl, -⟩ := hss d c₂ r rfl (by omega) hweak
  have hstep := hs d c₁ (c₂ ++ r) rfl (by omega) (weak_steps hspells rfl hweak)
  rw [List.cons_append, List.append_assoc]
  refine ⟨[st] :: sss, .next (furtherSteps_of_slash ho hstep) ?_ hsss, rfl, by simp⟩
  simp only [List.length_cons, List.length_append]
  omega

lemma doubleSlash (hs : Readable (.step st) ts) (hspells : Spells (.steps ss) us)
    (hss : Readable (.steps ss) us) :
    Readable (.steps (.throughout :: st :: ss)) (.doubleSlash :: ts ++ us) := by
  intro d c r hc hd hweak
  obtain ⟨o, c, rfl, ho, hc⟩ := List.map_eq_cons_iff.1 hc
  obtain ⟨c₁, c₂, rfl, rfl, rfl⟩ := List.map_eq_append_iff.1 hc
  simp only [List.length_cons, List.length_append] at hd
  obtain ⟨sss, hsss, rfl, -⟩ := hss d c₂ r rfl (by omega) hweak
  have hstep := hs d c₁ (c₂ ++ r) rfl (by omega) (weak_steps hspells rfl hweak)
  rw [List.cons_append, List.append_assoc]
  refine ⟨[.throughout, st] :: sss, .next (furtherSteps_of_doubleSlash ho hstep) ?_ hsss, rfl,
    by simp⟩
  simp only [List.length_cons, List.length_append]
  omega

/-- The steps of a path are read when the first and the further ones are. -/
lemma stepsAfter_eq (begun : List Step) (hs : Readable (.step st) ts)
    (hspells : Spells (.steps ss) us) (hss : Readable (.steps ss) us) {d : Nat}
    {c₁ c₂ r : List Located} (hc₁ : c₁.map (·.token) = ts) (hc₂ : c₂.map (·.token) = us)
    (hd : c₁.length + c₂.length ≤ d) (hr : Weak 10 r) :
    stepsAfter (expression d) begun (c₁ ++ (c₂ ++ r)) = .ok (begun ++ st :: ss, r) := by
  have hweak : Weak 11 r := hr.mono (by decide)
  obtain ⟨sss, hsss, rfl, -⟩ := hss d c₂ r hc₂ (by omega) hweak
  have hstep : XPath.step (expression d) (c₁ ++ (c₂ ++ r)) = .ok (st, c₂ ++ r) :=
    hs d c₁ (c₂ ++ r) hc₁ (by omega) (weak_steps hspells hc₂ hweak)
  unfold stepsAfter
  rw [bind_of_ok hstep, bind_of_ok (many_of_repeats hsss (furtherSteps_of_weak hr))]
  rfl

/-! ### Location paths -/

/-- An operand that begins as no other is a location path. -/
lemma path_eq_locationPath {inner : Parser Expr} {s : List Located}
    (h : XPath.startsPrimary (s.head?.map (·.token)) (s[1]?.map (·.token)) = false) :
    XPath.path inner s = locationPath inner s := by
  unfold XPath.path
  rw [bind_of_ok (peek_apply s), bind_of_ok (peekSecond_apply s), h]
  rfl

lemma root : Readable (.expr .path (.path true [])) [.slash] := by
  intro d c r hc hd hweak
  obtain ⟨l, rfl, hl⟩ := List.map_eq_singleton_iff.1 hc
  show XPath.path (expression d) (l :: r) = _
  rw [path_eq_locationPath (by rw [List.head?_cons, Option.map_some, hl]; rfl), locationPath,
    bind_of_ok (accept_cons hl)]
  show (peek >>= fun _ => _) r = _
  rw [bind_of_ok (peek_apply r), Weak.startsStep_eq_false (hweak.mono (by decide))]
  rfl

lemma absolute (hst : Spells (.step st) ts) (hs : Readable (.step st) ts)
    (hspells : Spells (.steps ss) us) (hss : Readable (.steps ss) us) :
    Readable (.expr .path (.path true (st :: ss))) (.slash :: ts ++ us) := by
  intro d c r hc hd hweak
  obtain ⟨l, c, rfl, hl, hc⟩ := List.map_eq_cons_iff.1 hc
  obtain ⟨c₁, c₂, rfl, hc₁, hc₂⟩ := List.map_eq_append_iff.1 hc
  simp only [List.length_cons, List.length_append] at hd
  have hsteps := stepsAfter_eq [] hs hspells hss hc₁ hc₂ (by omega : _ ≤ d) hweak
  have hstart : (((c₁ ++ (c₂ ++ r)).head?.map (·.token)).any XPath.startsStep) = true := by
    obtain ⟨t, ts', rfl, ht⟩ := hst.startsStep
    obtain ⟨l', c₁, rfl, hl', -⟩ := List.map_eq_cons_iff.1 hc₁
    rw [List.cons_append, List.head?_cons, Option.map_some, hl', Option.any_some, ht]
  show XPath.path (expression d) (l :: (c₁ ++ c₂) ++ r) = _
  rw [List.cons_append, List.append_assoc,
    path_eq_locationPath (by rw [List.head?_cons, Option.map_some, hl]; rfl), locationPath,
    bind_of_ok (accept_cons hl)]
  show (peek >>= fun _ => _) (c₁ ++ (c₂ ++ r)) = _
  rw [bind_of_ok (peek_apply _), hstart]
  show (stepsAfter _ _ >>= fun _ => _) (c₁ ++ (c₂ ++ r)) = _
  rw [bind_of_ok hsteps]
  rfl

lemma throughout (hs : Readable (.step st) ts) (hspells : Spells (.steps ss) us)
    (hss : Readable (.steps ss) us) :
    Readable (.expr .path (.path true (.throughout :: st :: ss))) (.doubleSlash :: ts ++ us) := by
  intro d c r hc hd hweak
  obtain ⟨l, c, rfl, hl, hc⟩ := List.map_eq_cons_iff.1 hc
  obtain ⟨c₁, c₂, rfl, hc₁, hc₂⟩ := List.map_eq_append_iff.1 hc
  simp only [List.length_cons, List.length_append] at hd
  have hsteps := stepsAfter_eq [.throughout] hs hspells hss hc₁ hc₂ (by omega : _ ≤ d) hweak
  show XPath.path (expression d) (l :: (c₁ ++ c₂) ++ r) = _
  rw [List.cons_append, List.append_assoc,
    path_eq_locationPath (by rw [List.head?_cons, Option.map_some, hl]; rfl), locationPath,
    bind_of_ok (accept_of_head_ne (by simp [hl]))]
  show (accept _ >>= fun _ => _) (l :: (c₁ ++ (c₂ ++ r))) = _
  rw [bind_of_ok (accept_cons hl)]
  show (stepsAfter _ _ >>= fun _ => _) (c₁ ++ (c₂ ++ r)) = _
  rw [bind_of_ok hsteps]
  rfl

lemma relative (hst : Spells (.step st) ts) (hs : Readable (.step st) ts)
    (hspells : Spells (.steps ss) us) (hss : Readable (.steps ss) us) :
    Readable (.expr .path (.path false (st :: ss))) (ts ++ us) := by
  intro d c r hc hd hweak
  obtain ⟨c₁, c₂, rfl, hc₁, hc₂⟩ := List.map_eq_append_iff.1 hc
  rw [List.length_append] at hd
  have hsteps := stepsAfter_eq [] hs hspells hss hc₁ hc₂ hd hweak
  have hfollow : Weak 11 (c₂ ++ r) := weak_steps hspells hc₂ (hweak.mono (by decide))
  have hprimary : XPath.startsPrimary ((c₁ ++ (c₂ ++ r)).head?.map (·.token))
      ((c₁ ++ (c₂ ++ r))[1]?.map (·.token)) = false := by
    have hparen : ((c₂ ++ r).map (·.token)).head? ≠ some .openParen := by
      rw [List.head?_map]
      exact hfollow.head_ne (by decide)
    have := hst.not_startsPrimary hparen
    rwa [← hc₁, ← List.map_append, List.head?_map, List.getElem?_map] at this
  have hslashes : ∀ {t}, t = .slash ∨ t = .doubleSlash →
      (c₁ ++ (c₂ ++ r)).head?.map (·.token) ≠ some t := by
    intro t ht
    obtain ⟨t', ts', rfl, hstart⟩ := hst.startsStep
    obtain ⟨l', c₁, rfl, hl', -⟩ := List.map_eq_cons_iff.1 hc₁
    rw [List.cons_append, List.head?_cons, Option.map_some, hl']
    rintro ⟨⟩
    obtain rfl | rfl := ht <;> cases hstart
  show XPath.path (expression d) (c₁ ++ c₂ ++ r) = _
  rw [List.append_assoc, path_eq_locationPath hprimary, locationPath,
    bind_of_ok (accept_of_head_ne (hslashes (.inl rfl)))]
  show (accept _ >>= fun _ => _) (c₁ ++ (c₂ ++ r)) = _
  rw [bind_of_ok (accept_of_head_ne (hslashes (.inr rfl)))]
  show (stepsAfter _ _ >>= fun _ => _) (c₁ ++ (c₂ ++ r)) = _
  rw [bind_of_ok hsteps]
  rfl

/-! ### Other operands -/

/-- An operand is read when what it begins with and the predicates and steps after it are. -/
lemma path_eq (hp : Spells (.primary e) ts) (h : Readable (.primary e) ts)
    (hps : Readable (.predicates ps) us) (hspells : Spells (.steps ss) vs)
    (hss : Readable (.steps ss) vs) {d : Nat} {c₁ c₂ c₃ r : List Located}
    (hc₁ : c₁.map (·.token) = ts) (hc₂ : c₂.map (·.token) = us) (hc₃ : c₃.map (·.token) = vs)
    (hd : c₁.length + c₂.length + c₃.length ≤ d) (hr : Weak 10 r) :
    XPath.path (expression d) (c₁ ++ (c₂ ++ (c₃ ++ r))) =
      .ok (if ps.isEmpty && ss.isEmpty then e else .filter e ps ss, r) := by
  have hweak : Weak 11 r := hr.mono (by decide)
  have hfollow : Weak 11 (c₃ ++ r) := weak_steps hspells hc₃ hweak
  have hprimary : XPath.primary (expression d) (c₁ ++ (c₂ ++ (c₃ ++ r))) =
      .ok (e, c₂ ++ (c₃ ++ r)) := h d c₁ _ hc₁ (by omega)
  have hpredicates := many_of_repeats (hps d c₂ (c₃ ++ r) hc₂ (by omega))
    (predicate_of_head_ne (hfollow.head_ne (by decide)))
  obtain ⟨sss, hsss, rfl, hnone⟩ := hss d c₃ r hc₃ (by omega) hweak
  have hstart : XPath.startsPrimary ((c₁ ++ (c₂ ++ (c₃ ++ r))).head?.map (·.token))
      ((c₁ ++ (c₂ ++ (c₃ ++ r)))[1]?.map (·.token)) = true := by
    have := hp.startsPrimary ((c₂ ++ (c₃ ++ r)).map (·.token))
    rwa [← hc₁, ← List.map_append, List.head?_map, List.getElem?_map] at this
  unfold XPath.path
  rw [bind_of_ok (peek_apply _), bind_of_ok (peekSecond_apply _), hstart]
  show (XPath.primary _ >>= fun _ => _) _ = _
  rw [bind_of_ok hprimary, bind_of_ok hpredicates,
    bind_of_ok (many_of_repeats hsss (furtherSteps_of_weak hr))]
  have hempty : sss.flatten.isEmpty = sss.isEmpty := by
    by_cases hflat : sss.flatten = []
    · rw [hflat, hnone hflat]
      rfl
    · have hne : sss ≠ [] := by
        rintro rfl
        exact hflat rfl
      rw [List.isEmpty_eq_false_iff.2 hflat, List.isEmpty_eq_false_iff.2 hne]
  rw [hempty]
  cases ps.isEmpty && sss.isEmpty <;> rfl

lemma operand (hp : Spells (.primary e) ts) (h : Readable (.primary e) ts) :
    Readable (.expr .path e) ts := by
  intro d c r hc hd hweak
  have hnone : ([] : List Located).map (·.token) = [] := rfl
  exact path_eq hp h noPredicates .noSteps noSteps hc hnone hnone (by simpa using hd) hweak

lemma filter (hp : Spells (.primary e) ts) (h : Readable (.primary e) ts)
    (hps : Readable (.predicates ps) us) (hspells : Spells (.steps ss) vs)
    (hss : Readable (.steps ss) vs) (some : ps ≠ [] ∨ ss ≠ []) :
    Readable (.expr .path (.filter e ps ss)) (ts ++ us ++ vs) := by
  intro d c r hc hd hweak
  obtain ⟨c, c₃, rfl, hc', hc₃⟩ := List.map_eq_append_iff.1 hc
  obtain ⟨c₁, c₂, rfl, hc₁, hc₂⟩ := List.map_eq_append_iff.1 hc'
  simp only [List.length_append] at hd
  have hpath := path_eq hp h hps hspells hss hc₁ hc₂ hc₃ hd hweak
  have hempty : (ps.isEmpty && ss.isEmpty) = false := by
    cases ps <;> cases ss <;> simp_all
  show XPath.path (expression d) (c₁ ++ c₂ ++ c₃ ++ r) = _
  rw [List.append_assoc, List.append_assoc, hpath, hempty]
  rfl

lemma parens (h : Readable (.expr .disjunction e) ts) :
    Readable (.primary e) (.openParen :: ts ++ [.closeParen]) := by
  intro d c r hc hd
  obtain ⟨l, c, rfl, hl, hc⟩ := List.map_eq_cons_iff.1 hc
  obtain ⟨c₁, c₂, rfl, hc₁, hc₂⟩ := List.map_eq_append_iff.1 hc
  obtain ⟨l', rfl, hl'⟩ := List.map_eq_singleton_iff.1 hc₂
  simp only [List.length_cons, List.length_append] at hd
  have hinner := expression_eq (r := l' :: r) h hc₁ (by omega : c₁.length < d)
    (.cons (by rw [hl']; decide))
  show XPath.primary (expression d) (l :: (c₁ ++ [l']) ++ r) = _
  rw [List.cons_append, List.append_assoc, List.singleton_append, XPath.primary,
    bind_of_ok (peek_apply _), List.head?_cons, Option.map_some, hl]
  show (expression d >>= fun _ => _) (c₁ ++ l' :: r) = _
  rw [bind_of_ok hinner, bind_of_ok (expect_cons hl')]
  rfl

lemma literal (text : Text) : Readable (.primary (.literal text)) [.literal text] := by
  intro d c r hc hd
  obtain ⟨l, rfl, hl⟩ := List.map_eq_singleton_iff.1 hc
  show XPath.primary (expression d) (l :: r) = _
  rw [XPath.primary, bind_of_ok (peek_apply _), List.head?_cons, Option.map_some, hl]
  rfl

lemma number (value : Double) : Readable (.primary (.number value)) [.number value] := by
  intro d c r hc hd
  obtain ⟨l, rfl, hl⟩ := List.map_eq_singleton_iff.1 hc
  show XPath.primary (expression d) (l :: r) = _
  rw [XPath.primary, bind_of_ok (peek_apply _), List.head?_cons, Option.map_some, hl]
  rfl

/-! ### Functions -/

lemma noArguments : Readable (.arguments []) [] := by
  intro d c r hc hd hweak
  obtain rfl : c = [] := List.map_eq_nil_iff.1 hc
  exact .stop

lemma argument (h : Readable (.expr .disjunction e) ts) (hspells : Spells (.arguments ps) us)
    (hes : Readable (.arguments ps) us) : Readable (.arguments (e :: ps)) (.comma :: ts ++ us) := by
  intro d c r hc hd hweak
  obtain ⟨l, c, rfl, hl, hc⟩ := List.map_eq_cons_iff.1 hc
  obtain ⟨c₁, c₂, rfl, hc₁, hc₂⟩ := List.map_eq_append_iff.1 hc
  simp only [List.length_cons, List.length_append] at hd
  have hinner := expression_eq (r := c₂ ++ r) h hc₁ (by omega : c₁.length < d)
    (weak_arguments hspells hc₂ hweak)
  have hhead : furtherArgument (expression d) (l :: (c₁ ++ (c₂ ++ r))) =
      .ok (some e, c₂ ++ r) := by
    unfold furtherArgument
    rw [bind_of_ok (accept_cons hl)]
    show (expression d >>= fun _ => _) (c₁ ++ (c₂ ++ r)) = _
    rw [bind_of_ok hinner]
    rfl
  show Repeats _ (l :: (c₁ ++ c₂) ++ r) _ _
  rw [List.cons_append, List.append_assoc]
  refine .next hhead ?_ (hes d c₂ r hc₂ (by omega) hweak)
  simp only [List.length_cons, List.length_append]
  omega

/-- A function is called when its arguments are read. -/
lemma primary_of_arguments {d : Nat} {name : Text} {f : Function} {l l' : Located}
    {s r : List Located} (hl : l.token = .name name) (hf : Function.named? name = some f)
    (hargs : XPath.arguments (expression d) (l' :: s) = .ok (ps, r)) (htakes : f.takes ps.length = true) :
    XPath.primary (expression d) (l :: l' :: s) = .ok (.call f ps, r) := by
  rw [XPath.primary, bind_of_ok (peek_apply _), List.head?_cons, Option.map_some, hl]
  show functionCall _ _ (l :: l' :: s) = _
  unfold functionCall
  rw [hf, bind_of_ok (require_some _ _ _), bind_of_ok (skip_apply 1 _), List.drop_one,
    List.tail_cons, bind_of_ok hargs, htakes]
  rfl

lemma callNone {name : Text} {f : Function} (hf : Function.named? name = some f)
    (htakes : f.takes 0 = true) :
    Readable (.primary (.call f [])) [.name name, .openParen, .closeParen] := by
  intro d c r hc hd
  obtain ⟨l, c, rfl, hl, hc⟩ := List.map_eq_cons_iff.1 hc
  obtain ⟨l', c, rfl, -, hc⟩ := List.map_eq_cons_iff.1 hc
  obtain ⟨l'', rfl, hl''⟩ := List.map_eq_singleton_iff.1 hc
  show XPath.primary (expression d) (l :: l' :: l'' :: r) = _
  refine primary_of_arguments hl hf ?_ htakes
  unfold XPath.arguments
  rw [bind_of_ok (skip_apply 1 _), List.drop_one, List.tail_cons, bind_of_ok (accept_cons hl'')]
  rfl

lemma call {name : Text} {f : Function} (hf : Function.named? name = some f)
    (hs : Spells (.expr .disjunction e) ts) (h : Readable (.expr .disjunction e) ts)
    (hspells : Spells (.arguments ps) us) (hes : Readable (.arguments ps) us)
    (htakes : f.takes (ps.length + 1) = true) :
    Readable (.primary (.call f (e :: ps)))
      (.name name :: .openParen :: ts ++ us ++ [.closeParen]) := by
  intro d c r hc hd
  obtain ⟨l, c, rfl, hl, hc⟩ := List.map_eq_cons_iff.1 hc
  obtain ⟨l', c, rfl, -, hc⟩ := List.map_eq_cons_iff.1 hc
  obtain ⟨c, c₃, rfl, hc', hc₃⟩ := List.map_eq_append_iff.1 hc
  obtain ⟨c₁, c₂, rfl, hc₁, hc₂⟩ := List.map_eq_append_iff.1 hc'
  obtain ⟨l'', rfl, hl''⟩ := List.map_eq_singleton_iff.1 hc₃
  simp only [List.length_cons, List.length_append] at hd
  have hclose : Weak 1 (l'' :: r) := .cons (by rw [hl'']; decide)
  have hfirst := expression_eq (r := c₂ ++ l'' :: r) h hc₁ (by omega : c₁.length < d)
    (weak_arguments hspells hc₂ hclose)
  have hmore := many_of_repeats (hes d c₂ (l'' :: r) hc₂ (by omega) hclose)
    (furtherArgument_of_head_ne (by simp [hl'']))
  have hhead : (c₁ ++ (c₂ ++ l'' :: r)).head?.map (·.token) ≠ some .closeParen := by
    have hne : ts.head? ≠ some .closeParen := hs.head_ne_closeParen rfl
    have hpos := hs.length_pos rfl
    cases c₁ with
    | nil => simp [← hc₁] at hpos
    | cons t c₁ => simpa [← hc₁] using hne
  show XPath.primary (expression d) (l :: l' :: (c₁ ++ c₂ ++ [l'']) ++ r) = _
  rw [List.cons_append, List.cons_append, List.append_assoc, List.append_assoc,
    List.singleton_append]
  refine primary_of_arguments hl hf ?_ htakes
  unfold XPath.arguments
  rw [bind_of_ok (skip_apply 1 _), List.drop_one, List.tail_cons,
    bind_of_ok (accept_of_head_ne hhead)]
  show (expression d >>= fun _ => _) _ = _
  rw [bind_of_ok hfirst, bind_of_ok hmore, bind_of_ok (expect_cons hl'')]
  rfl

end Phrase.Readable

/-! ## All phrases -/

/-- Tokens that spell a phrase are read as it.

**Proof sketch.** By induction on how the phrase is spelled. An expression with an operator goes on
with the operands read before it, as the operator holds no more strongly than its level; parentheses
and brackets take up two tokens, so that the depth left is enough for what stands between them. -/
theorem Spells.readable {ph : Phrase} {ts : List Token} (h : Spells ph ts) : ph.Readable ts := by
  induction h with
  | stronger h ih => exact .stronger h ih
  | binary operator hl hr ihl ihr => exact .binary operator ihl ihr
  | negate h ih => exact .negate ih
  | root => exact .root
  | absolute hs hss ihs ihss => exact .absolute hs ihs hss ihss
  | throughout hs hss ihs ihss => exact .throughout ihs hss ihss
  | relative hs hss ihs ihss => exact .relative hs ihs hss ihss
  | operand h ih => exact .operand h ih
  | filter h hps hss some ih ihps ihss => exact .filter h ih ihps hss ihss some
  | parens h ih => exact .parens ih
  | literal text => exact .literal text
  | number value => exact .number value
  | callNone named takes => exact .callNone named takes
  | call named h hes takes ih ihes => exact .call named h ih hes ihes takes
  | noArguments => exact .noArguments
  | argument h hes ih ihes => exact .argument ih hes ihes
  | noPredicates => exact .noPredicates
  | predicate h hes ih ihes => exact .predicate ih ihes
  | here => exact .here
  | up => exact .up
  | step haxis htest hps ih => exact .step haxis htest hps ih
  | noSteps => exact .noSteps
  | slash hs hss ihs ihss => exact .slash ihs hss ihss
  | doubleSlash hs hss ihs ihss => exact .doubleSlash ihs hss ihss

/-- An expression is read exactly where it is spelled. -/
theorem parseTokens_eq_ok_iff {tokens : List Located} {e : Expr} :
    parseTokens tokens = .ok e ↔ Spells (.expr .disjunction e) (tokens.map (·.token)) := by
  refine ⟨spells_of_parseTokens, fun h => ?_⟩
  have hne : tokens ≠ [] := by
    rintro rfl
    exact h.ne_nil rfl
  have hread := h.readable.expression_eq (r := []) rfl (Nat.lt_succ_self _) .nil
  rw [List.append_nil] at hread
  unfold parseTokens
  rw [if_neg hne, hread]

/-- Tokens spell at most one expression. -/
theorem Spells.unique {e e' : Expr} {ts : List Token} (h : Spells (.expr .disjunction e) ts)
    (h' : Spells (.expr .disjunction e') ts) : e = e' := by
  have hmap : (ts.map fun t => (⟨t, 0⟩ : Located)).map (·.token) = ts := by
    rw [List.map_map]
    exact List.map_id ts
  have hread := parseTokens_eq_ok_iff.2 (hmap ▸ h)
  have hread' := parseTokens_eq_ok_iff.2 (hmap ▸ h')
  simpa using hread.symm.trans hread'

/-- A text is read as the expression that its tokens spell. -/
theorem parse_eq_ok_iff_tokenize {s : Text} {e : Expr} :
    parse s = .ok e ↔ ∃ tokens, tokenize s = .ok tokens ∧
      Spells (.expr .disjunction e) (tokens.map (·.token)) := by
  simp only [← parseTokens_eq_ok_iff]
  unfold parse
  cases tokenize s with
  | error fault => simp
  | ok tokens => cases hread : parseTokens tokens <;> simp [hread]

/-- A text is read as an expression exactly if it consists of tokens that spell the expression, and
no tokens spell two. Any other text makes no query and is reported as no expression. -/
theorem parse_recognizes (s : Text) :
    (∀ e, parse s = .ok e ↔ ∃ tokens, tokenize s = .ok tokens ∧
      Spells (.expr .disjunction e) (tokens.map (·.token))) ∧
    (∀ ts e e', Spells (.expr .disjunction e) ts → Spells (.expr .disjunction e') ts → e = e') ∧
    ((∃ e, parse s = .ok e ∧ Query.ofXPath s = .ok ⟨s, e⟩) ∨
      ∃ fault offset, parse s = .error (fault, offset) ∧
        Query.ofXPath s = .error (.invalidXPath s offset fault.reason)) := by
  refine ⟨fun e => parse_eq_ok_iff_tokenize, fun ts e e' h h' => h.unique h', ?_⟩
  unfold Query.ofXPath
  cases parse s with
  | error fault => exact .inr ⟨_, _, rfl, rfl⟩
  | ok e => exact .inl ⟨_, rfl, rfl⟩

end WebCrawl.XPath
