import Mathlib.Tactic.Common
import Mathlib.Tactic.FinCases
import WebCrawl.XPath.Reading

set_option autoImplicit false

/-!
# The grammar of expressions

What sequences of tokens spell which expressions, said without reference to how they are read. The
levels of expressions are those of the operators; parentheses leave no trace.

## Main definitions

* `WebCrawl.XPath.Level` — the levels of expressions, from the weakest operators to paths.
* `WebCrawl.XPath.Phrase` — an expression at a level, or a part of a path.
* `WebCrawl.XPath.Spells` — the tokens spell the phrase.
* `WebCrawl.XPath.Token.strength` — how strongly a token can hold on to what stands before it.

## Main results

* `WebCrawl.XPath.Spells.ne_nil` — no expression is spelled by no tokens.
* `WebCrawl.XPath.Spells.startsStep`, `WebCrawl.XPath.Spells.startsPrimary` — the tokens with which
  steps and operands begin.
-/

namespace WebCrawl.XPath

/-! ## Levels -/

/-- The levels of expressions, from the weakest operators to paths. -/
inductive Level where
  | disjunction
  | conjunction
  | equality
  | order
  | additive
  | multiplicative
  | negation
  | union
  | path
deriving DecidableEq, Repr

namespace Level

/-- The level of the operands. -/
def next : Level → Level
  | disjunction => conjunction
  | conjunction => equality
  | equality => order
  | order => additive
  | additive => multiplicative
  | multiplicative => negation
  | negation => union
  | union => path
  | path => path

/-- The operators of the level, with what they make of their operands. -/
def operator : Level → Token → Option Combination
  | disjunction, .or => some .or
  | conjunction, .and => some .and
  | equality, .equal => some (.compare .equal)
  | equality, .unequal => some (.compare .unequal)
  | order, .less => some (.compare .less)
  | order, .lessEqual => some (.compare .lessEqual)
  | order, .greater => some (.compare .greater)
  | order, .greaterEqual => some (.compare .greaterEqual)
  | additive, .plus => some (.arithmetic .add)
  | additive, .minus => some (.arithmetic .sub)
  | multiplicative, .multiply => some (.arithmetic .mul)
  | multiplicative, .div => some (.arithmetic .div)
  | multiplicative, .mod => some (.arithmetic .mod)
  | union, .pipe => some .union
  | _, _ => none

/-- The place of the level among the others. -/
def rank : Level → Nat
  | disjunction => 1
  | conjunction => 2
  | equality => 3
  | order => 4
  | additive => 5
  | multiplicative => 6
  | negation => 7
  | union => 8
  | path => 9

/-- Whether there are operators with an operand on either side. -/
def isBinary : Level → Bool
  | negation => false
  | path => false
  | _ => true

/-! The operators of each level are those that its reader looks for. -/

lemma operator_disjunction : disjunction.operator = XPath.disjunction := by
  funext t; cases t <;> rfl

lemma operator_conjunction : conjunction.operator = XPath.conjunction := by
  funext t; cases t <;> rfl

lemma operator_equality : equality.operator = XPath.equality := by
  funext t; cases t <;> rfl

lemma operator_order : order.operator = XPath.order := by
  funext t; cases t <;> rfl

lemma operator_additive : additive.operator = XPath.additive := by
  funext t; cases t <;> rfl

lemma operator_multiplicative : multiplicative.operator = XPath.multiplicative := by
  funext t; cases t <;> rfl

lemma operator_union : union.operator = XPath.union := by
  funext t; cases t <;> rfl

lemma rank_next {l : Level} (h : l ≠ path) : l.next.rank = l.rank + 1 := by
  cases l <;> simp_all [rank, next]

end Level

/-- How strongly a token can hold on to what stands before it. What ends an expression does not at
all, an operator does as its level says, slashes and brackets do more than any operator, and what
can only begin an operand or belong to a step the most. -/
def Token.strength : Token → Nat
  | .closeParen | .closeBracket | .comma => 0
  | .or => 1
  | .and => 2
  | .equal | .unequal => 3
  | .less | .lessEqual | .greater | .greaterEqual => 4
  | .plus | .minus => 5
  | .multiply | .div | .mod => 6
  | .pipe => 8
  | .slash | .doubleSlash => 10
  | .openBracket => 11
  | _ => 12

/-- The operators of a level hold as strongly as the level says. -/
lemma Level.strength_of_operator {l : Level} {t : Token} {c : Combination}
    (h : l.operator t = some c) : t.strength = l.rank := by
  cases l <;> cases t <;> first | rfl | cases h

/-- A token that holds as strongly as a level of operators says is one of its operators. -/
lemma Level.operator_eq_none {l : Level} {t : Token} (h : t.strength < l.rank) :
    l.operator t = none := by
  cases ho : l.operator t with
  | none => rfl
  | some c =>
    have := strength_of_operator ho
    omega

/-! ## Phrases -/

/-- What tokens can spell: an expression at a level, or a part of a path. -/
inductive Phrase where
  /-- An expression whose operators are those of the level or stronger. -/
  | expr (level : Level) (e : Expr)
  /-- An operand that is no location path. -/
  | primary (e : Expr)
  /-- Any number of predicates with their brackets. -/
  | predicates (es : List Expr)
  /-- A step. -/
  | step (s : Step)
  /-- Any number of further steps, each with the slashes before it. -/
  | steps (ss : List Step)
  /-- Any number of further arguments, each with the comma before it. -/
  | arguments (es : List Expr)

/-- Whether the phrase is more than any number of further parts. -/
def Phrase.isWhole : Phrase → Bool
  | .expr _ _ | .primary _ | .step _ => true
  | _ => false

/-- Whether the phrase is one that has no minus sign before it. -/
def Phrase.isUnsigned : Phrase → Bool
  | .expr .union _ | .expr .path _ | .primary _ => true
  | _ => false

/-- The name of an axis. -/
def Axis.name : Axis → Text
  | child => "child"
  | descendant => "descendant"
  | descendantOrSelf => "descendant-or-self"
  | self => "self"
  | parent => "parent"
  | ancestor => "ancestor"
  | ancestorOrSelf => "ancestor-or-self"
  | followingSibling => "following-sibling"
  | precedingSibling => "preceding-sibling"
  | following => "following"
  | preceding => "preceding"
  | attributes => "attribute"

/-- Every axis goes by its name, and by no other. -/
lemma Axis.named?_eq_some_iff {name : Text} {axis : Axis} :
    Axis.named? name = some axis ↔ name = axis.name := by
  constructor
  · intro h
    obtain ⟨entry, hfind, rfl⟩ := Option.map_eq_some_iff.1 h
    have hname : entry.1.toList = name := by simpa using List.find?_some hfind
    have hmem := List.mem_of_find?_eq_some hfind
    rw [← hname]
    fin_cases hmem <;> rfl
  · rintro rfl
    cases axis <;> rfl

/-- The tokens that stand for the axis of a step: an at sign is short for the attributes, and nothing
for the children. -/
inductive AxisSpelled : Axis → List Token → Prop where
  | child : AxisSpelled .child []
  | attributes : AxisSpelled .attributes [.at]
  | named {name : Text} {axis : Axis} (h : name = axis.name) :
    AxisSpelled axis [.name name, .doubleColon]

/-- The names of the kinds of nodes. -/
inductive TypeNamed : Text → NodeTest → Prop where
  | node : TypeNamed "node" .node
  | text : TypeNamed "text" .text
  | comment : TypeNamed "comment" .comment

/-- The kinds of nodes are those that the reader knows. -/
lemma nodeTypeNamed?_eq_some_iff {name : Text} {test : NodeTest} :
    nodeTypeNamed? name = some test ↔ TypeNamed name test := by
  constructor
  · intro h
    unfold nodeTypeNamed? at h
    split at h
    · subst name; cases h; exact .node
    · split at h
      · subst name; cases h; exact .text
      · split at h
        · subst name; cases h; exact .comment
        · cases h
  · rintro (_ | _ | _) <;> rfl

/-- The tokens that stand for the test of a step. -/
inductive TestSpelled : NodeTest → List Token → Prop where
  | any : TestSpelled .anyName [.star]
  | name (name : Text) : TestSpelled (.name name) [.name name]
  | type {name : Text} {test : NodeTest} (h : TypeNamed name test) :
    TestSpelled test [.name name, .openParen, .closeParen]

/-- The tokens spell the phrase. -/
inductive Spells : Phrase → List Token → Prop where
  /-- An expression with stronger operators only. -/
  | stronger {l : Level} {e : Expr} {ts : List Token} (h : Spells (.expr l.next e) ts) :
    Spells (.expr l e) ts
  /-- Operators of one level associate to the left. -/
  | binary {l : Level} {left right : Expr} {ts us : List Token} {t : Token} {c : Combination}
    (operator : l.operator t = some c) (hl : Spells (.expr l left) ts)
    (hr : Spells (.expr l.next right) us) : Spells (.expr l (c left right)) (ts ++ t :: us)
  | negate {e : Expr} {ts : List Token} (h : Spells (.expr .negation e) ts) :
    Spells (.expr .negation (.negate e)) (.minus :: ts)
  | root : Spells (.expr .path (.path true [])) [.slash]
  | absolute {s : Step} {ss : List Step} {ts us : List Token} (hs : Spells (.step s) ts)
    (hss : Spells (.steps ss) us) : Spells (.expr .path (.path true (s :: ss))) (.slash :: ts ++ us)
  | throughout {s : Step} {ss : List Step} {ts us : List Token} (hs : Spells (.step s) ts)
    (hss : Spells (.steps ss) us) :
    Spells (.expr .path (.path true (.throughout :: s :: ss))) (.doubleSlash :: ts ++ us)
  | relative {s : Step} {ss : List Step} {ts us : List Token} (hs : Spells (.step s) ts)
    (hss : Spells (.steps ss) us) : Spells (.expr .path (.path false (s :: ss))) (ts ++ us)
  | operand {e : Expr} {ts : List Token} (h : Spells (.primary e) ts) : Spells (.expr .path e) ts
  /-- An operand with at least one predicate or step after it. -/
  | filter {e : Expr} {ps : List Expr} {ss : List Step} {ts us vs : List Token}
    (h : Spells (.primary e) ts) (hps : Spells (.predicates ps) us) (hss : Spells (.steps ss) vs)
    (some : ps ≠ [] ∨ ss ≠ []) : Spells (.expr .path (.filter e ps ss)) (ts ++ us ++ vs)
  | parens {e : Expr} {ts : List Token} (h : Spells (.expr .disjunction e) ts) :
    Spells (.primary e) (.openParen :: ts ++ [.closeParen])
  | literal (text : Text) : Spells (.primary (.literal text)) [.literal text]
  | number (value : Double) : Spells (.primary (.number value)) [.number value]
  | callNone {name : Text} {f : Function} (named : Function.named? name = some f)
    (takes : f.takes 0 = true) :
    Spells (.primary (.call f [])) [.name name, .openParen, .closeParen]
  | call {name : Text} {f : Function} {e : Expr} {es : List Expr} {ts us : List Token}
    (named : Function.named? name = some f) (h : Spells (.expr .disjunction e) ts)
    (hes : Spells (.arguments es) us) (takes : f.takes (es.length + 1) = true) :
    Spells (.primary (.call f (e :: es))) (.name name :: .openParen :: ts ++ us ++ [.closeParen])
  | noArguments : Spells (.arguments []) []
  | argument {e : Expr} {es : List Expr} {ts us : List Token}
    (h : Spells (.expr .disjunction e) ts) (hes : Spells (.arguments es) us) :
    Spells (.arguments (e :: es)) (.comma :: ts ++ us)
  | noPredicates : Spells (.predicates []) []
  | predicate {e : Expr} {es : List Expr} {ts us : List Token}
    (h : Spells (.expr .disjunction e) ts) (hes : Spells (.predicates es) us) :
    Spells (.predicates (e :: es)) (.openBracket :: ts ++ .closeBracket :: us)
  | here : Spells (.step .here) [.dot]
  | up : Spells (.step .up) [.doubleDot]
  | step {axis : Axis} {test : NodeTest} {ps : List Expr} {ts us vs : List Token}
    (haxis : AxisSpelled axis ts) (htest : TestSpelled test us) (hps : Spells (.predicates ps) vs) :
    Spells (.step (.mk axis test ps)) (ts ++ us ++ vs)
  | noSteps : Spells (.steps []) []
  | slash {s : Step} {ss : List Step} {ts us : List Token} (hs : Spells (.step s) ts)
    (hss : Spells (.steps ss) us) : Spells (.steps (s :: ss)) (.slash :: ts ++ us)
  | doubleSlash {s : Step} {ss : List Step} {ts us : List Token} (hs : Spells (.step s) ts)
    (hss : Spells (.steps ss) us) :
    Spells (.steps (.throughout :: s :: ss)) (.doubleSlash :: ts ++ us)

/-! ## How phrases begin -/

namespace Spells

/-- A step begins with a token with which steps can begin. -/
lemma startsStep {s : Step} {ts : List Token} (h : Spells (.step s) ts) :
    ∃ t us, ts = t :: us ∧ XPath.startsStep t = true := by
  cases h with
  | here => exact ⟨_, _, rfl, rfl⟩
  | up => exact ⟨_, _, rfl, rfl⟩
  | step haxis htest hps =>
    cases haxis with
    | child => cases htest <;> exact ⟨_, _, rfl, rfl⟩
    | attributes => exact ⟨_, _, rfl, rfl⟩
    | named => exact ⟨_, _, rfl, rfl⟩

/-- A step is no other operand, if what comes after it does not make it one. -/
lemma not_startsPrimary {s : Step} {ts us : List Token} (h : Spells (.step s) ts)
    (hus : us.head? ≠ some .openParen) :
    XPath.startsPrimary (ts ++ us).head? (ts ++ us)[1]? = false := by
  have hparen : ∀ {vs : List Token} {ps : List Expr}, Spells (.predicates ps) vs →
      ∀ {n : Text}, XPath.startsPrimary (some (.name n)) ((vs ++ us)[0]?) = false := by
    intro vs ps hps n
    cases hps with
    | noPredicates =>
      rw [List.nil_append, ← List.head?_eq_getElem?]
      cases hh : us.head? with
      | none => rfl
      | some t => cases t <;> first | rfl | exact absurd hh hus
    | predicate => rfl
  cases h with
  | here => rfl
  | up => rfl
  | step haxis htest hps =>
    cases haxis with
    | attributes => rfl
    | named => rfl
    | child =>
      cases htest with
      | any => rfl
      | name n => simpa using hparen hps
      | type hn => simp [XPath.startsPrimary, nodeTypeNamed?_eq_some_iff.2 hn]

/-- An operand that is no location path begins as one. -/
lemma startsPrimary {e : Expr} {ts : List Token} (h : Spells (.primary e) ts) (us : List Token) :
    XPath.startsPrimary (ts ++ us).head? (ts ++ us)[1]? = true := by
  have hnode : ∀ {n : Text} {f : Function}, Function.named? n = some f →
      nodeTypeNamed? n = none := by
    intro n f hn
    unfold nodeTypeNamed?
    split
    · subst n; cases hn
    · split
      · subst n; cases hn
      · split
        · subst n; cases hn
        · rfl
  cases h with
  | parens => rfl
  | literal => rfl
  | number => rfl
  | callNone named => simp [XPath.startsPrimary, hnode named]
  | call named => simp [XPath.startsPrimary, hnode named]

/-- No expression, operand or step is spelled by no tokens. -/
lemma length_pos {ph : Phrase} {ts : List Token} (h : Spells ph ts) (hf : ph.isWhole = true) :
    0 < ts.length := by
  induction h with
  | stronger h ih => exact ih rfl
  | binary =>
    simp only [List.length_append, List.length_cons]
    omega
  | step haxis htest hps ih =>
    cases htest <;> simp only [List.length_append, List.length_cons] <;> omega
  | relative hs hss ih ih' =>
    have := ih rfl
    simp only [List.length_append]
    omega
  | operand h ih => exact ih rfl
  | filter h hps hss some ih ih' ih'' =>
    have := ih rfl
    simp only [List.length_append]
    omega
  | noArguments => cases hf
  | noPredicates => cases hf
  | noSteps => cases hf
  | _ => simp

/-- No expression is spelled by no tokens. -/
lemma ne_nil {l : Level} {e : Expr} {ts : List Token} (h : Spells (.expr l e) ts) : ts ≠ [] :=
  List.ne_nil_of_length_pos (h.length_pos rfl)

/-- A union or a path does not begin with a minus sign. -/
lemma head_ne_minus {ph : Phrase} {ts : List Token} (h : Spells ph ts)
    (hf : ph.isUnsigned = true) : ts.head? ≠ some .minus := by
  induction h with
  | @stronger l e ts h ih =>
    cases l with
    | union => exact ih rfl
    | path => exact ih rfl
    | _ => cases hf
  | @binary l left right ts us t c operator hl hr ih ih' =>
    have hne := hl.ne_nil
    cases ts with
    | nil => exact absurd rfl hne
    | cons t' ts => exact ih (by cases l <;> first | rfl | cases hf)
  | relative hs hss =>
    obtain ⟨t, ts', rfl, ht⟩ := hs.startsStep
    rintro ⟨⟩
    cases ht
  | operand h ih => exact ih rfl
  | @filter e ps ss ts us vs h hps hss some ih =>
    have hpos := h.length_pos rfl
    cases ts with
    | nil => cases hpos
    | cons t ts => exact ih rfl
  | negate => cases hf
  | noArguments => cases hf
  | argument => cases hf
  | noPredicates => cases hf
  | predicate => cases hf
  | here => cases hf
  | up => cases hf
  | step => cases hf
  | noSteps => cases hf
  | slash => cases hf
  | doubleSlash => cases hf
  | _ => simp

/-- No expression, operand or step begins with a closing parenthesis. -/
lemma head_ne_closeParen {ph : Phrase} {ts : List Token} (h : Spells ph ts)
    (hf : ph.isWhole = true) : ts.head? ≠ some .closeParen := by
  induction h with
  | stronger h ih => exact ih rfl
  | @binary l left right ts us t c operator hl hr ih =>
    cases ts with
    | nil => exact absurd rfl hl.ne_nil
    | cons t' ts => exact ih rfl
  | relative hs hss =>
    obtain ⟨t, ts', rfl, ht⟩ := hs.startsStep
    rintro ⟨⟩
    cases ht
  | operand h ih => exact ih rfl
  | @filter e ps ss ts us vs h hps hss some ih =>
    have hpos := h.length_pos rfl
    cases ts with
    | nil => cases hpos
    | cons t ts => exact ih rfl
  | step haxis htest hps =>
    obtain ⟨t, ts', hts, ht⟩ := (Spells.step haxis htest hps).startsStep
    rw [hts]
    rintro ⟨⟩
    cases ht
  | noArguments => cases hf
  | noPredicates => cases hf
  | noSteps => cases hf
  | _ => simp

end Spells

end WebCrawl.XPath
