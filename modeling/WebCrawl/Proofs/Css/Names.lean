import Mathlib.Data.List.Forall2
import Mathlib.Tactic.Common
import WebCrawl.Proofs.Css.Translation
import WebCrawl.Proofs.XPath.AttributeNames
import WebCrawl.Query.Compiled

set_option autoImplicit false

/-!
# Selectors that stand for expressions

Everything that a selector is translated to can be read, but for the names of attributes: the text
of a selector is an expression if and only if each of them is a single name.

## Main definitions

* `WebCrawl.Css.Forces` — a text can only be part of an expression if something holds.
* `WebCrawl.Css.Demands` — besides, it consists of tokens if that holds.
* `WebCrawl.Css.IsQualifiedName` — a name, or two with a colon between them.

## Main results

* `WebCrawl.Css.Group.parse_toXPath_eq_ok_iff` — what the text of a selector is read as.
* `WebCrawl.Css.ofXPath_expressionOf` — which selectors make queries.
-/

namespace WebCrawl.Css

open Text
open XPath (Attributed Reads isDelimited lex isName)

/-! ## What texts force -/

/-- The texts are single names. -/
def Named (names : List Text) : Prop := ∀ name ∈ names, isName name = true

lemma named_append {names names' : List Text} (h : Named names) (h' : Named names') :
    Named (names ++ names') :=
  List.forall_mem_append.2 ⟨h, h'⟩

/-- In front of a delimited text, the text can only be part of an expression if the texts are single
names. -/
def Forces (b : Bool) (names : List Text) (x : Text) : Prop :=
  ∀ ⦃s us⦄, isDelimited s = true → lex b (x ++ s) = some us → Attributed us → Named names

/-- The text can only be part of an expression if the texts are single names, and then it consists
of tokens. -/
structure Demands (b : Bool) (names : List Text) (x : Text) : Prop where
  forces : Forces b names x
  reads : Named names → ∃ ts, Reads b x ts true

/-- The text consists of tokens in front of an operand. -/
def Opens (b : Bool) (x : Text) : Prop := ∃ ts, ∀ s, lex b (x ++ s) = (lex false s).map (ts ++ ·)

section Forces

variable {b : Bool} {names names' : List Text} {x y : Text}

lemma Forces.none (b : Bool) (x : Text) : Forces b [] x := by
  intro s us hs hlex hus name hname
  cases hname

/-- What a text forces, it forces after tokens that open an operand. -/
lemma Forces.opened (hx : Opens b x) (hy : Forces false names y) : Forces b names (x ++ y) := by
  intro s us hs hlex hus
  obtain ⟨ts, hts⟩ := hx
  rw [List.append_assoc, hts, Option.map_eq_some_iff] at hlex
  obtain ⟨vs, hvs, rfl⟩ := hlex
  exact hy hs hvs hus.of_append

/-- What a text forces, it forces in front of another. -/
lemma Forces.closed (hx : Forces b names x) (hy : isDelimited y = true) :
    Forces b names (x ++ y) := by
  intro s us hs hlex hus
  rw [List.append_assoc] at hlex
  exact hx (XPath.isDelimited_append hy hs) hlex hus

/-- Two texts force what each of them does. -/
lemma Demands.append (hx : Demands b names x) (hy : Forces true names' y)
    (hd : isDelimited y = true) : Forces b (names ++ names') (x ++ y) := by
  intro s us hs hlex hus
  have hnames : Named names := hx.forces.closed hd hs hlex hus
  obtain ⟨ts, hts⟩ := hx.reads hnames
  rw [List.append_assoc, hts _ (XPath.isDelimited_append hd hs), Option.map_eq_some_iff] at hlex
  obtain ⟨vs, hvs, rfl⟩ := hlex
  exact named_append hnames (hy hs hvs hus.of_append)

/-- An operator opens an operand. -/
lemma opens_of_separates {t : XPath.Token} (h : XPath.Separates x t) : Opens true x :=
  ⟨[t], h.lex_append⟩

/-- The name of an attribute has to be a single name. -/
lemma Forces.attribute {name : Text} (hname : IsAttributeName name) (hy : isDelimited y = true) :
    Forces false [name] ('@' :: (name ++ y)) := by
  intro s us hs hlex hus
  rw [List.cons_append, XPath.lex_token (t := .at) (n := 0) rfl rfl, List.drop_zero,
    Option.map_eq_some_iff] at hlex
  obtain ⟨vs, hvs, rfl⟩ := hlex
  obtain ⟨c, t, rfl, hc, ht⟩ := hname
  have hc := hc.imp_right (Or.imp_right isNameStart_of_first)
  rw [List.append_assoc, List.cons_append] at hvs
  rintro name ⟨⟩
  · exact XPath.isName_of_attributed hc ht (XPath.isDelimited_append hy hs) hvs (hus.1 rfl)
  · contradiction

end Forces

namespace Opens

variable {b : Bool} {c d : Char} {t : XPath.Token} {p x : Text}

lemma nil : Opens false [] := ⟨[], fun s => by simp⟩

/-- A token that is read as itself whatever follows. -/
lemma cons (hc : isBlank c = false) (h : ∀ s, XPath.tokenAt b c (p ++ s) = .ok (t, p.length))
    (hx : Opens t.endsOperand x) : Opens b (c :: (p ++ x)) := by
  obtain ⟨ts, hts⟩ := hx
  refine ⟨t :: ts, fun s => ?_⟩
  rw [List.cons_append, List.append_assoc, XPath.lex_token hc (h _), List.drop_left, hts,
    Option.map_map]
  rfl

/-- A token that is read as itself in front of a certain character. -/
lemma before (hc : isBlank c = false)
    (h : ∀ s, XPath.tokenAt b c (p ++ d :: s) = .ok (t, p.length))
    (hx : Opens t.endsOperand (d :: x)) : Opens b (c :: (p ++ d :: x)) := by
  obtain ⟨ts, hts⟩ := hx
  refine ⟨t :: ts, fun s => ?_⟩
  rw [List.cons_append, List.append_assoc, List.cons_append, XPath.lex_token hc (h _),
    List.drop_left, ← List.cons_append, hts, Option.map_map]
  rfl

/-- A blank before an operand. -/
lemma blank (hx : Opens b x) : Opens b (' ' :: x) := by
  obtain ⟨ts, hts⟩ := hx
  exact ⟨ts, fun s => by rw [List.cons_append, XPath.lex_blank rfl, hts]⟩

lemma paren (hx : Opens false x) : Opens b ('(' :: x) :=
  cons (t := .openParen) (p := []) rfl (fun _ => rfl) hx

lemma bracket (hx : Opens false x) : Opens b ('[' :: x) :=
  cons (t := .openBracket) (p := []) rfl (fun _ => rfl) hx

lemma slash {d : Char} (hd : d ≠ '/') (hx : Opens false (d :: x)) : Opens b ('/' :: d :: x) :=
  before (t := .slash) (p := []) rfl (XPath.tokenAt_slash hd b) hx

lemma star (hx : Opens true x) : Opens false ('*' :: x) :=
  cons (t := .star) (p := []) rfl (fun _ => rfl) hx

/-- The axis of a name in front of the test of a step. -/
lemma onAxis (hc : isBlank c = false)
    (h : ∀ s, XPath.tokenAt false c (p ++ ':' :: ':' :: s) = .ok (.name (c :: p), p.length))
    (hx : Opens false x) : Opens false (c :: (p ++ ':' :: ':' :: x)) := by
  have hcolons : Opens true (':' :: ':' :: x) :=
    cons (t := .doubleColon) (p := [':']) rfl (fun _ => rfl) hx
  obtain ⟨ts, hts⟩ := hcolons
  refine ⟨.name (c :: p) :: ts, fun s => ?_⟩
  rw [List.cons_append, List.append_assoc, List.cons_append, List.cons_append,
    XPath.lex_token hc (h _), List.drop_left, ← List.cons_append, ← List.cons_append]
  show (lex true _).map _ = _
  rw [hts, Option.map_map]
  rfl

/-- The function of a name in front of its first argument. -/
lemma call (hc : isBlank c = false)
    (h : ∀ s, XPath.tokenAt false c (p ++ '(' :: s) = .ok (.name (c :: p), p.length))
    (hx : Opens false x) : Opens false (c :: (p ++ '(' :: x)) :=
  before hc h (paren hx)

/-- The text with a blank on either side, up to it. -/
lemma padded : Opens false "concat(\" \", ".toList := by
  have hliteral : Opens false ['"', ' ', '"', ',', ' '] :=
    cons (t := .literal [' ']) (p := [' ', '"']) rfl (fun _ => rfl)
      (cons (t := .comma) (p := []) rfl (fun _ => rfl) (blank nil))
  simpa using call (c := 'c') (p := "oncat".toList) rfl (fun _ => rfl) hliteral

/-- The axis of a step to a compound and the bracket after it. -/
lemma axis (combinator : Combinator) : Opens b (combinator.axis ++ ['[']) := by
  have hstar : Opens false ['*', '['] := star (bracket nil)
  delta Combinator.axis
  cases combinator with
  | descendant =>
    have hchildren : Opens true ['/', '*', '['] := slash (by decide) hstar
    have hself := onAxis (c := 'd') (p := "escendant-or-self".toList) rfl (fun _ => rfl)
      (star hchildren)
    simpa using slash (b := b) (by decide) hself
  | child =>
    have hchild := onAxis (c := 'c') (p := "hild".toList) rfl (fun _ => rfl) hstar
    simpa using slash (b := b) (by decide) hchild
  | adjacent | sibling =>
    have hsibling := onAxis (c := 'f') (p := "ollowing-sibling".toList) rfl (fun _ => rfl) hstar
    simpa using slash (b := b) (by decide) hsibling

/-- What leads from one condition to the next: a conjunction, or the end of a predicate and the
beginning of another. -/
lemma connective (begins : Bool) :
    Opens true (if begins then "][".toList else " and ".toList) := by
  cases begins with
  | true =>
    simpa using cons (b := true) (t := .closeBracket) (p := []) rfl (fun _ => rfl) (bracket nil)
  | false => exact opens_of_separates .and

end Opens

/-! ## What selectors demand -/

/-- The condition on an attribute begins with what leads up to its name. -/
lemma AttributeTest.exists_condition (name : Text) (test : AttributeTest) :
    ∃ x y, test.condition name = x ++ '@' :: (name ++ y) ∧ Opens false x ∧
      isDelimited y = true := by
  delta AttributeTest.condition
  cases test with
  | present => exact ⟨[], [], by simp, .nil, rfl⟩
  | equals v => exact ⟨[], '=' :: literal v, by simp, .nil, rfl⟩
  | includes v =>
    refine ⟨'c' :: ("ontains".toList ++ '(' :: "concat(\" \", ".toList),
      ", \" \"), concat(\" \", ".toList ++ (literal v ++ ", \" \"))".toList), by simp, ?_, rfl⟩
    exact .call rfl (fun _ => rfl) .padded
  | dashMatch v =>
    refine ⟨['('], '=' :: (literal v ++ (" or starts-with(@".toList ++ (name ++
      (", concat(".toList ++ (literal v ++ ", \"-\")))".toList))))), by simp, .paren .nil, rfl⟩
  | beginsWith v =>
    refine ⟨'s' :: ("tarts-with".toList ++ ['(']), ',' :: ' ' :: (literal v ++ [')']), by simp,
      ?_, rfl⟩
    exact .call rfl (fun _ => rfl) .nil
  | endsWith v =>
    refine ⟨'s' :: ("ubstring".toList ++ ['(']), ", string-length(@".toList ++ (name ++
      (") - string-length(".toList ++ (literal v ++ (") + 1) = ".toList ++ literal v)))), by simp,
      ?_, rfl⟩
    exact .call rfl (fun _ => rfl) .nil
  | contains v =>
    refine ⟨'c' :: ("ontains".toList ++ ['(']), ',' :: ' ' :: (literal v ++ [')']), by simp,
      ?_, rfl⟩
    exact .call rfl (fun _ => rfl) .nil

/-- A condition with its connective demands the names of attributes. -/
def ConditionDemands (condition : Text × Text) (names : List Text) : Prop :=
  (∃ begins : Bool, condition.1 = if begins then "][".toList else " and ".toList) ∧
    Demands false names condition.2

/-- Conditions in a row force what each of them demands. -/
lemma forces_joinConditions {conditions : List (Text × Text)} {names : List (List Text)}
    (h : List.Forall₂ ConditionDemands conditions names) :
    Forces false names.flatten (joinConditions conditions) := by
  have hmore : ∀ {conditions : List (Text × Text)} {names : List (List Text)},
      List.Forall₂ ConditionDemands conditions names → ∀ {x : Text} {b : Bool} {first : List Text},
      Demands b first x →
      Forces b (first ++ names.flatten)
        (x ++ conditions.flatMap fun p => p.1 ++ p.2) := by
    intro conditions names h
    induction h with
    | nil =>
      intro x b first hx
      simpa using hx.forces
    | @cons condition names' conditions names hhead htail ih =>
      intro x b first hx
      obtain ⟨connective, c⟩ := condition
      obtain ⟨⟨begins, hconnective⟩, hc⟩ := hhead
      obtain rfl : connective = _ := hconnective
      have hdelimited : isDelimited ((if begins then "][".toList else " and ".toList) ++
          (c ++ conditions.flatMap fun p => p.1 ++ p.2)) = true := by
        cases begins <;> rfl
      have := hx.append (.opened (.connective begins) (ih hc)) hdelimited
      simpa using this
  cases h with
  | nil => exact .none _ _
  | cons hhead htail => simpa [joinConditions] using hmore htail hhead.2

/-- Conditions without names of attributes demand none. -/
lemma conditions_demand {conditions : List (Text × Text)} {parts : List (Bool × List XPath.Expr)}
    (h : List.Forall₂ StandsFor conditions parts) :
    List.Forall₂ ConditionDemands conditions (conditions.map fun _ => []) := by
  induction h with
  | nil => exact .nil
  | @cons condition part conditions parts hhead htail ih =>
    obtain ⟨hconnective, hc⟩ := hhead
    obtain ⟨ts, -, hreads⟩ := hc.alone.exists_reads rfl
    exact .cons ⟨⟨part.1, hconnective⟩, .none _ _, fun _ => ⟨ts, hreads⟩⟩ ih

/-- The conditions of qualifiers demand what each of them does. -/
lemma qualifierConditions_demand {qs : List Qualifier}
    (h : ∀ q ∈ qs, Demands false q.attributeNames q.condition) :
    List.Forall₂ ConditionDemands (qualifierConditions qs) (qs.map Qualifier.attributeNames) := by
  rw [qualifierConditions_eq, List.forall₂_map_left_iff, List.forall₂_map_right_iff,
    List.forall₂_same]
  exact fun q hq => ⟨⟨q.isTypeRelative, rfl⟩, h q hq⟩

lemma flatten_attributeNames (conditions : List (Text × Text)) (qs : List Qualifier) :
    ((conditions.map fun _ => []) ++ qs.map Qualifier.attributeNames).flatten =
      attributeNamesOf qs := by
  have hnone : (conditions.map fun _ => ([] : List Text)).flatten = [] := by simp
  have hnames : (qs.map Qualifier.attributeNames).flatten = attributeNamesOf qs := by
    induction qs with
    | nil => rfl
    | cons q qs ih => rw [List.map_cons, List.flatten_cons, ih, attributeNamesOf]
  rw [List.flatten_append, hnone, hnames, List.nil_append]

/-- A qualifier demands the names of its attributes. -/
lemma Qualifier.demands {q : Qualifier} (hq : q.WellFormed) :
    Demands false q.attributeNames q.condition := by
  have hreads : ∀ {q : Qualifier}, q.WellFormed → Named q.attributeNames →
      ∃ ts, Reads false q.condition ts true := by
    intro q hq hnames
    obtain ⟨ts, -, hreads⟩ := (Qualifier.conjoins hq hnames).alone.exists_reads rfl
    exact ⟨ts, hreads⟩
  refine ⟨?_, hreads hq⟩
  induction hq with
  | className => exact .none _ _
  | identifier => exact .none _ _
  | @attr name h test =>
    obtain ⟨x, y, htext, hx, hy⟩ := test.exists_condition name
    have hcondition : (Qualifier.attr name test).condition = x ++ '@' :: (name ++ y) := htext
    rw [hcondition]
    exact .opened hx (.attribute h hy)
  | place => exact .none _ _
  | @negation type qs htype hsome hqs hrelative ih =>
    have hconditions := List.rel_append (conditions_demand (typeConditions_standFor htype))
      (qualifierConditions_demand fun q hq => ⟨ih q hq, hreads (hqs q hq)⟩)
    have hjoined := forces_joinConditions hconditions
    rw [flatten_attributeNames] at hjoined
    have hopen : Opens false ('n' :: ("ot".toList ++ ['('])) := .call rfl (fun _ => rfl) .nil
    have htext : (Qualifier.negation type qs).condition = 'n' :: ("ot".toList ++ ['(']) ++
        (joinConditions (typeConditions type ++ qualifierConditions qs) ++ [')']) := by
      show "not(".toList ++ joinConditions (typeConditions type ++ qualifierConditions qs) ++
        ")".toList = _
      simp
    rw [htext]
    exact .opened hopen (hjoined.closed rfl)

/-- The step to a compound demands the names of its attributes. -/
lemma stepText_demands (b : Bool) (combinator : Combinator) {c : Compound} (hc : c.WellFormed) :
    Demands b (attributeNamesOf c.qualifiers) (stepText combinator c) := by
  refine ⟨?_, fun hnames => ?_⟩
  · have hconditions := List.rel_append (List.rel_append
      (conditions_demand combinator.conditions_standFor)
      (conditions_demand (typeConditions_standFor hc.type)))
      (qualifierConditions_demand fun q hq => Qualifier.demands (hc.qualifiers q hq))
    have hjoined := forces_joinConditions hconditions
    beta_reduce at hjoined
    rw [← List.map_append, flatten_attributeNames] at hjoined
    have htext : stepText combinator c =
        combinator.axis ++ ['['] ++ (c.condition combinator ++ [']']) := by
      simp [stepText]
    rw [htext]
    exact .opened (.axis combinator) (hjoined.closed rfl)
  · obtain ⟨ts, -, hreads, -⟩ := (writes_stepText combinator hc hnames).exists_further rfl
    obtain ⟨x, hx⟩ := exists_stepText combinator c
    refine ⟨ts, fun s hs => ?_⟩
    rw [← hreads s hs, hx]
    exact XPath.lex_slash _ _ _

/-- The steps to compounds force the names of their attributes. -/
lemma steps_force (b : Bool) {c : Complex} (hc : ∀ part ∈ c, part.2.WellFormed) :
    Forces b (Complex.attributeNames c)
      (c.flatMap fun (combinator, compound) => stepText combinator compound) := by
  induction c generalizing b with
  | nil => exact .none _ _
  | cons part c ih =>
    obtain ⟨combinator, compound⟩ := part
    rw [List.forall_mem_cons] at hc
    refine (stepText_demands b combinator hc.1).append (ih true hc.2) ?_
    cases c with
    | nil => rfl
    | cons part c =>
      obtain ⟨x, hx⟩ := exists_stepText part.1 part.2
      show isDelimited (stepText part.1 part.2 ++ c.flatMap _) = true
      rw [hx]
      rfl

/-- The path of an alternative demands the names of its attributes. -/
lemma toXPath_demands (scope : Scope) {c : Complex} (hc : Complex.WellFormed c) :
    Demands false (Complex.attributeNames c) (Complex.toXPath scope c) := by
  refine ⟨?_, fun hnames => ?_⟩
  · cases scope with
    | document => exact steps_force false hc.2
    | node =>
      obtain ⟨⟨combinator, compound⟩, c, rfl⟩ := List.exists_cons_of_ne_nil hc.1
      obtain ⟨x, hx⟩ := exists_stepText combinator compound
      have hsteps := steps_force true hc.2
      have htext : (((combinator, compound) :: c).flatMap fun (combinator, compound) =>
          stepText combinator compound) = '/' :: (x ++ c.flatMap fun (combinator, compound) =>
            stepText combinator compound) := by
        show stepText combinator compound ++ c.flatMap _ = _
        rw [hx, List.cons_append]
      rw [Complex.toXPath, htext]
      rw [htext] at hsteps
      intro s us hs hlex hus
      rw [List.append_assoc] at hlex
      have hdot : lex false (['.'] ++ ('/' :: (x ++ c.flatMap fun (combinator, compound) =>
          stepText combinator compound) ++ s)) = (lex true ('/' :: (x ++ c.flatMap fun
            (combinator, compound) => stepText combinator compound) ++ s)).map (.dot :: ·) :=
        XPath.lex_token (t := .dot) (n := 0) rfl rfl
      obtain ⟨vs, hvs, rfl⟩ := Option.map_eq_some_iff.1 (hdot.symm.trans hlex)
      exact hsteps hs hvs hus.2
  · obtain ⟨ts, -, hreads⟩ :=
      (Complex.writes_toXPath (l := .union) scope hc hnames).exists_reads rfl
    exact ⟨ts, hreads⟩

/-- The text of a selector group can only be an expression if the names of its attributes are
single names. -/
lemma Group.forces (scope : Scope) {g : Group} (hg : Group.WellFormed g) :
    Forces false (Group.attributeNames g) (Group.toXPath scope g) := by
  have hmore : ∀ {cs : Group}, (∀ c ∈ cs, Complex.WellFormed c) → ∀ {x : Text} {b : Bool}
      {first : List Text}, Demands b first x → Forces b (first ++ Group.attributeNames cs)
        (x ++ cs.flatMap fun c => " | ".toList ++ Complex.toXPath scope c) := by
    intro cs
    induction cs with
    | nil =>
      intro _ x b first hx
      simpa [Group.attributeNames] using hx.forces
    | cons c cs ih =>
      intro hcs x b first hx
      rw [List.forall_mem_cons] at hcs
      have hrest := Forces.opened (opens_of_separates .union)
        (ih hcs.2 (toXPath_demands scope hcs.1))
      have := hx.append hrest (XPath.Separates.union.delimited _)
      simpa only [List.append_assoc, List.flatMap_cons, Group.attributeNames] using this
  obtain ⟨hne, halternatives⟩ := hg
  obtain ⟨c, cs, rfl⟩ := List.exists_cons_of_ne_nil hne
  rw [List.forall_mem_cons] at halternatives
  rw [Group.toXPath_cons]
  exact hmore halternatives.2 (toXPath_demands scope halternatives.1)

/-- The text of a selector group is an expression exactly if the names of its attributes are single
names, and then it is read as the expression of the group. -/
theorem Group.parse_toXPath_eq_ok_iff {scope : Scope} {g : Group} (hg : Group.WellFormed g)
    {e : XPath.Expr} : XPath.parse (Group.toXPath scope g) = .ok e ↔
      Named (Group.attributeNames g) ∧ e = Group.expr scope g := by
  constructor
  · intro h
    obtain ⟨ts, hts, hspells⟩ := XPath.parse_eq_ok_iff.1 h
    have hnames : Named (Group.attributeNames g) :=
      Group.forces scope hg (s := []) rfl (by rw [List.append_nil]; exact hts) hspells.attributed.1
    have hexpr :=
      (XPath.Writes.of_rank_le (by decide) (Group.writes_toXPath scope hg hnames)).parse_eq
    exact ⟨hnames, by simpa using h.symm.trans hexpr⟩
  · rintro ⟨hnames, rfl⟩
    exact (XPath.Writes.of_rank_le (by decide) (Group.writes_toXPath scope hg hnames)).parse_eq

/-! ## Selectors that make queries -/

/-- The text is a name, or two with a colon between them. The first begins with a letter of ASCII or
an underscore, the second may also begin with any character beyond ASCII. -/
def IsQualifiedName (name : Text) : Prop :=
  ∃ c s, name = c :: s ∧ (c = '_' ∨ c.isAlpha = true) ∧
    (':' ∉ s ∨ ∃ t d u, s = t ++ ':' :: d :: u ∧ ':' ∉ t ∧
      (d = '_' ∨ d.isAlpha = true ∨ 128 ≤ d.toNat) ∧ ':' ∉ u)

/-- Of characters of names and colons, those before the first colon are all of names. -/
lemma dropWhile_isNameChar {s : Text} (hs : ∀ c ∈ s, XPath.isNameChar c = true ∨ c = ':') :
    s.dropWhile XPath.isNameChar = s.dropWhile (· != ':') ∧
      s.takeWhile XPath.isNameChar = s.takeWhile (· != ':') := by
  have hcolon : ∀ c ∈ s, XPath.isNameChar c = (c != ':') := by
    intro c hc
    obtain h | rfl := hs c hc
    · have hne : c ≠ ':' := by
        rintro rfl
        cases h
      simp [h, hne]
    · rfl
  induction s with
  | nil => exact ⟨rfl, rfl⟩
  | cons c s ih =>
    rw [List.forall_mem_cons] at hs hcolon
    obtain ⟨hdrop, htake⟩ := ih hs.2 hcolon.2
    rw [List.dropWhile_cons, List.dropWhile_cons, List.takeWhile_cons, List.takeWhile_cons,
      hcolon.1, hdrop, htake]
    exact ⟨rfl, rfl⟩

/-- What a colon joins to a name is all that follows it exactly if it is a second name. -/
lemma joined_eq_length_iff {s : Text} (hs : ∀ c ∈ s, XPath.isNameChar c = true ∨ c = ':') :
    XPath.joined s = s.length + 1 ↔ ∃ d u, s = d :: u ∧
      (d = '_' ∨ d.isAlpha = true ∨ 128 ≤ d.toNat) ∧ ':' ∉ u := by
  cases s with
  | nil => simp [XPath.joined]
  | cons d u =>
    rw [List.forall_mem_cons] at hs
    have hstar : d ≠ '*' := by
      rintro rfl
      obtain h | h := hs.1 <;> cases h
    have hstart : XPath.isNameStart d = true ↔ d = '_' ∨ d.isAlpha = true ∨ 128 ≤ d.toNat := by
      simp only [XPath.isNameStart, Bool.or_eq_true, beq_iff_eq, decide_eq_true_eq]
      tauto
    have hlength : (u.takeWhile (· != ':')).length = u.length ↔ ':' ∉ u := by
      have hself : (u.takeWhile (· != ':')).length = u.length ↔ u.takeWhile (· != ':') = u :=
        ⟨(List.takeWhile_prefix _).eq_of_length, congrArg List.length⟩
      rw [hself, List.takeWhile_eq_self_iff]
      simp only [bne_iff_ne, ne_eq]
      exact ⟨fun h hmem => h _ hmem rfl, fun h c hc heq => h (heq ▸ hc)⟩
    have hcons : (∃ d' u', d :: u = d' :: u' ∧ (d' = '_' ∨ d'.isAlpha = true ∨ 128 ≤ d'.toNat) ∧
        ':' ∉ u') ↔ XPath.isNameStart d = true ∧ ':' ∉ u := by
      rw [hstart]
      constructor
      · rintro ⟨d', u', heq, hd, hu⟩
        obtain ⟨rfl, rfl⟩ := List.cons.inj heq
        exact ⟨hd, hu⟩
      · rintro ⟨hd, hu⟩
        exact ⟨d, u, rfl, hd, hu⟩
    rw [hcons, List.length_cons]
    cases hd : XPath.isNameStart d with
    | false => simp [XPath.joined_eq_zero hstar hd]
    | true =>
      rw [XPath.joined_of_isNameStart hd, (dropWhile_isNameChar hs.2).2, ← hlength]
      simp only [true_and]
      omega

/-- The first colon joins all that follows it to what stands before it exactly if that is a second
name. -/
lemma joinedRest_eq_length_iff {s : Text} (hs : ∀ c ∈ s, XPath.isNameChar c = true ∨ c = ':') :
    XPath.joinedRest (s.dropWhile (· != ':')) = (s.dropWhile (· != ':')).length ↔
      ':' ∉ s ∨ ∃ t d u, s = t ++ ':' :: d :: u ∧ ':' ∉ t ∧
        (d = '_' ∨ d.isAlpha = true ∨ 128 ≤ d.toNat) ∧ ':' ∉ u := by
  have hdrop : ∀ {t : Text}, ':' ∉ t → ∀ v, (t ++ v).dropWhile (· != ':') =
      v.dropWhile (· != ':') := fun {t} ht v => List.dropWhile_append_of_pos fun c hc => by
    simp only [bne_iff_ne, ne_eq]
    rintro rfl
    exact ht hc
  by_cases hmem : ':' ∈ s
  case neg =>
    have hnil := hdrop hmem []
    rw [List.append_nil] at hnil
    rw [hnil]
    exact iff_of_true rfl (.inl hmem)
  case pos =>
    obtain ⟨t, v, rfl, ht⟩ := List.eq_append_cons_of_mem hmem
    have hcolon : ∀ v : Text, (':' :: v).dropWhile (· != ':') = ':' :: v := fun _ => rfl
    have hv : ∀ d ∈ v, XPath.isNameChar d = true ∨ d = ':' := fun d hd => hs d (by simp [hd])
    rw [hdrop ht, hcolon, XPath.joinedRest_colon, List.length_cons, joined_eq_length_iff hv]
    constructor
    · rintro ⟨d, u, rfl, hd, hu⟩
      exact .inr ⟨t, d, u, rfl, ht, hd, hu⟩
    · rintro (hno | ⟨t', d, u, heq, ht', hd, hu⟩)
      · exact absurd hmem hno
      · have hsame := congrArg (List.dropWhile (· != ':')) heq
        rw [hdrop ht, hdrop ht', hcolon, hcolon] at hsame
        exact ⟨d, u, (List.cons.inj hsame).2, hd, hu⟩

/-- A text with the characters of names of attributes is read as one name exactly if it is one, or
two with a colon between them. -/
lemma isName_iff_isQualifiedName {name : Text} (h : IsAttributeName name) :
    isName name = true ↔ IsQualifiedName name := by
  obtain ⟨c, s, rfl, hc, hs⟩ := h
  have hqualified : IsQualifiedName (c :: s) ↔ (c = '_' ∨ c.isAlpha = true) ∧
      (':' ∉ s ∨ ∃ t d u, s = t ++ ':' :: d :: u ∧ ':' ∉ t ∧
        (d = '_' ∨ d.isAlpha = true ∨ 128 ≤ d.toNat) ∧ ':' ∉ u) := by
    constructor
    · rintro ⟨c', s', heq, h⟩
      obtain ⟨rfl, rfl⟩ := List.cons.inj heq
      exact h
    · exact fun h => ⟨c, s, rfl, h⟩
  rw [hqualified, ← joinedRest_eq_length_iff hs]
  by_cases hfirst : c = '_' ∨ c.isAlpha = true
  case neg =>
    refine iff_of_false ?_ fun h => hfirst h.1
    have hstart : XPath.isNameStart '-' = false ∧ XPath.isNameStart ':' = false := ⟨rfl, rfl⟩
    obtain rfl | rfl | hfirst' := hc
    · simp [isName, hstart]
    · simp [isName, hstart]
    · exact absurd hfirst' hfirst
  case pos =>
    obtain ⟨hstart, hblank⟩ := isNameStart_of_first hfirst
    obtain ⟨hdrop, htake⟩ := dropWhile_isNameChar hs
    have hlength :=
      congrArg List.length (List.takeWhile_append_dropWhile (p := (· != ':')) (l := s))
    rw [List.length_append] at hlength
    simp only [isName, hstart, hblank, Bool.not_false, Bool.and_self, Bool.true_and, beq_iff_eq,
      XPath.nameRest_eq, hdrop, htake, hfirst, true_and]
    omega

/-- The names of the attributes of a well-formed selector have the shape of such. -/
lemma isAttributeName_of_mem {g : Group} (hg : Group.WellFormed g) :
    ∀ name ∈ Group.attributeNames g, IsAttributeName name := by
  have hqualifier : ∀ {q : Qualifier}, q.WellFormed →
      ∀ name ∈ q.attributeNames, IsAttributeName name := by
    intro q hq
    induction hq with
    | attr h test => simpa [Qualifier.attributeNames] using h
    | negation _ _ _ _ ih =>
      intro name hname
      obtain ⟨q, hq, hname⟩ := mem_attributeNamesOf.1 hname
      exact ih q hq name hname
    | _ => simp [Qualifier.attributeNames]
  intro name hname
  obtain ⟨c, hc, part, hpart, q, hq, hname⟩ := Group.exists_of_mem_attributeNames hname
  exact hqualifier (((hg.2 c hc).2 part hpart).qualifiers q hq) name hname

/-- The expression of a selector that was read can be compiled exactly if every name of an attribute
that the selector has in brackets is a name, or two with a colon between them. Everything else that
a selector can hold is part of an expression; one that cannot be compiled is reported as it is. -/
theorem ofXPath_expressionOf {selector x : Text} {scope : Scope}
    (h : Query.expressionOf selector scope = .ok x) : ∃ g, parse selector = .ok g ∧
      Query.compile (.css selector scope) = Query.ofXPath x ∧
      ((∃ q, Query.ofXPath x = .ok q) ↔ ∀ name ∈ Group.attributeNames g, IsQualifiedName name) ∧
      ((∃ q, Query.ofXPath x = .ok q) ∨
        ∃ offset reason, Query.ofXPath x = .error (.invalidXPath x offset reason)) := by
  have hcompile : Query.compile (.css selector scope) = Query.ofXPath x := by
    show Query.expressionOf selector scope >>= Query.ofXPath = _
    rw [h]
    rfl
  unfold Query.expressionOf at h
  cases hparse : parse selector with
  | error fault =>
    rw [hparse] at h
    split at h
    case h_1 heq => cases heq
    all_goals cases h
  | ok g =>
    rw [hparse] at h
    obtain rfl : Group.toXPath scope g = x := by simpa using h
    have hg := wellFormed_of_parse hparse
    have hnames : Named (Group.attributeNames g) ↔
        ∀ name ∈ Group.attributeNames g, IsQualifiedName name :=
      forall₂_congr fun name hname => isName_iff_isQualifiedName (isAttributeName_of_mem hg name hname)
    refine ⟨g, rfl, hcompile, ?_, ?_⟩
    · rw [← hnames]
      constructor
      · rintro ⟨q, hq⟩
        unfold Query.ofXPath at hq
        split at hq
        case h_1 e he => exact ((Group.parse_toXPath_eq_ok_iff hg).1 he).1
        case h_2 => cases hq
      · intro hnames
        unfold Query.ofXPath
        rw [(Group.parse_toXPath_eq_ok_iff hg).2 ⟨hnames, rfl⟩]
        exact ⟨_, rfl⟩
    · unfold Query.ofXPath
      split
      · exact .inl ⟨_, rfl⟩
      · exact .inr ⟨_, _, rfl⟩

/-- A name of an attribute with two colons in a negation: the selector stands for an expression that
cannot be compiled. -/
theorem compile_css_of_two_colons :
    Query.expressionOf "a[x:y] > :not([b:c:d])" .document =
      .ok "/descendant-or-self::*/*[self::a and @x:y]/child::*[not(@b:c:d)]" ∧
    ∃ offset reason, Query.compile (.css "a[x:y] > :not([b:c:d])" .document) =
      .error (.invalidXPath "/descendant-or-self::*/*[self::a and @x:y]/child::*[not(@b:c:d)]"
        offset reason) := by
  have h : Query.expressionOf "a[x:y] > :not([b:c:d])" .document =
      .ok "/descendant-or-self::*/*[self::a and @x:y]/child::*[not(@b:c:d)]" := rfl
  have hparse : parse "a[x:y] > :not([b:c:d])" =
      .ok [[(.descendant, ⟨some "a", [.attr "x:y" .present]⟩),
        (.child, ⟨none, [.negation none [.attr "b:c:d" .present]]⟩)]] := rfl
  obtain ⟨g, hg, hcompile, hiff, hquery | hfault⟩ := ofXPath_expressionOf h
  · obtain rfl := Except.ok.inj (hparse.symm.trans hg)
    have hmem : "b:c:d".toList ∈ Group.attributeNames [[(.descendant,
        ⟨some "a", [.attr "x:y" .present]⟩),
        (.child, ⟨none, [.negation none [.attr "b:c:d" .present]]⟩)]] := .tail _ (.head _)
    have hname := isAttributeName_of_mem (wellFormed_of_parse hparse) _ hmem
    have hno : isName "b:c:d" = false := rfl
    rw [(isName_iff_isQualifiedName hname).2 (hiff.1 hquery _ hmem)] at hno
    cases hno
  · rw [hcompile]
    exact ⟨h, hfault⟩

end WebCrawl.Css
