import WebCrawl.Proofs.Css.Attributes
import WebCrawl.Proofs.Css.Meaning
import WebCrawl.Proofs.Css.Selection
import WebCrawl.Proofs.Text.Searching

set_option autoImplicit false

/-!
# Selectors find what they mean

The predicate of a compound of plain qualifiers decides what the compound asks of an element, by
induction on the qualifiers; the steps of a combinator lead to the elements that are so related. So a
plain selector that is put to an element finds the elements that one of its alternatives leads to
from there.

## Main definitions

* `WebCrawl.Css.Decides` — conjuncts that are true just of the elements with a quality.

## Main results

* `WebCrawl.Css.value_literalExpr` — the expression of a text has the text as its value.
* `WebCrawl.Css.AttributeTest.decides`, `WebCrawl.Css.Qualifier.decides`,
  `WebCrawl.Css.Compound.decides` — what is asked of a single element.
* `WebCrawl.Css.Combinator.mem_walk_iff`, `WebCrawl.Css.Complex.mem_reach_iff` — chains of elements.
* `WebCrawl.Query.Document.css_finds_matches` — what a plain selector finds.
-/

namespace WebCrawl.Css

open Html Location XPath Text

variable {a : Arena}

/-! ## Texts -/

/-- Pieces as arguments, with double quotes between them, are put together to a text. -/
lemma toText_pieces (pieces : List Text) (f : Focus) :
    (argumentValues a ((pieces.map Expr.literal).intersperse (.literal ['"'])) f).flatMap
      (Value.toText a) = join ['"'] pieces := by
  induction pieces with
  | nil => rfl
  | cons p pieces ih =>
    cases pieces with
    | nil => simp [argumentValues, Expr.value, Value.toText, join, List.intercalate]
    | cons q pieces =>
      rw [join, List.intercalate_cons_of_ne_nil (by simp), ← join, ← ih]
      simp [argumentValues, Expr.value, Value.toText]

/-- The value of the expression of a text is the text. -/
lemma value_literalExpr (text : Text) (f : Focus) :
    (literalExpr text).value a f = .string text := by
  unfold literalExpr
  split
  case isTrue => rfl
  case isFalse =>
    exact congrArg Value.string ((toText_pieces _ f).trans (List.intercalate_splitOn '"'))

lemma toText_literalExpr (text : Text) (f : Focus) : ((literalExpr text).value a f).toText a = text := by
  rw [value_literalExpr, Value.toText]

/-- The value of a text with a blank on either side. -/
lemma value_paddedExpr (e : Expr) (f : Focus) :
    (paddedExpr e).value a f = .string (' ' :: ((e.value a f).toText a ++ [' '])) := by
  simp [paddedExpr, Expr.value, argumentValues, Function.apply, Value.toText]

lemma value_paddedExpr_literalExpr (text : Text) (f : Focus) :
    (paddedExpr (literalExpr text)).value a f = .string (' ' :: (text ++ [' '])) := by
  rw [value_paddedExpr, toText_literalExpr]

/-! ## Conditions -/

/-- The conjuncts decide a quality of elements: at an element none of them is a number, and all of
them are true just if the element has the quality. -/
def Decides (a : Arena) (es : List Expr) (p : Nat → Prop) : Prop :=
  ∀ ⦃f : Focus⦄ ⦃x : Nat⦄, f.location = .node x → (a.elementName? x).isSome →
    (∀ e ∈ es, ∀ z, e.value a f ≠ .number z) ∧ ((∀ e ∈ es, (e.value a f).toBool = true) ↔ p x)

variable {es es' : List Expr} {e e' : Expr} {p p' : Nat → Prop}

lemma Decides.congr (h : Decides a es p) (hp : ∀ x, p x ↔ p' x) : Decides a es p' :=
  fun _ x hf hx => ⟨(h hf hx).1, (h hf hx).2.trans (hp x)⟩

lemma decides_nil : Decides a [] fun _ => True := fun _ _ _ _ => ⟨nofun, by simp⟩

lemma decides_singleton (h : ∀ ⦃f : Focus⦄ ⦃x : Nat⦄, f.location = .node x →
      (a.elementName? x).isSome →
      (∀ z, e.value a f ≠ .number z) ∧ ((e.value a f).toBool = true ↔ p x)) :
    Decides a [e] p := fun _ _ hf hx => by
  simpa using h hf hx

lemma Decides.append (h : Decides a es p)
    (h' : Decides a es' p') : Decides a (es ++ es') fun x => p x ∧ p' x := fun f x hf hx => by
  obtain ⟨hnumber, hp⟩ := h hf hx
  obtain ⟨hnumber', hp'⟩ := h' hf hx
  refine ⟨fun e he => ?_, List.forall_mem_append.trans (and_congr hp hp')⟩
  rcases List.mem_append.1 he with he | he
  · exact hnumber e he
  · exact hnumber' e he

/-- If none of some expressions is a number at a focus, then neither is their conjunction, and it is
true there just if all of them are. -/
lemma conjunction_spec {f : Focus} (hnumber : ∀ e ∈ es, ∀ z, e.value a f ≠ .number z)
    (hne : es ≠ []) :
    (∀ z, (conjunction es).value a f ≠ .number z) ∧
      (((conjunction es).value a f).toBool = true ↔ ∀ e ∈ es, (e.value a f).toBool = true) := by
  have hmore : ∀ (es : List Expr) (e : Expr), (∀ z, e.value a f ≠ .number z) →
      (∀ z, (es.foldl Expr.and e).value a f ≠ .number z) ∧
      (((es.foldl Expr.and e).value a f).toBool = true ↔
        (e.value a f).toBool = true ∧ ∀ e ∈ es, (e.value a f).toBool = true) := by
    intro es
    induction es with
    | nil => exact fun e he => ⟨he, by simp⟩
    | cons e' es ih =>
      intro e _
      obtain ⟨hfold, hiff⟩ := ih (.and e e') nofun
      refine ⟨hfold, hiff.trans ?_⟩
      simp [Expr.value, Value.toBool, and_assoc]
  obtain ⟨e, es, rfl⟩ := List.exists_cons_of_ne_nil hne
  rw [List.forall_mem_cons]
  exact hmore es e (hnumber e (List.mem_cons_self ..))

/-- The conjunction of conjuncts that decide a quality decides it. -/
lemma Decides.conjunction (h : Decides a es p) (hne : es ≠ []) :
    Decides a [conjunction es] p := by
  refine decides_singleton fun f x hf hx => ?_
  obtain ⟨hnumber, hp⟩ := h hf hx
  rw [← hp]
  exact conjunction_spec hnumber hne

/-! ### Operations -/

lemma Decides.or (h : Decides a [e] p) (h' : Decides a [e'] p') :
    Decides a [.or e e'] fun x => p x ∨ p' x := decides_singleton fun f x hf hx => by
  obtain ⟨-, hp⟩ := h hf hx
  obtain ⟨-, hp'⟩ := h' hf hx
  refine ⟨nofun, ?_⟩
  simp [← hp, ← hp', Expr.value, Value.toBool]

lemma Decides.not (h : Decides a [e] p) : Decides a [.call .not [e]] fun x => ¬p x :=
  decides_singleton fun f x hf hx => by
    obtain ⟨-, hp⟩ := h hf hx
    refine ⟨nofun, ?_⟩
    simp [← hp, Expr.value, argumentValues, Function.apply, truthArgument, Value.toBool]

/-! ### Attributes -/

/-- A condition on the text of an attribute decides whether its value meets it. An attribute that is
not there counts as an empty text. -/
lemma decides_value {name : Text} {e : Expr} {p : Text → Prop}
    (he : ∀ f, ∃ b, e.value a f = .boolean b ∧
      (b = true ↔ p (((attributeExpr name).value a f).toText a))) :
    Decides a [e] fun x => p ((a.attribute? x name).getD []) := by
  refine decides_singleton fun f x hf _ => ?_
  obtain ⟨b, hb, hp⟩ := he f
  rw [toText_attributeExpr hf] at hp
  rw [hb]
  exact ⟨nofun, hp⟩

/-- If no empty text meets the condition, the attribute has to be there. -/
lemma Decides.attribute {name : Text} {p : Text → Prop}
    (h : Decides a es fun x => p ((a.attribute? x name).getD [])) (hempty : ¬p []) :
    Decides a es fun x => ∃ value, a.attribute? x name = some value ∧ p value :=
  h.congr fun x => by cases a.attribute? x name <;> simp [hempty]

/-- A text between spaces is sought in the value between spaces. -/
lemma decides_enclosed (name v : Text) {e : Expr}
    (he : ∀ f, e.value a f = .string (' ' :: (v ++ [' ']))) :
    Decides a [.call .contains [paddedExpr (attributeExpr name), e]] fun x =>
      ' ' :: (v ++ [' ']) <:+: ' ' :: ((a.attribute? x name).getD [] ++ [' ']) := by
  refine decides_value (p := fun value => ' ' :: (v ++ [' ']) <:+: ' ' :: (value ++ [' ']))
    fun f => ⟨_, rfl, ?_⟩
  rw [← contains_iff]
  simp [argumentValues, textArgument, value_paddedExpr, he, Value.toText]

/-- The word between spaces occurs in the value between spaces if it is one of its words. -/
lemma decides_word (name : Text) {v : Text} (hne : v ≠ []) (hv : ' ' ∉ v)
    {e : Expr} (he : ∀ f, e.value a f = .string (' ' :: (v ++ [' ']))) :
    Decides a [.call .contains [paddedExpr (attributeExpr name), e]] fun x =>
      ∃ value, a.attribute? x name = some value ∧ (AttributeTest.includes v).Holds value := by
  have hempty : ¬(AttributeTest.includes v).Holds [] := by
    simpa [AttributeTest.Holds, splitAt] using hne
  refine Decides.attribute ((decides_enclosed name v he).congr fun x => ?_) hempty
  rw [enclosed_infix_iff hv, AttributeTest.Holds]

lemma decides_equals (name v : Text) :
    Decides a [.compare .equal (attributeExpr name) (literalExpr v)] fun x =>
      v ∈ a.attributeValues x name := by
  refine decides_singleton fun f x hf _ => ⟨nofun, ?_⟩
  have hcompare := compare_attributeExpr (a := a) hf name v
  rw [← value_literalExpr v f] at hcompare
  exact hcompare

/-- Where names are distinct, the attribute of the name is the one that is compared. -/
lemma decides_equals_of_distinctNames (h : a.DistinctNames) (name v : Text) :
    Decides a [.compare .equal (attributeExpr name) (literalExpr v)] fun x =>
      ∃ value, a.attribute? x name = some value ∧ (AttributeTest.equals v).Holds value :=
  (decides_equals name v).congr fun x => by
    rw [h.mem_attributeValues_iff]
    simp [AttributeTest.Holds]

lemma decides_beginsWith (name : Text) {v : Text} {e : Expr}
    (he : ∀ f, (e.value a f).toText a = v) :
    Decides a [.call .startsWith [attributeExpr name, e]] fun x =>
      v <+: (a.attribute? x name).getD [] := by
  refine decides_value (p := (v <+: ·)) fun f => ⟨_, rfl, ?_⟩
  rw [← startsWith_iff, ← he f]
  rfl

/-- A value that begins with a text and a hyphen is not empty. -/
lemma decides_hyphen (name v : Text) :
    Decides a [.call .startsWith [attributeExpr name, .call .concat [literalExpr v, .literal ['-']]]]
      fun x => ∃ value, a.attribute? x name = some value ∧ v ++ ['-'] <+: value := by
  have hstarts := decides_beginsWith (a := a) name (v := v ++ ['-'])
    (e := .call .concat [literalExpr v, .literal ['-']]) fun f => by
      simp [Expr.value, argumentValues, Function.apply, value_literalExpr, Value.toText]
  exact hstarts.attribute (p := (v ++ ['-'] <+: ·)) (by simp)

lemma decides_contains (name v : Text) :
    Decides a [.call .contains [attributeExpr name, literalExpr v]] fun x =>
      v <:+: (a.attribute? x name).getD [] := by
  refine decides_value (p := (v <:+: ·)) fun f => ⟨_, rfl, ?_⟩
  rw [← contains_iff]
  simp [argumentValues, textArgument, value_literalExpr, Value.toText]

/-- A plain test decides whether the attribute of the name is there and its value passes it. -/
lemma AttributeTest.decides (h : a.DistinctNames) (name : Text) {test : AttributeTest}
    (htest : test.Plain) : Decides a [test.expr name] fun x =>
      ∃ value, a.attribute? x name = some value ∧ test.Holds value := by
  delta AttributeTest.expr
  cases test with
  | present =>
    refine decides_singleton fun f x hf _ => ⟨nofun, ?_⟩
    simpa [Holds] using toBool_attributeExpr hf name
  | equals v => exact decides_equals_of_distinctNames h name v
  | includes v =>
    exact decides_word name htest.1 htest.2 (value_paddedExpr_literalExpr v)
  | dashMatch v =>
    refine ((decides_equals_of_distinctNames h name v).or (decides_hyphen name v)).congr fun x => ?_
    simp only [Holds, and_or_left, exists_or]
  | beginsWith v =>
    have hempty : ¬v <+: [] := fun hprefix => htest (List.prefix_nil.1 hprefix)
    exact (decides_beginsWith name (toText_literalExpr v)).attribute hempty
  | endsWith v => exact htest.elim
  | contains v =>
    have hempty : ¬v <:+: [] := fun hinfix => htest (List.infix_nil.1 hinfix)
    exact (decides_contains name v).attribute hempty

/-! ### Qualifiers -/

/-- The step that stays where it is finds its element if it passes the test. -/
lemma toBool_value_self (test : NodeTest) (f : Focus) :
    ((Expr.path false [.mk .self test []]).value a f).toBool = test.passes a f.location := by
  have hself : Axis.self.locations a f.location = [f.location] := by
    cases f.location <;> rfl
  have hfilter : Arranged ([f.location].filter (test.passes a)) :=
    (List.pairwise_singleton ..).filter _
  simp only [Expr.value, walk, Step.reach, keepAll, hself, List.flatMap_singleton,
    Bool.false_eq_true, if_false, hfilter.arrange_eq fun _ => Iff.rfl, Value.toBool]
  cases hpasses : test.passes a f.location <;> simp [hpasses]

/-- The type decides whether an element is of it. -/
lemma decides_type (type : Option Text) :
    Decides a (typeConjuncts type) fun x => ∀ t ∈ type, OfType a t x := by
  cases type with
  | none => exact decides_nil.congr fun x => by simp
  | some t =>
    refine decides_singleton fun f x hf hx => ⟨nofun, ?_⟩
    obtain ⟨name, hname⟩ := Option.isSome_iff_exists.1 hx
    simp only [Option.mem_def, Option.some.injEq, forall_eq', OfType, hname]
    rw [typeExpr, toBool_value_self, hf]
    by_cases ht : t = ['*'] <;> simp [ht, hname, NodeTest.passes, NodeTest.passesNode]

/-- Qualifiers that decide what they ask decide together what all of them ask. -/
lemma decides_all {qs : List Qualifier} (h : ∀ q ∈ qs, Decides a q.conjuncts (q.Holds a)) :
    Decides a (conjunctsOf qs) fun x => AllHold a x qs := by
  induction qs with
  | nil => exact decides_nil
  | cons q qs ih =>
    obtain ⟨hq, hqs⟩ := List.forall_mem_cons.1 h
    exact hq.append (ih hqs)

/-- A qualifier stands for a conjunct at least. -/
lemma Qualifier.conjuncts_ne_nil (q : Qualifier) : q.conjuncts ≠ [] := by
  cases q with
  | place peers place => exact place.conjoins.ne_nil
  | _ => exact List.cons_ne_nil _ _

/-- What can be read has a conjunct at least. -/
lemma compoundConjuncts_ne_nil {type : Option Text} {qs : List Qualifier} (hsome : type ≠ none ∨ qs ≠ []) :
    typeConjuncts type ++ conjunctsOf qs ≠ [] := by
  cases type with
  | some t => exact List.cons_ne_nil _ _
  | none =>
    obtain ⟨q, qs, rfl⟩ := List.exists_cons_of_ne_nil (hsome.resolve_left (· rfl))
    simp [typeConjuncts, conjunctsOf, q.conjuncts_ne_nil]

/-- A plain qualifier that can be read decides what it asks of an element.

**Proof sketch.** By induction on how the qualifier is formed. Within a negation the conjuncts of the
type and of the qualifiers decide together what the compound asks, their conjunction does because
there is one at least, and the negation decides the contrary. -/
lemma Qualifier.decides (h : a.DistinctNames) {q : Qualifier} (hq : q.WellFormed)
    (hplain : q.Plain) : Decides a q.conjuncts (q.Holds a) := by
  induction hq with
  | @className name hne hchars =>
    have hv : ' ' ∉ name := fun hmem => by cases hchars _ hmem
    exact decides_word "class" hne hv fun _ => rfl
  | identifier name => exact decides_equals_of_distinctNames h "id" name
  | attr hname test =>
    cases hplain with
    | attr hname htest => exact test.decides h _ htest
  | place peers place => cases hplain
  | @negation type qs htype hsome hqs hrelative ih =>
    cases hplain with
    | negation hplain =>
      have hinner := (decides_type type).append (decides_all fun q hq => ih q hq (hplain q hq))
      exact (hinner.conjunction (compoundConjuncts_ne_nil hsome)).not

/-! ## Compounds -/

/-- Parts none of which begins a predicate make a single one. -/
lemma predicatesOf_eq_conjunction {parts : List (Bool × List Expr)} (hne : parts ≠ [])
    (hopens : ∀ part ∈ parts, part.1 = false) :
    predicatesOf parts = [conjunction (parts.flatMap (·.2))] := by
  have hgather : ∀ (parts : List (Bool × List Expr)) (current : List Expr),
      (∀ part ∈ parts, part.1 = false) →
      gather current parts = [conjunction (current ++ parts.flatMap (·.2))] := by
    intro parts
    induction parts with
    | nil => simp [gather]
    | cons part parts ih =>
      obtain ⟨opens, es⟩ := part
      intro current hopens
      obtain rfl : opens = false := hopens (opens, es) (List.mem_cons_self ..)
      rw [gather, ih _ fun part hpart => hopens part (List.mem_cons_of_mem _ hpart)]
      simp
  obtain ⟨part, parts, rfl⟩ := List.exists_cons_of_ne_nil hne
  exact hgather parts part.2 fun part hpart => hopens part (List.mem_cons_of_mem _ hpart)

/-- A compound of plain qualifiers has a single predicate, which decides what it asks. -/
lemma Compound.decides (h : a.DistinctNames) {c : Compound} (hc : c.WellFormed)
    (hplain : ∀ q ∈ c.qualifiers, q.Plain) {k : Combinator} (hk : k ≠ .adjacent) :
    ∃ e, c.predicates k = [e] ∧
      Decides a [e] fun x => (∀ t ∈ c.type, OfType a t x) ∧ AllHold a x c.qualifiers := by
  have hne := compoundConjuncts_ne_nil hc.some
  have hparts : k.parts = [] := by cases k <;> first | rfl | exact absurd rfl hk
  have hopens : ∀ part ∈ typeParts c.type ++ c.qualifiers.map Qualifier.part, part.1 = false := by
    intro part hpart
    rcases List.mem_append.1 hpart with hpart | hpart
    · obtain ⟨t, -, rfl⟩ := List.mem_map.1 hpart
      rfl
    · obtain ⟨q, hq, rfl⟩ := List.mem_map.1 hpart
      cases hplain q hq <;> rfl
  refine ⟨conjunction (typeConjuncts c.type ++ conjunctsOf c.qualifiers), ?_, ?_⟩
  · rw [predicates, hparts, List.nil_append, predicatesOf_eq_conjunction ?_ hopens, flatMap_parts]
    intro hnil
    rw [← flatMap_parts, hnil] at hne
    exact hne rfl
  · exact ((decides_type _).append (decides_all fun q hq =>
      q.decides h (hc.qualifiers q hq) (hplain q hq))).conjunction hne

/-! ## Steps -/

/-- A predicate that decides a quality keeps the elements that have it. -/
lemma Decides.mem_keepAll_iff (h : Decides a [e] p) {xs : List Nat}
    (hxs : ∀ x ∈ xs, (a.elementName? x).isSome) {y : Location} :
    y ∈ keepAll a [e] (xs.map .node) ↔ ∃ z, y = .node z ∧ z ∈ xs ∧ p z := by
  have hkeeps : ∀ x ∈ xs.map Location.node, ∀ i n,
      (keeps i (e.value a ⟨x, i, n⟩) = true ↔ ∃ z, x = .node z ∧ p z) := by
    intro x hx i n
    obtain ⟨z, hz, rfl⟩ := List.mem_map.1 hx
    obtain ⟨hnumber, hp⟩ := h (f := ⟨.node z, i, n⟩) rfl (hxs z hz)
    rw [List.forall_mem_singleton] at hnumber hp
    simp [keeps_eq_toBool hnumber, hp]
  refine (mem_keep_iff hkeeps).trans ?_
  constructor
  · rintro ⟨hy, z, rfl, hp⟩
    exact ⟨z, rfl, by simpa using hy, hp⟩
  · rintro ⟨z, rfl, hz, hp⟩
    exact ⟨List.mem_map_of_mem hz, z, rfl, hp⟩

/-- A step to elements leads from a node to those on its axis that its predicates keep. -/
lemma mem_walk_step_iff {axis : Axis} (haxis : axis ≠ .attributes) {ps : List Expr} {x : Nat}
    {y : Location} : y ∈ walk a [.mk axis .anyName ps] [.node x] ↔
      y ∈ keepAll a ps (((axis.ofNode a x).filter fun z => (a.elementName? z).isSome).map .node) := by
  have hlocations : axis.locations a (.node x) = (axis.ofNode a x).map .node := by
    cases axis <;> first | rfl | exact absurd rfl haxis
  rw [walk, walk, mem_arrange, List.flatMap_singleton, Step.reach, hlocations, List.filter_map]
  rfl

/-- A step to elements with a predicate leads from a node to those on its axis with the quality. -/
lemma Decides.mem_walk_step_iff (h : Decides a [e] p) {axis : Axis} (haxis : axis ≠ .attributes)
    {x : Nat} {y : Location} : y ∈ walk a [.mk axis .anyName [e]] [.node x] ↔
      ∃ z, y = .node z ∧ z ∈ axis.ofNode a x ∧ (a.elementName? z).isSome ∧ p z := by
  rw [Css.mem_walk_step_iff haxis, h.mem_keepAll_iff fun x hx => (List.mem_filter.1 hx).2]
  simp only [List.mem_filter, and_assoc]

/-! ## Chains of elements -/

section Chains

variable (hwf : a.WellFormed) (hnested : a.ElementsNested)
include hwf hnested

/-- The steps of a combinator with a predicate lead from an element to the elements that are so
related to it and have the quality. -/
lemma Combinator.mem_walk_iff {k : Combinator} (hk : k ≠ .adjacent) (h : Decides a [e] p) {x : Nat}
    (hx : (a.elementName? x).isSome) {y : Location} : y ∈ walk a (k.steps [e]) [.node x] ↔
      ∃ z, y = .node z ∧ k.Relates a x z ∧ (a.elementName? z).isSome ∧ p z := by
  cases k with
  | adjacent => exact absurd rfl hk
  | child =>
    rw [steps, h.mem_walk_step_iff (by decide)]
    simp only [Axis.ofNode, hwf.mem_children_iff, Relates]
  | sibling =>
    rw [steps, h.mem_walk_step_iff (by decide)]
    simp only [Axis.ofNode, hwf.mem_followingSiblings_iff, Relates]
  | descendant =>
    have hbelow : ∀ w, w ∈ Axis.descendantOrSelf.ofNode a x ↔
        Relation.ReflTransGen a.IsParent x w := fun w =>
      hwf.mem_range_lastDescendant_iff (Arena.lt_size_of_isElement hx)
    have hfirst : ∀ z, z ∈ walk a [.mk .descendantOrSelf .anyName []] [.node x] ↔
        ∃ w, (Relation.ReflTransGen a.IsParent x w ∧ (a.elementName? w).isSome) ∧
          .node w = z := fun z => by
      rw [mem_walk_step_iff (by decide)]
      simp only [keepAll, List.mem_map, List.mem_filter, hbelow]
    rw [steps, ← List.singleton_append, mem_walk_append_iff]
    simp only [hfirst]
    constructor
    · rintro ⟨-, ⟨w, ⟨hxw, -⟩, rfl⟩, hy⟩
      obtain ⟨z, rfl, hz, hp⟩ := (h.mem_walk_step_iff (by decide)).1 hy
      exact ⟨z, rfl, .tail' hxw (hwf.mem_children_iff.1 hz), hp⟩
    · rintro ⟨z, rfl, hxz, hz, hp⟩
      obtain ⟨w, hxw, hwz⟩ := Relation.TransGen.tail'_iff.1 hxz
      -- the first step leads to elements only, and what is right above an element below `x` is one
      have hw : (a.elementName? w).isSome := by
        rcases Relation.reflTransGen_iff_eq_or_transGen.1 hxw with rfl | hbelow
        · exact hx
        · exact hnested z w hz hwz (Nat.ne_zero_of_lt (hwf.lt_of_isAncestor hbelow))
      exact ⟨.node w, ⟨w, ⟨hxw, hw⟩, rfl⟩,
        (h.mem_walk_step_iff (by decide)).2 ⟨z, rfl, hwf.mem_children_iff.2 hwz, hz, hp⟩⟩

/-- A plain alternative that can be read leads from an element to where its chains lead. Every node of
a chain is an element, from which the rest of the chain goes on. -/
lemma Complex.mem_reach_iff (hnames : a.DistinctNames) {c : Complex} (hc : Complex.Plain c)
    (hread : ∀ part ∈ c, part.2.WellFormed) {x : Nat} (hx : (a.elementName? x).isSome)
    {y : Location} :
    y ∈ Complex.reach a c (.node x) ↔ ∃ z, y = .node z ∧ Complex.Leads a c x z := by
  induction c generalizing x with
  | nil => simp [Complex.reach, Complex.steps, walk, Leads]
  | cons part c ih =>
    obtain ⟨k, compound⟩ := part
    obtain ⟨⟨hk, hplain⟩, hc⟩ := List.forall_mem_cons.1 hc
    obtain ⟨hcompound, hread⟩ := List.forall_mem_cons.1 hread
    obtain ⟨e, hpredicates, hdecides⟩ := compound.decides hnames hcompound hplain hk
    have hsteps : Complex.steps [(k, compound)] = k.steps [e] := by
      rw [Complex.steps, List.flatMap_singleton]
      exact congrArg (k.steps ·) hpredicates
    rw [← List.singleton_append, Complex.mem_reach_append]
    have hfirst : ∀ {z}, z ∈ Complex.reach a [(k, compound)] (.node x) ↔
        ∃ w, z = .node w ∧ k.Relates a x w ∧ compound.Holds a w := by
      intro z
      rw [Complex.reach, hsteps]
      exact k.mem_walk_iff hwf hnested hk hdecides hx
    simp only [hfirst, List.singleton_append, Leads]
    constructor
    · rintro ⟨-, ⟨w, rfl, hrelates, hholds⟩, hy⟩
      obtain ⟨z, rfl, hleads⟩ := (ih hc hread hholds.1).1 hy
      exact ⟨z, rfl, w, hrelates, hholds, hleads⟩
    · rintro ⟨z, rfl, w, hrelates, hholds, hleads⟩
      exact ⟨.node w, ⟨w, rfl, hrelates, hholds⟩, (ih hc hread hholds.1).2 ⟨z, rfl, hleads⟩⟩

end Chains

/-- Plain selectors ask for attributes of single names. -/
lemma Qualifier.Plain.named {q : Qualifier} (h : q.Plain) : Named q.attributeNames := by
  induction h with
  | className | identifier => nofun
  | attr hname htest =>
    rintro name hmem
    obtain rfl := List.mem_singleton.1 hmem
    exact hname
  | negation _ ih =>
    intro name hmem
    obtain ⟨q, hq, hmem⟩ := mem_attributeNamesOf.1 hmem
    exact ih q hq name hmem

lemma Group.Plain.named {g : Group} (h : Group.Plain g) : Named (Group.attributeNames g) := by
  intro name hmem
  obtain ⟨c, hc, part, hpart, q, hq, hmem⟩ := Group.exists_of_mem_attributeNames hmem
  exact ((h c hc part hpart).2 q hq).named name hmem

end WebCrawl.Css

namespace WebCrawl.Query.Document

open Html Location Css

/-- A plain selector means what it says. Put to an element of a document whose elements stand below
elements and have attributes of distinct names, it finds, in document order and each once, the
elements to which one of its alternatives leads from there. -/
theorem css_finds_matches {d : Document} (hwf : d.arena.WellFormed)
    (hnested : d.arena.ElementsNested) (hnames : d.arena.DistinctNames) {x : Nat}
    (hx : (d.arena.elementName? x).isSome) {s : Text} {g : Group} (hparse : Css.parse s = .ok g)
    (hplain : Group.Plain g) {cache : Cache} (hc : cache.Faithful) :
    ∃ ys, (d.css s (.node x) cache).1 = .ok ys ∧
      ys.Pairwise (fun y z => y.before z = true) ∧
      ∀ y, y ∈ ys ↔ ∃ z, y = .node z ∧ ∃ c ∈ g, Complex.Leads d.arena c x z := by
  obtain ⟨ys, hys, harranged, hmem⟩ := exists_css_eq_ok hc hparse hplain.named d (.node x)
  refine ⟨ys, hys, harranged, fun y => (hmem y).trans ?_⟩
  have hread := (wellFormed_of_parse hparse).2
  constructor
  · rintro ⟨c, hcg, hy⟩
    obtain ⟨z, rfl, hleads⟩ :=
      (Complex.mem_reach_iff hwf hnested hnames (hplain c hcg) (hread c hcg).2 hx).1 hy
    exact ⟨z, rfl, c, hcg, hleads⟩
  · rintro ⟨z, rfl, c, hcg, hleads⟩
    exact ⟨c, hcg, (Complex.mem_reach_iff hwf hnested hnames (hplain c hcg) (hread c hcg).2 hx).2
      ⟨z, rfl, hleads⟩⟩

/-- Bold text in a paragraph without a class, after a paragraph that has a word in its title. -/
theorem css_finds_matches_of_paragraphs :
    let d : Document := ⟨.ofForest [.element "div" [("class", "a b")]
      [.element "p" [("title", "x y")] [], .element "p" [] [.element "b" [] []]]]⟩
    ∃ ys, (d.css "p[title~=x] ~ p:not(.a) > b" (.node 1) (.empty 0)).1 = .ok ys ∧
      .node 4 ∈ ys := by
  intro d
  have hparse : Css.parse "p[title~=x] ~ p:not(.a) > b" =
      .ok [[(.descendant, ⟨some "p", [.attr "title" (.includes "x")]⟩),
        (.sibling, ⟨some "p", [.negation none [.className "a"]]⟩),
        (.child, ⟨some "b", []⟩)]] := rfl
  have hnames : d.arena.DistinctNames := by
    rintro (_ | _ | _ | _ | _ | id) <;> first | exact .nil | exact List.pairwise_singleton ..
  have hplain : Group.Plain [[(.descendant, ⟨some "p", [.attr "title" (.includes "x")]⟩),
      (.sibling, ⟨some "p", [.negation none [.className "a"]]⟩),
      (.child, ⟨some "b", []⟩)]] := by
    have hword : (AttributeTest.includes "x").Plain := ⟨by decide, by decide⟩
    simp only [Group.Plain, Complex.Plain, List.forall_mem_cons, List.not_mem_nil]
    exact ⟨⟨⟨by decide, .attr rfl hword, nofun⟩,
      ⟨by decide, .negation (by simpa using .className "a"), nofun⟩,
      ⟨by decide, nofun⟩, nofun⟩, nofun⟩
  obtain ⟨ys, hys, -, hmem⟩ := css_finds_matches (d := d) (Arena.wellFormed_ofForest _)
    (Arena.elementsNested_ofForest rfl) hnames (x := 1) rfl hparse hplain (Cache.faithful_empty 0)
  have hfirst : Compound.Holds d.arena 2 ⟨some "p", [.attr "title" (.includes "x")]⟩ :=
    ⟨rfl, by rintro t ⟨rfl⟩; exact ⟨"p", rfl, .inr rfl⟩, ⟨"x y", rfl, .head _⟩, trivial⟩
  have hsecond : Compound.Holds d.arena 3 ⟨some "p", [.negation none [.className "a"]]⟩ := by
    refine ⟨rfl, by rintro t ⟨rfl⟩; exact ⟨"p", rfl, .inr rfl⟩, ?_, trivial⟩
    rintro ⟨-, ⟨value, hvalue, -⟩, -⟩
    cases hvalue
  have hthird : Compound.Holds d.arena 4 ⟨some "b", []⟩ :=
    ⟨rfl, by rintro t ⟨rfl⟩; exact ⟨"b", rfl, .inr rfl⟩, trivial⟩
  exact ⟨ys, hys, (hmem _).2 ⟨4, rfl, _, List.mem_singleton_self _,
    2, .single rfl, hfirst, 3, ⟨by decide, 1, rfl, rfl⟩, hsecond, 4, rfl, hthird, rfl⟩⟩

end WebCrawl.Query.Document
