import WebCrawl.Proofs.Css.Joining
import WebCrawl.Proofs.Css.Names
import WebCrawl.Proofs.Query.Cache
import WebCrawl.Proofs.XPath.NodeSets

set_option autoImplicit false

/-!
# What selectors find

An alternative of a selector leads from a location along its steps, and a selector finds what one of
its alternatives leads to. So a chain of compounds that is cut in two finds what its second part
finds from each of the locations that its first part finds, and two groups together find what either
of them finds.

## Main definitions

* `WebCrawl.Css.Scope.startAt` — where the paths of a scope start.
* `WebCrawl.Css.Complex.reach` — where an alternative leads to.

## Main results

* `WebCrawl.Css.compile_eq_ok_iff` — what a selector that was read is compiled to.
* `WebCrawl.Css.Group.arranged_and_mem_iff` — what a group finds, and in what order.
* `WebCrawl.Css.Complex.isElement_of_mem_reach` — selectors find elements only.
* `WebCrawl.Query.Document.css_append` — queries one within the other, and one beside the other.
-/

namespace WebCrawl.Css

open Html Location XPath

variable {a : Arena} {x y : Location}

/-! ## Compiled selectors -/

/-- A selector that was read is compiled if the names of its attributes are single names, and then to
the expression of the group. -/
theorem compile_eq_ok_iff {s : Text} {g : Group} {scope : Scope} {q : Query.Compiled}
    (h : parse s = .ok g) :
    Query.compile (.css s scope) = .ok q ↔
      Named (Group.attributeNames g) ∧ q = ⟨Group.toXPath scope g, Group.expr scope g⟩ := by
  have hparse : ∀ {e}, XPath.parse (Group.toXPath scope g) = .ok e ↔
      Named (Group.attributeNames g) ∧ e = Group.expr scope g :=
    Group.parse_toXPath_eq_ok_iff (wellFormed_of_parse h)
  have hcompile : Query.compile (.css s scope) = Query.ofXPath (Group.toXPath scope g) := by
    show Query.expressionOf s scope >>= Query.ofXPath = _
    rw [Query.expressionOf, h]
    rfl
  rw [hcompile, Query.ofXPath]
  constructor
  · intro hq
    split at hq
    case h_1 e he =>
      obtain ⟨hnames, rfl⟩ := hparse.1 he
      exact ⟨hnames, (Except.ok.inj hq).symm⟩
    case h_2 => cases hq
  · rintro ⟨hnames, rfl⟩
    rw [hparse.2 ⟨hnames, rfl⟩]

/-! ## Alternatives -/

/-- Where the paths of a scope start when a query is put to a location. -/
def Scope.startAt (x : Location) : Scope → Location
  | .document => .node Arena.root
  | .node => x

/-- The locations that an alternative leads to. -/
def Complex.reach (a : Arena) (c : Complex) (x : Location) : List Location :=
  walk a (Complex.steps c) [x]

lemma Complex.arranged_reach (a : Arena) (c : Complex) (x : Location) :
    Arranged (Complex.reach a c x) :=
  walk_arranged _ (List.pairwise_singleton ..)

/-- The path of an alternative leads to what the alternative leads to. -/
lemma Complex.value_expr (scope : Scope) (c : Complex) (f : Focus) :
    (Complex.expr scope c).value a f = .nodes (Complex.reach a c (scope.startAt f.location)) := by
  cases scope with
  | document => rfl
  | node => exact congrArg Value.nodes (walk_here _ _)

/-- A chain of compounds leads to what its second part leads to from where its first part leads. -/
theorem Complex.mem_reach_append (c c' : Complex) :
    y ∈ Complex.reach a (c ++ c') x ↔
      ∃ z ∈ Complex.reach a c x, y ∈ Complex.reach a c' z := by
  have hsteps : Complex.steps (c ++ c') = Complex.steps c ++ Complex.steps c' := List.flatMap_append
  rw [reach, hsteps, mem_walk_append_iff]
  rfl

/-- The last step to a compound leads to elements. -/
lemma Combinator.isElement_of_mem_walk {combinator : Combinator} {ps : List Expr}
    {xs : List Location} (h : y ∈ walk a (combinator.steps ps) xs) :
    ∃ id, y = .node id ∧ (a.elementName? id).isSome := by
  -- a step along an axis of nodes that asks for an element
  have hstep : ∀ {axis : Axis} {zs : List Location}, axis ≠ .attributes → axis ≠ .self →
      axis ≠ .ancestorOrSelf → y ∈ walk a [.mk axis .anyName ps] zs →
      ∃ id, y = .node id ∧ (a.elementName? id).isSome := by
    intro axis zs hattributes hself hancestor hy
    obtain ⟨z, -, hy⟩ := List.mem_flatMap.1 (mem_arrange.1 hy)
    obtain ⟨hy, hpasses⟩ := List.mem_filter.1 ((keepAll_sublist ps _).subset hy)
    have hnode : ∃ id, y = .node id := by
      cases z <;> cases axis <;> simp_all [Axis.locations] <;> grind
    obtain ⟨id, rfl⟩ := hnode
    exact ⟨id, rfl, hpasses⟩
  cases combinator with
  | descendant =>
    rw [steps, ← List.singleton_append, walk_append] at h
    exact hstep (by decide) (by decide) (by decide) h
  | _ => exact hstep (by decide) (by decide) (by decide) h

/-- An alternative that is no empty chain leads to elements. -/
theorem Complex.isElement_of_mem_reach {c : Complex} (hc : c ≠ [])
    (h : y ∈ Complex.reach a c x) : ∃ id, y = .node id ∧ (a.elementName? id).isSome := by
  obtain ⟨c, ⟨combinator, compound⟩, rfl⟩ := (List.eq_nil_or_concat' c).resolve_left hc
  obtain ⟨z, -, hy⟩ := (Complex.mem_reach_append c [(combinator, compound)]).1 h
  rw [reach, steps, List.flatMap_singleton] at hy
  exact Combinator.isElement_of_mem_walk hy

/-! ## Groups -/

namespace Group

/-- The locations that the expression of a group has are in document order, and they are those that
its alternatives lead to. -/
lemma arranged_and_mem_iff (scope : Scope) {g : Group} (hg : g ≠ []) (f : Focus) :
    Arranged ((Group.expr scope g).value a f).locations ∧
      ∀ y, y ∈ ((Group.expr scope g).value a f).locations ↔
        ∃ c ∈ g, y ∈ Complex.reach a c (scope.startAt f.location) := by
  have hmore : ∀ (cs : Group) (e : Expr), Arranged (e.value a f).locations →
      Arranged ((cs.foldl (fun e c => .union e (Complex.expr scope c)) e).value a f).locations ∧
      ∀ y, y ∈ ((cs.foldl (fun e c => .union e (Complex.expr scope c)) e).value a f).locations ↔
        y ∈ (e.value a f).locations ∨
          ∃ c ∈ cs, y ∈ Complex.reach a c (scope.startAt f.location) := by
    intro cs
    induction cs with
    | nil => exact fun e he => ⟨he, by simp⟩
    | cons c cs ih =>
      intro e _
      obtain ⟨harranged, hmem⟩ := ih (.union e (Complex.expr scope c)) (arranged_arrange _)
      refine ⟨harranged, fun y => (hmem y).trans ?_⟩
      simp only [Expr.value, Value.locations, mem_arrange, List.mem_append, Complex.value_expr,
        List.mem_cons, exists_eq_or_imp, or_assoc]
  obtain ⟨c, cs, rfl⟩ := List.exists_cons_of_ne_nil hg
  obtain ⟨harranged, hmem⟩ := hmore cs (Complex.expr scope c) (by
    rw [Complex.value_expr]
    exact Complex.arranged_reach ..)
  refine ⟨harranged, fun y => (hmem y).trans ?_⟩
  simp only [Complex.value_expr, Value.locations, List.mem_cons, exists_eq_or_imp]

end Group

end WebCrawl.Css

namespace WebCrawl.Query

open Html Location Css

/-! ## Documents -/

namespace Document

variable {d : Document} {start x : Location} {cache : Cache}

/-- A query from a location starts there, be it the root or not. -/
lemma startAt_scopeAt (x : Location) : (scopeAt x).startAt x = x := by
  unfold scopeAt
  split
  case isTrue hroot => exact hroot.symm
  case isFalse => rfl

/-- What is found by a selector that was read and that makes a query: the locations that its
alternatives lead to, in document order. -/
theorem exists_css_eq_ok (hc : cache.Faithful) {s : Text} {g : Group} (hparse : Css.parse s = .ok g)
    (hnames : Named (Group.attributeNames g)) (d : Document) (start : Location) :
    ∃ xs, (d.css s start cache).1 = .ok xs ∧ Arranged xs ∧
      ∀ x, x ∈ xs ↔ ∃ c ∈ g, x ∈ Complex.reach d.arena c start := by
  have hcompile : compile (.css s (scopeAt start)) = .ok _ :=
    (compile_eq_ok_iff hparse).2 ⟨hnames, rfl⟩
  have hne : g ≠ [] := (wellFormed_of_parse hparse).1
  refine ⟨_, by rw [css_eq hc, hcompile]; rfl, ?_⟩
  have hmem := Group.arranged_and_mem_iff (scopeAt start) hne (a := d.arena) ⟨start, 1, 1⟩
  rwa [startAt_scopeAt] at hmem

/-- The names of the attributes of a selector that makes a query in some scope. -/
lemma named_of_compile {s : Text} {g : Group} (hparse : Css.parse s = .ok g)
    (h : ∃ scope q, compile (.css s scope) = .ok q) : Named (Group.attributeNames g) := by
  obtain ⟨scope, q, hq⟩ := h
  exact ((compile_eq_ok_iff hparse).1 hq).1

/-- A chain of compounds within another finds what it finds from each of the locations that the other
finds. -/
lemma css_append_blank {s t : Text} {c c' : Css.Complex}
    (hs : Css.parse s = .ok [c]) (ht : Css.parse t = .ok [c'])
    (hcs : Named (Complex.attributeNames c)) (hct : Named (Complex.attributeNames c'))
    {cache₁ cache₂ cache₃ : Cache} (h₁ : cache₁.Faithful) (h₂ : cache₂.Faithful)
    (h₃ : cache₃.Faithful) (d : Document) (start : Location) :
    ∃ xs zs, (d.css s start cache₁).1 = .ok xs ∧
      (d.css (s ++ ' ' :: t) start cache₃).1 = .ok zs ∧ Arranged zs ∧
      (∀ x ∈ xs, ∃ ys, (d.css t x cache₂).1 = .ok ys) ∧
      ∀ z, z ∈ zs ↔ ∃ x ∈ xs, ∃ ys, (d.css t x cache₂).1 = .ok ys ∧ z ∈ ys := by
  have hnames : Named (Group.attributeNames [c ++ c']) := by
    simpa [Group.attributeNames, Complex.attributeNames] using named_append hcs hct
  obtain ⟨xs, hxs, -, hmem⟩ :=
    exists_css_eq_ok h₁ hs (by simpa [Group.attributeNames] using hcs) d start
  obtain ⟨zs, hzs, harranged, hmem'⟩ :=
    exists_css_eq_ok h₃ (parse_append_blank hs ht) hnames d start
  have hinner : ∀ x, ∃ ys, (d.css t x cache₂).1 = .ok ys ∧
      ∀ y, y ∈ ys ↔ y ∈ Complex.reach d.arena c' x := by
    intro x
    obtain ⟨ys, hys, -, hmem⟩ :=
      exists_css_eq_ok h₂ ht (by simpa [Group.attributeNames] using hct) d x
    exact ⟨ys, hys, fun y => by simpa using hmem y⟩
  refine ⟨xs, zs, hxs, hzs, harranged, fun x _ => ?_, fun z => ?_⟩
  · obtain ⟨ys, hys, -⟩ := hinner x
    exact ⟨ys, hys⟩
  · rw [hmem']
    simp only [List.mem_singleton, exists_eq_left, Complex.mem_reach_append] at hmem ⊢
    constructor
    · rintro ⟨x, hx, hz⟩
      obtain ⟨ys, hys, hy⟩ := hinner x
      exact ⟨x, (hmem x).2 hx, ys, hys, (hy z).2 hz⟩
    · rintro ⟨x, hx, ys, hys, hz⟩
      obtain ⟨ys', hys', hy⟩ := hinner x
      obtain rfl := Except.ok.inj (hys.symm.trans hys')
      exact ⟨x, (hmem x).1 hx, (hy z).1 hz⟩

/-- Queries in a document one within the other and one beside the other. From the document or from
any location of it, a chain of compounds after another with a blank between them finds, in document
order and each once, what it finds from each of the locations that the other finds; and a group beside
another with a comma between them finds what either of them finds. -/
theorem css_append (d : Document) {s t : Text} {g g' : Group} (hs : Css.parse s = .ok g)
    (ht : Css.parse t = .ok g') (hcs : ∃ scope q, compile (.css s scope) = .ok q)
    (hct : ∃ scope q, compile (.css t scope) = .ok q) {cache₁ cache₂ cache₃ : Cache}
    (h₁ : cache₁.Faithful) (h₂ : cache₂.Faithful) (h₃ : cache₃.Faithful) (start : Location) :
    (g.length = 1 → g'.length = 1 →
      ∃ xs zs, (d.css s start cache₁).1 = .ok xs ∧
        (d.css (s ++ ' ' :: t) start cache₃).1 = .ok zs ∧
        zs.Pairwise (fun x y => x.before y = true) ∧
        (∀ x ∈ xs, ∃ ys, (d.css t x cache₂).1 = .ok ys) ∧
        ∀ z, z ∈ zs ↔
          ∃ x ∈ xs, ∃ ys, (d.css t x cache₂).1 = .ok ys ∧ z ∈ ys) ∧
    ∃ xs ys zs, (d.css s start cache₁).1 = .ok xs ∧
      (d.css t start cache₂).1 = .ok ys ∧
      (d.css (s ++ ',' :: t) start cache₃).1 = .ok zs ∧
      zs.Pairwise (fun x y => x.before y = true) ∧ ∀ z, z ∈ zs ↔ z ∈ xs ∨ z ∈ ys := by
  have hnames := named_of_compile hs hcs
  have hnames' := named_of_compile ht hct
  constructor
  · intro hone hone'
    obtain ⟨c, rfl⟩ := List.length_eq_one_iff.1 hone
    obtain ⟨c', rfl⟩ := List.length_eq_one_iff.1 hone'
    exact css_append_blank hs ht (by simpa [Group.attributeNames] using hnames)
      (by simpa [Group.attributeNames] using hnames') h₁ h₂ h₃ d start
  · have hboth : Named (Group.attributeNames (g ++ g')) := by
      simpa [Group.attributeNames] using named_append hnames hnames'
    obtain ⟨xs, hxs, -, hmem⟩ := exists_css_eq_ok h₁ hs hnames d start
    obtain ⟨ys, hys, -, hmem'⟩ := exists_css_eq_ok h₂ ht hnames' d start
    obtain ⟨zs, hzs, harranged, hmemBoth⟩ := exists_css_eq_ok h₃ (parse_append_comma hs ht) hboth
      d start
    refine ⟨xs, ys, zs, hxs, hys, hzs, harranged, fun z => ?_⟩
    rw [hmemBoth, hmem, hmem']
    simp only [List.mem_append, or_and_right, exists_or]

/-- Bold texts directly in the paragraphs of a section, and those directly in each of them. -/
theorem css_append_of_paragraphs :
    let d : Document := ⟨.ofForest [.element "div" [] [.element "p" [] [.element "b" [] []]]]⟩
    ∃ xs zs, (d.css "div p" (.node Arena.root) (.empty 0)).1 = .ok xs ∧
      (d.css "div p > b" (.node Arena.root) (.empty 0)).1 = .ok zs ∧
      ∀ z, z ∈ zs ↔ ∃ x ∈ xs, ∃ ys, (d.css "> b" x (.empty 0)).1 = .ok ys ∧ z ∈ ys := by
  intro d
  have hs : Css.parse "div p" =
      .ok [[(.descendant, ⟨some "div", []⟩), (.descendant, ⟨some "p", []⟩)]] := rfl
  have ht : Css.parse "> b" = .ok [[(.child, ⟨some "b", []⟩)]] := rfl
  have hempty := Cache.faithful_empty 0
  obtain ⟨xs, zs, hxs, hzs, -, -, hmem⟩ := (css_append d hs ht
    ⟨.document, _, (compile_eq_ok_iff hs).2 ⟨nofun, rfl⟩⟩
    ⟨.node, _, (compile_eq_ok_iff ht).2 ⟨nofun, rfl⟩⟩
    hempty hempty hempty (.node Arena.root)).1 rfl rfl
  exact ⟨xs, zs, hxs, hzs, hmem⟩

end Document

end WebCrawl.Query
