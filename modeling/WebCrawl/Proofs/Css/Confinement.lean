import WebCrawl.Proofs.Css.Indices

set_option autoImplicit false

/-!
# Selectors put to a node

A chain of compounds that begins with a descendant or a child goes below the node that it is put to
with its first step. A later step may lead back up as far as the siblings of where it starts, but these
have all nodes above them in common, so that the chain stays below the node. Nothing is below a text, a
comment or an attribute.

## Main definitions

* `WebCrawl.Css.Group.Inward` — groups none of whose alternatives begins with a sibling.
* `WebCrawl.Css.Combinator.Moves` — where a combinator leads from a node.

## Main results

* `WebCrawl.Css.Combinator.moves_of_mem_reach`, `WebCrawl.Css.Complex.isAncestor_of_mem_reach` —
  one step and a whole chain stay below a node.
* `WebCrawl.Query.Document.css_below` — what a selector finds from a node is below the node.
-/

namespace WebCrawl.Html.Arena

variable {a : Arena} {n x y : Nat}

/-- The nodes above a node are above its siblings. -/
lemma IsAncestor.of_isFollowingSibling (h : a.IsAncestor n x) (hsibling : a.IsFollowingSibling x y) :
    a.IsAncestor n y := by
  obtain ⟨-, p, hpx, hpy⟩ := hsibling
  obtain ⟨q, hnq, hqx⟩ := Relation.TransGen.tail'_iff.1 h
  obtain rfl := Option.some.inj (hqx.symm.trans hpx)
  exact Relation.TransGen.tail' hnq hpy

end WebCrawl.Html.Arena

namespace WebCrawl.Css

open Html Location XPath

variable {a : Arena} {n x : Nat} {y start : Location} {c : Complex} {p : Compound}

/-- No alternative begins with the sign of a sibling. -/
def Group.Inward (g : Group) : Prop :=
  ∀ c ∈ g, ∀ part ∈ c.head?, part.1 = .descendant ∨ part.1 = .child

/-! ## Steps -/

/-- Where a combinator leads from a node. -/
def Combinator.Moves (a : Arena) (x z : Nat) : Combinator → Prop
  | .descendant => a.IsAncestor x z
  | .child => a.IsParent x z
  | .adjacent | .sibling => a.IsFollowingSibling x z

/-- The first step of a descendant stays at the node or goes below it. -/
lemma Combinator.reflTransGen_of_mem_approach (h : a.WellFormed) {w : Nat}
    (hw : .node w ∈ walk a Combinator.descendant.approach [.node x]) :
    Relation.ReflTransGen a.IsParent x w := by
  have haxis : Axis.descendantOrSelf ≠ .attributes := by decide
  obtain ⟨v, hv, heq⟩ := List.mem_map.1 ((keepAll_sublist ..).subset ((mem_walk_step_iff haxis).1 hw))
  obtain rfl := Location.node.inj heq
  obtain ⟨hrange, helement⟩ := List.mem_filter.1 hv
  have hx : x < a.size :=
    Nat.lt_of_le_of_lt (Arena.mem_range.1 hrange).1 (Arena.lt_size_of_isElement helement)
  exact (h.mem_range_lastDescendant_iff hx).1 hrange

/-- A compound is found where its combinator leads. -/
lemma Combinator.moves_of_mem_reach (h : a.WellFormed) {k : Combinator}
    (hy : y ∈ Complex.reach a [(k, p)] (.node x)) : ∃ z, y = .node z ∧ k.Moves a x z := by
  obtain ⟨w, hw, hkept⟩ := (Complex.mem_reach_concat_iff (c := [])).1 hy
  obtain ⟨z, hz, rfl⟩ := List.mem_map.1 ((keepAll_sublist ..).subset hkept)
  have hcandidate : z ∈ k.lastAxis.ofNode a w := (List.mem_filter.1 hz).1
  refine ⟨z, rfl, ?_⟩
  -- only a descendant has a step before the one to the compound
  cases k with
  | descendant =>
    exact Relation.TransGen.tail' (reflTransGen_of_mem_approach h hw) (h.mem_children_iff.1 hcandidate)
  | child =>
    obtain rfl : w = x := by simpa [Complex.Approaches, Complex.steps, approach, walk] using hw
    exact h.mem_children_iff.1 hcandidate
  | adjacent | sibling =>
    obtain rfl : w = x := by simpa [Complex.Approaches, Complex.steps, approach, walk] using hw
    exact h.mem_followingSiblings_iff.1 hcandidate

/-- An axis that is empty leads nowhere. -/
lemma not_mem_walk_of_locations_eq_nil {axis : Axis} {test : NodeTest} {ps : List Expr} {x y : Location}
    (haxis : axis.locations a x = []) : y ∉ walk a [.mk axis test ps] [x] := fun hy => by
  rw [walk, walk, mem_arrange, List.flatMap_singleton, Step.reach, haxis] at hy
  cases (keepAll_sublist ps _).subset hy

/-- No compound is found from an attribute, since nothing is below or beside it. -/
lemma Complex.not_mem_reach_attr {k : Combinator} {owner index : Nat} :
    y ∉ Complex.reach a [(k, p)] (.attr owner index) := by
  intro hy
  rw [Complex.reach, Complex.steps_singleton, mem_walk_append_iff] at hy
  obtain ⟨z, hz, hy⟩ := hy
  have happroach : k = .descendant ∨ k.approach = [] := by cases k <;> simp [Combinator.approach]
  rcases happroach with rfl | happroach
  · exact not_mem_walk_of_locations_eq_nil (by rfl) hz
  · rw [happroach, walk, List.mem_singleton] at hz
    subst hz
    exact not_mem_walk_of_locations_eq_nil (by cases k <;> rfl) hy

/-! ## Chains -/

/-- From below a node a chain stays below it. -/
lemma Complex.isAncestor_of_mem_reach (h : a.WellFormed) (hx : a.IsAncestor n x)
    (hy : y ∈ Complex.reach a c (.node x)) : ∃ z, y = .node z ∧ a.IsAncestor n z := by
  induction c generalizing x with
  | nil => exact ⟨x, by simpa [Complex.reach, Complex.steps, walk] using hy, hx⟩
  | cons part c ih =>
    obtain ⟨k, p⟩ := part
    rw [← List.singleton_append, Complex.mem_reach_append] at hy
    obtain ⟨w, hw, hy⟩ := hy
    obtain ⟨w, rfl, hmoves⟩ := Combinator.moves_of_mem_reach h hw
    refine ih ?_ hy
    cases k with
    | descendant => exact Relation.TransGen.trans hx hmoves
    | child => exact Relation.TransGen.tail hx hmoves
    | adjacent | sibling => exact hx.of_isFollowingSibling hmoves

/-- A chain that begins with no sibling leads below the node that it is put to. -/
theorem Complex.isAncestor_of_mem_reach_inward (h : a.WellFormed) (hc : c ≠ [])
    (hinward : ∀ part ∈ c.head?, part.1 = .descendant ∨ part.1 = .child)
    (hy : y ∈ Complex.reach a c start) :
    ∃ n z, start = .node n ∧ y = .node z ∧ a.IsAncestor n z := by
  obtain ⟨⟨k, p⟩, c, rfl⟩ := List.exists_cons_of_ne_nil hc
  rw [← List.singleton_append, Complex.mem_reach_append] at hy
  obtain ⟨w, hw, hy⟩ := hy
  cases start with
  | attr owner index =>
    exact absurd hw Complex.not_mem_reach_attr
  | node n =>
    obtain ⟨w, rfl, hmoves⟩ := Combinator.moves_of_mem_reach h hw
    have hbelow : a.IsAncestor n w := by
      obtain rfl | rfl : k = .descendant ∨ k = .child := hinward _ rfl
      · exact hmoves
      · exact .single hmoves
    obtain ⟨z, rfl, hz⟩ := isAncestor_of_mem_reach h hbelow hy
    exact ⟨n, z, rfl, rfl, hz⟩

end WebCrawl.Css

namespace WebCrawl.Query.Document

open Html Location Css

/-- A query put to a node stays inside the node. In a document in which texts and comments have nothing
below them, from every location but the document itself, an accepted selector none of whose
alternatives begins with the sign of a sibling finds elements only, all of them below the node that it
is put to. That is an element or a document within: from a text, a comment or an attribute nothing is
found, and never the location itself.

**Proof sketch.** The first step of an alternative leads below the node. Every further step leads from
a node below it to one below that, or to a sibling of that, which has the same nodes above it. -/
theorem css_below {d : Document} (hwf : d.arena.WellFormed) (hbare : d.arena.LeavesBare) {s : Text}
    {g : Group} (hparse : Css.parse s = .ok g) (haccepted : ∃ scope q, compile (.css s scope) = .ok q)
    (hinward : Group.Inward g) {start : Location} (hstart : start ≠ root) {cache : Cache}
    (hc : cache.Faithful) :
    ∃ ys, (d.css s start cache).1 = .ok ys ∧
      (∀ y ∈ ys, ∃ n z, start = .node n ∧ y = .node z ∧
        ((d.arena.elementName? n).isSome ∨ n ≠ Arena.root ∧ d.arena.data? n = some .document) ∧
        (d.arena.elementName? z).isSome ∧ d.arena.IsAncestor n z) ∧
      start ∉ ys ∧
      ((∀ n, start = .node n →
        d.arena.elementName? n = none ∧ d.arena.data? n ≠ some .document) → ys = []) := by
  have hread := (wellFormed_of_parse hparse).2
  obtain ⟨ys, hys, -, hmem⟩ :=
    exists_css_eq_ok hc hparse (named_of_compile hparse haccepted) d start
  have hbelow : ∀ y ∈ ys, ∃ n z, start = .node n ∧ y = .node z ∧
      ((d.arena.elementName? n).isSome ∨ n ≠ Arena.root ∧ d.arena.data? n = some .document) ∧
      (d.arena.elementName? z).isSome ∧ d.arena.IsAncestor n z := by
    intro y hy
    obtain ⟨c, hcg, hreach⟩ := (hmem y).1 hy
    have hne : c ≠ [] := (hread c hcg).1
    obtain ⟨n, z, rfl, rfl, hancestor⟩ :=
      Complex.isAncestor_of_mem_reach_inward hwf hne (hinward c hcg) hreach
    obtain ⟨z', heq, hz⟩ := Complex.isElement_of_mem_reach hne hreach
    obtain rfl := Location.node.inj heq
    obtain ⟨child, hchild, -⟩ := Relation.TransGen.head'_iff.1 hancestor
    have hroot : n ≠ Arena.root := fun hroot => hstart (congrArg Location.node hroot)
    exact ⟨n, z, rfl, rfl, (hbare n child hchild).imp_right fun hdocument => ⟨hroot, hdocument⟩, hz,
      hancestor⟩
  refine ⟨ys, hys, hbelow, fun hself => ?_, fun hnone => ?_⟩
  · obtain ⟨n, z, rfl, heq, -, -, hancestor⟩ := hbelow _ hself
    obtain rfl := Location.node.inj heq
    exact Nat.lt_irrefl _ (hwf.lt_of_isAncestor hancestor)
  · refine List.eq_nil_iff_forall_not_mem.2 fun y hy => ?_
    obtain ⟨n, z, hn, -, helement | ⟨-, hdocument⟩, -⟩ := hbelow y hy
    · rw [(hnone n hn).1] at helement
      cases helement
    · exact (hnone n hn).2 hdocument

/-- Of three paragraphs of which two are in a section, the second one is found from the section, and
the third one, which is beside it, is not. -/
theorem css_below_of_paragraphs :
    let d : Document := .parse "<div><p>a</p><p>b</p></div><p>c</p>"
    ∃ ys, (d.css "> p ~ p" (.node 4) (.empty 0)).1 = .ok ys ∧ .node 7 ∈ ys ∧ .node 9 ∉ ys ∧
      (d.css "> p ~ p" (.node 6) (.empty 0)).1 = .ok [] := by
  intro d
  obtain ⟨hwf, -, -⟩ := arena_parse "<div><p>a</p><p>b</p></div><p>c</p>"
  have hbare : d.arena.LeavesBare := Arena.leavesBare_ofForest _
  have hparse : Css.parse "> p ~ p" = .ok [[(.child, ⟨some "p", []⟩), (.sibling, ⟨some "p", []⟩)]] :=
    rfl
  have haccepted : ∃ scope q, compile (.css "> p ~ p" scope) = .ok q :=
    ⟨.node, _, (compile_eq_ok_iff hparse).2 ⟨nofun, rfl⟩⟩
  have hinward : Group.Inward [[(.child, ⟨some "p", []⟩), (.sibling, ⟨some "p", []⟩)]] := by
    simp [Group.Inward]
  have hsection : Location.node 4 ≠ root := by decide
  have hcontent : Location.node 6 ≠ root := by decide
  have hempty := Cache.faithful_empty 0
  have harena : 5 ∈ Combinator.candidates d.arena .child 4 ∧
      7 ∈ Combinator.candidates d.arena .sibling 5 ∧ (∀ x ∈ [5, 7],
        d.arena.elementName? x = some "p".toList) ∧
      d.arena.lastDescendant 4 = 8 ∧ d.arena.elementName? 6 = none ∧
      d.arena.data? 6 ≠ some .document := by decide +kernel
  obtain ⟨hfive, hseven, hnames, hlast, htext⟩ := harena
  have htype : ∀ x ∈ [5, 7], OfType d.arena "p" x := fun x hx => ⟨"p", hnames x hx, .inr rfl⟩
  have hfirst : .node 5 ∈ Complex.reach d.arena ([] ++ [(.child, ⟨some "p", []⟩)]) (.node 4) :=
    Complex.mem_reach_of_type hwf (by decide) (.head _) hfive (htype 5 (by simp))
  have hsecond : .node 7 ∈ Complex.reach d.arena
      ([(.child, ⟨some "p", []⟩)] ++ [(.sibling, ⟨some "p", []⟩)]) (.node 4) :=
    Complex.mem_reach_of_type hwf (by decide) ((Complex.approaches_iff_of_sibling (.inr rfl)).2 hfirst)
      hseven (htype 7 (by simp))
  obtain ⟨ys, hys, hbelow, -, -⟩ :=
    css_below (d := d) hwf hbare hparse haccepted hinward hsection hempty
  obtain ⟨zs, hzs, -, -, hnone⟩ :=
    css_below (d := d) hwf hbare hparse haccepted hinward hcontent hempty
  obtain ⟨xs, hxs, -, hmem⟩ := exists_css_eq_ok hempty hparse nofun d (.node 4)
  obtain rfl : xs = ys := Except.ok.inj (hxs.symm.trans hys)
  refine ⟨xs, hxs, (hmem _).2 ⟨_, List.mem_singleton_self _, hsecond⟩, fun hnine => ?_, ?_⟩
  · obtain ⟨n, z, hn, hz, -, -, hancestor⟩ := hbelow _ hnine
    obtain rfl := Location.node.inj hn
    obtain rfl := Location.node.inj hz
    have hle := hwf.le_lastDescendant hancestor
    rw [hlast] at hle
    omega
  · have hzero : zs = [] := hnone fun n hn => by
      obtain rfl := Location.node.inj hn
      exact htext
    rw [← hzero]
    exact hzs

end WebCrawl.Query.Document
