import Mathlib.Logic.Relation
import WebCrawl.Proofs.Html.OrderedTree

set_option autoImplicit false

/-!
# The nodes of a document

In the arena of a document what a node says of its relatives agrees with what they say of it: the
nodes below a node are those right after it up to its last descendant, its children stand among them
in order, each at its own index, and each has the node as its parent.

## Main definitions

* `WebCrawl.Html.Arena.Nested` — some nodes in a row agree about those of them that are related.
* `WebCrawl.Html.Arena.Rooted` — those of them that have their parent outside.
* `WebCrawl.Html.Arena.WellFormed` — all nodes of an arena agree.
* `WebCrawl.Html.Arena.IsParent`, `WebCrawl.Html.Arena.IsAncestor`,
  `WebCrawl.Html.Arena.IsFollowingSibling` — how nodes are related.
* `WebCrawl.Html.Arena.ElementsNested`, `WebCrawl.Html.Arena.DistinctNames`,
  `WebCrawl.Html.Arena.LeavesBare` — where elements stand, how their attributes are named, and what
  has nothing below it.

## Main results

* `WebCrawl.Html.Arena.wellFormed_ofTree`, `wellFormed_ofForest` — the arena of every tree, and so of
  every document, is well formed.
* `WebCrawl.Html.Arena.WellFormed.mem_children_iff`, `mem_descendants_iff`, `mem_ancestors_iff`,
  `mem_followingSiblings_iff` — the relatives of a node are the nodes so related.
* `WebCrawl.Html.Arena.elementsNested_ofForest`, `WebCrawl.Html.Arena.leavesBare_ofForest` — the
  elements of a document without documents within are below elements, and in every document texts,
  comments and doctypes have nothing below them.
-/

namespace WebCrawl.Html

/-! ## The number of nodes -/

mutual

lemma Tree.length_nodesFrom :
    ∀ (t : Tree) (id parent index : Nat), (t.nodesFrom id parent index).length = t.size
  | .element _ _ children, id, parent, index | .fragment children, id, parent, index => by
    simp [Tree.nodesFrom, Tree.size, length_forestNodesFrom children]
  | .text _, _, _, _ => rfl
  | .comment _, _, _, _ => rfl
  | .doctype _, _, _, _ => rfl
  | .other, _, _, _ => rfl

lemma length_forestNodesFrom :
    ∀ (ts : List Tree) (start parent index : Nat),
      (forestNodesFrom start parent index ts).length = forestSize ts
  | [], _, _, _ => rfl
  | t :: ts, start, parent, index => by
    simp [forestNodesFrom, forestSize, t.length_nodesFrom, length_forestNodesFrom ts]

end

/-! ## Nodes with others below them -/

mutual

/-- Whether no document stands within the tree. -/
def Tree.isWhole : Tree → Bool
  | .element _ _ children => forestIsWhole children
  | .fragment _ => false
  | _ => true

/-- Whether no document stands within the trees. -/
def forestIsWhole : List Tree → Bool
  | [] => true
  | t :: ts => t.isWhole && forestIsWhole ts

end

mutual

/-- Only elements have nodes below them, and the documents that stand within. -/
lemma Tree.branches_of_mem_nodesFrom :
    ∀ (t : Tree) (id parent index : Nat), ∀ n ∈ t.nodesFrom id parent index, n.children ≠ [] →
      (∃ name attributes, n.data = .element name attributes) ∨
        n.data = .document ∧ t.isWhole = false
  | .element name attributes children, id, parent, index => by
    rintro n hn hchildren
    rcases List.mem_cons.1 hn with rfl | hn
    · exact .inl ⟨name, attributes, rfl⟩
    · exact branches_of_mem_forestNodesFrom children _ _ _ n hn hchildren
  | .fragment children, id, parent, index => by
    rintro n hn hchildren
    rcases List.mem_cons.1 hn with rfl | hn
    · exact .inr ⟨rfl, rfl⟩
    · have hbelow := branches_of_mem_forestNodesFrom children _ _ _ n hn hchildren
      exact hbelow.imp_right fun hdocument => ⟨hdocument.1, rfl⟩
  | .text _, _, _, _ => by simp [Tree.nodesFrom]
  | .comment _, _, _, _ => by simp [Tree.nodesFrom]
  | .doctype _, _, _, _ => by simp [Tree.nodesFrom]
  | .other, _, _, _ => by simp [Tree.nodesFrom]

lemma branches_of_mem_forestNodesFrom :
    ∀ (ts : List Tree) (start parent index : Nat), ∀ n ∈ forestNodesFrom start parent index ts,
      n.children ≠ [] → (∃ name attributes, n.data = .element name attributes) ∨
        n.data = .document ∧ forestIsWhole ts = false
  | [], _, _, _ => nofun
  | t :: ts, start, parent, index => by
    rintro n hn hchildren
    rw [forestIsWhole, Bool.and_eq_false_iff]
    rcases List.mem_append.1 hn with hn | hn
    · have htree := t.branches_of_mem_nodesFrom _ _ _ n hn hchildren
      exact htree.imp_right fun hdocument => ⟨hdocument.1, .inl hdocument.2⟩
    · have hrest := branches_of_mem_forestNodesFrom ts _ _ _ n hn hchildren
      exact hrest.imp_right fun hdocument => ⟨hdocument.1, .inr hdocument.2⟩

end

namespace Arena

variable {a : Arena}

@[simp] lemma size_ofForest (forest : List Tree) : (ofForest forest).size = forestSize forest + 1 := by
  simp [ofForest, size, length_forestNodesFrom]

/-- What is read of a node that is there. -/
lemma reads_of_getElem? {id : Nat} {n : Node} (h : a.nodes[id]? = some n) :
    a.parent id = n.parent ∧ a.children id = n.children ∧ a.siblingIndex id = n.siblingIndex ∧
      a.lastDescendant id = n.lastDescendant := by
  simp [parent, children, siblingIndex, lastDescendant, h]

/-! ## Nodes in a row -/

/-- The nodes of a list stand in the arena from an index on. -/
def Shows (a : Arena) (start : Nat) (nodes : List Node) : Prop :=
  ∀ i n, nodes[i]? = some n → a.nodes[start + i]? = some n

lemma shows_cons {start : Nat} {n : Node} {nodes : List Node} (h : a.Shows start (n :: nodes)) :
    a.nodes[start]? = some n ∧ a.Shows (start + 1) nodes := by
  refine ⟨h 0 n rfl, fun i m hm => ?_⟩
  rw [Nat.add_right_comm]
  exact h (i + 1) m hm

lemma shows_append {start : Nat} {ns ms : List Node} (h : a.Shows start (ns ++ ms)) :
    a.Shows start ns ∧ a.Shows (start + ns.length) ms := by
  refine ⟨fun i n hn => h i n ?_, fun i n hn => ?_⟩
  · rw [List.getElem?_append_left (List.getElem?_eq_some_iff.1 hn).1]
    exact hn
  · rw [Nat.add_assoc]
    refine h (ns.length + i) n ?_
    rw [List.getElem?_append_right (Nat.le_add_right _ _), Nat.add_sub_cancel_left]
    exact hn

/-- The nodes from `first` on and before `stop` agree about those of them that are related. -/
structure Nested (a : Arena) (first stop : Nat) : Prop where
  /-- The descendants are among the nodes. -/
  last : ∀ y, first ≤ y → y < stop → y ≤ a.lastDescendant y ∧ a.lastDescendant y < stop
  /-- The children have the node as their parent. -/
  children : ∀ y, first ≤ y → y < stop → ∀ c ∈ a.children y, y < c ∧ c < stop ∧ a.parent c = some y
  /-- The children stand in order. -/
  sorted : ∀ y, first ≤ y → y < stop → (a.children y).Pairwise (· < ·)
  /-- A node comes after its parent, which knows it at its index, and does not reach further. -/
  parent : ∀ y p, first ≤ y → y < stop → a.parent y = some p → first ≤ p →
    p < y ∧ (a.children p)[a.siblingIndex y]? = some y ∧ a.lastDescendant y ≤ a.lastDescendant p
  /-- A node within the descendants of another has its parent there, or the other as its parent. -/
  within : ∀ x y, first ≤ x → x < stop → x < y → y ≤ a.lastDescendant x →
    ∃ p, a.parent y = some p ∧ x ≤ p

/-- The nodes from `first` on and before `stop` have their parents there, except the roots, which
have the parent `above` and stand among its children from an index on. -/
structure Rooted (a : Arena) (first stop above : Nat) (roots : List Nat) (index : Nat) : Prop where
  /-- The roots are there and have the parent. -/
  inside : ∀ c ∈ roots, first ≤ c ∧ c < stop ∧ a.parent c = some above
  /-- The roots stand in order. -/
  sorted : roots.Pairwise (· < ·)
  /-- Every node is a root at its index or has its parent there. -/
  parent : ∀ y, first ≤ y → y < stop →
    (a.parent y = some above ∧ index ≤ a.siblingIndex y ∧
      roots[a.siblingIndex y - index]? = some y) ∨
    ∃ p, a.parent y = some p ∧ first ≤ p

lemma nested_nil (first : Nat) : a.Nested first first where
  last _ _ _ := by omega
  children _ _ _ := by omega
  sorted _ _ _ := by omega
  parent _ _ _ _ := by omega
  within _ _ _ _ := by omega

lemma rooted_nil (first above index : Nat) : a.Rooted first first above [] index where
  inside := by simp
  sorted := .nil
  parent _ _ _ := by omega

/-- A node right before nodes that agree and are rooted in it agrees with them. -/
lemma nested_cons {id stop : Nat} (hn : a.Nested (id + 1) stop)
    (hr : a.Rooted (id + 1) stop id (a.children id) 0) (hlast : a.lastDescendant id + 1 = stop)
    (hup : ∀ p, a.parent id = some p → p < id) : a.Nested id stop where
  last y hy hys := by
    obtain rfl | hlt := Nat.eq_or_lt_of_le hy
    · omega
    · exact hn.last y hlt hys
  children y hy hys c hc := by
    obtain rfl | hlt := Nat.eq_or_lt_of_le hy
    · exact hr.inside c hc
    · exact hn.children y hlt hys c hc
  sorted y hy hys := by
    obtain rfl | hlt := Nat.eq_or_lt_of_le hy
    · exact hr.sorted
    · exact hn.sorted y hlt hys
  parent y p hy hys hp hidp := by
    obtain rfl | hlt := Nat.eq_or_lt_of_le hy
    · exact absurd (hup p hp) (by omega)
    · obtain rfl | hlt' := Nat.eq_or_lt_of_le hidp
      · have hy' := hn.last y hlt hys
        rcases hr.parent y hlt hys with ⟨-, -, hindex⟩ | ⟨q, hq, hlq⟩
        · exact ⟨hlt, hindex, by omega⟩
        · obtain rfl := Option.some.inj (hp.symm.trans hq)
          omega
      · exact hn.parent y p hlt hys hp hlt'
  within x y hx hxs hxy hy := by
    obtain rfl | hlt := Nat.eq_or_lt_of_le hx
    · rcases hr.parent y hxy (by omega) with ⟨hp, -⟩ | ⟨p, hp, hlp⟩
      · exact ⟨_, hp, Nat.le_refl _⟩
      · exact ⟨p, hp, by omega⟩
    · exact hn.within x y hlt hxs hxy hy

/-- Two rows of nodes that agree, one after the other. -/
lemma nested_append {first mid stop above index : Nat} {roots : List Nat}
    (hn : a.Nested first mid) (hn' : a.Nested mid stop) (hle' : mid ≤ stop)
    (hr' : a.Rooted mid stop above roots index) (habove : above < first) :
    a.Nested first stop where
  last y hy hys := by
    by_cases hym : y < mid
    · have := hn.last y hy hym
      omega
    · exact hn'.last y (by omega) hys
  children y hy hys c hc := by
    by_cases hym : y < mid
    · have := hn.children y hy hym c hc
      exact ⟨this.1, by omega, this.2.2⟩
    · exact hn'.children y (by omega) hys c hc
  sorted y hy hys := by
    by_cases hym : y < mid
    · exact hn.sorted y hy hym
    · exact hn'.sorted y (by omega) hys
  parent y p hy hys hp hfp := by
    by_cases hym : y < mid
    · exact hn.parent y p hy hym hp hfp
    · -- the parent of a later node is the one above or a later node too
      rcases hr'.parent y (by omega) hys with ⟨hq, -⟩ | ⟨q, hq, hmq⟩
      · obtain rfl := Option.some.inj (hp.symm.trans hq)
        omega
      · obtain rfl := Option.some.inj (hp.symm.trans hq)
        exact hn'.parent y p (by omega) hys hp hmq
  within x y hx hxs hxy hy := by
    by_cases hxm : x < mid
    · exact hn.within x y hx hxm hxy hy
    · exact hn'.within x y (by omega) hxs hxy hy

lemma rooted_append {first mid stop above index : Nat} {roots roots' : List Nat}
    (hr : a.Rooted first mid above roots index) (hle : first ≤ mid) (hle' : mid ≤ stop)
    (hr' : a.Rooted mid stop above roots' (index + roots.length)) :
    a.Rooted first stop above (roots ++ roots') index where
  inside c hc := by
    rcases List.mem_append.1 hc with hc | hc
    · have := hr.inside c hc
      exact ⟨this.1, by omega, this.2.2⟩
    · have := hr'.inside c hc
      exact ⟨by omega, this.2.1, this.2.2⟩
  sorted := List.pairwise_append.2 ⟨hr.sorted, hr'.sorted, fun c hc d hd => by
    have := hr.inside c hc
    have := hr'.inside d hd
    omega⟩
  parent y hy hys := by
    by_cases hym : y < mid
    · rcases hr.parent y hy hym with ⟨hp, hi, hroot⟩ | hp
      · refine .inl ⟨hp, hi, ?_⟩
        rw [List.getElem?_append_left (List.getElem?_eq_some_iff.1 hroot).1]
        exact hroot
      · exact .inr hp
    · rcases hr'.parent y (by omega) hys with ⟨hp, hi, hroot⟩ | ⟨p, hp, hmp⟩
      · refine .inl ⟨hp, by omega, ?_⟩
        rw [List.getElem?_append_right (by omega), Nat.sub_sub]
        exact hroot
      · exact .inr ⟨p, hp, by omega⟩

/-! ## The nodes of trees -/

/-- A node with agreeing nodes after it that are rooted in it. -/
lemma rooted_tree {id stop above index : Nat} (hlt : id < stop)
    (hr : a.Rooted (id + 1) stop id (a.children id) 0) (hup : a.parent id = some above)
    (hindex : a.siblingIndex id = index) : a.Rooted id stop above [id] index where
  inside c hc := by
    obtain rfl := List.mem_singleton.1 hc
    exact ⟨Nat.le_refl _, hlt, hup⟩
  sorted := List.pairwise_singleton ..
  parent y hy hys := by
    obtain rfl | hlt := Nat.eq_or_lt_of_le hy
    · exact .inl ⟨hup, (Nat.le_of_eq hindex.symm), by simp [hindex]⟩
    · rcases hr.parent y hlt hys with ⟨hp, -⟩ | ⟨p, hp, hmp⟩
      · exact .inr ⟨_, hp, Nat.le_refl _⟩
      · exact .inr ⟨p, hp, by omega⟩

mutual

/-- The nodes of a tree agree, and its root is the only one that has its parent outside. -/
lemma nested_tree : ∀ (t : OrderedTree) {id above index : Nat}, above < id →
    a.Shows id (t.entries id (some above) index) →
    a.Nested id (id + t.size) ∧ a.Rooted id (id + t.size) above [id] index
  | .node data ts, id, above, index, habove, h => by
    obtain ⟨hid, hts⟩ := shows_cons h
    obtain ⟨hparent, hchildren, hsibling, hlast⟩ := reads_of_getElem? hid
    obtain ⟨hn, hr⟩ := nested_forest ts (Nat.lt_succ_self id) hts
    have hstop : id + 1 + OrderedTree.sizes ts = id + (OrderedTree.node data ts).size := by
      simp only [OrderedTree.size]
      omega
    rw [hstop] at hn hr
    rw [show OrderedTree.indices _ ts = a.children id from hchildren.symm] at hr
    refine ⟨nested_cons hn hr (by rw [hlast]; exact hstop ▸ by omega) fun p hp => ?_,
      rooted_tree (by simp only [OrderedTree.size]; omega) hr hparent hsibling⟩
    obtain rfl := Option.some.inj (hparent.symm.trans hp)
    exact habove

lemma nested_forest : ∀ (ts : List OrderedTree) {first above index : Nat}, above < first →
    a.Shows first (OrderedTree.entriesBelow first above index ts) →
    a.Nested first (first + OrderedTree.sizes ts) ∧
      a.Rooted first (first + OrderedTree.sizes ts) above (OrderedTree.indices first ts) index
  | [], first, above, index, _, _ => ⟨nested_nil first, rooted_nil first above index⟩
  | t :: ts, first, above, index, habove, h => by
    obtain ⟨ht, hts⟩ := shows_append h
    rw [t.length_entries] at hts
    obtain ⟨hn, hr⟩ := nested_tree t habove ht
    obtain ⟨hn', hr'⟩ := nested_forest ts (by omega) hts
    rw [OrderedTree.sizes, ← Nat.add_assoc]
    exact ⟨nested_append hn hn' (Nat.le_add_right _ _) hr' habove,
      rooted_append hr (Nat.le_add_right _ _) (Nat.le_add_right _ _) hr'⟩

end

/-! ## Well-formed arenas -/

/-- All nodes of an arena agree, and all of them are below the first. -/
structure WellFormed (a : Arena) : Prop extends Nested a 0 a.size where
  /-- Nothing is above the first node. -/
  root : a.parent 0 = none
  /-- Something is above every other node. -/
  exists_parent : ∀ y, 0 < y → y < a.size → ∃ p, a.parent y = some p

/-- The nodes of a tree stand in its arena. -/
lemma shows_ofTree (t : OrderedTree) : (ofTree t).Shows 0 (t.entries 0 none 0) := fun i n hn => by
  rw [Nat.zero_add, ofTree, List.getElem?_toArray]
  exact hn

/-- The arena of every tree is well formed. -/
theorem wellFormed_ofTree (t : OrderedTree) : (ofTree t).WellFormed := by
  obtain ⟨data, ts⟩ := t
  obtain ⟨hid, hforest⟩ := shows_cons (shows_ofTree (.node data ts))
  obtain ⟨hparent, hchildren, -, hlast⟩ := reads_of_getElem? hid
  obtain ⟨hn, hr⟩ := nested_forest ts (Nat.lt_succ_self 0) hforest
  have hstop : 0 + 1 + OrderedTree.sizes ts = (ofTree (.node data ts)).size := by
    rw [size_ofTree, OrderedTree.size, Nat.zero_add, Nat.add_comm]
  rw [hstop] at hn hr
  rw [show OrderedTree.indices _ ts = (ofTree (.node data ts)).children 0 from hchildren.symm] at hr
  have hnested := nested_cons hn hr (by rw [hlast, ← hstop, Nat.add_right_comm]) fun p hp => by
    cases hparent.symm.trans hp
  refine { hnested with root := hparent, exists_parent := fun y hy hys => ?_ }
  rcases hr.parent y hy hys with ⟨hp, -⟩ | ⟨p, hp, -⟩
  · exact ⟨_, hp⟩
  · exact ⟨p, hp⟩

/-- The arena of every document is well formed. -/
theorem wellFormed_ofForest (forest : List Tree) : (ofForest forest).WellFormed :=
  ofForest_eq forest ▸ wellFormed_ofTree _

/-! ## How nodes are related -/

/-- One node is right above another. -/
def IsParent (a : Arena) (x y : Nat) : Prop := a.parent y = some x

/-- One node is above another. -/
def IsAncestor (a : Arena) : Nat → Nat → Prop := Relation.TransGen a.IsParent

/-- One node comes before another, and both have the same parent. -/
def IsFollowingSibling (a : Arena) (x y : Nat) : Prop :=
  x < y ∧ ∃ p, a.IsParent p x ∧ a.IsParent p y

@[simp] lemma mem_range {first last y : Nat} : y ∈ range first last ↔ first ≤ y ∧ y ≤ last := by
  simp only [range, List.mem_range'_1]
  omega

/-- Only a node of the arena has something above it. -/
lemma IsParent.lt_size {x y : Nat} (h : a.IsParent x y) : y < a.size := by
  obtain ⟨n, hn, -⟩ := Option.bind_eq_some_iff.1 h
  exact (Array.getElem?_eq_some_iff.1 hn).1

/-- What is not in the arena has nothing below it. -/
lemma reads_of_size_le {x : Nat} (h : a.size ≤ x) :
    a.children x = [] ∧ a.lastDescendant x = x := by
  have hnone : a.nodes[x]? = none := Array.getElem?_eq_none h
  simp [children, lastDescendant, hnone]

namespace WellFormed

variable {x y p : Nat}

/-- A node comes after its parent. -/
lemma lt_of_isParent (h : a.WellFormed) (hp : a.IsParent p y) : p < y :=
  (h.parent y p (Nat.zero_le _) hp.lt_size hp (Nat.zero_le _)).1

/-- A node comes after those above it. -/
lemma lt_of_isAncestor (h : a.WellFormed) (hp : a.IsAncestor x y) : x < y := by
  induction hp with
  | single hp => exact h.lt_of_isParent hp
  | tail _ hp ih => exact Nat.lt_trans ih (h.lt_of_isParent hp)

lemma lt_size_of_isAncestor (hp : a.IsAncestor x y) : y < a.size := by
  cases hp with
  | single hp => exact hp.lt_size
  | tail _ hp => exact hp.lt_size

/-- The children of a node are those that have it as their parent. -/
theorem mem_children_iff (h : a.WellFormed) : y ∈ a.children x ↔ a.IsParent x y := by
  constructor
  · intro hy
    by_cases hx : x < a.size
    · exact (h.children x (Nat.zero_le _) hx y hy).2.2
    · rw [(reads_of_size_le (by omega)).1] at hy
      cases hy
  · intro hp
    obtain ⟨-, hi, -⟩ := h.parent y x (Nat.zero_le _) hp.lt_size hp (Nat.zero_le _)
    exact List.mem_of_getElem? hi

/-- The children of a node stand in order. -/
lemma sorted_children (h : a.WellFormed) (x : Nat) : (a.children x).Pairwise (· < ·) := by
  by_cases hx : x < a.size
  · exact h.sorted x (Nat.zero_le _) hx
  · rw [(reads_of_size_le (by omega)).1]
    exact .nil

/-- A node reaches as far as those below it. -/
lemma le_lastDescendant (h : a.WellFormed) (hp : a.IsAncestor x y) : y ≤ a.lastDescendant x := by
  have hlast : a.lastDescendant y ≤ a.lastDescendant x := by
    induction hp with
    | single hp => exact (h.parent _ x (Nat.zero_le _) hp.lt_size hp (Nat.zero_le _)).2.2
    | tail _ hp ih =>
      exact Nat.le_trans (h.parent _ _ (Nat.zero_le _) hp.lt_size hp (Nat.zero_le _)).2.2 ih
  exact Nat.le_trans (h.last y (Nat.zero_le _) (lt_size_of_isAncestor hp)).1 hlast

/-- A node that comes after another and within its reach is below it. -/
lemma isAncestor_of_le (h : a.WellFormed) (hx : x < a.size) (hxy : x < y)
    (hy : y ≤ a.lastDescendant x) : a.IsAncestor x y := by
  induction y using Nat.strongRecOn with
  | _ y ih =>
    obtain ⟨p, hp, hxp⟩ := h.within x y (Nat.zero_le _) hx hxy hy
    have hpy : p < y := h.lt_of_isParent hp
    obtain rfl | hlt := Nat.eq_or_lt_of_le hxp
    · exact .single hp
    · exact .tail (ih p hpy hlt (by omega)) hp

/-- The descendants of a node are those that have it above them. -/
theorem mem_descendants_iff (h : a.WellFormed) : y ∈ a.descendants x ↔ a.IsAncestor x y := by
  rw [descendants, mem_range]
  constructor
  · rintro ⟨hxy, hy⟩
    by_cases hx : x < a.size
    · exact h.isAncestor_of_le hx hxy hy
    · rw [(reads_of_size_le (by omega)).2] at hy
      omega
  · exact fun hp => ⟨h.lt_of_isAncestor hp, h.le_lastDescendant hp⟩

/-- A node and all nodes below it are those up to its last descendant. -/
lemma mem_range_lastDescendant_iff (h : a.WellFormed) (hx : x < a.size) :
    y ∈ range x (a.lastDescendant x) ↔ Relation.ReflTransGen a.IsParent x y := by
  have hlast := (h.last x (Nat.zero_le _) hx).1
  rw [Relation.reflTransGen_iff_eq_or_transGen, mem_range]
  constructor
  · rintro ⟨hxy, hy⟩
    rcases Nat.eq_or_lt_of_le hxy with rfl | hlt
    · exact .inl rfl
    · exact .inr (h.isAncestor_of_le hx hlt hy)
  · rintro (rfl | hxy)
    · exact ⟨Nat.le_refl _, hlast⟩
    · exact ⟨Nat.le_of_lt (h.lt_of_isAncestor hxy), h.le_lastDescendant hxy⟩

/-- The nodes above a node, looked for far enough. -/
lemma mem_ancestorsUpTo_iff (h : a.WellFormed) {fuel : Nat} (hy : y ≤ fuel) :
    x ∈ a.ancestorsUpTo fuel y ↔ a.IsAncestor x y := by
  induction fuel generalizing y with
  | zero =>
    obtain rfl : y = 0 := by omega
    exact ⟨nofun, fun hx => absurd (h.lt_of_isAncestor hx) (by omega)⟩
  | succ fuel ih =>
    rw [ancestorsUpTo, IsAncestor, Relation.TransGen.tail'_iff]
    cases hp : a.parent y with
    | none => simp [IsParent, hp]
    | some p =>
      have hpy : p < y := h.lt_of_isParent hp
      have hone : ∀ q, a.IsParent q y ↔ q = p := fun q => by
        rw [IsParent, hp, Option.some.injEq, eq_comm]
      simp only [List.mem_cons, ih (y := p) (by omega), hone, exists_eq_right,
        Relation.reflTransGen_iff_eq_or_transGen, IsAncestor]
      rw [eq_comm]

/-- The nodes above a node are its ancestors. -/
theorem mem_ancestors_iff (h : a.WellFormed) : x ∈ a.ancestors y ↔ a.IsAncestor x y :=
  h.mem_ancestorsUpTo_iff (Nat.le_refl y)

/-! ### Siblings -/

/-- In a list in order the elements after and before one are the greater and the smaller ones. -/
lemma mem_drop_take_iff {l : List Nat} (hl : l.Pairwise (· < ·)) {i x y : Nat}
    (hx : l[i]? = some x) :
    (y ∈ l.drop (i + 1) ↔ y ∈ l ∧ x < y) ∧ (y ∈ l.take i ↔ y ∈ l ∧ y < x) := by
  obtain ⟨hi, rfl⟩ := List.getElem?_eq_some_iff.1 hx
  have hsplit : l = l.take i ++ l[i] :: l.drop (i + 1) := by
    rw [← List.drop_eq_getElem_cons hi, List.take_append_drop]
  have hmem : y ∈ l ↔ y ∈ l.take i ∨ y = l[i] ∨ y ∈ l.drop (i + 1) := by
    rw [← List.mem_cons, ← List.mem_append, ← hsplit]
  have hsorted : (l.take i ++ l[i] :: l.drop (i + 1)).Pairwise (· < ·) := hsplit ▸ hl
  rw [List.pairwise_append, List.pairwise_cons] at hsorted
  obtain ⟨-, ⟨hafter, -⟩, hbefore⟩ := hsorted
  have hless : y ∈ l.take i → y < l[i] := fun hy => hbefore y hy _ (List.mem_cons_self ..)
  rw [hmem]
  constructor
  · refine ⟨fun hy => ⟨.inr (.inr hy), hafter y hy⟩, ?_⟩
    rintro ⟨hy | rfl | hy, hlt⟩
    · exact absurd (hless hy) (by omega)
    · omega
    · exact hy
  · refine ⟨fun hy => ⟨.inl hy, hless hy⟩, ?_⟩
    rintro ⟨hy | rfl | hy, hlt⟩
    · exact hy
    · omega
    · exact absurd (hafter y hy) (by omega)

/-- The siblings after a node are those that come after it. -/
theorem mem_followingSiblings_iff (h : a.WellFormed) :
    y ∈ a.followingSiblings x ↔ a.IsFollowingSibling x y := by
  unfold followingSiblings IsFollowingSibling
  cases hp : a.parent x with
  | none => simp [IsParent, hp]
  | some p =>
    have hxp : a.IsParent p x := hp
    obtain ⟨-, hi, -⟩ := h.parent x p (Nat.zero_le _) hxp.lt_size hp (Nat.zero_le _)
    rw [(mem_drop_take_iff (h.sorted_children p) hi).1, h.mem_children_iff, and_comm]
    simp [IsParent, hp]

/-- The siblings before a node are those that it comes after. -/
lemma mem_precedingSiblings_iff (h : a.WellFormed) :
    y ∈ a.precedingSiblings x ↔ a.IsFollowingSibling y x := by
  unfold precedingSiblings IsFollowingSibling
  cases hp : a.parent x with
  | none => simp [IsParent, hp]
  | some p =>
    have hxp : a.IsParent p x := hp
    obtain ⟨-, hi, -⟩ := h.parent x p (Nat.zero_le _) hxp.lt_size hp (Nat.zero_le _)
    rw [(mem_drop_take_iff (h.sorted_children p) hi).2, h.mem_children_iff, and_comm]
    simp [IsParent, hp]

end WellFormed

/-! ## Elements -/

/-- No element has two attributes of one name, whatever the case of its letters. -/
def DistinctNames (a : Arena) : Prop :=
  ∀ id, (a.attributes id).Pairwise fun x y => Text.sameLetters x.1 y.1 = false

/-- Where names are distinct, an attribute is known by its name. -/
lemma DistinctNames.index_eq (h : a.DistinctNames) {id i j : Nat} {p q : Text × Text}
    (hp : (a.attributes id)[i]? = some p) (hq : (a.attributes id)[j]? = some q)
    (hsame : Text.sameLetters p.1 q.1 = true) : i = j := by
  obtain ⟨hi, rfl⟩ := List.getElem?_eq_some_iff.1 hp
  obtain ⟨hj, rfl⟩ := List.getElem?_eq_some_iff.1 hq
  have hdistinct := List.pairwise_iff_getElem.1 (h id)
  rcases Nat.lt_trichotomy i j with hij | hij | hij
  · cases hsame.symm.trans (hdistinct i j hi hj hij)
  · exact hij
  · rw [Text.sameLetters_comm] at hsame
    cases hsame.symm.trans (hdistinct j i hj hi hij)

/-- An element that is not directly below the root is directly below another element. -/
def ElementsNested (a : Arena) : Prop :=
  ∀ x p, (a.elementName? x).isSome → a.IsParent p x → p ≠ root → (a.elementName? p).isSome

/-- An element is a node of the arena. -/
lemma lt_size_of_isElement {x : Nat} (hx : (a.elementName? x).isSome) : x < a.size := by
  rcases Nat.lt_or_ge x a.size with hlt | hle
  · exact hlt
  · have hnone : a.nodes[x]? = none := Array.getElem?_eq_none hle
    simp [elementName?, data?, hnone] at hx

/-- Only elements and documents have anything below them. -/
def LeavesBare (a : Arena) : Prop :=
  ∀ p x, a.IsParent p x → (a.elementName? p).isSome ∨ a.data? p = some .document

/-- In the arena of a document what has something below it is the root, an element or a document
within. -/
lemma branches_ofForest {forest : List Tree} {p x : Nat} (hp : (ofForest forest).IsParent p x) :
    p = root ∨ ((ofForest forest).elementName? p).isSome ∨
      (ofForest forest).data? p = some .document ∧ forestIsWhole forest = false := by
  refine or_iff_not_imp_left.2 fun hroot => ?_
  have hchild : x ∈ (ofForest forest).children p :=
    (wellFormed_ofForest forest).mem_children_iff.2 hp
  cases hn : (ofForest forest).nodes[p]? with
  | none => simp [children, hn] at hchild
  | some n =>
    obtain ⟨q, rfl⟩ : ∃ q, p = q + 1 := Nat.exists_eq_succ_of_ne_zero hroot
    have hmem : n ∈ forestNodesFrom 1 0 0 forest := by
      rw [ofForest, List.getElem?_toArray, List.getElem?_cons_succ] at hn
      exact List.mem_of_getElem? hn
    have hne : n.children ≠ [] := by
      rintro hnil
      simp [children, hn, hnil] at hchild
    rcases branches_of_mem_forestNodesFrom forest 1 0 0 n hmem hne with ⟨name, attributes, hdata⟩ | h
    · exact .inl (by simp [elementName?, data?, hn, hdata])
    · exact .inr ⟨by rw [data?, hn, Option.map_some, h.1], h.2⟩

/-- In the arena of a document without documents within, elements are below the root or below
elements. -/
theorem elementsNested_ofForest {forest : List Tree} (hwhole : forestIsWhole forest = true) :
    (ofForest forest).ElementsNested := by
  intro x p _ hp hroot
  rcases branches_ofForest hp with rfl | helement | ⟨-, hdivided⟩
  · exact absurd rfl hroot
  · exact helement
  · cases hwhole.symm.trans hdivided

/-- In the arena of every document texts, comments and doctypes have nothing below them. -/
theorem leavesBare_ofForest (forest : List Tree) : (ofForest forest).LeavesBare := by
  intro p x hp
  rcases branches_ofForest hp with rfl | helement | ⟨hdocument, -⟩
  · exact .inr rfl
  · exact .inl helement
  · exact .inr hdocument

end Arena

end WebCrawl.Html
