import Mathlib.Data.List.Nodup
import WebCrawl.Proofs.Html.Flattening
import WebCrawl.Proofs.XPath.NodeSets

set_option autoImplicit false

/-!
# The axes of a document

Seen from one node, a document falls into the node itself, what is above and below it, and what comes
before and after it. What an axis leads to leads back along its mirror axis, and each axis lists what it
leads to by nearness, so that a predicate counts from the nearest location on.

## Main definitions

* `WebCrawl.XPath.Axis.Reaches` — an axis leads from one node to another.
* `WebCrawl.XPath.Axis.mirror` — the axis that leads back.
* `WebCrawl.XPath.Axis.isReverse`, `WebCrawl.XPath.Axis.nearer`, `WebCrawl.XPath.Axis.place` — the
  direction of an axis, which of two locations on it is nearer, and the place of a location by nearness.
* `WebCrawl.XPath.Axis.Lawful` — the laws of the axes in an arena.

## Main results

* `WebCrawl.XPath.Axis.reaches_mirror_iff` — an axis and its mirror axis lead to and fro.
* `WebCrawl.XPath.Axis.existsUnique_reaches` — five axes part the document.
* `WebCrawl.XPath.Axis.pairwise_locations` — the locations of an axis stand by nearness.
* `WebCrawl.XPath.mem_reach_concat_iff` — a predicate sees each location at its place by nearness.
* `WebCrawl.XPath.Axis.lawful` — the axes are lawful in the arena of every document.
-/

namespace WebCrawl.XPath

open Html Location

variable {a : Arena} {x y : Nat}

/-! ## Where axes lead -/

/-- The axis leads from one node to another. -/
def Axis.Reaches (axis : Axis) (a : Arena) (x y : Nat) : Prop :=
  Location.node y ∈ axis.locations a (.node x)

/-- The axis that leads back. Attributes are no nodes, so that their axis leads to none. -/
def Axis.mirror : Axis → Axis
  | child => parent
  | parent => child
  | descendant => ancestor
  | ancestor => descendant
  | descendantOrSelf => ancestorOrSelf
  | ancestorOrSelf => descendantOrSelf
  | followingSibling => precedingSibling
  | precedingSibling => followingSibling
  | following => preceding
  | preceding => following
  | self => self
  | attributes => attributes

/-- The axes that part a document around each of its nodes. -/
def Axis.parting : List Axis := [.self, .ancestor, .descendant, .following, .preceding]

lemma Axis.reaches_iff {axis : Axis} : axis.Reaches a x y ↔ y ∈ axis.ofNode a x := by
  cases axis <;> simp [Reaches, locations, ofNode]

section Reaches

/-- What follows a node comes after all that is below it. -/
lemma reaches_following_iff :
    Axis.following.Reaches a x y ↔ a.lastDescendant x < y ∧ y < a.size := by
  rw [Axis.reaches_iff, Axis.ofNode, List.mem_range'_1]
  omega

variable (h : a.WellFormed)
include h

/-- What precedes a node comes before it and is not above it. -/
lemma reaches_preceding_iff : Axis.preceding.Reaches a x y ↔ y < x ∧ ¬a.IsAncestor y x := by
  rw [Axis.reaches_iff, Axis.ofNode, preceding, List.mem_filter, List.mem_reverse, List.mem_range,
    ← h.mem_ancestors_iff]
  simp

lemma reaches_child_iff : Axis.child.Reaches a x y ↔ a.IsParent x y :=
  Axis.reaches_iff.trans h.mem_children_iff

lemma reaches_descendant_iff : Axis.descendant.Reaches a x y ↔ a.IsAncestor x y :=
  Axis.reaches_iff.trans h.mem_descendants_iff

lemma reaches_ancestor_iff : Axis.ancestor.Reaches a x y ↔ a.IsAncestor y x :=
  Axis.reaches_iff.trans h.mem_ancestors_iff

lemma reaches_followingSibling_iff :
    Axis.followingSibling.Reaches a x y ↔ a.IsFollowingSibling x y :=
  Axis.reaches_iff.trans h.mem_followingSiblings_iff

/-- The descendants of a node are its children, their children and so on. -/
lemma reaches_descendant_iff_transGen :
    Axis.descendant.Reaches a x y ↔ Relation.TransGen (Axis.child.Reaches a) x y := by
  rw [reaches_descendant_iff h,
    show Axis.child.Reaches a = a.IsParent from funext₂ fun _ _ => propext (reaches_child_iff h)]
  rfl

end Reaches

/-! ## Mirrors -/

/-- An axis leads from a node to another where its mirror axis leads back. -/
theorem Axis.reaches_mirror_iff (h : a.WellFormed) (axis : Axis) (hx : x < a.size)
    (hy : y < a.size) : axis.Reaches a x y ↔ axis.mirror.Reaches a y x := by
  have hchild : ∀ {x y}, child.Reaches a x y ↔ parent.Reaches a y x := by
    intro x y
    rw [reaches_child_iff h, reaches_iff, ofNode, Option.mem_toList]
    rfl
  have hdescendant : ∀ {x y}, descendant.Reaches a x y ↔ ancestor.Reaches a y x := by
    intro x y
    rw [reaches_descendant_iff h, reaches_ancestor_iff h]
  have hself : ∀ {x y}, x < a.size →
      (descendantOrSelf.Reaches a x y ↔ ancestorOrSelf.Reaches a y x) := by
    intro x y hx
    rw [reaches_iff, ofNode, h.mem_range_lastDescendant_iff hx, reaches_iff, ofNode, List.mem_cons,
      h.mem_ancestors_iff, Relation.reflTransGen_iff_eq_or_transGen, eq_comm]
    rfl
  have hsibling : ∀ {x y}, followingSibling.Reaches a x y ↔ precedingSibling.Reaches a y x := by
    intro x y
    rw [reaches_followingSibling_iff h, reaches_iff, ofNode, List.mem_reverse,
      h.mem_precedingSiblings_iff]
  have hfollowing : ∀ {x y}, x < a.size → y < a.size →
      (following.Reaches a x y ↔ preceding.Reaches a y x) := by
    intro x y hx hy
    have hlast := (h.last x (Nat.zero_le _) hx).1
    rw [reaches_following_iff, reaches_preceding_iff h, ← h.within_iff]
    omega
  cases axis with
  | child => exact hchild
  | parent => exact hchild.symm
  | descendant => exact hdescendant
  | ancestor => exact hdescendant.symm
  | descendantOrSelf => exact hself hx
  | ancestorOrSelf => exact (hself hy).symm
  | followingSibling => exact hsibling
  | precedingSibling => exact hsibling.symm
  | following => exact hfollowing hx hy
  | preceding => exact (hfollowing hy hx).symm
  | self => simp [reaches_iff, ofNode, mirror, eq_comm]
  | attributes => simp [reaches_iff, ofNode, mirror]

/-! ## Parts of a document -/

/-- The parting axis on which one node sees another. -/
def Axis.towards (a : Arena) (x y : Nat) : Axis :=
  if x < y then if y ≤ a.lastDescendant x then descendant else following
  else if y < x then if x ≤ a.lastDescendant y then ancestor else preceding
  else self

lemma Axis.towards_mem (a : Arena) (x y : Nat) : towards a x y ∈ parting := by
  unfold towards
  split_ifs <;> simp [parting]

/-- A parting axis leads from a node to another only if it is the one on which the node sees it. -/
lemma Axis.reaches_iff_eq_towards (h : a.WellFormed) (hx : x < a.size) (hy : y < a.size) {axis : Axis}
    (haxis : axis ∈ parting) : axis.Reaches a x y ↔ axis = towards a x y := by
  have hlastx := (h.last x (Nat.zero_le _) hx).1
  have hlasty := (h.last y (Nat.zero_le _) hy).1
  -- where the axes lead is a matter of indices
  have hself : self.Reaches a x y ↔ y = x := by simp [reaches_iff, ofNode]
  have hdescendant := (reaches_descendant_iff h).trans (h.within_iff (x := x) (y := y)).symm
  have hancestor := (reaches_ancestor_iff h).trans (h.within_iff (x := y) (y := x)).symm
  have hfollowing := reaches_following_iff (a := a) (x := x) (y := y)
  have hpreceding := reaches_preceding_iff h (x := x) (y := y)
  rw [← h.within_iff] at hpreceding
  simp only [parting, List.mem_cons, List.not_mem_nil, or_false] at haxis
  unfold towards
  rcases haxis with rfl | rfl | rfl | rfl | rfl
  · rw [hself]
    split_ifs <;> simp <;> omega
  · rw [hancestor]
    split_ifs <;> simp <;> omega
  · rw [hdescendant]
    split_ifs <;> simp <;> omega
  · rw [hfollowing]
    split_ifs <;> simp <;> omega
  · rw [hpreceding]
    split_ifs <;> simp <;> omega

/-- Exactly one of the parting axes leads from a node to another. -/
theorem Axis.existsUnique_reaches (h : a.WellFormed) (hx : x < a.size) (hy : y < a.size) :
    ∃! axis, axis ∈ parting ∧ axis.Reaches a x y := by
  have hmem := towards_mem a x y
  refine ⟨towards a x y, ⟨hmem, (reaches_iff_eq_towards h hx hy hmem).2 rfl⟩, ?_⟩
  rintro axis ⟨haxis, hreaches⟩
  exact (reaches_iff_eq_towards h hx hy haxis).1 hreaches

/-! ## Nearness -/

/-- The axis leads back in the document, so that the nearest location is the last. -/
def Axis.isReverse : Axis → Bool
  | parent | ancestor | ancestorOrSelf | preceding | precedingSibling => true
  | _ => false

/-- Of two locations of an axis the first is nearer. -/
def Axis.nearer (axis : Axis) (y z : Location) : Bool :=
  if axis.isReverse then z.before y else y.before z

lemma before_node : Location.before (.node x) (.node y) = true ↔ x < y := by
  simp [before_iff, owner, rank]

lemma Axis.nearer_irrefl (axis : Axis) (y : Location) : axis.nearer y y = false := by
  simp [nearer, before_irrefl]

/-- Of two locations at most one is nearer than the other. -/
lemma Axis.nearer_asymm {axis : Axis} {y z : Location} (hyz : axis.nearer y z = true) :
    axis.nearer z y = false := by
  have hasymm : ∀ {y z : Location}, before y z = true → before z y = false := by
    intro y z hyz
    rw [Bool.eq_false_iff]
    exact fun hzy => absurd (before_trans hyz hzy) (by simp [before_irrefl])
  unfold nearer at hyz ⊢
  split_ifs at hyz ⊢ with hreverse
  · exact hasymm hyz
  · exact hasymm hyz

/-- The nodes above a node have smaller and smaller indices. -/
lemma pairwise_ancestors (h : a.WellFormed) (x : Nat) : (x :: a.ancestors x).Pairwise (· > ·) := by
  have hall : ∀ fuel x, (x :: a.ancestorsUpTo fuel x).Pairwise (· > ·) := by
    intro fuel
    induction fuel with
    | zero => exact fun x => List.pairwise_singleton ..
    | succ fuel ih =>
      intro x
      rw [Arena.ancestorsUpTo]
      cases hp : a.parent x with
      | none => exact List.pairwise_singleton ..
      | some p =>
        have hpx : p < x := h.lt_of_isParent hp
        refine List.pairwise_cons.2 ⟨fun y hy => ?_, ih p⟩
        rcases List.mem_cons.1 hy with rfl | hy
        · exact hpx
        · exact Nat.lt_trans (List.rel_of_pairwise_cons (ih p) hy) hpx
  exact hall x x

/-- The nodes before a node that do not contain it have smaller and smaller indices. -/
lemma pairwise_preceding (x : Nat) : (preceding a x).Pairwise (· > ·) :=
  (List.pairwise_reverse.2 List.pairwise_lt_range).filter _

/-- Nodes with greater and greater indices, or smaller and smaller ones on a reverse axis, stand by
nearness. -/
lemma Axis.pairwise_map_node (axis : Axis) {ids : List Nat}
    (h : if axis.isReverse then ids.Pairwise (· > ·) else ids.Pairwise (· < ·)) :
    (ids.map Location.node).Pairwise (axis.nearer · ·) := by
  rw [List.pairwise_map]
  unfold nearer
  split_ifs at h ⊢ with hreverse
  · exact h.imp before_node.2
  · exact h.imp before_node.2

/-- The locations of an axis stand by nearness, the nearest first. -/
theorem Axis.pairwise_locations (h : a.WellFormed) (axis : Axis) (x : Location) :
    (axis.locations a x).Pairwise (axis.nearer · ·) := by
  have hancestors : ∀ x, (a.ancestors x).Pairwise (· > ·) := fun x =>
    (pairwise_ancestors h x).of_cons
  have hrange : ∀ first count, (List.range' first count).Pairwise (· < ·) := fun first count =>
    List.pairwise_lt_range'
  cases x with
  | node x =>
    cases axis with
    | attributes =>
      refine List.pairwise_map.2 (List.pairwise_lt_range.imp fun hij => ?_)
      exact before_iff.2 (.inr ⟨rfl, Nat.succ_lt_succ hij⟩)
    | child => exact pairwise_map_node child (h.sorted_children x)
    | descendant => exact pairwise_map_node descendant (hrange ..)
    | descendantOrSelf => exact pairwise_map_node descendantOrSelf (hrange ..)
    | self => exact List.pairwise_singleton ..
    | parent =>
      refine pairwise_map_node parent ?_
      rw [ofNode]
      cases a.parent x <;> simp [isReverse]
    | ancestor => exact pairwise_map_node ancestor (hancestors x)
    | ancestorOrSelf => exact pairwise_map_node ancestorOrSelf (pairwise_ancestors h x)
    | followingSibling =>
      refine pairwise_map_node followingSibling ?_
      rw [ofNode, Arena.followingSiblings]
      cases a.parent x with
      | none => exact .nil
      | some p => exact (h.sorted_children p).drop
    | precedingSibling =>
      refine pairwise_map_node precedingSibling (List.pairwise_reverse.2 ?_)
      rw [Arena.precedingSiblings]
      cases a.parent x with
      | none => exact .nil
      | some p => exact (h.sorted_children p).take
    | following => exact pairwise_map_node following (hrange ..)
    | preceding => exact pairwise_map_node preceding (pairwise_preceding x)
  | attr owner index =>
    cases axis with
    | self => exact List.pairwise_singleton ..
    | parent => exact List.pairwise_singleton ..
    | ancestor => exact pairwise_map_node ancestor (pairwise_ancestors h owner)
    | ancestorOrSelf =>
      refine List.pairwise_cons.2 ⟨fun y hy => ?_,
        pairwise_map_node ancestorOrSelf (pairwise_ancestors h owner)⟩
      -- the element comes before its attribute, and what is above it comes before it
      obtain ⟨z, hz, rfl⟩ := List.mem_map.1 hy
      refine before_iff.2 ?_
      rcases List.mem_cons.1 hz with rfl | hz
      · exact .inr ⟨rfl, Nat.succ_pos _⟩
      · exact .inl (List.rel_of_pairwise_cons (pairwise_ancestors h owner) hz)
    | following => exact pairwise_map_node following (hrange ..)
    | preceding => exact pairwise_map_node preceding (pairwise_preceding owner)
    | _ => exact .nil

/-- An axis lists each location once. -/
lemma Axis.nodup_locations (h : a.WellFormed) (axis : Axis) (x : Location) :
    (axis.locations a x).Nodup :=
  (pairwise_locations h axis x).imp fun {y z} hyz heq => by
    rw [heq, axis.nearer_irrefl] at hyz
    cases hyz

/-! ## Positions -/

/-- The place of a location among some locations of an axis: one more than there are nearer ones. -/
def Axis.place (axis : Axis) (xs : List Location) (y : Location) : Nat :=
  xs.countP (axis.nearer · y) + 1

/-- In a list by nearness, the number of a location is its place. -/
lemma Axis.mem_zipIdx_iff {axis : Axis} {xs : List Location} (h : xs.Pairwise (axis.nearer · ·))
    {y : Location} {i : Nat} : (y, i) ∈ xs.zipIdx 1 ↔ y ∈ xs ∧ i = axis.place xs y := by
  have hfrom : ∀ start, (y, i) ∈ xs.zipIdx start ↔
      y ∈ xs ∧ i = start + xs.countP (axis.nearer · y) := by
    induction xs with
    | nil => simp
    | cons x xs ih =>
      intro start
      obtain ⟨hx, hxs⟩ := List.pairwise_cons.1 h
      rw [List.zipIdx_cons, List.mem_cons, ih hxs, List.mem_cons, Prod.mk.injEq, List.countP_cons]
      by_cases hy : y = x
      · -- nothing is nearer than the first
        subst hy
        have hmem : y ∉ xs := fun hy => absurd (hx y hy) (by simp [axis.nearer_irrefl])
        have hnone : xs.countP (axis.nearer · y) = 0 :=
          List.countP_eq_zero.2 fun z hz => by simp [axis.nearer_asymm (hx z hz)]
        simp [hmem, hnone, axis.nearer_irrefl]
      · simp only [hy, false_and, false_or]
        refine and_congr_right fun hmem => ?_
        rw [if_pos (hx y hmem)]
        omega
  rw [hfrom, place, Nat.add_comm]

/-- A predicate sees each location at its place by nearness. -/
lemma Axis.mem_keep_iff_place {axis : Axis} {xs : List Location}
    (h : xs.Pairwise (axis.nearer · ·)) (predicate : Focus → Value) {y : Location} :
    y ∈ keep predicate xs ↔ y ∈ xs ∧
      keeps (axis.place xs y) (predicate ⟨y, axis.place xs y, xs.length⟩) = true := by
  simp only [keep, List.mem_map, List.mem_filter, Prod.exists, mem_zipIdx_iff h]
  constructor
  · rintro ⟨z, i, ⟨⟨hz, rfl⟩, hkeeps⟩, rfl⟩
    exact ⟨hz, hkeeps⟩
  · rintro ⟨hy, hkeeps⟩
    exact ⟨y, _, ⟨⟨hy, rfl⟩, hkeeps⟩, rfl⟩

lemma keepAll_concat (ps : List Expr) (p : Expr) (xs : List Location) :
    keepAll a (ps ++ [p]) xs = keep (fun f => p.value a f) (keepAll a ps xs) := by
  induction ps generalizing xs with
  | nil => simp [keepAll]
  | cons q ps ih => rw [List.cons_append, keepAll, ih, keepAll]

/-- The last predicate of a step sees each location that the ones before it have kept at its place by
nearness among them. -/
theorem mem_reach_concat_iff (h : a.WellFormed) {axis : Axis} {test : NodeTest} {ps : List Expr}
    {p : Expr} {x y : Location} :
    let xs := (Step.mk axis test ps).reach a x
    y ∈ (Step.mk axis test (ps ++ [p])).reach a x ↔ y ∈ xs ∧
      keeps (axis.place xs y) (p.value a ⟨y, axis.place xs y, xs.length⟩) = true := by
  intro xs
  have hxs : xs.Pairwise (axis.nearer · ·) :=
    ((axis.pairwise_locations h x).filter _).sublist (keepAll_sublist ..)
  have hkept : (Step.mk axis test (ps ++ [p])).reach a x = keep (fun f => p.value a f) xs :=
    keepAll_concat ..
  rw [hkept]
  exact Axis.mem_keep_iff_place hxs _

/-! ## The laws -/

/-- The laws of the axes in an arena. -/
structure Axis.Lawful (a : Arena) : Prop where
  /-- A node alone is what is at itself. -/
  same : ∀ x y, self.Reaches a x y ↔ y = x
  /-- Every node is the node itself, above it, below it, after it or before it, and only one of
  these. -/
  parts : ∀ x < a.size, ∀ y < a.size,
    ∃! axis, axis ∈ [self, ancestor, descendant, following, preceding] ∧ axis.Reaches a x y
  /-- What an axis leads to leads back along the mirror axis. -/
  mirrors : ∀ axis, ∀ x < a.size, ∀ y < a.size,
    axis.Reaches a x y ↔ (mirror axis).Reaches a y x
  /-- The descendants of a node are its children, their children and so on. -/
  closure : ∀ x y, descendant.Reaches a x y ↔ Relation.TransGen (child.Reaches a) x y
  /-- An axis lists each location once. -/
  once : ∀ (axis : Axis) x, (axis.locations a x).Nodup
  /-- A forward axis lists locations in document order. -/
  forward : ∀ (axis : Axis) x, axis.isReverse = false →
    (axis.locations a x).Pairwise fun y z => y.before z = true
  /-- A reverse axis lists locations against document order. -/
  reverse : ∀ (axis : Axis) x, axis.isReverse = true →
    (axis.locations a x).Pairwise fun y z => z.before y = true
  /-- Each predicate of a step sees a location at one more than the number of nearer ones among those
  that passed so far. -/
  position : ∀ (axis : Axis) test ps p x y,
    let xs := (Step.mk axis test ps).reach a x
    y ∈ (Step.mk axis test (ps ++ [p])).reach a x ↔ y ∈ xs ∧
      keeps (axis.place xs y) (p.value a ⟨y, axis.place xs y, xs.length⟩) = true

/-- The axes are lawful where the nodes agree about their relatives. -/
lemma Axis.lawful_of_wellFormed (h : a.WellFormed) : Lawful a where
  same x y := by simp [reaches_iff, ofNode]
  parts _ hx _ hy := existsUnique_reaches h hx hy
  mirrors axis _ hx _ hy := axis.reaches_mirror_iff h hx hy
  closure _ _ := reaches_descendant_iff_transGen h
  once := nodup_locations h
  forward axis x hforward :=
    (pairwise_locations h axis x).imp fun hyz => by simpa [nearer, hforward] using hyz
  reverse axis x hreverse :=
    (pairwise_locations h axis x).imp fun hyz => by simpa [nearer, hreverse] using hyz
  position _ _ _ _ _ _ := mem_reach_concat_iff h

/-- In the arena of every document, and of whatever ordered tree is laid out, the axes part the nodes,
mirror each other and list what they lead to by nearness.

**Proof sketch.** An arena is well formed, so that an axis leads where the indices of the nodes and of
their last descendants say. The parts and the mirrors are comparisons of these indices. The order of an
axis is that of a range, of children in a row or of the way up. -/
theorem Axis.lawful :
    (∀ forest, Lawful (Arena.ofForest forest)) ∧ ∀ t, Lawful (Arena.laidOut t) :=
  ⟨fun forest => lawful_of_wellFormed (Arena.wellFormed_ofForest forest),
    fun t => lawful_of_wellFormed (Arena.laidOut_eq t ▸ Arena.wellFormed_ofTree t)⟩

end WebCrawl.XPath
