import Mathlib.Data.List.Nodup
import WebCrawl.Proofs.Html.Traversal

set_option autoImplicit false

/-!
# The arena of a tree tells the tree

The arena of a tree is the tree in another form. Its nodes know their relatives exactly as they stand
in the tree, and from what the nodes are and which ones are right below them the tree can be read back.

## Main definitions

* `WebCrawl.Html.Arena.readTree?` — the tree below a node, read back from the arena.
* `WebCrawl.Html.Arena.Flattens` — an arena holds the nodes of a tree in document order, and they know
  their relatives.

## Main results

* `WebCrawl.Html.Arena.readTree?_eq` — a tree whose nodes stand in an arena is read back from it.
* `WebCrawl.Html.Arena.WellFormed.children_eq` — a node splits the children of its parent into the
  siblings before and after it.
* `WebCrawl.Html.Arena.laidOut_flattens` — laying out a tree gives an arena of that tree, and the arena
  of a document is laid out in this way.
-/

namespace WebCrawl.Html.Arena

variable {a : Arena}

/-! ## Reading a tree back -/

/-- The tree below a node as the arena tells it, read at most `fuel` levels deep. -/
def readTree? (a : Arena) : Nat → Nat → Option OrderedTree
  | 0, _ => none
  | fuel + 1, id => do
    let data ← a.data? id
    let children ← (a.children id).mapM (readTree? a fuel)
    return .node data children

mutual

/-- A tree whose nodes stand in the arena is read back from it. -/
lemma readTree?_eq :
    ∀ (t : OrderedTree) {fuel id index : Nat} {parent : Option Nat}, t.size ≤ fuel →
      a.Shows id (t.entries id parent index) → a.readTree? fuel id = some t
  | .node data ts, 0, id, index, parent, hsize, _ => absurd hsize (Nat.not_succ_le_zero _)
  | .node data ts, fuel + 1, id, index, parent, hsize, h => by
    obtain ⟨hid, hts⟩ := shows_cons h
    obtain ⟨-, hchildren, -⟩ := reads_of_getElem? hid
    have hdata : a.data? id = some data := by rw [data?, hid, Option.map_some]
    have hbelow := mapM_readTree?_eq ts (Nat.le_of_succ_le_succ hsize) hts
    rw [readTree?, hdata, hchildren]
    simp only [hbelow, Option.bind_eq_bind, Option.bind_some, Option.pure_def]

lemma mapM_readTree?_eq :
    ∀ (ts : List OrderedTree) {fuel start parent index : Nat}, OrderedTree.sizes ts ≤ fuel →
      a.Shows start (OrderedTree.entriesBelow start parent index ts) →
      (OrderedTree.indices start ts).mapM (a.readTree? fuel) = some ts
  | [], fuel, start, parent, index, _, _ => rfl
  | t :: ts, fuel, start, parent, index, hsize, h => by
    rw [OrderedTree.sizes] at hsize
    obtain ⟨ht, hts⟩ := shows_append h
    rw [t.length_entries] at hts
    have hfirst := readTree?_eq t (Nat.le_trans (Nat.le_add_right _ _) hsize) ht
    have hrest := mapM_readTree?_eq ts (Nat.le_trans (Nat.le_add_left _ _) hsize) hts
    rw [OrderedTree.indices, List.mapM_cons, hfirst, hrest]
    rfl

end

/-! ## Places among siblings -/

namespace WellFormed

variable {x p : Nat}

/-- A node stands among the children of its parent at its own index and nowhere else. -/
lemma getElem?_children_iff (h : a.WellFormed) (hp : a.parent x = some p) (i : Nat) :
    (a.children p)[i]? = some x ↔ i = a.siblingIndex x := by
  have hplace := (h.parent x p (Nat.zero_le _) (IsParent.lt_size hp) hp (Nat.zero_le _)).2.1
  have hnodup : (a.children p).Nodup := (h.sorted_children p).imp Nat.ne_of_lt
  constructor
  · intro hi
    obtain ⟨hlt, heq⟩ := List.getElem?_eq_some_iff.1 hi
    obtain ⟨hlt', heq'⟩ := List.getElem?_eq_some_iff.1 hplace
    exact (List.Nodup.getElem_inj_iff hnodup).1 (heq.trans heq'.symm)
  · rintro rfl
    exact hplace

/-- A node splits the children of its parent into the siblings before and after it. -/
theorem children_eq (h : a.WellFormed) (hp : a.parent x = some p) :
    a.children p = a.precedingSiblings x ++ x :: a.followingSiblings x := by
  obtain ⟨hlt, heq⟩ := List.getElem?_eq_some_iff.1 ((h.getElem?_children_iff hp _).2 rfl)
  calc a.children p
      = (a.children p).take (a.siblingIndex x) ++ (a.children p).drop (a.siblingIndex x) :=
        (List.take_append_drop _ _).symm
    _ = (a.children p).take (a.siblingIndex x) ++
          x :: (a.children p).drop (a.siblingIndex x + 1) := by
        rw [List.drop_eq_getElem_cons hlt, heq]
    _ = a.precedingSiblings x ++ x :: a.followingSiblings x := by
        rw [precedingSiblings, followingSiblings, hp]

/-- The root is the only node without a parent. -/
lemma parent_eq_none_iff (h : a.WellFormed) (hx : x < a.size) :
    a.parent x = none ↔ x = Arena.root := by
  constructor
  · intro hnone
    refine Nat.eq_zero_of_not_pos fun hpos => ?_
    obtain ⟨p, hp⟩ := h.exists_parent x hpos hx
    cases hnone.symm.trans hp
  · rintro rfl
    exact h.root

/-- What comes after a node up to its last descendant is what is below it. -/
lemma within_iff (h : a.WellFormed) {y : Nat} :
    x < y ∧ y ≤ a.lastDescendant x ↔ a.IsAncestor x y := by
  rw [← h.mem_descendants_iff, descendants, mem_range, Nat.succ_le_iff]

end WellFormed

/-! ## Arenas of trees -/

/-- An arena holds the nodes of a tree in document order, and they know their relatives. -/
structure Flattens (a : Arena) (t : OrderedTree) : Prop where
  /-- The children of a node stand in order. -/
  sorted : ∀ x < a.size, (a.children x).Pairwise (· < ·)
  /-- The children of a node are the nodes with it as their parent. -/
  children : ∀ x c, c ∈ a.children x ↔ a.parent c = some x
  /-- The root is the only node without a parent. -/
  top : ∀ x < a.size, a.parent x = none ↔ x = root
  /-- Any other node stands once among the children of its parent: at its own index. -/
  place : ∀ x < a.size, x ≠ root →
    ∃ p, a.parent x = some p ∧ ∀ i, (a.children p)[i]? = some x ↔ i = a.siblingIndex x
  /-- What comes after a node up to its last descendant is what is below it. -/
  within : ∀ x y, x < y ∧ y ≤ a.lastDescendant x ↔ a.IsAncestor x y
  /-- A node splits the children of its parent into the siblings before and after it. -/
  siblings : ∀ x p, a.parent x = some p →
    a.children p = a.precedingSiblings x ++ x :: a.followingSiblings x
  /-- The root has no siblings. -/
  alone : a.precedingSiblings root = [] ∧ a.followingSiblings root = []
  /-- The tree can be read back. -/
  readBack : a.readTree? a.size root = some t

/-- The arena of a tree holds the nodes of the tree. -/
lemma flattens_ofTree (t : OrderedTree) : (ofTree t).Flattens t := by
  have h := wellFormed_ofTree t
  exact {
    sorted := fun x _ => h.sorted_children x
    children := fun x c => h.mem_children_iff
    top := fun x hx => h.parent_eq_none_iff hx
    place := fun x hx hroot => by
      obtain ⟨p, hp⟩ := h.exists_parent x (Nat.pos_of_ne_zero hroot) hx
      exact ⟨p, hp, h.getElem?_children_iff hp⟩
    within := fun x y => h.within_iff
    siblings := fun x p hp => h.children_eq hp
    alone := by
      have hroot : (ofTree t).parent root = none := h.root
      simp only [precedingSiblings, followingSiblings, hroot, and_self]
    readBack := readTree?_eq t (Nat.le_of_eq (size_ofTree t).symm) (shows_ofTree t) }

/-- Whatever ordered tree is laid out with a stack, what comes of it holds the nodes of that tree in
document order, and they know their relatives; and the arena of a document is laid out in this way.

**Proof sketch.** The traversal enters the nodes of each tree on the stack one after the other, and the
pass from the last node to the first tells each how far it reaches, so that the result is the arena
that is defined along the tree. There the nodes of a tree, and of the trees below one node, agree with
each other by induction on the tree. -/
theorem laidOut_flattens :
    (∀ t : OrderedTree, (laidOut t).Flattens t) ∧
      ∀ forest : List Tree, ofForest forest = laidOut (documentTree forest) := by
  constructor
  · intro t
    rw [laidOut_eq]
    exact flattens_ofTree t
  · intro forest
    rw [laidOut_eq, ofForest_eq]

end WebCrawl.Html.Arena
