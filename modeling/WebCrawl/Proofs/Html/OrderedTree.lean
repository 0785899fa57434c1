import Mathlib.Tactic.Common
import WebCrawl.Html.Arena

set_option autoImplicit false

/-!
# Documents as ordered trees of nodes

Whatever a node is, an ordered tree of nodes has an arena: its nodes stand in document order, and each
says which node is above it, which ones are right below it, and how far it reaches. The arena of a
document is that of the tree with the document at its root.

## Main definitions

* `WebCrawl.Html.OrderedTree` — a node with the trees below it in order.
* `WebCrawl.Html.OrderedTree.entries` — the nodes of a tree in document order.
* `WebCrawl.Html.Arena.ofTree` — the arena of a tree.
* `WebCrawl.Html.documentTree` — the tree of a document.

## Main results

* `WebCrawl.Html.Arena.ofForest_eq` — the arena of a document is that of its tree.
-/

namespace WebCrawl.Html

/-- A node with the trees below it in order. -/
inductive OrderedTree where
  | node (data : NodeData) (children : List OrderedTree)

namespace OrderedTree

/-! ## The nodes of a tree -/

/-- What the root is. -/
def data : OrderedTree → NodeData
  | .node data _ => data

/-- The trees right below the root. -/
def children : OrderedTree → List OrderedTree
  | .node _ children => children

mutual

/-- The number of nodes of a tree. -/
def size : OrderedTree → Nat
  | .node _ children => sizes children + 1

/-- The number of nodes of some trees. -/
def sizes : List OrderedTree → Nat
  | [] => 0
  | t :: ts => t.size + sizes ts

end

/-- The indices of the roots of some trees the first of which has the index `start`. -/
def indices (start : Nat) : List OrderedTree → List Nat
  | [] => []
  | t :: ts => start :: indices (start + t.size) ts

mutual

/-- The nodes of a tree whose root has the index `id`. -/
def entries (id : Nat) (parent : Option Nat) (siblingIndex : Nat) : OrderedTree → List Node
  | .node data children =>
    { data, parent, children := indices (id + 1) children, siblingIndex,
      lastDescendant := id + sizes children } :: entriesBelow (id + 1) id 0 children

/-- The nodes of some trees that have one parent. The first of them has the index `start`. -/
def entriesBelow (start parent siblingIndex : Nat) : List OrderedTree → List Node
  | [] => []
  | t :: ts =>
    t.entries start (some parent) siblingIndex ++
      entriesBelow (start + t.size) parent (siblingIndex + 1) ts

end

mutual

lemma length_entries :
    ∀ (t : OrderedTree) (id : Nat) (parent : Option Nat) (index : Nat),
      (t.entries id parent index).length = t.size
  | .node _ children, id, parent, index => by
    rw [entries, List.length_cons, length_entriesBelow children, size]

lemma length_entriesBelow :
    ∀ (ts : List OrderedTree) (start parent index : Nat),
      (entriesBelow start parent index ts).length = sizes ts
  | [], _, _, _ => rfl
  | t :: ts, start, parent, index => by
    rw [entriesBelow, List.length_append, t.length_entries, length_entriesBelow ts, sizes]

end

end OrderedTree

/-- The arena of a tree. -/
def Arena.ofTree (t : OrderedTree) : Arena := ⟨(t.entries 0 none 0).toArray⟩

@[simp] lemma Arena.size_ofTree (t : OrderedTree) : (ofTree t).size = t.size := by
  simp [ofTree, size, t.length_entries]

/-! ## Documents -/

mutual

/-- The nodes of a part of a document as an ordered tree. -/
def Tree.ordered : Tree → OrderedTree
  | .element name attributes children => .node (.element name attributes) (orderedForest children)
  | .fragment children => .node .document (orderedForest children)
  | .text content => .node (.text content) []
  | .comment content => .node (.comment content) []
  | .doctype name => .node (.doctype name) []
  | .other => .node .other []

/-- The nodes of some parts of a document as ordered trees. -/
def orderedForest : List Tree → List OrderedTree
  | [] => []
  | t :: ts => t.ordered :: orderedForest ts

end

/-- The tree of a document: the document is above all else. -/
def documentTree (forest : List Tree) : OrderedTree := .node .document (orderedForest forest)

mutual

lemma Tree.size_ordered : ∀ t : Tree, t.ordered.size = t.size
  | .element _ _ children | .fragment children => by
    rw [Tree.ordered, OrderedTree.size, sizes_orderedForest children, Tree.size]
  | .text _ => rfl
  | .comment _ => rfl
  | .doctype _ => rfl
  | .other => rfl

lemma sizes_orderedForest : ∀ ts : List Tree, OrderedTree.sizes (orderedForest ts) = forestSize ts
  | [] => rfl
  | t :: ts => by
    rw [orderedForest, OrderedTree.sizes, t.size_ordered, sizes_orderedForest ts, forestSize]

end

lemma indices_orderedForest (ts : List Tree) (start : Nat) :
    OrderedTree.indices start (orderedForest ts) = rootIndices start ts := by
  induction ts generalizing start with
  | nil => rfl
  | cons t ts ih => rw [orderedForest, OrderedTree.indices, ih, t.size_ordered, rootIndices]

mutual

lemma Tree.entries_ordered :
    ∀ (t : Tree) (id parent index : Nat),
      t.ordered.entries id (some parent) index = t.nodesFrom id parent index
  | .element _ _ children, id, parent, index | .fragment children, id, parent, index => by
    rw [Tree.ordered, OrderedTree.entries, indices_orderedForest, sizes_orderedForest,
      entriesBelow_orderedForest children, Tree.nodesFrom]
  | .text _, _, _, _ => rfl
  | .comment _, _, _, _ => rfl
  | .doctype _, _, _, _ => rfl
  | .other, _, _, _ => rfl

lemma entriesBelow_orderedForest :
    ∀ (ts : List Tree) (start parent index : Nat),
      OrderedTree.entriesBelow start parent index (orderedForest ts) =
        forestNodesFrom start parent index ts
  | [], _, _, _ => rfl
  | t :: ts, start, parent, index => by
    rw [orderedForest, OrderedTree.entriesBelow, t.entries_ordered, t.size_ordered,
      entriesBelow_orderedForest ts, forestNodesFrom]

end

/-- The arena of a document is that of its tree. -/
theorem Arena.ofForest_eq (forest : List Tree) : ofForest forest = ofTree (documentTree forest) := by
  rw [ofForest, ofTree, documentTree, OrderedTree.entries, indices_orderedForest,
    sizes_orderedForest, entriesBelow_orderedForest, Nat.zero_add, Nat.zero_add]

end WebCrawl.Html
