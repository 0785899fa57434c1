import WebCrawl.Html.Tree

/-!
# Documents as arenas

The nodes of a document stand in one array in document order, so that a node is known by its index
and its descendants are the indices right after its own. The document itself is the node `0`.

## Main definitions

* `WebCrawl.Html.Arena` — the nodes of a document in document order.
* `WebCrawl.Html.Arena.ofForest` — the arena of a document.
* the relatives of a node, and `WebCrawl.Html.Arena.text` — the text within it.
-/

set_option autoImplicit false

namespace WebCrawl.Html

open Text

/-! ## Nodes -/

/-- What a node is, without what stands around and below it. -/
inductive NodeData where
  /-- The document, or a document within it. -/
  | document
  | doctype (name : Text)
  | element (name : Text) (attributes : Attributes)
  | text (content : Text)
  | comment (content : Text)
  /-- Anything else. -/
  | other
deriving DecidableEq, Repr

/-- A node together with its place in the document. -/
structure Node where
  /-- What it is. -/
  data : NodeData
  /-- The node above it. -/
  parent : Option Nat
  /-- The nodes directly below it. -/
  children : List Nat
  /-- Its index among the children of its parent. -/
  siblingIndex : Nat
  /-- The last node below it, or itself if there is none. -/
  lastDescendant : Nat
deriving DecidableEq, Repr

/-- The nodes of a document in document order. -/
structure Arena where
  /-- The nodes. -/
  nodes : Array Node
deriving DecidableEq, Repr

/-! ## Construction -/

/-- What the root of a tree is. -/
def Tree.data : Tree → NodeData
  | .element name attributes _ => .element name attributes
  | .fragment _ => .document
  | .text content => .text content
  | .comment content => .comment content
  | .doctype name => .doctype name
  | .other => .other

/-- The indices of the roots of a forest whose first node has the index `start`. -/
def rootIndices (start : Nat) : List Tree → List Nat
  | [] => []
  | t :: ts => start :: rootIndices (start + t.size) ts

mutual

/-- The nodes of a tree whose root has the index `id`. -/
def Tree.nodesFrom (id parent siblingIndex : Nat) : Tree → List Node
  | .element name attributes children =>
    { data := .element name attributes, parent := some parent,
      children := rootIndices (id + 1) children, siblingIndex,
      lastDescendant := id + forestSize children } :: forestNodesFrom (id + 1) id 0 children
  | .fragment children =>
    { data := .document, parent := some parent, children := rootIndices (id + 1) children,
      siblingIndex, lastDescendant := id + forestSize children } ::
        forestNodesFrom (id + 1) id 0 children
  | .text content => [⟨.text content, some parent, [], siblingIndex, id⟩]
  | .comment content => [⟨.comment content, some parent, [], siblingIndex, id⟩]
  | .doctype name => [⟨.doctype name, some parent, [], siblingIndex, id⟩]
  | .other => [⟨.other, some parent, [], siblingIndex, id⟩]

/-- The nodes of a forest whose first node has the index `start`. -/
def forestNodesFrom (start parent siblingIndex : Nat) : List Tree → List Node
  | [] => []
  | t :: ts =>
    t.nodesFrom start parent siblingIndex ++
      forestNodesFrom (start + t.size) parent (siblingIndex + 1) ts

end

namespace Arena

/-- The arena of a document. -/
def ofForest (forest : List Tree) : Arena :=
  ⟨({ data := .document, parent := none, children := rootIndices 1 forest, siblingIndex := 0,
      lastDescendant := forestSize forest } :: forestNodesFrom 1 0 0 forest).toArray⟩

variable (a : Arena)

/-! ## Looking at nodes -/

/-- The number of nodes. -/
def size : Nat := a.nodes.size

/-- The node that is the document. -/
def root : Nat := 0

/-- What the node is. -/
def data? (id : Nat) : Option NodeData := (a.nodes[id]?).map (·.data)

/-- The node above. -/
def parent (id : Nat) : Option Nat := (a.nodes[id]?).bind (·.parent)

/-- The nodes directly below. -/
def children (id : Nat) : List Nat := ((a.nodes[id]?).map (·.children)).getD []

/-- The last node below, or the node itself. -/
def lastDescendant (id : Nat) : Nat := ((a.nodes[id]?).map (·.lastDescendant)).getD id

/-- The index among the siblings. -/
def siblingIndex (id : Nat) : Nat := ((a.nodes[id]?).map (·.siblingIndex)).getD 0

/-- The nodes from the index `first` to the index `last`. -/
def range (first last : Nat) : List Nat := List.range' first (last + 1 - first)

/-- All nodes below. -/
def descendants (id : Nat) : List Nat := range (id + 1) (a.lastDescendant id)

/-- The siblings after the node, the nearest first. -/
def followingSiblings (id : Nat) : List Nat :=
  match a.parent id with
  | some p => (a.children p).drop (a.siblingIndex id + 1)
  | none => []

/-- The siblings before the node, in document order. -/
def precedingSiblings (id : Nat) : List Nat :=
  match a.parent id with
  | some p => (a.children p).take (a.siblingIndex id)
  | none => []

/-- At most `fuel` of the nodes above, the nearest first. -/
def ancestorsUpTo : Nat → Nat → List Nat
  | 0, _ => []
  | fuel + 1, id =>
    match a.parent id with
    | some p => p :: ancestorsUpTo fuel p
    | none => []

/-- The nodes above, the nearest first. Each has a smaller index than the one before. -/
def ancestors (id : Nat) : List Nat := a.ancestorsUpTo id id

/-! ## Elements -/

/-- The name of an element. -/
def elementName? (id : Nat) : Option Text :=
  match a.data? id with
  | some (.element name _) => some name
  | _ => none

/-- The attributes of an element; other nodes have none. -/
def attributes (id : Nat) : Attributes :=
  match a.data? id with
  | some (.element _ attributes) => attributes
  | _ => []

/-- The value of the attribute of the given name, in letters of either case. -/
def attribute? (id : Nat) (name : Text) : Option Text :=
  ((a.attributes id).find? fun (key, _) => sameLetters key name).map (·.2)

/-! ## Text -/

/-- The content of a text node. -/
def textNode (id : Nat) : Text :=
  match a.data? id with
  | some (.text content) => content
  | _ => []

/-- The text of a node: its own for texts and comments, else that of all text nodes below it. -/
def text (id : Nat) : Text :=
  match a.data? id with
  | some (.text content) => content
  | some (.comment content) => content
  | _ => (a.descendants id).flatMap a.textNode

end Arena

end WebCrawl.Html
