import WebCrawl.Html.Arena

/-!
# Locations in a document

A location is a node of an arena or one attribute of one of its elements. In document order an
element comes before its attributes, and these before its children.

## Main definitions

* `WebCrawl.Html.Location` — the locations.
* `WebCrawl.Html.Location.before` — document order.
* `WebCrawl.Html.Location.arrange` — locations in document order, each once.
-/

set_option autoImplicit false

namespace WebCrawl.Html

/-- A node of an arena, or one attribute of one of its elements. -/
inductive Location where
  | node (id : Nat)
  | attr (owner index : Nat)
deriving DecidableEq, Repr

namespace Location

/-- The node, or the element that has the attribute. -/
def owner : Location → Nat
  | node id => id
  | attr owner _ => owner

/-- The place of a location within its owner: the owner itself comes first. -/
def rank : Location → Nat
  | node _ => 0
  | attr _ index => index + 1

/-- Strict document order. -/
def before (x y : Location) : Bool := x.owner < y.owner || (x.owner == y.owner && x.rank < y.rank)

/-- Document order. -/
def upTo (x y : Location) : Bool := !before y x

/-- A list with every run of equal neighbours cut to one. -/
def distinct : List Location → List Location
  | x :: y :: more => if x = y then distinct (y :: more) else x :: distinct (y :: more)
  | nodes => nodes

/-- The locations in document order, each once. -/
def arrange (nodes : List Location) : List Location := distinct (nodes.mergeSort upTo)

end Location

namespace Arena

variable (a : Arena)

/-- The attribute at a location, with its value. -/
def attributeAt? (owner index : Nat) : Option (Text × Text) := (a.attributes owner)[index]?

/-- The text at a location: the text of the node, or the value of the attribute. -/
def textAt : Location → Text
  | .node id => a.text id
  | .attr owner index => ((a.attributeAt? owner index).map (·.2)).getD []

/-- The name at a location: that of the element or of the attribute. -/
def nameAt? : Location → Option Text
  | .node id => a.elementName? id
  | .attr owner index => (a.attributeAt? owner index).map (·.1)

/-- Whether the location is in the arena. -/
def holds : Location → Bool
  | .node id => id < a.size
  | .attr owner index => index < (a.attributes owner).length

end Arena

end WebCrawl.Html
