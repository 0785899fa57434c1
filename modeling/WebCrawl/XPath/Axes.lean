import WebCrawl.Html.Location
import WebCrawl.XPath.Expr

/-!
# Axes

The locations in one direction from a location, the nearest first.

## Main definitions

* `WebCrawl.XPath.Axis.ofNode`, `WebCrawl.XPath.Axis.ofAttribute` — an axis from a node or from an
  attribute.
* `WebCrawl.XPath.Axis.locations` — an axis from a location.
* `WebCrawl.XPath.NodeTest.passes` — the test of a step.
-/

set_option autoImplicit false

namespace WebCrawl.XPath

open Html

variable (a : Arena)

/-- The nodes before a node that do not contain it, the nearest first. -/
def preceding (id : Nat) : List Nat :=
  ((List.range id).reverse).filter fun i => !(a.ancestors id).contains i

namespace Axis

/-- The nodes of an axis from a node, the nearest first. A node has no nodes on the axis of
attributes. -/
def ofNode (id : Nat) : Axis → List Nat
  | child => a.children id
  | descendant => a.descendants id
  | descendantOrSelf => Arena.range id (a.lastDescendant id)
  | self => [id]
  | parent => (a.parent id).toList
  | ancestor => a.ancestors id
  | ancestorOrSelf => id :: a.ancestors id
  | followingSibling => a.followingSiblings id
  | precedingSibling => (a.precedingSiblings id).reverse
  | following => List.range' (a.lastDescendant id + 1) (a.size - (a.lastDescendant id + 1))
  | preceding => XPath.preceding a id
  | attributes => []

/-- The nodes of an axis from an attribute, the nearest first. What follows an attribute is all
that comes after its element began. -/
def ofAttribute (owner : Nat) : Axis → List Nat
  | parent => [owner]
  | ancestor => owner :: a.ancestors owner
  | ancestorOrSelf => owner :: a.ancestors owner
  | following => List.range' (owner + 1) (a.size - (owner + 1))
  | preceding => XPath.preceding a owner
  | _ => []

/-- The locations of an axis from a location, the nearest first. -/
def locations (axis : Axis) : Location → List Location
  | .node id =>
    match axis with
    | attributes => (List.range (a.attributes id).length).map (.attr id ·)
    | _ => (axis.ofNode a id).map .node
  | .attr owner index =>
    match axis with
    | self => [.attr owner index]
    | ancestorOrSelf => .attr owner index :: (axis.ofAttribute a owner).map .node
    | _ => (axis.ofAttribute a owner).map .node

end Axis

/-- Whether a node passes a test. Names are compared in letters of either case. -/
def NodeTest.passesNode (id : Nat) : NodeTest → Bool
  | node => true
  | anyName => (a.elementName? id).isSome
  | name wanted => (a.elementName? id).any (Text.sameLetters · wanted)
  | text => match a.data? id with
    | some (.text _) => true
    | _ => false
  | comment => match a.data? id with
    | some (.comment _) => true
    | _ => false

/-- Whether an attribute passes a test. Names are compared in letters of either case. -/
def NodeTest.passesAttribute (owner index : Nat) : NodeTest → Bool
  | node | anyName => true
  | name wanted => (a.attributeAt? owner index).any fun (key, _) => Text.sameLetters key wanted
  | text | comment => false

/-- Whether a location passes a test. -/
def NodeTest.passes (test : NodeTest) : Location → Bool
  | .node id => test.passesNode a id
  | .attr owner index => test.passesAttribute a owner index

end WebCrawl.XPath
