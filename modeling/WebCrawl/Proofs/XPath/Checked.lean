import Mathlib
import WebCrawl.Proofs.Html.Traversal
import WebCrawl.Proofs.XPath.Completeness
import WebCrawl.Proofs.XPath.NodeSets

set_option autoImplicit false

/-!
# Evaluation without defaults

Where evaluation looks something up it goes on with a default if that is not there. The evaluation of
this module fails instead: when a node, an attribute, the end of a part of the children or an argument
that a function has to be given is not there, and when the nodes above a node do not come to an end.
It looks up at least what is looked up otherwise. At a location of a document it does not fail for
an expression in which functions have as many arguments as they take, so none of the defaults is
ever used.

## Main definitions

* `WebCrawl.XPath.Checked.value` — the value of an expression, unless something is not there.
* `WebCrawl.XPath.Expr.Suited` — all functions have as many arguments as they take.

## Main results

* `WebCrawl.XPath.Checked.value_eq` — the evaluation of a suited expression does not fail.
* `WebCrawl.XPath.Spells.suited` — what is spelled by tokens is suited.
* `WebCrawl.XPath.evaluate_safe` — an expression that was read is evaluated without a default, and
  gives locations of the document in document order.
-/

namespace WebCrawl.XPath

open Html Location

namespace Checked

/-! ## Nodes -/

section Nodes

variable (a : Arena)

/-- The node of an index, which has to be there. -/
def node (id : Nat) : Option Node := a.nodes[id]?

/-- The node above, if there is one. -/
def parent (id : Nat) : Option (Option Nat) := do return (← node a id).parent

/-- The nodes directly below. -/
def children (id : Nat) : Option (List Nat) := do return (← node a id).children

/-- The last node below. -/
def lastDescendant (id : Nat) : Option Nat := do return (← node a id).lastDescendant

/-- The elements of a list from a place on, which has to be in it or right at its end. -/
def after (place : Nat) (ids : List Nat) : Option (List Nat) :=
  if place ≤ ids.length then some (ids.drop place) else none

/-- The elements of a list before a place, which has to be in it or right at its end. -/
def upTo (place : Nat) (ids : List Nat) : Option (List Nat) :=
  if place ≤ ids.length then some (ids.take place) else none

/-- The siblings after a node. -/
def followingSiblings (id : Nat) : Option (List Nat) := do
  let n ← node a id
  match n.parent with
  | some p => after (n.siblingIndex + 1) (← children a p)
  | none => return []

/-- The siblings before a node. -/
def precedingSiblings (id : Nat) : Option (List Nat) := do
  let n ← node a id
  match n.parent with
  | some p => upTo n.siblingIndex (← children a p)
  | none => return []

/-- The nodes above a node, if there are fewer than `fuel`. -/
def ancestorsWithin : Nat → Nat → Option (List Nat)
  | 0, _ => none
  | fuel + 1, id => do
    match ← parent a id with
    | some p => return p :: (← ancestorsWithin fuel p)
    | none => return []

/-- The nodes above a node. There cannot be more than its index. -/
def ancestors (id : Nat) : Option (List Nat) := ancestorsWithin a (id + 1) id

/-- The nodes before a node that do not contain it. -/
def preceding (id : Nat) : Option (List Nat) := do
  let above ← ancestors a id
  return (List.range id).reverse.filter fun i => !above.contains i

/-- The attributes of a node. -/
def attributes (id : Nat) : Option Attributes := do
  match (← node a id).data with
  | .element _ attributes => return attributes
  | _ => return []

/-- An attribute of a node. -/
def attributeAt (owner index : Nat) : Option (Text × Text) := do (← attributes a owner)[index]?

/-- The content of a text node. -/
def textNode (id : Nat) : Option Text := do
  match (← node a id).data with
  | .text content => return content
  | _ => return []

/-- The text of a node. -/
def text (id : Nat) : Option Text := do
  let n ← node a id
  match n.data with
  | .text content => return content
  | .comment content => return content
  | _ => return (← (Arena.range (id + 1) n.lastDescendant).mapM (textNode a)).flatten

/-- The text at a location. -/
def textAt : Location → Option Text
  | .node id => text a id
  | .attr owner index => do return (← attributeAt a owner index).2

/-- The name at a location. -/
def nameAt : Location → Option Text
  | .node id => do
    match (← node a id).data with
    | .element name _ => return name
    | _ => return []
  | .attr owner index => do return (← attributeAt a owner index).1

end Nodes

/-! ## Axes and tests -/

section Axes

variable (a : Arena)

/-- The nodes of an axis from a node. -/
def ofNode (id : Nat) : Axis → Option (List Nat)
  | .child => children a id
  | .descendant => do return Arena.range (id + 1) (← lastDescendant a id)
  | .descendantOrSelf => do return Arena.range id (← lastDescendant a id)
  | .self => some [id]
  | .parent => do return (← parent a id).toList
  | .ancestor => ancestors a id
  | .ancestorOrSelf => do return id :: (← ancestors a id)
  | .followingSibling => followingSiblings a id
  | .precedingSibling => do return (← precedingSiblings a id).reverse
  | .following => do
    let last ← lastDescendant a id
    return List.range' (last + 1) (a.size - (last + 1))
  | .preceding => preceding a id
  | .attributes => some []

/-- The nodes of an axis from an attribute. -/
def ofAttribute (owner : Nat) : Axis → Option (List Nat)
  | .parent => some [owner]
  | .ancestor => do return owner :: (← ancestors a owner)
  | .ancestorOrSelf => do return owner :: (← ancestors a owner)
  | .following => some (List.range' (owner + 1) (a.size - (owner + 1)))
  | .preceding => preceding a owner
  | _ => some []

/-- The locations of an axis from a location. -/
def locations (axis : Axis) : Location → Option (List Location)
  | .node id =>
    match axis with
    | .attributes => do return (List.range (← attributes a id).length).map (.attr id ·)
    | _ => do return (← ofNode a id axis).map .node
  | .attr owner index =>
    match axis with
    | .self => some [.attr owner index]
    | .ancestorOrSelf => do return .attr owner index :: (← ofAttribute a owner axis).map .node
    | _ => do return (← ofAttribute a owner axis).map .node

/-- Whether a location passes a test. The node or the attribute is looked up for every test. -/
def passes (test : NodeTest) : Location → Option Bool
  | .node id => do
    let _ ← node a id
    return test.passesNode a id
  | .attr owner index => do
    let _ ← attributeAt a owner index
    return test.passesAttribute a owner index

end Axes

/-! ## Values -/

section Values

variable (a : Arena)

/-- A value as a text. -/
def toText : Value → Option Text
  | .nodes (x :: _) => textAt a x
  | v => some (v.toText a)

/-- A value as a number. -/
def toNumber : Value → Option Double
  | .nodes xs => do return numberOfText (← toText a (.nodes xs))
  | v => some (v.toNumber a)

/-- The texts of a set of locations. -/
def texts (xs : List Location) : Option (List Text) := xs.mapM (textAt a)

/-- The comparison of two values. The texts of all locations are looked up, also of those on which
the comparison does not depend. -/
def compare (c : Comparison) (v w : Value) : Option Bool := do
  let _ ← texts a v.locations
  let _ ← texts a w.locations
  return XPath.compare a c v w

/-- The first argument, which has to be there. -/
def first (arguments : List Value) : Option Value := arguments[0]?

/-- An argument as a text, or the text at the focus. -/
def textArgument (f : Focus) (arguments : List Value) (i : Nat) : Option Text :=
  match arguments[i]? with
  | some v => toText a v
  | none => textAt a f.location

/-- An argument as a number, or the number at the focus. -/
def numberArgument (f : Focus) (arguments : List Value) (i : Nat) : Option Double :=
  match arguments[i]? with
  | some v => toNumber a v
  | none => do return numberOfText (← textAt a f.location)

/-- The name at the first location of the first argument, or at the focus. -/
def nameArgument (f : Focus) (arguments : List Value) : Option Text :=
  match arguments.head? with
  | some v =>
    match v.locations with
    | x :: _ => nameAt a x
    | [] => some []
  | none => nameAt a f.location

/-- The value of a function at its arguments. -/
def apply (f : Focus) (arguments : List Value) : Function → Option Value
  | .last => some (.number (.ofNat f.size))
  | .position => some (.number (.ofNat f.position))
  | .count => do return .number (.ofNat (← first arguments).locations.length)
  | .not => do return .boolean (!(← first arguments).toBool)
  | .true => some (.boolean true)
  | .false => some (.boolean false)
  | .boolean => do return .boolean (← first arguments).toBool
  | .number => do return .number (← numberArgument a f arguments 0)
  | .string => do return .string (← textArgument a f arguments 0)
  | .concat => do return .string (← arguments.mapM (toText a)).flatten
  | .contains => do
    return .boolean (Text.contains (← textArgument a f arguments 0) (← textArgument a f arguments 1))
  | .startsWith => do
    return .boolean
      (Text.startsWith (← textArgument a f arguments 0) (← textArgument a f arguments 1))
  | .endsWith => do
    return .boolean (Text.endsWith (← textArgument a f arguments 0) (← textArgument a f arguments 1))
  | .substring => do
    let text ← textArgument a f arguments 0
    let start := roundHalfUp (← numberArgument a f arguments 1)
    if arguments.length ≤ 2 then return .string (substring text start (.infinity false))
    else
      let length ← numberArgument a f arguments 2
      return .string (substring text start (start + roundHalfUp length))
  | .substringBefore => do
    return .string (substringBefore (← textArgument a f arguments 0) (← textArgument a f arguments 1))
  | .substringAfter => do
    return .string (substringAfter (← textArgument a f arguments 0) (← textArgument a f arguments 1))
  | .stringLength => do return .number (.ofNat (← textArgument a f arguments 0).length)
  | .normalizeSpace => do return .string (normalizeSpace (← textArgument a f arguments 0))
  | .translate => do
    return .string (translate (← textArgument a f arguments 0) (← textArgument a f arguments 1)
      (← textArgument a f arguments 2))
  | .name => do return .string (← nameArgument a f arguments)
  | .localName => do return .string (localPart (← nameArgument a f arguments))
  | .sum => do
    return .number (sum ((← texts a (← first arguments).locations).map numberOfText))
  | .floor => do return .number (← numberArgument a f arguments 0).floor
  | .ceiling => do return .number (← numberArgument a f arguments 0).ceiling
  | .round => do return .number (roundHalfUp (← numberArgument a f arguments 0))

end Values

/-! ## Expressions -/

/-- The locations at which a predicate holds. -/
def keep (predicate : Focus → Option Value) (xs : List Location) : Option (List Location) := do
  let kept ← (xs.zipIdx 1).filterM fun (x, i) => do
    return keeps i (← predicate ⟨x, i, xs.length⟩)
  return kept.map (·.1)

variable (a : Arena)

mutual

/-- The value of an expression at a focus. Both operands are evaluated, also where one decides. -/
def value : Expr → Focus → Option Value
  | .or l r, f => do return .boolean ((← value l f).toBool || (← value r f).toBool)
  | .and l r, f => do return .boolean ((← value l f).toBool && (← value r f).toBool)
  | .compare c l r, f => do return .boolean (← compare a c (← value l f) (← value r f))
  | .arithmetic op l r, f => do
    return .number (op.apply (← toNumber a (← value l f)) (← toNumber a (← value r f)))
  | .negate e, f => do return .number (-(← toNumber a (← value e f)))
  | .union l r, f => do
    return .nodes (arrange ((← value l f).locations ++ (← value r f).locations))
  | .path absolute steps, f => do
    return .nodes (← walk steps [if absolute then .node Arena.root else f.location])
  | .filter primary predicates steps, f => do
    return .nodes (← walk steps (← keepAll predicates (← value primary f).locations))
  | .literal text, _ => some (.string text)
  | .number x, _ => some (.number x)
  | .call function arguments, f => do apply a f (← argumentValues arguments f) function

/-- The values of a list of expressions. -/
def argumentValues : List Expr → Focus → Option (List Value)
  | [], _ => some []
  | e :: es, f => do return (← value e f) :: (← argumentValues es f)

/-- The locations that each of the predicates keeps. -/
def keepAll : List Expr → List Location → Option (List Location)
  | [], xs => some xs
  | p :: ps, xs => do keepAll ps (← keep (fun f => value p f) xs)

/-- The locations that a step leads to from one location. -/
def reach : Step → Location → Option (List Location)
  | .mk axis test predicates, x => do
    keepAll predicates (← (← locations a axis x).filterM (passes a test))

/-- The locations that a path leads to. -/
def walk : List Step → List Location → Option (List Location)
  | [], xs => some xs
  | s :: ss, xs => do walk ss (arrange (← xs.mapM fun x => reach s x).flatten)

end

/-! ## Lists -/

section Lists

variable {α β : Type}

/-- What can be done with each element can be done with all. -/
lemma mapM_eq_some {f : α → Option β} {g : α → β} {xs : List α} (h : ∀ x ∈ xs, f x = some (g x)) :
    xs.mapM f = some (xs.map g) := by
  induction xs with
  | nil => rfl
  | cons x xs ih =>
    have htail := ih fun y hy => h y (List.mem_cons_of_mem _ hy)
    simp [h x (List.mem_cons_self ..), htail]

/-- What can be asked of each element can be asked of all. -/
lemma filterM_eq_some {f : α → Option Bool} {g : α → Bool} {xs : List α}
    (h : ∀ x ∈ xs, f x = some (g x)) : xs.filterM f = some (xs.filter g) := by
  have haux : ∀ (ys : List α) (acc : List α), (∀ x ∈ ys, f x = some (g x)) →
      ys.filterAuxM f acc = some ((ys.filter g).reverse ++ acc) := by
    intro ys
    induction ys with
    | nil => exact fun acc _ => rfl
    | cons y ys ih =>
      intro acc hys
      have hy := hys y (List.mem_cons_self ..)
      have htail := fun acc => ih acc fun x hx => hys x (List.mem_cons_of_mem _ hx)
      cases hg : g y <;> simp [List.filterAuxM, hy, htail, hg]
  simp [List.filterM, haux xs [] h]

end Lists

/-! ## What is looked up is there -/

variable {a} {x : Location} {id : Nat}

section Nodes

lemma parent_eq (hid : id < a.size) : parent a id = some (a.parent id) := by
  have hn := Array.getElem?_eq_getElem hid
  simp [parent, node, Arena.parent, hn]

lemma children_eq (hid : id < a.size) : children a id = some (a.children id) := by
  have hn := Array.getElem?_eq_getElem hid
  simp [children, node, Arena.children, hn]

lemma lastDescendant_eq (hid : id < a.size) : lastDescendant a id = some (a.lastDescendant id) := by
  have hn := Array.getElem?_eq_getElem hid
  simp [lastDescendant, node, Arena.lastDescendant, hn]

lemma attributes_eq (hid : id < a.size) : attributes a id = some (a.attributes id) := by
  have hn := Array.getElem?_eq_getElem hid
  simp only [attributes, node, Arena.attributes, Arena.data?, hn]
  dsimp
  split <;> simp_all

lemma attributeAt_eq {owner index : Nat} (hx : a.holds (.attr owner index) = true) :
    ∃ entry, attributeAt a owner index = some entry ∧ a.attributeAt? owner index = some entry := by
  have hi : index < (a.attributes owner).length := by simpa [Arena.holds] using hx
  have hattributes : attributes a owner = some (a.attributes owner) :=
    attributes_eq (owner_lt_size hx)
  refine ⟨(a.attributes owner)[index], ?_, List.getElem?_eq_getElem hi⟩
  simp [attributeAt, hattributes, List.getElem?_eq_getElem hi]

lemma textNode_eq (hid : id < a.size) : textNode a id = some (a.textNode id) := by
  have hn := Array.getElem?_eq_getElem hid
  simp only [textNode, node, Arena.textNode, Arena.data?, hn]
  dsimp
  split <;> simp_all

lemma text_eq (h : a.WellFormed) (hid : id < a.size) : text a id = some (a.text id) := by
  have hn := Array.getElem?_eq_getElem hid
  have hlast := (h.last id (Nat.zero_le _) hid).2
  have hbelow : (Arena.range (id + 1) (a.lastDescendant id)).mapM (textNode a) =
      some ((Arena.range (id + 1) (a.lastDescendant id)).map a.textNode) :=
    mapM_eq_some fun y hy => textNode_eq (Nat.lt_of_le_of_lt (Arena.mem_range.1 hy).2 hlast)
  have hreads := (Arena.reads_of_getElem? hn).2.2.2
  rw [hreads] at hbelow
  simp only [text, node, Arena.text, Arena.data?, hn, Arena.descendants, hreads]
  dsimp
  split <;> simp_all [List.flatMap]

lemma textAt_eq (h : a.WellFormed) (hx : a.holds x = true) : textAt a x = some (a.textAt x) := by
  cases x with
  | node id => exact text_eq h (owner_lt_size hx)
  | attr owner index =>
    obtain ⟨entry, hentry, hat⟩ := attributeAt_eq hx
    simp [textAt, Arena.textAt, hentry, hat]

lemma nameAt_eq (hx : a.holds x = true) : nameAt a x = some ((a.nameAt? x).getD []) := by
  cases x with
  | node id =>
    have hn := Array.getElem?_eq_getElem (owner_lt_size hx)
    simp only [owner] at hn
    simp only [nameAt, node, Arena.nameAt?, Arena.elementName?, Arena.data?, hn]
    dsimp
    split <;> simp_all
  | attr owner index =>
    obtain ⟨entry, hentry, hat⟩ := attributeAt_eq hx
    simp [nameAt, Arena.nameAt?, hentry, hat]

/-- A node stands among the children of its parent at its index. -/
lemma siblingIndex_lt (h : a.WellFormed) {p : Nat} (hp : a.parent id = some p) :
    a.siblingIndex id < (a.children p).length ∧ p < a.size := by
  have hsize := Arena.IsParent.lt_size (a := a) hp
  obtain ⟨hlt, hindex, -⟩ := h.parent id p (Nat.zero_le _) hsize hp (Nat.zero_le _)
  exact ⟨(List.getElem?_eq_some_iff.1 hindex).1, Nat.lt_trans hlt hsize⟩

lemma followingSiblings_eq (h : a.WellFormed) (hid : id < a.size) :
    followingSiblings a id = some (a.followingSiblings id) := by
  have hn := Array.getElem?_eq_getElem hid
  obtain ⟨hparent, -, hindex, -⟩ := Arena.reads_of_getElem? hn
  simp only [followingSiblings, node, Arena.followingSiblings, hn, Option.bind_eq_bind,
    Option.bind_some, ← hparent, ← hindex]
  cases hp : a.parent id with
  | none => rfl
  | some p =>
    obtain ⟨hlt, hsize⟩ := siblingIndex_lt h hp
    have hle : a.siblingIndex id + 1 ≤ (a.children p).length := hlt
    simp only [children_eq hsize, Option.bind_some, after, if_pos hle]

lemma precedingSiblings_eq (h : a.WellFormed) (hid : id < a.size) :
    precedingSiblings a id = some (a.precedingSiblings id) := by
  have hn := Array.getElem?_eq_getElem hid
  obtain ⟨hparent, -, hindex, -⟩ := Arena.reads_of_getElem? hn
  simp only [precedingSiblings, node, Arena.precedingSiblings, hn, Option.bind_eq_bind,
    Option.bind_some, ← hparent, ← hindex]
  cases hp : a.parent id with
  | none => rfl
  | some p =>
    obtain ⟨hlt, hsize⟩ := siblingIndex_lt h hp
    simp only [children_eq hsize, Option.bind_some, upTo, if_pos (Nat.le_of_lt hlt)]

/-- One comes to an end above a node, since each node above has a smaller index. -/
lemma ancestorsWithin_eq (h : a.WellFormed) {fuel : Nat} (hid : id < a.size) (hfuel : id ≤ fuel) :
    ancestorsWithin a (fuel + 1) id = some (a.ancestorsUpTo fuel id) := by
  induction fuel generalizing id with
  | zero =>
    obtain rfl : id = 0 := Nat.le_zero.1 hfuel
    simp [ancestorsWithin, parent_eq hid, h.root, Arena.ancestorsUpTo]
  | succ fuel ih =>
    rw [ancestorsWithin, parent_eq hid, Arena.ancestorsUpTo]
    cases hp : a.parent id with
    | none => rfl
    | some p =>
      have hlt : p < id := h.lt_of_isParent hp
      simp [ih (Nat.lt_trans hlt hid) (by omega)]

lemma ancestors_eq (h : a.WellFormed) (hid : id < a.size) :
    ancestors a id = some (a.ancestors id) := ancestorsWithin_eq h hid (Nat.le_refl _)

lemma preceding_eq (h : a.WellFormed) (hid : id < a.size) :
    preceding a id = some (XPath.preceding a id) := by
  simp [preceding, XPath.preceding, ancestors_eq h hid]

end Nodes

section Axes

variable (h : a.WellFormed)
include h

lemma ofNode_eq (axis : Axis) (hid : id < a.size) : ofNode a id axis = some (axis.ofNode a id) := by
  cases axis with
  | child => exact children_eq hid
  | followingSibling => exact followingSiblings_eq h hid
  | _ => simp [ofNode, Axis.ofNode, Arena.descendants, lastDescendant_eq hid, parent_eq hid,
      ancestors_eq h hid, precedingSiblings_eq h hid, preceding_eq h hid]

lemma ofAttribute_eq (axis : Axis) (hid : id < a.size) :
    ofAttribute a id axis = some (axis.ofAttribute a id) := by
  cases axis <;> simp [ofAttribute, Axis.ofAttribute, ancestors_eq h hid, preceding_eq h hid]

/-- Every axis can be followed from a location of the arena. -/
lemma locations_eq (axis : Axis) (hx : a.holds x = true) :
    locations a axis x = some (axis.locations a x) := by
  have hsize := owner_lt_size hx
  cases x with
  | node id =>
    simp only [owner] at hsize
    cases axis <;>
      simp [locations, Axis.locations, attributes_eq hsize, ofNode_eq h _ hsize]
  | attr owner index =>
    simp only [Location.owner] at hsize
    cases axis <;> simp [locations, Axis.locations, ofAttribute_eq h _ hsize]

omit h in
lemma passes_eq (test : NodeTest) (hx : a.holds x = true) :
    passes a test x = some (test.passes a x) := by
  cases x with
  | node id =>
    have hn := Array.getElem?_eq_getElem (owner_lt_size hx)
    simp only [owner] at hn
    simp [passes, NodeTest.passes, node, hn]
  | attr owner index =>
    obtain ⟨entry, hentry, -⟩ := attributeAt_eq hx
    simp [passes, NodeTest.passes, hentry]

end Axes

/-! ### Values -/

section Values

variable (h : a.WellFormed)
include h

lemma toText_eq {v : Value} (hv : v.IsSound a) : toText a v = some (v.toText a) := by
  cases v with
  | nodes xs =>
    cases xs with
    | nil => rfl
    | cons x xs => exact textAt_eq h ((hv _ rfl).2 x (List.mem_cons_self ..))
  | _ => rfl

lemma toNumber_eq {v : Value} (hv : v.IsSound a) : toNumber a v = some (v.toNumber a) := by
  cases v with
  | nodes xs => simp [toNumber, Value.toNumber, toText_eq h hv]
  | _ => rfl

lemma texts_eq {v : Value} (hv : v.IsSound a) :
    texts a v.locations = some (v.locations.map a.textAt) :=
  mapM_eq_some fun x hx => textAt_eq h (hv.locations.2 x hx)

lemma compare_eq (c : Comparison) {v w : Value} (hv : v.IsSound a) (hw : w.IsSound a) :
    compare a c v w = some (XPath.compare a c v w) := by
  simp [compare, texts_eq h hv, texts_eq h hw]

variable {f : Focus} {arguments : List Value} (hf : a.holds f.location = true)
  (hargs : ∀ v ∈ arguments, v.IsSound a)
include hf hargs

lemma textArgument_eq (i : Nat) :
    textArgument a f arguments i = some (XPath.textArgument a f arguments i) := by
  unfold textArgument XPath.textArgument
  cases hv : arguments[i]? with
  | none => exact textAt_eq h hf
  | some v => exact toText_eq h (hargs v (List.mem_of_getElem? hv))

lemma numberArgument_eq (i : Nat) :
    numberArgument a f arguments i = some (XPath.numberArgument a f arguments i) := by
  unfold numberArgument XPath.numberArgument
  cases hv : arguments[i]? with
  | none => simp [textAt_eq h hf]
  | some v => exact toNumber_eq h (hargs v (List.mem_of_getElem? hv))

omit h in
lemma nameArgument_eq :
    nameArgument a f arguments = some (XPath.nameArgument a f arguments) := by
  unfold nameArgument XPath.nameArgument
  cases hhead : arguments.head? with
  | none => simpa using nameAt_eq hf
  | some v =>
    have hv := hargs v (List.mem_of_mem_head? hhead)
    cases hxs : v.locations with
    | nil => simp [hxs]
    | cons x xs =>
      have hx := hv.locations.2 x (hxs ▸ List.mem_cons_self ..)
      simpa [hxs] using nameAt_eq hx

omit h hf hargs in
/-- A function that has to be given an argument is given one. -/
lemma ne_nil_of_takes {function : Function} (htakes : function.takes arguments.length = true)
    (hnone : function.takes 0 = false) : arguments ≠ [] := by
  rintro rfl
  cases htakes.symm.trans hnone

/-- A function with as many arguments as it takes has a value. -/
lemma apply_eq (function : Function) (htakes : function.takes arguments.length = true) :
    apply a f arguments function = some (function.apply a f arguments) := by
  have htext := textArgument_eq h hf hargs
  have hnumber := numberArgument_eq h hf hargs
  have hname := nameArgument_eq hf hargs
  cases function with
  | concat =>
    have htexts := mapM_eq_some fun v hv => toText_eq h (hargs v hv)
    simp [apply, Function.apply, htexts, List.flatMap]
  | substring =>
    simp only [apply, Function.apply, htext, hnumber]
    split <;> rfl
  | count =>
    obtain ⟨v, rest, rfl⟩ := List.exists_cons_of_ne_nil (ne_nil_of_takes htakes rfl)
    rfl
  | not =>
    obtain ⟨v, rest, rfl⟩ := List.exists_cons_of_ne_nil (ne_nil_of_takes htakes rfl)
    rfl
  | boolean =>
    obtain ⟨v, rest, rfl⟩ := List.exists_cons_of_ne_nil (ne_nil_of_takes htakes rfl)
    rfl
  | sum =>
    obtain ⟨v, rest, rfl⟩ := List.exists_cons_of_ne_nil (ne_nil_of_takes htakes rfl)
    have htexts := texts_eq h (hargs v (List.mem_cons_self ..))
    simp [apply, Function.apply, first, locationsArgument, htexts, Function.comp_def]
  | _ => simp [apply, Function.apply, htext, hnumber, hname]

end Values

end Checked

/-! ## Numbers of arguments -/

mutual

/-- All functions in an expression have as many arguments as they take. -/
def Expr.Suited : Expr → Prop
  | .or l r => l.Suited ∧ r.Suited
  | .and l r => l.Suited ∧ r.Suited
  | .compare _ l r => l.Suited ∧ r.Suited
  | .arithmetic _ l r => l.Suited ∧ r.Suited
  | .negate e => e.Suited
  | .union l r => l.Suited ∧ r.Suited
  | .path _ steps => StepsSuited steps
  | .filter primary predicates steps =>
    primary.Suited ∧ ExprsSuited predicates ∧ StepsSuited steps
  | .literal _ => True
  | .number _ => True
  | .call function arguments =>
    function.takes arguments.length = true ∧ ExprsSuited arguments

/-- All functions in some expressions have as many arguments as they take. -/
def ExprsSuited : List Expr → Prop
  | [] => True
  | e :: es => e.Suited ∧ ExprsSuited es

/-- All functions in the predicates of a step have as many arguments as they take. -/
def Step.Suited : Step → Prop
  | .mk _ _ predicates => ExprsSuited predicates

/-- All functions in some steps have as many arguments as they take. -/
def StepsSuited : List Step → Prop
  | [] => True
  | s :: ss => s.Suited ∧ StepsSuited ss

end

/-- All functions in a phrase have as many arguments as they take. -/
def Phrase.Suited : Phrase → Prop
  | .expr _ e => e.Suited
  | .primary e => e.Suited
  | .predicates es => ExprsSuited es
  | .step s => s.Suited
  | .steps ss => StepsSuited ss
  | .arguments es => ExprsSuited es

/-- An operator makes a suited expression of suited operands. -/
lemma suited_of_operator {l : Level} {t : Token} {c : Combination} (h : l.operator t = some c)
    {left right : Expr} (hl : left.Suited) (hr : right.Suited) : (c left right).Suited := by
  cases l <;> cases t <;> cases h <;> exact ⟨hl, hr⟩

/-- What is spelled by tokens is suited. -/
theorem Spells.suited {ph : Phrase} {ts : List Token} (h : Spells ph ts) : ph.Suited := by
  induction h with
  | stronger _ ih => exact ih
  | binary operator _ _ ihl ihr => exact suited_of_operator operator ihl ihr
  | negate _ ih => exact ih
  | root => exact trivial
  | absolute _ _ ihs ihss => exact ⟨ihs, ihss⟩
  | throughout _ _ ihs ihss => exact ⟨trivial, ihs, ihss⟩
  | relative _ _ ihs ihss => exact ⟨ihs, ihss⟩
  | operand _ ih => exact ih
  | filter _ _ _ _ ih ihps ihss => exact ⟨ih, ihps, ihss⟩
  | parens _ ih => exact ih
  | literal => exact trivial
  | number => exact trivial
  | callNone _ takes => exact ⟨takes, trivial⟩
  | call _ _ _ takes ih ihes => exact ⟨takes, ih, ihes⟩
  | noArguments => exact trivial
  | argument _ _ ih ihes => exact ⟨ih, ihes⟩
  | noPredicates => exact trivial
  | predicate _ _ ih ihes => exact ⟨ih, ihes⟩
  | here => exact trivial
  | up => exact trivial
  | step _ _ _ ihps => exact ihps
  | noSteps => exact trivial
  | slash _ _ ihs ihss => exact ⟨ihs, ihss⟩
  | doubleSlash _ _ ihs ihss => exact ⟨trivial, ihs, ihss⟩

/-! ## Expressions -/

namespace Checked

variable {a : Arena}

/-- A predicate that has a value at all locations keeps some of them. -/
lemma keep_eq {predicate : Focus → Option Value} {p : Focus → Value} {xs : List Location}
    (h : ∀ x ∈ xs, ∀ i n, predicate ⟨x, i, n⟩ = some (p ⟨x, i, n⟩)) :
    keep predicate xs = some (XPath.keep p xs) := by
  have hfilter : (xs.zipIdx 1).filterM (fun (x, i) => do
      return keeps i (← predicate ⟨x, i, xs.length⟩)) =
      some ((xs.zipIdx 1).filter fun (x, i) => keeps i (p ⟨x, i, xs.length⟩)) :=
    filterM_eq_some fun (x, i) hx => by simp [h x (List.fst_mem_of_mem_zipIdx hx)]
  simp only [keep, hfilter]
  rfl

/-- The values of arguments are sound. -/
lemma isSound_of_mem_argumentValues (h : a.WellFormed) {f : Focus} (hf : a.holds f.location = true) :
    ∀ (es : List Expr), ∀ v ∈ XPath.argumentValues a es f, v.IsSound a := by
  intro es
  induction es with
  | nil => exact nofun
  | cons e es ih =>
    intro v hv
    rcases List.mem_cons.1 hv with rfl | hv
    · exact e.isSound_value h f hf
    · exact ih v hv

lemma length_argumentValues (es : List Expr) (f : Focus) :
    (XPath.argumentValues a es f).length = es.length := by
  induction es with
  | nil => rfl
  | cons e es ih => simp [XPath.argumentValues, ih]

mutual

/-- A suited expression has a value at every location of the arena without a default. -/
theorem value_eq (h : a.WellFormed) : ∀ (e : Expr) (f : Focus), e.Suited →
    a.holds f.location = true → value a e f = some (e.value a f)
  | .or l r, f, he, hf => by
    simp [value, Expr.value, value_eq h l f he.1 hf, value_eq h r f he.2 hf]
  | .and l r, f, he, hf => by
    simp [value, Expr.value, value_eq h l f he.1 hf, value_eq h r f he.2 hf]
  | .compare c l r, f, he, hf => by
    simp [value, Expr.value, value_eq h l f he.1 hf, value_eq h r f he.2 hf,
      compare_eq h c (l.isSound_value h f hf) (r.isSound_value h f hf)]
  | .arithmetic op l r, f, he, hf => by
    simp [value, Expr.value, value_eq h l f he.1 hf, value_eq h r f he.2 hf,
      toNumber_eq h (l.isSound_value h f hf), toNumber_eq h (r.isSound_value h f hf)]
  | .negate e, f, he, hf => by
    simp [value, Expr.value, value_eq h e f he hf, toNumber_eq h (e.isSound_value h f hf)]
  | .union l r, f, he, hf => by
    simp [value, Expr.value, value_eq h l f he.1 hf, value_eq h r f he.2 hf]
  | .path absolute steps, f, he, hf => by
    have hstart : ∀ x ∈ [if absolute then .node Arena.root else f.location],
        a.holds x = true := by
      simpa using holds_start hf absolute
    simp [value, Expr.value, walk_eq h steps _ he hstart]
  | .filter primary predicates steps, f, he, hf => by
    obtain ⟨hprimary, hpredicates, hsteps⟩ := he
    have hholds := (primary.isSound_value h f hf).locations.2
    have hkept : ∀ x ∈ XPath.keepAll a predicates (primary.value a f).locations,
        a.holds x = true := fun x hx => hholds x ((keepAll_sublist _ _).subset hx)
    simp [value, Expr.value, value_eq h primary f hprimary hf,
      keepAll_eq h predicates _ hpredicates hholds, walk_eq h steps _ hsteps hkept]
  | .literal _, _, _, _ => rfl
  | .number _, _, _, _ => rfl
  | .call function arguments, f, he, hf => by
    have htakes : function.takes (XPath.argumentValues a arguments f).length = true := by
      rw [length_argumentValues]
      exact he.1
    simp [value, Expr.value, argumentValues_eq h arguments f he.2 hf,
      apply_eq h hf (isSound_of_mem_argumentValues h hf arguments) function htakes]

theorem argumentValues_eq (h : a.WellFormed) : ∀ (es : List Expr) (f : Focus), ExprsSuited es →
    a.holds f.location = true → argumentValues a es f = some (XPath.argumentValues a es f)
  | [], _, _, _ => rfl
  | e :: es, f, he, hf => by
    simp [argumentValues, XPath.argumentValues, value_eq h e f he.1 hf,
      argumentValues_eq h es f he.2 hf]

theorem keepAll_eq (h : a.WellFormed) : ∀ (ps : List Expr) (xs : List Location), ExprsSuited ps →
    (∀ x ∈ xs, a.holds x = true) → keepAll a ps xs = some (XPath.keepAll a ps xs)
  | [], _, _, _ => rfl
  | p :: ps, xs, hps, hxs => by
    have hkeep : keep (fun f => value a p f) xs = some (XPath.keep (fun f => p.value a f) xs) :=
      keep_eq fun x hx i n => value_eq h p ⟨x, i, n⟩ hps.1 (hxs x hx)
    have hkept : ∀ x ∈ XPath.keep (fun f => p.value a f) xs, a.holds x = true :=
      fun x hx => hxs x ((keep_sublist _ _).subset hx)
    simp [keepAll, XPath.keepAll, hkeep, keepAll_eq h ps _ hps.2 hkept]

theorem reach_eq (h : a.WellFormed) : ∀ (s : Step) (x : Location), s.Suited →
    a.holds x = true → reach a s x = some (s.reach a x)
  | .mk axis test predicates, x, hs, hx => by
    have hpass : (axis.locations a x).filterM (passes a test) =
        some ((axis.locations a x).filter (test.passes a)) :=
      filterM_eq_some fun y hy => passes_eq test (axis.holds_of_mem h hx hy)
    have hfound : ∀ y ∈ (axis.locations a x).filter (test.passes a), a.holds y = true :=
      fun y hy => axis.holds_of_mem h hx (List.mem_filter.1 hy).1
    simp [reach, Step.reach, locations_eq h axis hx, hpass, keepAll_eq h predicates _ hs hfound]

theorem walk_eq (h : a.WellFormed) : ∀ (ss : List Step) (xs : List Location), StepsSuited ss →
    (∀ x ∈ xs, a.holds x = true) → walk a ss xs = some (XPath.walk a ss xs)
  | [], _, _, _ => rfl
  | s :: ss, xs, hss, hxs => by
    have hreach : xs.mapM (fun x => reach a s x) = some (xs.map (s.reach a)) :=
      mapM_eq_some fun x hx => reach_eq h s x hss.1 (hxs x hx)
    have hfound : ∀ y ∈ arrange (xs.flatMap (s.reach a)), a.holds y = true := fun y hy => by
      obtain ⟨x, hx, hy⟩ := List.mem_flatMap.1 (mem_arrange.1 hy)
      exact s.holds_of_mem_reach h (hxs x hx) hy
    have hwalk := walk_eq h ss _ hss.2 hfound
    rw [List.flatMap_def] at hwalk
    simp [walk, XPath.walk, hreach, hwalk, List.flatMap_def]

end

end Checked

/-- An expression that was read is evaluated at every location of every tree that is laid out, whatever
stands in it, without looking up what is not there. If its value is a set of locations, then these are
locations of the tree, each before the next in document order. -/
theorem evaluate_safe {text : Text} {e : Expr} (hparse : parse text = .ok e) (t : OrderedTree)
    {x : Location} (hx : (Arena.laidOut t).holds x = true) :
    Checked.value (Arena.laidOut t) e ⟨x, 1, 1⟩ = some (evaluate (Arena.laidOut t) e x) ∧
      ∀ xs, evaluate (Arena.laidOut t) e x = .nodes xs →
        xs.Pairwise (fun y z => y.before z = true) ∧
        ∀ y ∈ xs, (Arena.laidOut t).holds y = true := by
  have hwell : (Arena.laidOut t).WellFormed := Arena.laidOut_eq t ▸ Arena.wellFormed_ofTree t
  obtain ⟨tokens, -, hspells⟩ := parse_eq_ok_iff_tokenize.1 hparse
  exact ⟨Checked.value_eq hwell e _ hspells.suited hx, e.isSound_value hwell _ hx⟩

/-- From a text in a document within an element, the attributes of the element and the text itself: the
attributes come first. -/
theorem evaluate_of_text_node :
    let a := Arena.laidOut (.node .document [.node (.element "template" [("id", "a"), ("class", "b")])
      [.node .document [.node (.text "t") []]]])
    ∃ e, parse "../../@*|." = .ok e ∧ a.holds (.node 3) = true ∧
      Checked.value a e ⟨.node 3, 1, 1⟩ = some (.nodes [.attr 1 0, .attr 1 1, .node 3]) := by
  intro a
  have htokens : tokenize "../../@*|." = .ok [⟨.doubleDot, 0⟩, ⟨.slash, 2⟩, ⟨.doubleDot, 3⟩,
      ⟨.slash, 5⟩, ⟨.at, 6⟩, ⟨.star, 7⟩, ⟨.pipe, 8⟩, ⟨.dot, 9⟩] := by with_unfolding_all rfl
  have hparse : parse "../../@*|." = .ok (.union
      (.path false [.up, .up, .mk .attributes .anyName []]) (.path false [.here])) := by
    unfold parse
    rw [htokens]
    rfl
  have hholds : a.holds (.node 3) = true := by
    simp only [a, Arena.laidOut_eq]
    rfl
  refine ⟨_, hparse, hholds, ?_⟩
  rw [(evaluate_safe hparse _ hholds).1]
  simp only [Arena.laidOut_eq]
  cbv

end WebCrawl.XPath
