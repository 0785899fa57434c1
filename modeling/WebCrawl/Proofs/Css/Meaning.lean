import Mathlib.Data.List.Basic
import WebCrawl.Css.Selector
import WebCrawl.Proofs.Html.Arena
import WebCrawl.Proofs.XPath.Lexing

set_option autoImplicit false

/-!
# What selectors mean

What a selector asks of the elements of a document, said without the expression that it is
translated to: a compound holds of an element or does not, and an alternative leads from one node
to another along a chain of elements of which its compounds hold.

The words of a value are its pieces between spaces; other blanks belong to the words. Names of types
and attributes are compared in letters of either case, values letter by letter.

## Main definitions

* `WebCrawl.Css.AttributeTest.Holds`, `WebCrawl.Css.Qualifier.Holds`,
  `WebCrawl.Css.Compound.Holds` — what is asked of a single element.
* `WebCrawl.Css.Combinator.Relates`, `WebCrawl.Css.Complex.Leads` — chains of elements.
* `WebCrawl.Css.Group.Plain` — groups that ask neither for places nor for adjacent siblings.
-/

namespace WebCrawl.Css

open Html Text

variable (a : Arena)

/-! ## Single elements -/

/-- What a test asks of the value of an attribute. -/
def AttributeTest.Holds (value : Text) : AttributeTest → Prop
  | .present => True
  | .equals v => value = v
  | .includes v => v ∈ splitAt ' ' value
  | .dashMatch v => value = v ∨ v ++ ['-'] <+: value
  | .beginsWith v => v <+: value
  | .endsWith v => v <:+ value
  | .contains v => v <:+: value

/-- What an argument asks of an index. -/
def Nth.Holds (index : Nat) : Nth → Prop
  | .even => index % 2 = 0
  | .odd => index % 2 = 1
  | .progression step first => ∃ k : Nat, (index : Int) = step * k + first
  | .only first => (index : Int) = first

/-- What a place asks of an index, the first being one, and of the number of peers. -/
def Place.Holds (index count : Nat) : Place → Prop
  | .first => index = 1
  | .last => index = count
  | .sole => index = 1 ∧ count = 1
  | .nth argument => argument.Holds index

/-- The element is of the given type; a star stands for every type. -/
def OfType (type : Text) (x : Nat) : Prop :=
  ∃ name, a.elementName? x = some name ∧ (type = ['*'] ∨ sameLetters name type = true)

/-- The elements among which an element has its place, in document order. -/
def Peers.of (x : Nat) (peers : Peers) : List Nat :=
  (((a.parent x).map a.children).getD []).filter fun y =>
    match peers with
    | .all => (a.elementName? y).isSome
    | .sameType => (a.elementName? y).any fun name => (a.elementName? x).any (sameLetters name)

mutual

/-- What a qualifier asks of an element. -/
def Qualifier.Holds (x : Nat) : Qualifier → Prop
  | .className name =>
    ∃ value, a.attribute? x "class" = some value ∧ (AttributeTest.includes name).Holds value
  | .identifier name =>
    ∃ value, a.attribute? x "id" = some value ∧ (AttributeTest.equals name).Holds value
  | .attr name test => ∃ value, a.attribute? x name = some value ∧ test.Holds value
  | .place peers place => place.Holds ((peers.of a x).idxOf x + 1) (peers.of a x).length
  | .negation type qualifiers => ¬((∀ t ∈ type, OfType a t x) ∧ AllHold x qualifiers)

/-- What all of some qualifiers ask of an element. -/
def AllHold (x : Nat) : List Qualifier → Prop
  | [] => True
  | q :: qs => q.Holds x ∧ AllHold x qs

end

/-- What a compound asks of a node: to be an element, of the type, with all further qualities. -/
def Compound.Holds (x : Nat) (c : Compound) : Prop :=
  (a.elementName? x).isSome ∧ (∀ t ∈ c.type, OfType a t x) ∧ AllHold a x c.qualifiers

/-! ## Chains of elements -/

/-- How a combinator relates a node to the one reached from it. -/
def Combinator.Relates (x y : Nat) : Combinator → Prop
  | .descendant => a.IsAncestor x y
  | .child => a.IsParent x y
  | .adjacent => a.IsFollowingSibling x y ∧
    ∀ z, a.IsFollowingSibling x z → (a.elementName? z).isSome → y ≤ z
  | .sibling => a.IsFollowingSibling x y

/-- An alternative leads from one node to another along nodes of which its compounds hold, each
related to the one before by the combinator. -/
def Complex.Leads : Complex → Nat → Nat → Prop
  | [], x, y => x = y
  | (combinator, compound) :: more, x, y =>
    ∃ z, combinator.Relates a x z ∧ compound.Holds a z ∧ Leads more z y

/-! ## Plain selectors -/

/-- The test is none for the end of a value. If it asks for a word, then for one that can be a word;
if for a part of the value, then for one that is not empty. -/
def AttributeTest.Plain : AttributeTest → Prop
  | .includes v => v ≠ [] ∧ ' ' ∉ v
  | .beginsWith v | .contains v => v ≠ []
  | .endsWith _ => False
  | _ => True

/-- The qualifier asks for no place, and for attributes of single names by plain tests. -/
inductive Qualifier.Plain : Qualifier → Prop
  | className (name : Text) : Plain (.className name)
  | identifier (name : Text) : Plain (.identifier name)
  | attr {name : Text} {test : AttributeTest} (hname : XPath.isName name = true)
    (htest : test.Plain) : Plain (.attr name test)
  | negation {type : Option Text} {qs : List Qualifier} (h : ∀ q ∈ qs, q.Plain) :
    Plain (.negation type qs)

/-- The alternative does without adjacent siblings, and all its qualifiers are plain. -/
def Complex.Plain (c : Complex) : Prop :=
  ∀ part ∈ c, part.1 ≠ .adjacent ∧ ∀ q ∈ part.2.qualifiers, q.Plain

/-- All alternatives are plain. -/
def Group.Plain (g : Group) : Prop := ∀ c ∈ g, Complex.Plain c

end WebCrawl.Css
