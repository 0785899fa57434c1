import WebCrawl.Text.Basic

/-!
# Documents as ordered trees

A document is an ordered forest of elements, texts, comments and doctypes. The content of a `template`
element is a document of its own, which stands below the element.

## Main definitions

* `WebCrawl.Html.Tree` — a node with everything below it.
* `WebCrawl.Html.Tree.size` — how many nodes it has.
* the classes of elements that the syntax treats in a way of their own.
-/

set_option autoImplicit false

namespace WebCrawl.Html

/-- Attributes with their values, in the order of the element. -/
abbrev Attributes := List (Text × Text)

/-- A node of a document with everything below it. -/
inductive Tree where
  | element (name : Text) (attributes : Attributes) (children : List Tree)
  /-- A document within the document. -/
  | fragment (children : List Tree)
  | text (content : Text)
  | comment (content : Text)
  | doctype (name : Text)
  /-- A node of any other kind. -/
  | other

instance : Inhabited Tree := ⟨.text []⟩

/-! ## Size -/

mutual

/-- The number of nodes of a tree. -/
def Tree.size : Tree → Nat
  | .element _ _ children | .fragment children => forestSize children + 1
  | _ => 1

/-- The number of nodes of a forest. -/
def forestSize : List Tree → Nat
  | [] => 0
  | t :: ts => t.size + forestSize ts

end

/-! ## Classes of elements -/

/-- The elements that have a start tag only. -/
def voidElements : List Text :=
  ["area", "base", "br", "col", "embed", "hr", "img", "input", "link", "meta", "param",
    "source", "track", "wbr"].map String.toList

/-- The elements whose text is written as it is. -/
def rawTextElements : List Text :=
  ["script", "style", "xmp", "iframe", "noembed", "noframes", "plaintext", "noscript"].map
    String.toList

/-- The elements whose content is text with character references. -/
def referenceTextElements : List Text := ["title", "textarea"].map String.toList

/-- The elements that belong to the head of a document. -/
def headElements : List Text :=
  ["title", "meta", "link", "base", "script", "style", "noscript", "noframes"].map String.toList

/-- The elements that do not begin with a line feed. -/
def lineFeedElements : List Text := ["pre", "textarea", "listing"].map String.toList

end WebCrawl.Html
