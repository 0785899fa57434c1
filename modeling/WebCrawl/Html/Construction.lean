import WebCrawl.Html.Token

/-!
# Documents from markup

Every document has an `html` element with a head and a body, whether they are written or not. The
parts of a document are collected while its markup is read, and put together at the end.

This stands in for an HTML parser, which is no part of this library. It reads markup in which every
element that has an end tag is closed, in order, as such a parser does. It opens and closes no element
on its own but `html`, `head` and `body`, knows no tables, and does not put the content of a `template`
into a document of its own. What is proved of documents is therefore stated for every arena, or for
every tree that can be laid out, and not for the documents that are read here.

## Main definitions

* `WebCrawl.Html.Draft` — the parts of a document read so far.
* `WebCrawl.Html.Draft.add` — the draft after one more piece of markup.
* `WebCrawl.Html.parse` — the forest of the document that a text spells.
-/

set_option autoImplicit false

namespace WebCrawl.Html

open Text

/-! ## Drafts -/

/-- Where in a document the next piece of markup stands. -/
inductive Phase where
  | beforeHtml
  | beforeHead
  | inHead
  | afterHead
  | inBody
  | afterBody
  | afterHtml
deriving DecidableEq, Repr

/-- An element that is still open, with its children in reverse. -/
structure OpenElement where
  /-- Its name. -/
  name : Text
  /-- Its attributes. -/
  attributes : Attributes
  /-- Its children so far, the last first. -/
  children : List Tree

/-- The parts of a document read so far. Every list of nodes is in reverse. -/
structure Draft where
  /-- Where the next piece stands. -/
  phase : Phase := .beforeHtml
  /-- The nodes before the `html` element. -/
  preamble : List Tree := []
  /-- The attributes of the `html` element. -/
  htmlAttributes : Attributes := []
  /-- The children of the `html` element before the head. -/
  beforeHead : List Tree := []
  /-- The attributes of the head. -/
  headAttributes : Attributes := []
  /-- The children of the head. -/
  head : List Tree := []
  /-- The children of the `html` element between head and body. -/
  afterHead : List Tree := []
  /-- The attributes of the body. -/
  bodyAttributes : Attributes := []
  /-- The children of the body. -/
  body : List Tree := []
  /-- The children of the `html` element after the body. -/
  afterBody : List Tree := []
  /-- The nodes after the `html` element. -/
  epilogue : List Tree := []
  /-- The elements that are open within the head or the body, the innermost first. -/
  openElements : List OpenElement := []

/-- One more node at the end of a reversed list; a text is joined to a text before it. -/
def append (nodes : List Tree) (node : Tree) : List Tree :=
  match node, nodes with
  | .text [], _ => nodes
  | .text t, .text s :: more => .text (s ++ t) :: more
  | _, _ => node :: nodes

/-- The attributes of an element together with those of another tag for it that it has not. -/
def merge (attributes more : Attributes) : Attributes :=
  arrange (attributes ++ more)

namespace Draft

/-- A node put where the draft stands: into the innermost open element, or into the head or the
body. -/
def place (d : Draft) (node : Tree) : Draft :=
  match d.openElements with
  | e :: outer => { d with openElements := { e with children := append e.children node } :: outer }
  | [] =>
    match d.phase with
    | .inHead | .afterHead => { d with head := append d.head node }
    | _ => { d with body := append d.body node }

/-- The innermost open element closed. -/
def closeOne (d : Draft) : Draft :=
  match d.openElements with
  | [] => d
  | e :: outer =>
    place { d with openElements := outer } (.element e.name e.attributes e.children.reverse)

/-- The innermost `n` open elements closed. -/
def close : Nat → Draft → Draft
  | 0, d => d
  | n + 1, d => close n d.closeOne

/-- All open elements closed. -/
def closeAll (d : Draft) : Draft := close d.openElements.length d

/-- An element opened; one that has a start tag only is closed at once. -/
def openElement (d : Draft) (name : Text) (attributes : Attributes) : Draft :=
  if voidElements.contains name then d.place (.element name attributes [])
  else { d with openElements := ⟨name, attributes, []⟩ :: d.openElements }

/-- The innermost open element of the given name closed, with those inside it. An end tag without
a start tag has no effect. -/
def closeElement (d : Draft) (name : Text) : Draft :=
  match d.openElements.findIdx? (·.name == name) with
  | some i => close (i + 1) d
  | none => d

/-! ## Pieces of markup by phase -/

/-- A piece of markup in the body. -/
def addInBody (d : Draft) : Token → Draft
  | .text t => d.place (.text t)
  | .comment t => d.place (.comment t)
  | .doctype _ => d
  | .startTag name attributes =>
    if name = "html".toList then { d with htmlAttributes := merge d.htmlAttributes attributes }
    else if name = "body".toList then { d with bodyAttributes := merge d.bodyAttributes attributes }
    else if name = "head".toList then d
    else d.openElement name attributes
  | .endTag name =>
    if name = "body".toList then { d.closeAll with phase := .afterBody }
    else if name = "html".toList then { d.closeAll with phase := .afterHtml }
    else d.closeElement name

/-- A piece of markup after the head. -/
def addAfterHead (d : Draft) (token : Token) : Draft :=
  let inBody : Draft := { d with phase := .inBody }
  match token with
  | .text t =>
    { d with afterHead := append d.afterHead (.text (t.takeWhile isSpace)) } |> fun d =>
      if t.all isSpace then d
      else addInBody { d with phase := .inBody } (.text (t.dropWhile isSpace))
  | .comment t => { d with afterHead := append d.afterHead (.comment t) }
  | .doctype _ => d
  | .startTag name attributes =>
    if name = "html".toList then { d with htmlAttributes := merge d.htmlAttributes attributes }
    else if name = "body".toList then { inBody with bodyAttributes := attributes }
    else if name = "head".toList then d
    else if headElements.contains name then d.openElement name attributes
    else addInBody inBody token
  | .endTag name =>
    if name = "body".toList ∨ name = "html".toList then addInBody inBody token else d

/-- A piece of markup in the head. -/
def addInHead (d : Draft) (token : Token) : Draft :=
  let afterHead : Draft := { d with phase := .afterHead }
  match token with
  | .text t =>
    d.place (.text (t.takeWhile isSpace)) |> fun d =>
      if t.all isSpace then d
      else addAfterHead { d with phase := .afterHead } (.text (t.dropWhile isSpace))
  | .comment t => d.place (.comment t)
  | .doctype _ => d
  | .startTag name attributes =>
    if name = "html".toList then { d with htmlAttributes := merge d.htmlAttributes attributes }
    else if name = "head".toList then d
    else if headElements.contains name then d.openElement name attributes
    else addAfterHead afterHead token
  | .endTag name =>
    if name = "head".toList then afterHead
    else if name = "body".toList ∨ name = "html".toList then addAfterHead afterHead token
    else d

/-- A piece of markup before the head. -/
def addBeforeHead (d : Draft) (token : Token) : Draft :=
  let inHead : Draft := { d with phase := .inHead }
  match token with
  | .text t => if t.all isSpace then d else addInHead inHead (.text (t.dropWhile isSpace))
  | .comment t => { d with beforeHead := append d.beforeHead (.comment t) }
  | .doctype _ => d
  | .startTag name attributes =>
    if name = "html".toList then { d with htmlAttributes := merge d.htmlAttributes attributes }
    else if name = "head".toList then { inHead with headAttributes := attributes }
    else addInHead inHead token
  | .endTag name =>
    if name = "head".toList ∨ name = "body".toList ∨ name = "html".toList then addInHead inHead token
    else d

/-- A piece of markup before the `html` element. -/
def addBeforeHtml (d : Draft) (token : Token) : Draft :=
  let beforeHead : Draft := { d with phase := .beforeHead }
  match token with
  | .text t => if t.all isSpace then d else addBeforeHead beforeHead token
  | .comment t => { d with preamble := append d.preamble (.comment t) }
  | .doctype name => { d with preamble := append d.preamble (.doctype name) }
  | .startTag name attributes =>
    if name = "html".toList then { beforeHead with htmlAttributes := attributes }
    else addBeforeHead beforeHead token
  | .endTag _ => addBeforeHead beforeHead token

/-- A piece of markup after the body. -/
def addAfterBody (d : Draft) (token : Token) : Draft :=
  match token with
  | .text t =>
    if t.all isSpace then d.place (.text t) else addInBody { d with phase := .inBody } token
  | .comment t =>
    if d.phase = .afterHtml then { d with epilogue := append d.epilogue (.comment t) }
    else { d with afterBody := append d.afterBody (.comment t) }
  | .doctype _ => d
  | .startTag name attributes =>
    if name = "html".toList then { d with htmlAttributes := merge d.htmlAttributes attributes }
    else addInBody { d with phase := .inBody } token
  | .endTag name =>
    if name = "html".toList then { d with phase := .afterHtml }
    else addInBody { d with phase := .inBody } token

/-- The draft after one more piece of markup. Inside an open element every piece belongs to it. -/
def add (d : Draft) (token : Token) : Draft :=
  if d.openElements.isEmpty then
    match d.phase with
    | .beforeHtml => d.addBeforeHtml token
    | .beforeHead => d.addBeforeHead token
    | .inHead => d.addInHead token
    | .afterHead => d.addAfterHead token
    | .inBody => d.addInBody token
    | .afterBody | .afterHtml => d.addAfterBody token
  else d.addInBody token

/-- The document put together. -/
def finish (d : Draft) : List Tree :=
  let d := d.closeAll
  let head := Tree.element "head" d.headAttributes d.head.reverse
  let body := Tree.element "body" d.bodyAttributes d.body.reverse
  let html := Tree.element "html" d.htmlAttributes
    (d.beforeHead.reverse ++ head :: d.afterHead.reverse ++ body :: d.afterBody.reverse)
  d.preamble.reverse ++ html :: d.epilogue.reverse

end Draft

/-- The forest of the document that a text spells, in place of an HTML parser. Every text spells one. -/
def parse (s : Text) : List Tree := ((tokens s).foldl Draft.add {}).finish

end WebCrawl.Html
