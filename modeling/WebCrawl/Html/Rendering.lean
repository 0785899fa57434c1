import WebCrawl.Html.Arena

/-!
# Documents as markup

A node is written as markup with its tags, what stands in it and, where a character has a meaning of its
own, a reference to the character. The text of some elements is written as it is.

## Main definitions

* `WebCrawl.Html.escapeText`, `WebCrawl.Html.escapeValue` — texts and attribute values as they are
  written.
* `WebCrawl.Html.Arena.outerMarkup`, `WebCrawl.Html.Arena.innerMarkup` — a node, or what is in it,
  as markup.
-/

set_option autoImplicit false

namespace WebCrawl.Html

/-- A character as it is written in a text. -/
def escapeTextChar : Char → Text
  | '&' => "&amp;"
  | '\u00a0' => "&nbsp;"
  | '<' => "&lt;"
  | '>' => "&gt;"
  | c => [c]

/-- A character as it is written in the value of an attribute. -/
def escapeValueChar : Char → Text
  | '&' => "&amp;"
  | '\u00a0' => "&nbsp;"
  | '"' => "&quot;"
  | c => [c]

/-- A text as it is written. -/
def escapeText (s : Text) : Text := s.flatMap escapeTextChar

/-- The value of an attribute as it is written. -/
def escapeValue (s : Text) : Text := s.flatMap escapeValueChar

/-- An attribute as it is written in a start tag. -/
def attributeMarkup : Text × Text → Text
  | (name, value) => " ".toList ++ name ++ "=\"".toList ++ escapeValue value ++ "\"".toList

/-- A start tag. -/
def startTag (name : Text) (attributes : Attributes) : Text :=
  "<".toList ++ name ++ attributes.flatMap attributeMarkup ++ ">".toList

/-- An end tag. -/
def endTag (name : Text) : Text := "</".toList ++ name ++ ">".toList

namespace Arena

variable (a : Arena)

/-- Whether the text of the node is written as it is. -/
def isRaw (id : Nat) : Bool :=
  ((a.parent id).bind a.elementName?).any rawTextElements.contains

/-- The node as markup, no more than `depth` levels deep. -/
def markupUpTo : Nat → Nat → Text
  | 0, _ => []
  | depth + 1, id =>
    match a.data? id with
    | some .document => (a.children id).flatMap (markupUpTo depth)
    | some (.doctype name) => "<!DOCTYPE ".toList ++ name ++ ">".toList
    | some (.element name attributes) =>
      if voidElements.contains name then startTag name attributes
      else startTag name attributes ++ (a.children id).flatMap (markupUpTo depth) ++ endTag name
    | some (.text content) => if a.isRaw id then content else escapeText content
    | some (.comment content) => "<!--".toList ++ content ++ "-->".toList
    | some .other | none => []

/-- The node as markup. No document is deeper than it has nodes. -/
def outerMarkup (id : Nat) : Text := a.markupUpTo a.size id

/-- What is in the node as markup. -/
def innerMarkup (id : Nat) : Text := (a.children id).flatMap a.outerMarkup

end Arena

end WebCrawl.Html
