import WebCrawl.Html.Construction
import WebCrawl.Html.Rendering
import WebCrawl.Query.Cache

/-!
# Documents and what is found in them

A document answers selectors and expressions from any of its locations. Queries are compiled
through a cache, which several documents may share.

## Main definitions

* `WebCrawl.Query.Document` — a document to be queried.
* `WebCrawl.Query.Document.css`, `WebCrawl.Query.Document.xpath` — the locations that a selector or
  an expression finds.
* `WebCrawl.Query.Document.text`, `WebCrawl.Query.Document.markup` and others — what stands at a
  location.
-/

set_option autoImplicit false

namespace WebCrawl.Query

open Html

/-- A document to be queried. -/
structure Document where
  /-- Its nodes. -/
  arena : Arena

namespace Document

/-- The document that a text spells. -/
def parse (markup : Text) : Document := ⟨Arena.ofForest (Html.parse markup)⟩

/-- The location of the document itself. -/
def root : Location := .node Arena.root

variable (d : Document)

/-! ## Queries -/

/-- The locations that the query of a source finds from a location, and the cache afterwards. -/
def select (source : Source) (start : Location) (cache : Cache) :
    Except Error (List Location) × Cache :=
  match cache.request source with
  | (.ok issued, cache) => (.ok (issued.query.select d.arena start), cache)
  | (.error e, cache) => (.error e, cache)

/-- The scope of selectors put to a location. -/
def scopeAt (start : Location) : Css.Scope := if start = root then .document else .node

/-- The locations that a selector finds from a location. From the document itself it is matched in
the whole document, from any other location below that location. -/
def css (selector : Text) (start : Location) (cache : Cache) :
    Except Error (List Location) × Cache :=
  d.select (.css selector (scopeAt start)) start cache

/-- The locations that an expression finds from a location. -/
def xpath (expression : Text) (start : Location) (cache : Cache) :
    Except Error (List Location) × Cache :=
  d.select (.xpath expression) start cache

/-! ## What stands at a location -/

/-- The text at a location, without comments. -/
def text : Location → Text
  | .node id =>
    match d.arena.data? id with
    | some (.comment _) => []
    | _ => d.arena.text id
  | .attr owner index => d.arena.textAt (.attr owner index)

/-- A text with every double quote written as a reference. -/
def escapeQuotes (s : Text) : Text :=
  s.flatMap fun c => if c = '"' then "&quot;".toList else [c]

/-- The location as markup. -/
def markup : Location → Text
  | .node id => d.arena.outerMarkup id
  | .attr owner index =>
    match d.arena.attributeAt? owner index with
    | some (name, value) => name ++ "=\"".toList ++ escapeQuotes value ++ "\"".toList
    | none => []

/-- What is at the location as markup, without its own tags. -/
def innerMarkup : Location → Text
  | .node id => d.arena.innerMarkup id
  | .attr owner index => d.text (.attr owner index)

/-- The value of the attribute of the given name, if the location is an element that has it. -/
def value? (location : Location) (name : Text) : Option Text :=
  match location with
  | .node id => d.arena.attribute? id name
  | .attr _ _ => none

/-- The name of the element or attribute at the location. -/
def name? (location : Location) : Option Text := d.arena.nameAt? location

/-- The values of the attribute of the given name at each of the locations, empty where there is
none. -/
def values (locations : List Location) (name : Text) : List Text :=
  locations.map fun x => (d.value? x name).getD []

end Document

end WebCrawl.Query
