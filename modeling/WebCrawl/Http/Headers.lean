import WebCrawl.Text.Basic

/-!
# Headers

The headers of a message in their order. Names are compared in letters of either case, and one name
may have several values.

## Main definitions

* `WebCrawl.Http.Headers` — the headers of a message.
* `WebCrawl.Http.Headers.getAll` — the values of a name, the view by which the operations are told
  apart.
-/

set_option autoImplicit false

namespace WebCrawl.Http

/-- The headers of a message in their order. -/
structure Headers where
  /-- The names with their values. -/
  entries : List (Text × Text)
deriving DecidableEq, Repr

namespace Headers

/-- No headers. -/
def empty : Headers := ⟨[]⟩

instance : Inhabited Headers := ⟨empty⟩

/-- The headers of a list. -/
def ofList (entries : List (Text × Text)) : Headers := ⟨entries⟩

/-- Whether an entry has the name. -/
def named (name : Text) (entry : Text × Text) : Bool := Text.sameLetters entry.1 name

/-- The values of a name, in order. -/
def getAll (h : Headers) (name : Text) : List Text := (h.entries.filter (named name)).map (·.2)

/-- The first value of a name. -/
def get? (h : Headers) (name : Text) : Option Text := (h.entries.find? (named name)).map (·.2)

/-- Whether a name has a value. -/
def contains (h : Headers) (name : Text) : Bool := (h.get? name).isSome

/-- The headers without the values of a name. -/
def remove (h : Headers) (name : Text) : Headers := ⟨h.entries.filter fun e => !named name e⟩

/-- How many values a name has. -/
def count (h : Headers) (name : Text) : Nat := h.entries.countP (named name)

/-- One more value of a name, after all others. -/
def append (h : Headers) (name value : Text) : Headers := ⟨h.entries ++ [(name, value)]⟩

/-- A value in place of all the values of a name. -/
def set (h : Headers) (name value : Text) : Headers := (h.remove name).append name value

/-- One more value for each of a list of names. -/
def extend (h : Headers) (entries : List (Text × Text)) : Headers := ⟨h.entries ++ entries⟩

/-- A value in place of the others for each of a list of names, one after the other. -/
def setAll (h : Headers) (entries : List (Text × Text)) : Headers :=
  entries.foldl (fun h (name, value) => h.set name value) h

/-- The number of entries. -/
def size (h : Headers) : Nat := h.entries.length

end Headers

end WebCrawl.Http
