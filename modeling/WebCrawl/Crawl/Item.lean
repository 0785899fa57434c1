/-!
# Items

What a crawl collects. The crawler takes values of several kinds and looks only at which kind one
has; the values of a kind form a type of their own.

## Main definitions

* `WebCrawl.Crawl.Item` — a value with its kind.
* `WebCrawl.Crawl.Item.take` — the value of an item of a given kind, or the item as it was.
-/

set_option autoImplicit false

namespace WebCrawl.Crawl

variable {τ : Type} {V : τ → Type}

/-- A value with its kind. -/
structure Item (V : τ → Type) where
  /-- The kind. -/
  kind : τ
  /-- The value. -/
  value : V kind

namespace Item

variable [DecidableEq τ]

/-- Whether the item has the kind. -/
def is (i : Item V) (kind : τ) : Bool := i.kind = kind

/-- The value of an item of the kind, or the item as it was. -/
def take (i : Item V) (kind : τ) : Except (Item V) (V kind) :=
  if h : i.kind = kind then .ok (h ▸ i.value) else .error i

/-- The item with another value, if that is of the same kind. -/
def overwrite (i : Item V) (kind : τ) (value : V kind) : Option (Item V) :=
  if i.kind = kind then some ⟨kind, value⟩ else none

theorem take_kind (i : Item V) : i.take i.kind = .ok i.value := by simp [take]

end Item

end WebCrawl.Crawl
