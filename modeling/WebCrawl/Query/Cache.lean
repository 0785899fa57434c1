import WebCrawl.Query.Compiled

/-!
# A cache of compiled queries

The queries compiled last are kept for use by the same source again. Of more than the capacity the
one that was not asked for the longest is given up. A cache without capacity keeps none.

## Main definitions

* `WebCrawl.Query.Issued` — a compiled query with the number of its compilation, which tells two
  compilations of one source apart.
* `WebCrawl.Query.Cache` — the queries kept, the one asked for last first.
* `WebCrawl.Query.Cache.request` — the query of a source, from the cache if it is there.
-/

set_option autoImplicit false

namespace WebCrawl.Query

/-- A compiled query with the number of its compilation. -/
structure Issued where
  /-- How many compilations there were before it. -/
  serial : Nat
  /-- The query. -/
  query : Compiled

/-- The queries compiled last. -/
structure Cache where
  /-- How many queries are kept at most. -/
  capacity : Nat
  /-- The queries kept with their sources, the one asked for last first. -/
  entries : List (Source × Issued)
  /-- How many compilations there were. -/
  compilations : Nat

namespace Cache

/-- An empty cache. -/
def empty (capacity : Nat) : Cache := ⟨capacity, [], 0⟩

/-- The capacity of a cache for which none is given. -/
def defaultCapacity : Nat := 100

/-- Whether the cache keeps queries. -/
def isEnabled (c : Cache) : Bool := c.capacity != 0

/-- The number of queries kept. -/
def size (c : Cache) : Nat := c.entries.length

/-- The entries of other sources. -/
def others (source : Source) (entries : List (Source × Issued)) : List (Source × Issued) :=
  entries.filter fun entry => entry.1 != source

/-- The query of a source, and the cache after it was asked for. A failure changes nothing. -/
def request (c : Cache) (source : Source) : Except Error Issued × Cache :=
  match c.entries.lookup source with
  | some found => (.ok found, { c with entries := (source, found) :: others source c.entries })
  | none =>
    match compile source with
    | .error e => (.error e, c)
    | .ok query =>
      let issued : Issued := ⟨c.compilations, query⟩
      (.ok issued,
        { c with
          entries := ((source, issued) :: c.entries).take c.capacity
          compilations := c.compilations + 1 })

end Cache

end WebCrawl.Query
