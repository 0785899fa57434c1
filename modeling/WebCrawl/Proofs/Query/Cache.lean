import Mathlib.Tactic.Common
import WebCrawl.Query.Document

set_option autoImplicit false

/-!
# Queries through a cache

A cache that was filled by requests holds what their sources are compiled to, so that a query
through it is the query of its source.

## Main definitions

* `WebCrawl.Query.Cache.Faithful` — the cache holds what sources are compiled to.

## Main results

* `WebCrawl.Query.Cache.Faithful.request_eq` — a request answers with what the source is compiled to.
* `WebCrawl.Query.Cache.Faithful.request` — and leaves the cache faithful.
* `WebCrawl.Query.Document.css_eq` — what a selector finds does not depend on the cache.
-/

namespace WebCrawl.Query

open Html

namespace Cache

/-- Every query that is kept is what its source is compiled to. -/
def Faithful (c : Cache) : Prop :=
  ∀ source issued, (source, issued) ∈ c.entries → compile source = .ok issued.query

/-- An empty cache is faithful. -/
lemma faithful_empty (capacity : Nat) : (empty capacity).Faithful := nofun

/-- A query that is found is among those that are kept. -/
lemma mem_of_lookup {entries : List (Source × Issued)} {source : Source} {issued : Issued}
    (h : entries.lookup source = some issued) : (source, issued) ∈ entries := by
  induction entries with
  | nil => cases h
  | cons entry entries ih =>
    rw [List.lookup_cons] at h
    split at h
    · rename_i heq
      obtain rfl : issued = entry.2 := (Option.some.inj h).symm
      obtain rfl : source = entry.1 := by simpa using heq
      exact List.mem_cons_self ..
    · exact List.mem_cons_of_mem _ (ih h)

variable {c : Cache}

/-- The answer to a request is what the source is compiled to. -/
theorem Faithful.request_eq (h : c.Faithful) (source : Source) :
    (c.request source).1.map Issued.query = compile source := by
  unfold Cache.request
  cases hfound : c.entries.lookup source with
  | some issued => exact (h source issued (mem_of_lookup hfound)).symm
  | none => cases compile source <;> rfl

/-- A request leaves a faithful cache faithful. -/
theorem Faithful.request (h : c.Faithful) (source : Source) : (c.request source).2.Faithful := by
  unfold Cache.request
  cases hfound : c.entries.lookup source with
  | some issued =>
    intro source' issued' hmem
    rcases List.mem_cons.1 hmem with heq | hmem
    · cases heq
      exact h source issued (mem_of_lookup hfound)
    · exact h source' issued' (List.mem_filter.1 hmem).1
  | none =>
    cases hcompile : compile source with
    | error e => exact h
    | ok query =>
      intro source' issued' hmem
      rcases List.mem_cons.1 (List.mem_of_mem_take hmem) with heq | hmem
      · cases heq
        exact hcompile
      · exact h source' issued' hmem

end Cache

/-- What a selector finds through a faithful cache is what its query finds. -/
theorem Document.css_eq {cache : Cache} (hc : cache.Faithful) (d : Document) (selector : Text)
    (start : Location) :
    (d.css selector start cache).1 =
      (compile (.css selector (scopeAt start))).map fun q => q.select d.arena start := by
  unfold Document.css Document.select
  rw [← hc.request_eq]
  split <;> rename_i heq <;> rw [heq] <;> rfl

end WebCrawl.Query
