import WebCrawl.Crawl.Message

/-!
# Contexts

A request that is asked for by a context lies one step further from the start and names the last
response of that context as where it came from.

## Main definitions

* `WebCrawl.Crawl.Context.adopt` — a request asked for by a context.
* `WebCrawl.Crawl.Context.keep` — a request that keeps its place.
* `WebCrawl.Crawl.Context.observe` — the context after an exchange.
-/

set_option autoImplicit false

namespace WebCrawl.Crawl.Context

variable {κ : Type}

/-- The context after an exchange. -/
def observe (c : Context κ) (request : Request κ) (response : Response κ) : Context κ :=
  { c with lastRequest := some request, lastResponse := some response }

/-- The context one step further from the start. -/
def child (c : Context κ) : Context κ := { c with depth := countUp c.depth }

/-- A request that names the last response as where it came from, unless it names something. -/
def refer (c : Context κ) (r : Request κ) : Request κ :=
  match c.lastResponse with
  | some last =>
    if r.headers.contains "Referer" then r
    else { r with headers := r.headers.set "Referer" last.url }
  | none => r

/-- A request asked for by the context. -/
def adopt (c : Context κ) (r : Request κ) : Request κ := { c.refer r with context := some c.child }

/-- A request that keeps its place, or takes that of the context if it has none. -/
def keep (c : Context κ) (r : Request κ) : Request κ :=
  { r with context := some (r.context.getD c) }

end WebCrawl.Crawl.Context
