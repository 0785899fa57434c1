import WebCrawl.Engine.Basic

/-!
# Closing

An engine is closed from the front to the back: first its queue of requests, then, when all requests
under way have ended, its queue of items, and in the end, when all items under way have ended, its
pipelines. What still waits in a queue when that is closed is thrown away.

Here an engine is closed by one call at a time, which is never given up: a closing begins when none is
under way, and it waits itself for the dispatcher and for the item workers. Calls that overlap, of which
only one finds a handle to wait with, and calls that are given up are those of `WebCrawl.Shared`. The
steps below are such calls one after another, by `WebCrawl.Engine.Reachable.exists_calls` and
`WebCrawl.Shared.exists_engine`.

## Main definitions

* `WebCrawl.Engine.close?`, `discardRequests?`, `discardItems?`, `closePipeline?` — the steps of
  closing.
-/

set_option autoImplicit false

namespace WebCrawl.Engine

open Crawl

variable {κ τ : Type} {V : τ → Type}

/-- The queue of requests is closed, if no closing is under way. -/
def close? (e : Engine κ V) : Option (Engine κ V) :=
  match e.closing with
  | .no => some
    ({ e with
      connectable := false
      requests := e.requests.close
      closing := .requests e.requests.waiting.length }.log (.cleared e.requests.waiting))
  | _ => none

/-- Whether the dispatcher does nothing more. -/
def dispatcherHasEnded (e : Engine κ V) : Bool :=
  match e.dispatcher with
  | .off => true
  | .ended => true
  | _ => false

/-- Whether the item workers do nothing more. -/
def itemWorkersHaveEnded (e : Engine κ V) : Bool :=
  e.itemWorkers.all fun w => match w with
    | .ended => true
    | _ => false

/-- The requests that waited are thrown away and the queue of items is closed, when the dispatcher has
ended. -/
def discardRequests? (e : Engine κ V) : Option (Engine κ V) :=
  match e.closing with
  | .requests _ =>
    if e.dispatcherHasEnded then some
      { e.count Work.request.discard with
        items := e.items.close
        closing := .items (e.activity.get (.queued .request)) e.items.waiting.length }
    else none
  | _ => none

/-- The pipelines from a place on are to be closed. -/
def closingFrom (e : Engine κ V) (next : Nat) : Closing :=
  if next < e.setup.pipelines.length then .pipelines next else .no

/-- The items that waited are thrown away, when the item workers have ended. -/
def discardItems? (e : Engine κ V) : Option (Engine κ V) :=
  match e.closing with
  | .items discarded _ =>
    if e.itemWorkersHaveEnded then some
      ({ e.count Work.item.discard with
        stats := e.stats.recordDiscarded discarded (e.activity.get (.queued .item))
        closing := e.closingFrom 0 }.log (.discarded discarded (e.activity.get (.queued .item))))
    else none
  | _ => none

/-- The next pipeline is closed. -/
def closePipeline? (e : Engine κ V) : Option (Engine κ V) :=
  match e.closing with
  | .pipelines next =>
    some ({ e with closing := e.closingFrom (next + 1) }.log (.pipelineClosed next))
  | _ => none

end WebCrawl.Engine
