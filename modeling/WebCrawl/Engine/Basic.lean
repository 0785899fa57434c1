import WebCrawl.Crawl.Activity
import WebCrawl.Crawl.Context
import WebCrawl.Crawl.Item
import WebCrawl.Crawl.Queue
import WebCrawl.Crawl.Response
import WebCrawl.Crawl.Stats
import WebCrawl.Crawl.Wire
import WebCrawl.Query.Cache

/-!
# The engine

An engine has a queue of requests and a queue of items. A dispatcher takes requests from their queue
and gives each to a worker of its own; a fixed number of item workers take items from theirs. This
module holds the state of an engine and what it does with what is handed in; the steps of its parts
are in the modules beside it.

The journal names what has happened. Nothing that the engine does depends on it.

## Main definitions

* `WebCrawl.Engine` — the state of an engine.
* `WebCrawl.Engine.Event` — what can happen.
* `WebCrawl.Engine.Effect`, `WebCrawl.Engine.perform` — what a handler can do, and its result.
* `WebCrawl.Engine.isIdle` — whether there is nothing to do.
-/

set_option autoImplicit false

namespace WebCrawl

open Crawl

/-! ## Parts of an engine -/

namespace Engine

variable {κ τ : Type} {V : τ → Type}

/-- How an engine was set up: its settings and who is told of what. -/
structure Setup (τ : Type) where
  /-- The settings. -/
  settings : Settings
  /-- Whether someone is told of every response. -/
  hearsResponses : Bool := false
  /-- Whether someone is told of every failure. -/
  hearsFailures : Bool := false
  /-- Whether someone decides what becomes of a redirect. -/
  judgesRedirects : Bool := false
  /-- The kinds of items that have a function of their own. -/
  itemKinds : List τ := []
  /-- Whether there is a function for items of all kinds. -/
  anyItem : Bool := false
  /-- The names of the pipelines in their order. -/
  pipelines : List Text := []

/-- An item on its way, with the context that collected it. -/
structure Envelope (κ : Type) (V : τ → Type) where
  /-- The item. -/
  item : Item V
  /-- The context. -/
  context : Context κ

/-- What a handler is told. -/
inductive Notice (κ : Type) where
  /-- There is a response, in the context after it. -/
  | response (response : Response κ) (context : Context κ)
  /-- A request has failed. -/
  | failure (request : Request κ) (error : Error) (context : Context κ)
  /-- A redirect proposes a request. -/
  | redirect (response : Response κ) (next : Request κ) (context : Context κ)

/-- Who is told. -/
inductive Level (κ : Type) where
  /-- The handler that the request brought with it. -/
  | request (handler : κ)
  /-- The handler of the crawler. -/
  | crawler

/-- How far a request worker has come. -/
inductive Phase (κ : Type) where
  /-- It has its request and nothing more. -/
  | ready (request : Request κ)
  /-- It has sent its request. -/
  | exchanging (request : Request κ) (wire : Wire)
  /-- A handler is being told, others will be, and the document of the response may have been read. -/
  | telling (notice : Notice κ) (level : Level κ) (later : List (Level κ)) (isRead : Bool)

/-- A request worker. Workers are numbered in the order in which their requests began. -/
structure Worker (κ : Type) where
  /-- The number of the worker. -/
  number : Nat
  /-- How far it has come. -/
  phase : Phase κ

/-- How far the dispatcher of the requests has come. -/
inductive Dispatcher (κ : Type) where
  /-- It was not started. -/
  | off
  /-- It waits for a request. -/
  | idle
  /-- It has a request that has not begun. -/
  | holding (request : Request κ)
  /-- It waits for the end of a worker, because there is a pause between requests. -/
  | attending (worker : Nat)
  /-- It waits for the end of the pause. -/
  | pausing
  /-- The queue is closed, and it waits for the end of all workers. -/
  | draining
  /-- It has ended. -/
  | ended

/-- A stage that an item passes. -/
inductive Stage (τ : Type) where
  /-- The function for items of a kind. -/
  | kind (kind : τ)
  /-- The function for items of all kinds. -/
  | any
  /-- A pipeline, by its place. -/
  | pipeline (index : Nat)
deriving DecidableEq, Repr

/-- What a stage makes of an item. -/
inductive Verdict (V : τ → Type) where
  /-- The item goes on as it is. -/
  | keep
  /-- Another item goes on in its place. -/
  | replace (item : Item V)
  /-- The item goes no further. -/
  | drop
  /-- The stage broke down. -/
  | panic

/-- How far an item worker has come. -/
inductive ItemWorker (κ : Type) (V : τ → Type) where
  /-- It waits for an item. -/
  | idle
  /-- It has an item that has not begun. -/
  | holding (envelope : Envelope κ V)
  /-- The item is in a stage, and others follow. -/
  | processing (envelope : Envelope κ V) (stage : Stage τ) (later : List (Stage τ))
  /-- It has ended. -/
  | ended

/-- How far the closing of the engine has come. -/
inductive Closing where
  /-- The engine is not being closed. -/
  | no
  /-- The queue of requests was closed, and so many were taken out of it. -/
  | requests (cleared : Nat)
  /-- So many requests were thrown away, the queue of items was closed, and so many items were taken
  out of it. -/
  | items (discarded cleared : Nat)
  /-- The pipelines from a place on are still to be closed. -/
  | pipelines (next : Nat)
deriving DecidableEq, Repr

/-- Who hands in a request. -/
inductive Origin where
  /-- Someone outside, a handler or a stage. -/
  | outside
  /-- A worker, in place of the request that it had. -/
  | worker (number : Nat)
deriving DecidableEq, Repr

/-- What can happen. -/
inductive Event (κ : Type) (V : τ → Type) where
  /-- A request was handed in. -/
  | enqueued (origin : Origin) (request : Request κ)
  /-- A request was handed in and not taken. -/
  | refused (origin : Origin) (request : Request κ)
  /-- A request began. -/
  | began (worker : Nat) (request : Request κ)
  /-- A request was sent. -/
  | sent (worker : Nat) (wire : Wire)
  /-- An answer came back. -/
  | answered (worker : Nat) (answer : Answer)
  /-- The handlers are told one after the other from here on. -/
  | noted (worker : Nat) (notice : Notice κ)
  /-- A handler was told. -/
  | told (worker : Nat) (level : Level κ) (notice : Notice κ)
  /-- A request ended. -/
  | finished (worker : Nat)
  /-- The queue of requests was closed, and some were taken out of it. -/
  | cleared (requests : List (Request κ))
  /-- An item was handed in. -/
  | itemEnqueued (envelope : Envelope κ V)
  /-- An item was handed in and not taken. -/
  | itemRefused (envelope : Envelope κ V)
  /-- An item began. -/
  | itemBegan (worker : Nat) (envelope : Envelope κ V)
  /-- An item came to a stage. -/
  | staged (worker : Nat) (stage : Stage τ) (envelope : Envelope κ V)
  /-- An item ended, and it had passed all stages or not. -/
  | itemFinished (worker : Nat) (passed : Bool)
  /-- So many requests and items that had waited were thrown away. -/
  | discarded (requests items : Nat)
  /-- A pipeline was closed. -/
  | pipelineClosed (index : Nat)

/-- What a handler can do. -/
inductive Effect (κ : Type) (V : τ → Type) where
  /-- It asks for a request one step further from the start than a context. -/
  | add (context : Context κ) (request : Request κ)
  /-- It asks for a request that keeps its place. -/
  | retry (context : Context κ) (request : Request κ)
  /-- It hands in a request as it is. -/
  | submit (request : Request κ)
  /-- It hands in an item. -/
  | item (context : Context κ) (item : Item V)
  /-- It asks a document for what a query selects. -/
  | query (source : Query.Source)

end Engine

/-! ## The state -/

/-- The state of an engine. -/
structure Engine {τ : Type} (κ : Type) (V : τ → Type) where
  /-- How it was set up. -/
  setup : Engine.Setup τ
  /-- The requests that are handed in at the start. -/
  seeds : List (Request κ)
  /-- Whether someone tried to start it. -/
  started : Bool
  /-- Whether its queues can still be connected to the dispatcher and the item workers. -/
  connectable : Bool
  /-- The requests that wait. -/
  requests : Queue (Request κ)
  /-- The items that wait. -/
  items : Queue (Engine.Envelope κ V)
  /-- The counters of the work. -/
  activity : Activity
  /-- What was done so far. -/
  stats : Stats
  /-- The queries compiled last. -/
  cache : Query.Cache
  /-- The dispatcher of the requests. -/
  dispatcher : Engine.Dispatcher κ
  /-- How many requests have begun. -/
  begun : Nat
  /-- The workers that have not ended. -/
  workers : List (Engine.Worker κ)
  /-- How many requests more may be under way. -/
  permits : Nat
  /-- The item workers. -/
  itemWorkers : List (Engine.ItemWorker κ V)
  /-- How many items more may be under way. -/
  itemPermits : Nat
  /-- How far its closing has come. -/
  closing : Engine.Closing
  /-- What has happened, the latest first. -/
  journal : List (Engine.Event κ V)

namespace Engine

variable {κ τ : Type} {V : τ → Type}

/-- A new engine. -/
def new (setup : Setup τ) (seeds : List (Request κ)) : Engine κ V where
  setup := setup
  seeds := seeds
  started := false
  connectable := true
  requests := .empty
  items := .empty
  activity := {}
  stats := {}
  cache := .empty setup.settings.cacheCapacity
  dispatcher := .off
  begun := 0
  workers := []
  permits := setup.settings.maxConcurrentRequests
  itemWorkers := []
  itemPermits := setup.settings.maxConcurrentItems
  closing := .no
  journal := []

/-- An engine for settings that can be used. -/
def build (setup : Setup τ) (seeds : List (Request κ)) : Except Error (Engine κ V) :=
  match setup.settings.fault? with
  | some reason => .error (.configuration reason)
  | none => .ok (new setup seeds)

/-- Whether there is nothing to do. -/
def isIdle (e : Engine κ V) : Bool := e.activity.isIdle

/-- Whether requests go one by one with a pause between them. -/
def isPaced (e : Engine κ V) : Bool := e.setup.settings.requestDelay.nanoseconds != 0

/-- The engine after something happened. -/
def log (e : Engine κ V) (event : Event κ V) : Engine κ V := { e with journal := event :: e.journal }

/-- The engine after changes of the activity. -/
def count (e : Engine κ V) (changes : List Change) : Engine κ V :=
  { e with activity := e.activity.apply changes }

/-! ## Handing in -/

/-- The engine after a request was handed in by someone, and whether it was taken. -/
def handIn (e : Engine κ V) (origin : Origin) (r : Request κ) : Except Error Unit × Engine κ V :=
  let e := e.count Work.request.submit
  match e.requests.push? r with
  | some queue =>
    (.ok (),
      { e with
        requests := queue
        stats := { e.stats with enqueued := e.stats.enqueued + 1 } }.log (.enqueued origin r))
  | none =>
    let e := e.count Work.request.withdraw
    (.error .queueClosed,
      { e with
        stats := { e.stats with requestsDropped := e.stats.requestsDropped + 1 } }.log
          (.refused origin r))

/-- The engine after a request was handed in as it is, and whether it was taken. -/
def submitRequest (e : Engine κ V) (r : Request κ) : Except Error Unit × Engine κ V :=
  e.handIn .outside r

/-- The engine after a worker handed in a request, which keeps its place, instead of its own. -/
def resubmit (e : Engine κ V) (n : Nat) (c : Context κ) (r : Request κ) : Engine κ V :=
  (e.handIn (.worker n) (c.keep r)).2

/-- The engine after an item was handed in, and whether it was taken. -/
def submitItem (e : Engine κ V) (i : Envelope κ V) : Except Error Unit × Engine κ V :=
  let e := e.count Work.item.submit
  match e.items.push? i with
  | some queue =>
    (.ok (),
      { e with
        items := queue
        stats := { e.stats with scraped := e.stats.scraped + 1 } }.log (.itemEnqueued i))
  | none =>
    let e := e.count Work.item.withdraw
    (.error .queueClosed,
      { e with
        stats := { e.stats with itemsDropped := e.stats.itemsDropped + 1 } }.log (.itemRefused i))

/-- The engine after a handler did something. -/
def perform (e : Engine κ V) : Effect κ V → Engine κ V
  | .add c r => (e.submitRequest (c.adopt r)).2
  | .retry c r => (e.submitRequest (c.keep r)).2
  | .submit r => (e.submitRequest r).2
  | .item c i => (e.submitItem ⟨i, c⟩).2
  | .query source => { e with cache := (e.cache.request source).2 }

/-- The engine after someone tried to start it, and whether it did. The first requests are handed in
only once. -/
def start (e : Engine κ V) : Except Error Unit × Engine κ V :=
  if e.started || !e.connectable then (.error .alreadyStarted, { e with started := true })
  else
    let started : Engine κ V :=
      { e with
        started := true
        connectable := false
        dispatcher := .idle
        itemWorkers := List.replicate e.setup.settings.itemWorkers .idle
        seeds := [] }
    (.ok (), e.seeds.foldl (fun e r => e.perform (.add .root r)) started)

end Engine

end WebCrawl
