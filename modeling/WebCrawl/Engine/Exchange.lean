import WebCrawl.Engine.Basic

/-!
# Requests under way

The dispatcher takes one request after the other from the queue. Without a pause between requests it
gives each to a worker as soon as fewer than the permitted number are under way; with one it waits
for the end of each worker and of the pause after it.

A worker makes one exchange. What comes back is a response, of which handlers are told; or a
redirect, which is followed by a new request through the queue; or an error, after which the request
goes through the queue again, or of which handlers are told in the end.

## Main definitions

* `WebCrawl.Engine.receive?`, `launch?`, `attended?`, `resume?`, `drained?` — the steps of the
  dispatcher.
* `WebCrawl.Engine.send?`, `answer?`, `act?`, `reply?`, `panic?` — the steps of a worker.
-/

set_option autoImplicit false

namespace WebCrawl.Engine

open Crawl

variable {κ τ : Type} {V : τ → Type}

/-! ## The dispatcher -/

/-- The dispatcher takes the next request, or sees that the queue is closed. -/
def receive? (e : Engine κ V) : Option (Engine κ V) :=
  match e.dispatcher with
  | .idle =>
    match e.requests.pop? with
    | some (r, queue) => some { e with requests := queue, dispatcher := .holding r }
    | none => if e.requests.closed then some { e with dispatcher := .draining } else none
  | _ => none

/-- The engine after a request began. -/
def begin (e : Engine κ V) (r : Request κ) : Engine κ V :=
  let worker : Worker κ := ⟨e.begun, .ready r⟩
  { e.count Work.request.begin with
    begun := e.begun + 1
    workers := e.workers ++ [worker] }.log (.began e.begun r)

/-- The dispatcher gives its request to a worker. -/
def launch? (e : Engine κ V) : Option (Engine κ V) :=
  match e.dispatcher with
  | .holding r =>
    if e.isPaced then some { e.begin r with dispatcher := .attending e.begun }
    else if 0 < e.permits then some { e.begin r with dispatcher := .idle, permits := e.permits - 1 }
    else none
  | _ => none

/-- A worker that has not ended. -/
def worker? (e : Engine κ V) (n : Nat) : Option (Worker κ) := e.workers.find? (·.number == n)

/-- The dispatcher sees that the worker for which it waits has ended. -/
def attended? (e : Engine κ V) : Option (Engine κ V) :=
  match e.dispatcher with
  | .attending n => if (e.worker? n).isNone then some { e with dispatcher := .pausing } else none
  | _ => none

/-- The dispatcher goes on after a pause. -/
def resume? (e : Engine κ V) : Option (Engine κ V) :=
  match e.dispatcher with
  | .pausing => some { e with dispatcher := .idle }
  | _ => none

/-- The dispatcher sees that all workers have ended. -/
def drained? (e : Engine κ V) : Option (Engine κ V) :=
  match e.dispatcher with
  | .draining => if e.workers.isEmpty then some { e with dispatcher := .ended } else none
  | _ => none

/-! ## The end of a worker -/

/-- The workers without one. -/
def dismiss (n : Nat) (workers : List (Worker κ)) : List (Worker κ) :=
  workers.filter fun w => w.number != n

/-- The engine after a worker ended, however it did. -/
def finish (e : Engine κ V) (n : Nat) : Engine κ V :=
  { e.count Work.request.finish with
    workers := dismiss n e.workers
    permits := if e.isPaced then e.permits else e.permits + 1 }.log (.finished n)

/-- The engine after a worker went on to a phase. -/
def enter (e : Engine κ V) (n : Nat) (phase : Phase κ) : Engine κ V :=
  { e with workers := e.workers.map fun w => if w.number = n then { w with phase := phase } else w }

/-! ## Telling handlers -/

/-- Who is told something. -/
def Setup.audience (s : Setup τ) : Notice κ → List (Level κ)
  | .response r _ =>
    (r.request.onResponse.map .request).toList ++ if s.hearsResponses then [.crawler] else []
  | .failure r _ _ =>
    (r.onError.map .request).toList ++ if s.hearsFailures then [.crawler] else []
  | .redirect _ _ _ => if s.judgesRedirects then [.crawler] else []

/-- The engine after a worker has told some handlers of something, the others being left. -/
def tellNext (e : Engine κ V) (n : Nat) (notice : Notice κ) (isRead : Bool) :
    List (Level κ) → Engine κ V
  | [] => e.finish n
  | level :: later =>
    (e.enter n (.telling notice level later isRead)).log (.told n level notice)

/-- The engine after a worker began to tell something. -/
def tell (e : Engine κ V) (n : Nat) (notice : Notice κ) (isRead : Bool) : Engine κ V :=
  (e.log (.noted n notice)).tellNext n notice isRead (e.setup.audience notice)

/-! ## The exchange of a worker -/

/-- The place of a request in the crawl. -/
def contextOf (r : Request κ) : Context κ := r.context.getD .root

/-- The engine after a request has failed for good. -/
def fail (e : Engine κ V) (n : Nat) (r : Request κ) (error : Error) : Engine κ V :=
  { e with stats := { e.stats with failed := e.stats.failed + 1 } }.tell n
    (.failure r error (contextOf r)) false

/-- A worker sends its request, if that can be sent. -/
def send? (e : Engine κ V) (n : Nat) : Option (Engine κ V) :=
  match e.worker? n with
  | some ⟨_, .ready r⟩ =>
    match Wire.ofRequest r e.setup.settings with
    | .error error => some (e.fail n r error)
    | .ok wire =>
      some (({ e with stats := { e.stats with sent := e.stats.sent + 1 } }.enter n
        (.exchanging r wire)).log (.sent n wire))
  | _ => none

/-- What comes of an exchange. -/
inductive Outcome where
  /-- An answer came back. -/
  | answered (answer : Answer)
  /-- The exchange failed. -/
  | failed (error : Error)
  /-- The exchange took too long. -/
  | expired

/-- The engine after a redirect was answered by a request that follows it. -/
def follow (e : Engine κ V) (n : Nat) (r : Request κ) (a : Answer) (location : Text) :
    Engine κ V :=
  match Url.join r.url location with
  | .error error => e.fail n r (.invalidRedirect r.url location error.message)
  | .ok target =>
    let response := a.toResponse r
    let next := r.redirected target response
    if e.setup.settings.maxRedirectTimes < next.redirectTimes then
      e.fail n r (.tooManyRedirects r.originUrl next.redirectTimes)
    else
      let e := { e with stats := { e.stats with redirected := e.stats.redirected + 1 } }
      if e.setup.judgesRedirects then e.tell n (.redirect response next (contextOf r)) false
      else (e.resubmit n (contextOf r) next).finish n

/-- The engine after a response came back. -/
def succeed (e : Engine κ V) (n : Nat) (r : Request κ) (a : Answer) : Engine κ V :=
  let response := a.toResponse r
  { e with stats := { e.stats with succeeded := e.stats.succeeded + 1 } }.tell n
    (.response response ((contextOf r).observe r.detached response)) e.setup.settings.autoParseHtml

/-- Whether a request is repeated after an error. -/
def repeats (e : Engine κ V) (r : Request κ) (error : Error) : Bool :=
  error.isRetryable && r.retryTimes < e.setup.settings.maxRetryTimes

/-- The engine after an exchange failed. -/
def repeatOrFail (e : Engine κ V) (n : Nat) (r : Request κ) (error : Error) : Engine κ V :=
  if e.repeats r error then
    let e := { e with stats := { e.stats with retried := e.stats.retried + 1 } }
    (e.resubmit n (contextOf r) { r with retryTimes := r.retryTimes + 1 }).finish n
  else e.fail n r error

/-- What comes of the exchange of a worker. -/
def answer? (e : Engine κ V) (n : Nat) (outcome : Outcome) : Option (Engine κ V) :=
  match e.worker? n with
  | some ⟨_, .exchanging r wire⟩ =>
    match outcome with
    | .answered a =>
      let e :=
        { e with stats := e.stats.recordAnswer a.status a.body.size }.log (.answered n a)
      match a.location? with
      | some location => some (e.follow n r a location)
      | none => some (e.succeed n r a)
    | .failed error => some (e.repeatOrFail n r error)
    | .expired => some (e.repeatOrFail n r (.timeout r.url wire.timeout))
  | _ => none

/-! ## What handlers do -/

/-- Whether an effect reads the document of the response that a handler was told of. -/
def Effect.reads : Effect κ V → Bool
  | .query _ => true
  | _ => false

/-- A handler that a worker has told of something does something. -/
def act? (e : Engine κ V) (n : Nat) (effect : Effect κ V) : Option (Engine κ V) :=
  match e.worker? n with
  | some ⟨_, .telling notice level later isRead⟩ =>
    some ((e.perform effect).enter n (.telling notice level later (isRead || effect.reads)))
  | _ => none

/-- The engine after a handler of a worker let the request that follows a redirect pass. -/
def pass (e : Engine κ V) (n : Nat) : Notice κ → Option (Request κ) → Engine κ V
  | .redirect _ _ c, some next => e.resubmit n c next
  | _, _ => e

/-- A handler that a worker has told of something is done. A handler that was told of a redirect may
reply with the request that follows it. -/
def reply? (e : Engine κ V) (n : Nat) (reply : Option (Request κ)) : Option (Engine κ V) :=
  match e.worker? n with
  | some ⟨_, .telling notice _ later isRead⟩ =>
    some ((e.pass n notice reply).tellNext n notice isRead later)
  | _ => none

/-- A handler that a worker has told of something breaks down, and the worker with it. -/
def panic? (e : Engine κ V) (n : Nat) : Option (Engine κ V) :=
  match e.worker? n with
  | some ⟨_, .telling _ _ _ _⟩ => some (e.finish n)
  | _ => none

end WebCrawl.Engine
