import WebCrawl.Engine.Closing
import WebCrawl.Engine.Exchange
import WebCrawl.Engine.Processing

/-!
# Steps of an engine

All parts of an engine move on their own, and any of those that can move may be the next. A run is a
sequence of moves, in any order in which each is possible when it is made. What comes back from
exchanges and what handlers and stages do is part of the moves, so that nothing is assumed of it.

## Main definitions

* `WebCrawl.Engine.Move` — the moves.
* `WebCrawl.Engine.step?` — the engine after a move, if that is possible.
* `WebCrawl.Engine.run?` — the engine after a sequence of moves, if all of them are possible.
* `WebCrawl.Engine.Reachable` — the states that a new engine can come to.
-/

set_option autoImplicit false

namespace WebCrawl.Engine

open Crawl

variable {κ τ : Type} {V : τ → Type}

/-- What a part of an engine can do next. -/
inductive Move (κ : Type) (V : τ → Type) where
  /-- Someone tries to start the engine. -/
  | start
  /-- Someone outside hands something in. -/
  | ask (effect : Effect κ V)
  /-- The dispatcher takes the next request. -/
  | receive
  /-- The dispatcher gives its request to a worker. -/
  | launch
  /-- The dispatcher sees that the worker for which it waits has ended. -/
  | attended
  /-- The dispatcher goes on after a pause. -/
  | resume
  /-- The dispatcher sees that all workers have ended. -/
  | drained
  /-- A worker sends its request. -/
  | send (worker : Nat)
  /-- The exchange of a worker comes to an end. -/
  | answer (worker : Nat) (outcome : Outcome)
  /-- A handler does something. -/
  | act (worker : Nat) (effect : Effect κ V)
  /-- A handler is done. -/
  | reply (worker : Nat) (next : Option (Request κ))
  /-- A handler breaks down. -/
  | panic (worker : Nat)
  /-- An item worker takes the next item. -/
  | receiveItem (worker : Nat)
  /-- An item worker begins with its item. -/
  | beginItem (worker : Nat)
  /-- A stage does something. -/
  | actItem (worker : Nat) (effect : Effect κ V)
  /-- A stage is done. -/
  | judge (worker : Nat) (verdict : Verdict V)
  /-- The queue of requests is closed. -/
  | close
  /-- The requests that waited are thrown away. -/
  | discardRequests
  /-- The items that waited are thrown away. -/
  | discardItems
  /-- The next pipeline is closed. -/
  | closePipeline

variable [DecidableEq τ]

/-- The engine after a move, if that is possible. -/
def step? (e : Engine κ V) : Move κ V → Option (Engine κ V)
  | .start => some e.start.2
  | .ask effect => some (e.perform effect)
  | .receive => e.receive?
  | .launch => e.launch?
  | .attended => e.attended?
  | .resume => e.resume?
  | .drained => e.drained?
  | .send n => e.send? n
  | .answer n outcome => e.answer? n outcome
  | .act n effect => e.act? n effect
  | .reply n next => e.reply? n next
  | .panic n => e.panic? n
  | .receiveItem k => e.receiveItem? k
  | .beginItem k => e.beginItem? k
  | .actItem k effect => e.actItem? k effect
  | .judge k verdict => e.judge? k verdict
  | .close => e.close?
  | .discardRequests => e.discardRequests?
  | .discardItems => e.discardItems?
  | .closePipeline => e.closePipeline?

/-- The engine after a sequence of moves, if all of them are possible. -/
def run? (e : Engine κ V) (moves : List (Move κ V)) : Option (Engine κ V) := moves.foldlM step? e

@[simp] theorem run?_nil (e : Engine κ V) : e.run? [] = some e := rfl

@[simp] theorem run?_cons (e : Engine κ V) (m : Move κ V) (moves : List (Move κ V)) :
    e.run? (m :: moves) = (e.step? m).bind (·.run? moves) := by simp [run?]

/-- The states that a new engine of a setup can come to. -/
def Reachable (setup : Setup τ) (seeds : List (Request κ)) (e : Engine κ V) : Prop :=
  ∃ moves, (new setup seeds).run? moves = some e

end WebCrawl.Engine
