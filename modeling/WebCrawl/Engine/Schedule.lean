import WebCrawl.Engine.Step

/-!
# A schedule

One way in which an engine can run: the parts take turns on a single thread, and time is counted, not
measured. A part that can go on goes on until it has to wait; then the next in the row takes its turn.
Time passes only when all parts wait, and then it goes straight to the next moment for which one of
them waits. Whoever drives the engine has its turn first when its moment comes, and otherwise only
when all parts wait.

A request or an item that is handed in goes to the part that has waited longest for one, if one
waits.

What lies outside the engine (exchanges, handlers, stages) is a `World` of functions that read and
change a state of their own. A schedule changes its engine by moves only.

## Main definitions

* `WebCrawl.World` — what lies outside.
* `WebCrawl.Schedule` — an engine with the turns and the moments that are to come.
* `WebCrawl.Schedule.tick` — one thing done by the part whose turn it is.
* `WebCrawl.Schedule.advance` — all that happens until a moment, or until nothing more is to be done.
* `WebCrawl.Schedule.start`, `wait`, `waitAtMost`, `sleep`, `run`, `close` — what whoever drives the
  engine can do.
-/

set_option autoImplicit false

namespace WebCrawl

open Crawl Engine

/-! ## What lies outside -/

/-- What becomes of a request that is sent. -/
structure Exchange where
  /-- How long it takes. -/
  latency : Duration
  /-- What comes of it then. -/
  outcome : Outcome

/-- How a handler ends. -/
inductive Ending (κ : Type) where
  /-- It is done. After a redirect it may say which request follows. -/
  | done (next : Option (Request κ))
  /-- It breaks down. -/
  | panic

/-- What a handler does when it is told something. -/
structure Reaction {τ : Type} (κ : Type) (V : τ → Type) where
  /-- What it does, in order. -/
  effects : List (Effect κ V)
  /-- How it ends. -/
  ending : Ending κ

/-- What a stage does with an item. -/
structure Judgement {τ : Type} (κ : Type) (V : τ → Type) where
  /-- What it does, in order. -/
  effects : List (Effect κ V)
  /-- What it makes of the item. -/
  verdict : Verdict V

/-- What lies outside of an engine, as functions on a state `ω`. -/
structure World {τ : Type} (ω κ : Type) (V : τ → Type) where
  /-- A request is sent. -/
  exchange : ω → Wire → ω × Exchange
  /-- A handler is told something; the document of the response may have been read. -/
  tell : ω → Engine κ V → Level κ → Notice κ → Bool → ω × Reaction κ V
  /-- An item comes to a stage. -/
  process : ω → Stage τ → Envelope κ V → ω × Judgement κ V
  /-- A pipeline is closed. -/
  closePipeline : ω → Nat → ω

/-! ## Turns -/

/-- What has its turn. -/
inductive Turn where
  /-- The dispatcher. -/
  | dispatcher
  /-- What sets the item workers going. -/
  | itemDispatcher
  /-- A worker. -/
  | worker (number : Nat)
  /-- A worker whose exchange came to an end. -/
  | answered (number : Nat) (outcome : Outcome)
  /-- An item worker. -/
  | itemWorker (index : Nat)

/-- A moment at which something has its turn. -/
structure Timer where
  /-- The moment, in nanoseconds. -/
  due : Nat
  /-- What has its turn then. -/
  turn : Turn

/-- Whether an exchange ends at the moment. -/
def Timer.endsExchange (t : Timer) : Bool :=
  match t.turn with
  | .answered _ _ => true
  | _ => false

/-- An engine with the turns and the moments that are to come. -/
structure Schedule {τ : Type} (ω κ : Type) (V : τ → Type) where
  /-- The engine. -/
  engine : Engine κ V
  /-- What lies outside. -/
  world : World ω κ V
  /-- The state of what lies outside. -/
  outside : ω
  /-- The time, in nanoseconds. -/
  now : Nat := 0
  /-- Whose turn it is. -/
  current : Option Turn := none
  /-- Whose turns come next. -/
  ready : List Turn := []
  /-- The moments to come, in the order in which they were fixed. -/
  timers : List Timer := []
  /-- Whether the dispatcher waits for something else than a moment. -/
  dispatcherWaits : Bool := false
  /-- The item workers that wait for an item, the one that waits longest first. -/
  itemWorkersWaiting : List Nat := []
  /-- How many exchanges took time at once, at most. -/
  mostExchanges : Nat := 0

namespace Schedule

variable {ω κ τ : Type} {V : τ → Type}

/-- The schedule with a turn at the end of the row. -/
def enqueue (s : Schedule ω κ V) (turn : Turn) : Schedule ω κ V :=
  { s with ready := s.ready ++ [turn] }

/-- The schedule after the part whose turn it was has to wait. -/
def yield (s : Schedule ω κ V) : Schedule ω κ V := { s with current := none }

/-- The schedule with one more moment to come. -/
def setTimer (s : Schedule ω κ V) (delay : Duration) (turn : Turn) : Schedule ω κ V :=
  { s with timers := s.timers ++ [⟨s.now + delay.nanoseconds, turn⟩] }

/-- How many exchanges take time. -/
def exchanges (s : Schedule ω κ V) : Nat := s.timers.countP Timer.endsExchange

/-- Whether the dispatcher can go on. -/
def dispatcherCanGoOn (s : Schedule ω κ V) : Bool :=
  match s.engine.dispatcher with
  | .idle => !s.engine.requests.waiting.isEmpty || s.engine.requests.closed
  | .holding _ => s.engine.isPaced || 0 < s.engine.permits
  | .attending n => (s.engine.worker? n).isNone
  | .draining => s.engine.workers.isEmpty
  | _ => false

variable [DecidableEq τ]

/-- The schedule after a move, if that is possible. -/
def apply (s : Schedule ω κ V) (m : Move κ V) : Schedule ω κ V :=
  match s.engine.step? m with
  | some engine => { s with engine := engine }
  | none => s

/-- A dispatcher that waits is given its turn if it can go on, and a request if there is one. -/
def wakeDispatcher (s : Schedule ω κ V) : Schedule ω κ V :=
  if s.dispatcherWaits && s.dispatcherCanGoOn then
    ({ s with dispatcherWaits := false }.apply .receive).enqueue .dispatcher
  else s

/-- Item workers that wait are given their turns and items, as far as there are items. When the
queue is closed all of them are given their turns. -/
def wakeItemWorkers (s : Schedule ω κ V) : List Nat → Schedule ω κ V
  | [] => { s with itemWorkersWaiting := [] }
  | k :: later =>
    if s.engine.items.waiting.isEmpty && !s.engine.items.closed then
      { s with itemWorkersWaiting := k :: later }
    else ((s.apply (.receiveItem k)).enqueue (.itemWorker k)).wakeItemWorkers later

/-- The schedule after a move, with all parts woken for which it has something. -/
def move (s : Schedule ω κ V) (m : Move κ V) : Schedule ω κ V :=
  let s := (s.apply m).wakeDispatcher
  s.wakeItemWorkers s.itemWorkersWaiting

/-- The schedule after some moves. -/
def moveAll (s : Schedule ω κ V) (moves : List (Move κ V)) : Schedule ω κ V := moves.foldl move s

/-! ## Taking turns -/

/-- The dispatcher does one thing. -/
def tickDispatcher (s : Schedule ω κ V) : Schedule ω κ V :=
  if s.dispatcherCanGoOn then
    match s.engine.dispatcher with
    | .idle => s.move .receive
    | .holding _ => (s.move .launch).enqueue (.worker s.engine.begun)
    | .attending _ =>
      ((s.move .attended).setTimer s.engine.setup.settings.requestDelay .dispatcher).yield
    | .draining => (s.move .drained).yield
    | _ => s.yield
  else
    match s.engine.dispatcher with
    | .pausing => s.move .resume
    | .off => s.yield
    | .ended => s.yield
    | _ => { s with dispatcherWaits := true }.yield

/-- A worker sends its request and waits for what comes of it. -/
def tickExchange (s : Schedule ω κ V) (n : Nat) (wire : Wire) : Schedule ω κ V :=
  let (outside, exchange) := s.world.exchange s.outside wire
  let s := { s with outside := outside }
  if exchange.latency.nanoseconds = 0 then s.move (.answer n exchange.outcome)
  else
    let s := { s with mostExchanges := max s.mostExchanges (s.exchanges + 1) }
    if wire.timeout.nanoseconds = 0 then s.move (.answer n .expired)
    else if wire.timeout.nanoseconds < exchange.latency.nanoseconds then
      (s.setTimer wire.timeout (.answered n .expired)).yield
    else (s.setTimer exchange.latency (.answered n exchange.outcome)).yield

/-- A worker tells a handler something. -/
def tickTelling (s : Schedule ω κ V) (n : Nat) (notice : Notice κ) (level : Level κ)
    (isRead : Bool) : Schedule ω κ V :=
  let (outside, reaction) := s.world.tell s.outside s.engine level notice isRead
  let s := { s with outside := outside }.moveAll (reaction.effects.map (.act n))
  match reaction.ending with
  | .done next => s.move (.reply n next)
  | .panic => s.move (.panic n)

/-- A worker does one thing. -/
def tickWorker (s : Schedule ω κ V) (n : Nat) : Schedule ω κ V :=
  match s.engine.worker? n with
  | some ⟨_, .ready _⟩ => s.move (.send n)
  | some ⟨_, .exchanging _ wire⟩ => s.tickExchange n wire
  | some ⟨_, .telling notice level _ isRead⟩ => s.tickTelling n notice level isRead
  | none => s.yield

/-- An item comes to a stage. -/
def tickStage (s : Schedule ω κ V) (k : Nat) (i : Envelope κ V) (stage : Stage τ) :
    Schedule ω κ V :=
  let (outside, judgement) := s.world.process s.outside stage i
  let s := { s with outside := outside }.moveAll (judgement.effects.map (.actItem k))
  s.move (.judge k judgement.verdict)

/-- An item worker does one thing. -/
def tickItemWorker (s : Schedule ω κ V) (k : Nat) : Schedule ω κ V :=
  match s.engine.itemWorkers[k]? with
  | some .idle =>
    if s.engine.items.waiting.isEmpty && !s.engine.items.closed then
      { s with itemWorkersWaiting := s.itemWorkersWaiting ++ [k] }.yield
    else s.move (.receiveItem k)
  | some (.holding _) =>
    if 0 < s.engine.itemPermits then s.move (.beginItem k)
    else (s.enqueue (.itemWorker k)).yield
  | some (.processing i stage _) => s.tickStage k i stage
  | _ => s.yield

/-- One thing done by the part whose turn it is; none if it is nobody's. -/
def tick (s : Schedule ω κ V) : Option (Schedule ω κ V) :=
  match s.current with
  | none =>
    match s.ready with
    | [] => none
    | turn :: later => some { s with current := some turn, ready := later }
  | some .dispatcher => some s.tickDispatcher
  | some .itemDispatcher =>
    some { s with
      ready := s.ready ++ (List.range s.engine.itemWorkers.length).map Turn.itemWorker }.yield
  | some (.worker n) => some (s.tickWorker n)
  | some (.answered n outcome) =>
    some ({ s with current := some (.worker n) }.move (.answer n outcome))
  | some (.itemWorker k) => some (s.tickItemWorker k)

/-! ## The passing of time -/

/-- The earliest of a moment and the moments to come. -/
def nextMoment (timers : List Timer) (moment : Option Nat) : Option Nat :=
  timers.foldl (fun best t => some (match best with | some b => min b t.due | none => t.due)) moment

/-- The schedule at a moment, with all that was to have its turn by then. -/
def moveTo (s : Schedule ω κ V) (moment : Nat) : Schedule ω κ V :=
  { s with
    now := moment
    ready := s.ready ++ (s.timers.filter (·.due ≤ moment)).map (·.turn)
    timers := s.timers.filter (moment < ·.due) }

/-- All that happens until a moment, or until all parts wait and a condition holds, or until nothing
is to be done. The first argument bounds the number of things done. -/
def advance (moment : Option Nat) (enough : Engine κ V → Bool) :
    Nat → Schedule ω κ V → Schedule ω κ V
  | 0, s => s
  | fuel + 1, s =>
    match s.tick with
    | some s => advance moment enough fuel s
    | none =>
      if enough s.engine then s
      else match nextMoment s.timers moment with
        | none => s
        | some next =>
          if moment = some next then s.moveTo next
          else advance moment enough fuel (s.moveTo next)

/-! ## Driving the engine -/

/-- A new engine of which nothing has its turn. -/
def new (engine : Engine κ V) (world : World ω κ V) (outside : ω) : Schedule ω κ V where
  engine := engine
  world := world
  outside := outside

/-- Something is handed in. -/
def ask (s : Schedule ω κ V) (effect : Effect κ V) : Schedule ω κ V := s.move (.ask effect)

/-- The engine is started, if it can be. -/
def start (s : Schedule ω κ V) : Except Error Unit × Schedule ω κ V :=
  match s.engine.start.1 with
  | .ok () => (.ok (), ((s.move .start).enqueue .dispatcher).enqueue .itemDispatcher)
  | .error e => (.error e, s.move .start)

/-- Some time passes. -/
def sleep (fuel : Nat) (s : Schedule ω κ V) (d : Duration) : Schedule ω κ V :=
  if d.nanoseconds = 0 then s
  else advance (some (s.now + d.nanoseconds)) (fun _ => false) fuel s

/-- The moment at which it is looked again whether there is nothing to do. -/
def nextLook (s : Schedule ω κ V) : Nat :=
  s.now + s.engine.setup.settings.pollInterval.nanoseconds

/-- Time passes until there is nothing to do, which is looked at now and then. The first argument
bounds the number of looks, the second that of things done in between. -/
def wait : Nat → Nat → Schedule ω κ V → Schedule ω κ V
  | 0, _, s => s
  | looks + 1, fuel, s =>
    if s.engine.isIdle then s
    else wait looks fuel (advance (some s.nextLook) (fun _ => false) fuel s)

/-- Time passes until there is nothing to do, but not beyond a moment; and whether it was seen by
then that there is nothing to do. -/
def waitUntil (moment : Nat) : Nat → Nat → Schedule ω κ V → Bool × Schedule ω κ V
  | 0, _, s => (false, s)
  | looks + 1, fuel, s =>
    if s.engine.isIdle then (true, s)
    else if moment ≤ s.now then (false, s)
    else if moment < s.nextLook then
      (false, advance (some moment) (fun _ => false) fuel s)
    else waitUntil moment looks fuel (advance (some s.nextLook) (fun _ => false) fuel s)

/-- Time passes until there is nothing to do, but at most so long; and whether it was seen by then
that there is nothing to do. -/
def waitAtMost (fuel : Nat) (s : Schedule ω κ V) (d : Duration) : Bool × Schedule ω κ V :=
  waitUntil (s.now + d.nanoseconds) fuel fuel s

/-- The pipelines are closed one after the other. -/
def closePipelines : Nat → Schedule ω κ V → Schedule ω κ V
  | 0, s => s
  | fuel + 1, s =>
    match s.engine.closing with
    | .pipelines next =>
      let s := { s with outside := s.world.closePipeline s.outside next }
      closePipelines fuel (s.move .closePipeline)
    | _ => s

/-- Time passes until a condition holds, if it does not hold already. -/
def await (fuel : Nat) (enough : Engine κ V → Bool) (s : Schedule ω κ V) : Schedule ω κ V :=
  if enough s.engine then s else advance none enough fuel s

/-- The engine is closed. -/
def close (fuel : Nat) (s : Schedule ω κ V) : Schedule ω κ V :=
  let s := (s.move .close).await fuel dispatcherHasEnded
  let s := (s.move .discardRequests).await fuel itemWorkersHaveEnded
  let s := s.move .discardItems
  closePipelines s.engine.setup.pipelines.length s

/-- The engine is started and closed when there is nothing to do. -/
def run (fuel : Nat) (s : Schedule ω κ V) : Except Error Unit × Schedule ω κ V :=
  match s.start with
  | (.ok (), s) => (.ok (), (s.wait fuel fuel).close fuel)
  | (.error e, s) => (.error e, s)

end Schedule

end WebCrawl
