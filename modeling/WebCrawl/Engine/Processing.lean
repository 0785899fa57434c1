import WebCrawl.Engine.Basic

/-!
# Items under way

An item passes the function for its kind, the function for items of all kinds and the pipelines in
their order. The function for its kind is chosen once, when the item begins. Each stage is given what
the last stage before it made of the item. An item that a stage does not let pass, or in which a
stage breaks down, goes no further, and its worker takes the next one.

## Main definitions

* `WebCrawl.Engine.Stage.Result`, `Stage.Result.verdict` — what a stage hands back, and what that
  makes of the item.
* `WebCrawl.Engine.stagesOf` — the stages that an item passes.
* `WebCrawl.Engine.receiveItem?`, `beginItem?`, `actItem?`, `judge?` — the steps of an item worker.
-/

set_option autoImplicit false

namespace WebCrawl.Engine

open Crawl

variable {κ τ : Type} {V : τ → Type} [DecidableEq τ]

/-! ## What stages hand back -/

/-- What a stage hands back, unless it breaks down. -/
inductive Stage.Result (V : τ → Type) where
  /-- A function, for items of a kind or of all kinds, hands back an item or none. -/
  | function (item? : Option (Item V))
  /-- A pipeline hands back another item, none or an error. -/
  | pipeline (result : Except PipelineError (Option (Item V)))
  /-- The stage broke down. -/
  | panic

/-- What the result makes of the item. With no item, a function drops it and a pipeline keeps it. -/
def Stage.Result.verdict : Stage.Result V → Verdict V
  | .function (some item) => .replace item
  | .function none => .drop
  | .pipeline (.ok (some item)) => .replace item
  | .pipeline (.ok none) => .keep
  | .pipeline (.error _) => .drop
  | .panic => .panic

/-! ## Items from stage to stage -/

/-- The stages that an item of a kind passes. -/
def stagesOf (e : Engine κ V) (kind : τ) : List (Stage τ) :=
  (if e.setup.itemKinds.contains kind then [.kind kind] else []) ++
  (if e.setup.anyItem then [.any] else []) ++
  (List.range e.setup.pipelines.length).map .pipeline

/-- The engine after an item worker went on to a phase. -/
def enterItem (e : Engine κ V) (k : Nat) (phase : ItemWorker κ V) : Engine κ V :=
  { e with itemWorkers := e.itemWorkers.set k phase }

/-- An item worker takes the next item, or sees that the queue is closed. -/
def receiveItem? (e : Engine κ V) (k : Nat) : Option (Engine κ V) :=
  match e.itemWorkers[k]? with
  | some .idle =>
    match e.items.pop? with
    | some (i, queue) => some ({ e with items := queue }.enterItem k (.holding i))
    | none => if e.items.closed then some (e.enterItem k .ended) else none
  | _ => none

/-- The engine after the item of a worker ended. -/
def finishItem (e : Engine κ V) (k : Nat) (passed : Bool) : Engine κ V :=
  let stats := if passed then { e.stats with processed := e.stats.processed + 1 }
    else { e.stats with itemsDropped := e.stats.itemsDropped + 1 }
  ({ e.count Work.item.finish with
    stats := stats
    itemPermits := e.itemPermits + 1 }.enterItem k .idle).log (.itemFinished k passed)

/-- The engine after an item came to the first of some stages, or passed the last. -/
def nextStage (e : Engine κ V) (k : Nat) (i : Envelope κ V) : List (Stage τ) → Engine κ V
  | [] => e.finishItem k true
  | stage :: later => (e.enterItem k (.processing i stage later)).log (.staged k stage i)

/-- An item worker begins with its item. -/
def beginItem? (e : Engine κ V) (k : Nat) : Option (Engine κ V) :=
  match e.itemWorkers[k]? with
  | some (.holding i) =>
    if 0 < e.itemPermits then
      let begun := { e.count Work.item.begin with
        itemPermits := e.itemPermits - 1 }.log (.itemBegan k i)
      some (begun.nextStage k i (e.stagesOf i.item.kind))
    else none
  | _ => none

/-- A stage does something while it has an item. -/
def actItem? (e : Engine κ V) (k : Nat) (effect : Effect κ V) : Option (Engine κ V) :=
  match e.itemWorkers[k]? with
  | some (.processing _ _ _) => some (e.perform effect)
  | _ => none

/-- A stage is done with the item of a worker. -/
def judge? (e : Engine κ V) (k : Nat) (verdict : Verdict V) : Option (Engine κ V) :=
  match e.itemWorkers[k]? with
  | some (.processing i _ later) =>
    match verdict with
    | .keep => some (e.nextStage k i later)
    | .replace item => some (e.nextStage k { i with item := item } later)
    | .drop => some (e.finishItem k false)
    | .panic => some (e.finishItem k false)
  | _ => none

end WebCrawl.Engine
