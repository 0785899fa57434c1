import WebCrawl.Proofs.Engine.Counting
import WebCrawl.Proofs.Engine.Pipelines
import WebCrawl.Proofs.Engine.Shutdown

set_option autoImplicit false

/-!
# Calls that close one engine

Whoever has an engine can close it, so that several calls can be under way at once. A call closes the
queue of requests, waits for the dispatcher to end, sets the count of the requests that wait to zero,
does the same with the items, and closes the pipelines. There is one handle to wait for the dispatcher
and one for the item workers, and the first call that comes to it takes it. Another one finds none and
goes on without waiting, and so does every later one if the call that has the handle is given up. What
the dispatcher holds at that moment is in no count any more, and its beginning takes from zero.

The closing that an engine has of its own is one call at a time that is never given up. Here the engine
is closed by calls only. Its own activity is a book of what there is, and what the machine counts is a
tally beside it. To start the engine is one step, and so is what a call does up to where it can wait.

## Main definitions

* `WebCrawl.CloseCall` — how far a call is.
* `WebCrawl.Shared` — an engine, its counters as the machine has them, and the calls that close it.
* `WebCrawl.Shared.step?`, `WebCrawl.Shared.run?` — how it moves.
* `WebCrawl.Shared.Counted` — what the counters hold.

## Main results

* `WebCrawl.Engine.Orderly.replay?_changesTo` — the book changes as the journal tells.
* `WebCrawl.Engine.Orderly.loopHasEnded_step` — what has ended is set going only by a start.
* `WebCrawl.Shared.Counted.shut`, `WebCrawl.Shared.Counted.sweep`, `WebCrawl.Shared.Counted.goOn` — what
  the counters hold is kept.
-/

namespace WebCrawl

open Crawl

/-! ## Changes that are refused at zero -/

namespace Crawl

/-- The counters after a change, if it does not take from a counter that is at zero. -/
def Tally.change? (t : Tally) : Change → Option Tally
  | .up c => some (t.change (.up c))
  | .down c => if t c ≤ 0 then none else some (t.change (.down c))
  | .clear c => some (t.change (.clear c))

/-- The counters after some changes, if none of them takes from a counter that is at zero. -/
def Tally.replay? (t : Tally) (changes : List Change) : Option Tally := changes.foldlM change? t

section Replay

variable {a a' : Activity} {t : Tally}

/-- A change that does not set a counter to zero changes a tally as it changes counters that are not
taken from at zero. If these are not greater, the tally is not taken from at zero either. -/
lemma Tally.change_of_change? {x : Change} (hx : ∀ c, x ≠ .clear c) (h : a.change? x = some a') :
    (∀ c, t.change x c = t c + a'.get c - a.get c) ∧
      ((∀ c, (a.get c : Int) ≤ t c) → t.change? x = some (t.change x)) := by
  cases x with
  | clear c => exact absurd rfl (hx c)
  | up d =>
    obtain rfl := Option.some.inj h
    refine ⟨fun c => ?_, fun _ => rfl⟩
    by_cases hc : c = d
    · subst hc
      simp [change, Activity.change]
      omega
    · simp [change, Activity.change, hc]
  | down d =>
    simp only [Activity.change?] at h
    split at h
    · cases h
    · rename_i hd
      obtain rfl := Option.some.inj h
      refine ⟨fun c => ?_, fun hle => if_neg ?_⟩
      · by_cases hc : c = d
        · subst hc
          simp [change, Activity.change]
          omega
        · simp [change, Activity.change, hc]
      · have := hle d
        omega

/-- The same of some changes after one another. -/
lemma Tally.apply_of_replay? {changes : List Change} (hclear : ∀ c, .clear c ∉ changes)
    (h : a.replay? changes = some a') :
    (∀ c, t.apply changes c = t c + a'.get c - a.get c) ∧
      ((∀ c, (a.get c : Int) ≤ t c) → t.replay? changes = some (t.apply changes)) := by
  induction changes generalizing a t with
  | nil =>
    obtain rfl : a = a' := by simpa using h
    exact ⟨fun c => by simp [apply], fun _ => rfl⟩
  | cons x changes ih =>
    simp only [Activity.replay?, List.foldlM_cons] at h
    obtain ⟨b, hb, h⟩ := Option.bind_eq_some_iff.1 h
    obtain ⟨hfirst, hfirst'⟩ := Tally.change_of_change? (t := t)
      (fun c hx => hclear c (hx ▸ List.mem_cons_self ..)) hb
    obtain ⟨hlater, hlater'⟩ := ih (t := t.change x) (fun c hc => hclear c (List.mem_cons_of_mem _ hc)) h
    refine ⟨fun c => ?_, fun hle => ?_⟩
    · have hc := hlater c
      have hc' := hfirst c
      change (t.change x).apply changes c = _
      omega
    · have hle' : ∀ c, (b.get c : Int) ≤ t.change x c := fun c => by
        have := hle c
        have := hfirst c
        omega
      simp only [Tally.replay?, List.foldlM_cons, hfirst' hle]
      exact hlater' hle'

end Replay

end Crawl

/-! ## What an engine has of each kind of work -/

namespace Engine

variable {κ τ : Type} {V : τ → Type}

/-- How much work of a kind waits in its queue. -/
def waitingCount (e : Engine κ V) : Work → Nat
  | .request => e.requests.waiting.length
  | .item => e.items.waiting.length

/-- How much work of a kind was taken out of its queue and has not begun. -/
def heldCount (e : Engine κ V) : Work → Nat
  | .request => e.held.length
  | .item => e.itemWorkers.countP (·.isHolding)

/-- How much work of a kind is under way. -/
def busyCount (e : Engine κ V) : Work → Nat
  | .request => e.workers.length
  | .item => e.itemWorkers.countP (·.isProcessing)

/-- Whether the queue of a kind of work is closed. -/
def isShut (e : Engine κ V) : Work → Bool
  | .request => e.requests.closed
  | .item => e.items.closed

/-- Whether those who take work of a kind out of its queue do nothing more. -/
def loopHasEnded (e : Engine κ V) : Work → Bool
  | .request => e.dispatcherHasEnded
  | .item => e.itemWorkersHaveEnded

/-- The engine after the queue of a kind of work was closed. Its own activity counts no more what was
taken out of the queue. -/
def shut (e : Engine κ V) : Work → Engine κ V
  | .request =>
    { e with
      connectable := false
      requests := e.requests.close
      activity := { e.activity with
        queuedRequests := e.activity.queuedRequests - e.requests.waiting.length }
      closing := .requests 0 }.log (.cleared e.requests.waiting)
  | .item =>
    { e with
      items := e.items.close
      activity := { e.activity with
        queuedItems := e.activity.queuedItems - e.items.waiting.length } }

/-- The changes of the counters on the way from one engine to another, in their order, as the journal
tells them. -/
def changesTo (e e' : Engine κ V) : List Change :=
  (e'.journal.take (e'.journal.length - e.journal.length)).reverse.flatMap Event.changes

end Engine

open Engine

/-! ## Calls -/

/-- How far a call is that closes an engine. -/
inductive CloseCall where
  /-- The queue of a kind of work is closed. The call waits for those who take work out of it, if it
  has the handle for that. So many requests were thrown away before. -/
  | draining (work : Work) (waits : Bool) (discarded : Int)
  /-- The pipelines from a place on are still to be closed. -/
  | pipelines (next : Nat)
  /-- It has returned. -/
  | returned
  /-- It was given up while it waited. -/
  | givenUp
deriving DecidableEq, Repr

/-- Whether the call has closed the queue of a kind of work. -/
def CloseCall.hasShut : CloseCall → Work → Bool
  | .draining .request _ _, .item => false
  | .givenUp, .item => false
  | _, _ => true

/-- Every call begins with the queue of the requests. -/
lemma CloseCall.hasShut_request (c : CloseCall) : c.hasShut .request = true := by
  rcases c with ⟨_ | _⟩ | _ | _ | _ <;> rfl

/-- An engine that several calls can close. The engine's own activity is a book of what there is. What
the machine counts is the tally, and nothing depends on it but whether there seems to be nothing to do.
-/
structure Shared {τ : Type} (κ : Type) (V : τ → Type) where
  /-- The engine. -/
  engine : Engine κ V
  /-- The counters; what is below zero is a count of 64 bits that went round. -/
  tally : Tally
  /-- Whether there is a handle to wait for those who take work of a kind out of its queue. -/
  handle : Work → Bool
  /-- The calls that close the engine. -/
  calls : List CloseCall
  /-- How much calls have counted as dropped when they threw it away. -/
  discarded : Work → Int
  /-- How much was taken out of a queue when that was closed, since the count was last set to zero. -/
  cleared : Work → Nat
  /-- How much was held when the count was last set to zero. -/
  overtaken : Work → Nat

/-- What can happen next with an engine that several calls can close. -/
inductive Act (κ : Type) {τ : Type} (V : τ → Type) where
  /-- The engine makes a move. -/
  | move (m : Move κ V)
  /-- Someone closes the engine. -/
  | call
  /-- A call throws away what still counts as waiting. -/
  | throwAway (call : Nat)
  /-- A call closes the next pipeline. -/
  | closePipeline (call : Nat)
  /-- A call is given up. -/
  | giveUp (call : Nat)

namespace Shared

variable {κ τ : Type} {V : τ → Type}

/-- A new engine that nobody closes. -/
def new (setup : Setup τ) (seeds : List (Request κ)) : Shared κ V where
  engine := .new setup seeds
  tally _ := 0
  handle _ := false
  calls := []
  discarded _ := 0
  cleared _ := 0
  overtaken _ := 0

/-- Whether there seems to be nothing to do. -/
def isIdle (s : Shared κ V) : Bool := Counter.readingOrder.all fun c => s.tally c == 0

/-- How much was dropped: what the engine refused or a stage let not pass, and what was thrown away. -/
def dropped (s : Shared κ V) : Work → Int
  | .request => s.engine.stats.requestsDropped + s.discarded .request
  | .item => s.engine.stats.itemsDropped + s.discarded .item

/-- The engine has gone on. If that has started it, there are handles now. -/
def goOn (s : Shared κ V) (e : Engine κ V) : Shared κ V :=
  { s with
    engine := e
    tally := s.tally.apply (s.engine.changesTo e)
    handle := fun w => s.handle w || (s.engine.connectable && !e.connectable) }

/-- A call closes the queue of a kind of work and takes the handle. -/
def shut (s : Shared κ V) (w : Work) : Shared κ V :=
  { s with
    engine := s.engine.shut w
    handle := Function.update s.handle w false
    cleared := Function.update s.cleared w (s.cleared w + s.engine.waitingCount w) }

/-- The count of what waits of a kind of work is set to zero. -/
def sweep (s : Shared κ V) (w : Work) : Shared κ V :=
  { s with
    tally := s.tally.apply w.discard
    cleared := Function.update s.cleared w 0
    overtaken := Function.update s.overtaken w (s.engine.heldCount w) }

/-- Someone closes the engine. -/
def call (s : Shared κ V) : Shared κ V :=
  { s.shut .request with calls := s.calls ++ [.draining .request (s.handle .request) 0] }

/-- How far a call is that has come to a pipeline. -/
def callAt (s : Shared κ V) (next : Nat) : CloseCall :=
  if next < s.engine.setup.pipelines.length then .pipelines next else .returned

/-- A call that does not wait any more throws away what still counts as waiting. After the requests it
closes the queue of the items, and after the items it counts all that as dropped. -/
def throwAway? (s : Shared κ V) (j : Nat) : Option (Shared κ V) :=
  match s.calls[j]? with
  | some (.draining .request waits _) =>
    if waits && !s.engine.loopHasEnded .request then none
    else some
      { (s.sweep .request).shut .item with
        calls := s.calls.set j (.draining .item (s.handle .item) (s.tally (.queued .request))) }
  | some (.draining .item waits requests) =>
    if waits && !s.engine.loopHasEnded .item then none
    else some
      { s.sweep .item with
        calls := s.calls.set j (s.callAt 0)
        discarded := fun w => s.discarded w + match w with
          | .request => requests
          | .item => s.tally (.queued .item) }
  | _ => none

/-- A call closes the next pipeline. -/
def closePipeline? (s : Shared κ V) (j : Nat) : Option (Shared κ V) :=
  match s.calls[j]? with
  | some (.pipelines next) => some
    { s with
      engine := s.engine.log (.pipelineClosed next)
      calls := s.calls.set j (s.callAt (next + 1)) }
  | _ => none

/-- A call that waits is given up. -/
def giveUp? (s : Shared κ V) (j : Nat) : Option (Shared κ V) :=
  match s.calls[j]? with
  | some (.draining _ true _) => some { s with calls := s.calls.set j .givenUp }
  | some (.pipelines _) => some { s with calls := s.calls.set j .givenUp }
  | _ => none

variable [DecidableEq τ]

/-- What comes of an act, if that is possible. The steps of a closing are those of the calls. -/
def step? (s : Shared κ V) : Act κ V → Option (Shared κ V)
  | .move m => if m.closes then none else (s.engine.step? m).map s.goOn
  | .call => some s.call
  | .throwAway j => s.throwAway? j
  | .closePipeline j => s.closePipeline? j
  | .giveUp j => s.giveUp? j

/-- What comes of a sequence of acts, if all of them are possible. -/
def run? (s : Shared κ V) (acts : List (Act κ V)) : Option (Shared κ V) := acts.foldlM step? s

@[simp] theorem run?_nil (s : Shared κ V) : s.run? [] = some s := rfl

@[simp] theorem run?_cons (s : Shared κ V) (a : Act κ V) (acts : List (Act κ V)) :
    s.run? (a :: acts) = (s.step? a).bind (·.run? acts) := by simp [run?]

/-- What the acts keep, a sequence of them keeps. -/
lemma run?_induction {P : Shared κ V → Prop} (step : ∀ s a s', P s → s.step? a = some s' → P s') :
    ∀ {acts : List (Act κ V)} {s s' : Shared κ V}, P s → s.run? acts = some s' → P s' := by
  intro acts
  induction acts with
  | nil =>
    intro s s' hs h
    obtain rfl : s = s' := by simpa using h
    exact hs
  | cons a acts ih =>
    intro s s' hs h
    rw [run?_cons] at h
    obtain ⟨d, hd, h⟩ := Option.bind_eq_some_iff.1 h
    exact ih (step s a d hs hd) h

end Shared

/-! ## What the counters hold -/

namespace Engine

variable {κ τ : Type} {V : τ → Type} {e e' : Engine κ V}

/-- The closing of an engine that only calls close has nothing of its own to throw away. -/
def ClosedByCalls (e : Engine κ V) : Prop := e.closing = .no ∨ e.closing = .requests 0

lemma ClosedByCalls.cleared (h : ClosedByCalls e) :
    e.closing.clearedRequests = 0 ∧ e.closing.clearedItems = 0 := by
  rcases h with h | h <;> rw [h] <;> exact ⟨rfl, rfl⟩

/-- The book of an engine tells what there is. -/
lemma Orderly.get_queued (h : Orderly e) (hc : ClosedByCalls e) (w : Work) :
    e.activity.get (.queued w) = e.waitingCount w + e.heldCount w := by
  have hqueued := h.queued
  have hitems := h.queuedItems
  rw [hc.cleared.1] at hqueued
  rw [hc.cleared.2] at hitems
  cases w
  · exact hqueued
  · exact hitems

lemma Orderly.get_active (h : Orderly e) (w : Work) :
    e.activity.get (.active w) = e.busyCount w := by
  cases w
  · exact h.active
  · exact h.activeItems

/-- Nothing waits in a queue that is closed. -/
lemma Orderly.waitingCount_of_isShut (h : Orderly e) {w : Work} (hs : e.isShut w = true) :
    e.waitingCount w = 0 := by
  cases w
  · exact List.length_eq_zero_iff.2 (h.waiting_of_closed hs)
  · exact List.length_eq_zero_iff.2 (h.items_of_closed hs)

/-- What has ended holds nothing. -/
lemma heldCount_of_ended {w : Work} (h : e.loopHasEnded w = true) : e.heldCount w = 0 := by
  cases w
  · exact List.length_eq_zero_iff.2 (Orderly.held_of_ended h)
  · exact Orderly.countP_holding_of_ended h

/-- What holds something has not ended. -/
lemma loopHasEnded_of_held {w : Work} (h : e.heldCount w ≠ 0) : e.loopHasEnded w = false :=
  eq_false_of_ne_true fun hended => h (heldCount_of_ended hended)

/-- The book counts no more what was taken out of a queue that was closed. -/
lemma get_queued_shut (e : Engine κ V) (w v : Work) : (e.shut w).activity.get (.queued v) =
    if v = w then e.activity.get (.queued w) - e.waitingCount w else e.activity.get (.queued v) := by
  cases w <;> cases v <;> rfl

/-- An engine of which a queue is closed by a call. -/
lemma Orderly.shut (h : Orderly e) (hc : ClosedByCalls e) (w : Work) :
    Orderly (e.shut w) ∧ ClosedByCalls (e.shut w) := by
  have hqueued := h.get_queued hc w
  have hother := h.queuedItems
  have hclosing := h.closing
  cases w with
  | request =>
    rw [hc.cleared.2] at hother
    refine ⟨{ h with
      queued := ?_, queuedItems := hother, waiting_of_closed := fun _ => rfl
      closed_of_draining := fun _ => rfl, closing := rfl, startable := nofun }, .inr rfl⟩
    change e.activity.queuedRequests - _ = 0 + e.held.length + 0
    change e.activity.queuedRequests = e.requests.waiting.length + e.held.length at hqueued
    omega
  | item =>
    refine ⟨{ h with queuedItems := ?_, items_of_closed := fun _ => rfl, closing := ?_ }, hc⟩
    · change e.activity.queuedItems - _ = 0 + e.itemWorkers.countP _ + e.closing.clearedItems
      rw [hc.cleared.2]
      change e.activity.queuedItems = e.items.waiting.length + e.itemWorkers.countP _ at hqueued
      omega
    · rcases hc with hc | hc <;> simp only [ClosingFits, hc, Engine.shut] at hclosing ⊢
      · exact fun hr => ⟨(hclosing hr).1, rfl, (hclosing hr).2.2⟩
      · exact hclosing

/-! ### What moves leave to the calls -/

/-- Deeds neither close a queue nor touch the item workers. -/
lemma Deeds.frame (h : Deeds e e') :
    (∀ w, e'.isShut w = e.isShut w) ∧ e'.itemWorkers = e.itemWorkers := by
  induction h with
  | refl => exact ⟨fun _ => rfl, rfl⟩
  | @tail d d' _ hdeed ih =>
    have hstep : (∀ w, d'.isShut w = d.isShut w) ∧ d'.itemWorkers = d.itemWorkers := by
      cases hdeed with
      | request origin r =>
        cases hc : d.requests.closed with
        | true =>
          rw [handIn_closed d origin r hc]
          exact ⟨fun w => by cases w <;> rfl, rfl⟩
        | false =>
          rw [handIn_open d origin r hc]
          exact ⟨fun w => by cases w <;> first | exact hc.symm | rfl, rfl⟩
      | item i =>
        cases hc : d.items.closed with
        | true =>
          rw [submitItem_closed d i hc]
          exact ⟨fun w => by cases w <;> rfl, rfl⟩
        | false =>
          rw [submitItem_open d i hc]
          exact ⟨fun w => by cases w <;> first | exact hc.symm | rfl, rfl⟩
      | other events _ same _ =>
        obtain ⟨-, hrequests, hitems, hworkers, -⟩ := Background.mk.inj same
        exact ⟨fun w => by cases w <;> [exact hrequests; exact congrArg Queue.closed hitems], hworkers⟩
    exact ⟨fun w => (hstep.1 w).trans (ih.1 w), hstep.2.trans ih.2⟩

/-- Whatever a handler does, the dispatcher is as it was, and connected as it was. -/
lemma perform_parts (e : Engine κ V) (effect : Effect κ V) :
    (e.perform effect).dispatcher = e.dispatcher ∧ (e.perform effect).connectable = e.connectable := by
  refine perform_induction (P := fun d => d.dispatcher = e.dispatcher ∧ d.connectable = e.connectable)
    effect (fun r => ?_) (fun i => ?_) fun _ => ⟨rfl, rfl⟩
  · cases hc : e.requests.closed with
    | true => simp [handIn_closed e _ r hc]
    | false => simp [handIn_open e _ r hc]
  · cases hc : e.items.closed with
    | true => simp [submitItem_closed e i hc]
    | false => simp [submitItem_open e i hc]

variable [DecidableEq τ]

/-- Moves that are not of a closing close no queue. -/
lemma isShut_step {m : Move κ V} (hm : m.closes = false) (he : e.step? m = some e') (w : Work) :
    e'.isShut w = e.isShut w := by
  have hfinish : ∀ (d : Engine κ V) k passed, (d.finishItem k passed).isShut w = d.isShut w :=
    fun d k passed => by
      rw [finishItem_eq]
      cases w <;> rfl
  have hnext : ∀ (d : Engine κ V) k i stages, (d.nextStage k i stages).isShut w = d.isShut w :=
    fun d k i stages => by
      obtain hn | ⟨stage, later, hn⟩ := nextStage_cases d k i stages <;> rw [hn]
      · exact hfinish d k true
      · cases w <;> rfl
  cases m with
  | close | discardRequests | discardItems | closePipeline => cases hm
  | start =>
    obtain rfl := Option.some.inj he
    obtain hs | ⟨-, hs⟩ := start_cases e <;> rw [hs]
    · cases w <;> rfl
    · exact ((deeds_seeds e.seeds e.ignite).frame.1 w).trans (by cases w <;> rfl)
  | receiveItem k =>
    obtain ⟨-, ⟨i, rest, -, rfl⟩ | ⟨-, -, rfl⟩⟩ := receiveItem?_eq_some he
    · cases w <;> rfl
    · cases w <;> rfl
  | beginItem k =>
    obtain ⟨i, -, -, rfl⟩ := beginItem?_admits he
    exact (hnext _ k i _).trans (by cases w <;> rfl)
  | judge k verdict =>
    obtain ⟨i, stage, later, -, ⟨j, rfl⟩ | rfl⟩ := judge?_eq_some he
    · exact hnext e k j later
    · exact hfinish e k false
  | _ => exact (deeds_step _ rfl he).frame.1 w

/-- A dispatcher that has ended stays so unless the engine is started. -/
lemma Orderly.dispatcher_step (h : Orderly e) {m : Move κ V} (hm : m.closes = false)
    (hstart : m ≠ .start) (he : e.step? m = some e') (hended : e.dispatcherHasEnded = true) :
    e'.dispatcherHasEnded = true := by
  have hperform : ∀ effect, (e.perform effect).dispatcherHasEnded = true := fun effect => by
    rw [dispatcherHasEnded, (perform_parts e effect).1]
    exact hended
  have hfinish : ∀ (d : Engine κ V) k passed, d.dispatcherHasEnded = true →
      (d.finishItem k passed).dispatcherHasEnded = true := fun d k passed hd => by
    rw [finishItem_eq]
    exact hd
  have hnext : ∀ (d : Engine κ V) k i stages, d.dispatcherHasEnded = true →
      (d.nextStage k i stages).dispatcherHasEnded = true := fun d k i stages hd => by
    obtain hn | ⟨stage, later, hn⟩ := nextStage_cases d k i stages <;> rw [hn]
    · exact hfinish d k true hd
    · exact hd
  -- no worker is live, so nothing comes of what workers could do
  have hnone : ∀ n, e.worker? n = none := fun n => by
    rw [worker?, h.workers_of_ended hended]
    rfl
  cases m with
  | close | discardRequests | discardItems | closePipeline => cases hm
  | start => exact absurd rfl hstart
  | ask effect =>
    obtain rfl := Option.some.inj he
    exact hperform effect
  | receive => simp [dispatcherHasEnded, (receive?_eq_some he).1] at hended
  | launch =>
    obtain ⟨r, hd, -⟩ := launch?_eq_some he
    simp [dispatcherHasEnded, hd] at hended
  | attended =>
    obtain ⟨n, hd, -⟩ := attended?_eq_some he
    simp [dispatcherHasEnded, hd] at hended
  | resume => simp [dispatcherHasEnded, (resume?_eq_some he).1] at hended
  | drained => simp [dispatcherHasEnded, (drained?_eq_some he).1] at hended
  | send n => simp [step?, send?, hnone n] at he
  | answer n outcome => simp [step?, answer?, hnone n] at he
  | act n effect => simp [step?, act?, hnone n] at he
  | reply n next => simp [step?, reply?, hnone n] at he
  | panic n => simp [step?, panic?, hnone n] at he
  | receiveItem k =>
    obtain ⟨-, ⟨i, rest, -, rfl⟩ | ⟨-, -, rfl⟩⟩ := receiveItem?_eq_some he
    · exact hended
    · exact hended
  | beginItem k =>
    obtain ⟨i, -, -, rfl⟩ := beginItem?_admits he
    exact hnext _ k i _ hended
  | actItem k effect =>
    obtain ⟨-, -, -, -, rfl⟩ := actItem?_eq_some he
    exact hperform effect
  | judge k verdict =>
    obtain ⟨i, stage, later, -, ⟨j, rfl⟩ | rfl⟩ := judge?_eq_some he
    · exact hnext e k j later hended
    · exact hfinish e k false hended

/-- Item workers that have ended have done so unless the engine is started. -/
lemma itemWorkers_step {m : Move κ V} (hm : m.closes = false) (hstart : m ≠ .start)
    (he : e.step? m = some e') (hended : e.itemWorkersHaveEnded = true) :
    e'.itemWorkersHaveEnded = true := by
  cases m with
  | close | discardRequests | discardItems | closePipeline => cases hm
  | start => exact absurd rfl hstart
  | receiveItem k => exact absurd hended (Orderly.not_haveEnded (receiveItem?_eq_some he).1 rfl)
  | beginItem k =>
    obtain ⟨i, hk, -⟩ := beginItem?_eq_some he
    exact absurd hended (Orderly.not_haveEnded hk rfl)
  | judge k verdict =>
    obtain ⟨i, stage, later, hk, -⟩ := judge?_eq_some he
    exact absurd hended (Orderly.not_haveEnded hk rfl)
  | _ => rwa [itemWorkersHaveEnded, (deeds_step _ rfl he).frame.2]

/-- Those who take work out of a queue and have ended are set going only when the engine is connected.
-/
lemma Orderly.loopHasEnded_step (h : Orderly e) {m : Move κ V} (hm : m.closes = false)
    (he : e.step? m = some e') {w : Work} (hended : e.loopHasEnded w = true)
    (hgoes : e'.loopHasEnded w = false) : e.connectable = true ∧ e'.connectable = false := by
  by_cases hstart : m = .start
  · subst hstart
    obtain rfl := Option.some.inj he
    obtain hs | ⟨hconnectable, hs⟩ := start_cases e <;> rw [hs] at hgoes ⊢
    · have hsame : e.loopHasEnded w = false := by
        rw [← hgoes]
        cases w <;> rfl
      exact absurd hended (by simp [hsame])
    · refine ⟨hconnectable, ?_⟩
      exact foldl_perform_induction (P := fun d => d.connectable = false)
        (fun d effect hd => (perform_parts d effect).2.trans hd) _ _ rfl
  · have hends : e'.loopHasEnded w = true := by
      cases w
      · exact h.dispatcher_step hm hstart he hended
      · exact itemWorkers_step hm hstart he hended
    exact absurd hends (by simp [hgoes])

/-- The changes that come with a move that is not of a closing: the book of the engine changes by them,
and none of them sets a counter to zero. -/
lemma Orderly.replay?_changesTo (h : Orderly e) {m : Move κ V} (hm : m.closes = false)
    (he : e.step? m = some e') :
    e.activity.replay? (e.changesTo e') = some e'.activity ∧ ∀ c, .clear c ∉ e.changesTo e' := by
  obtain ⟨events, hjournal, hreplay⟩ := h.counts_step m he
  obtain ⟨-, -, later, hlater, hnone⟩ := untouched_step m hm he
  have hdiscards : m.discards = [] := by cases m <;> first | rfl | cases hm
  have hchanges : e.changesTo e' = events.flatMap Event.changes := by
    have hlength : e'.journal.length - e.journal.length = events.reverse.length := by
      rw [hjournal, List.length_append]
      omega
    rw [changesTo, hlength, hjournal, List.take_left, List.reverse_reverse]
  have hquiet : ∀ event ∈ events, event.isOfClosing = false := fun event hevent =>
    hnone event (List.append_cancel_right (hlater.symm.trans hjournal) ▸ List.mem_reverse.2 hevent)
  rw [hdiscards, List.append_nil] at hreplay
  rw [hchanges]
  refine ⟨hreplay, fun c hc => ?_⟩
  obtain ⟨event, hevent, hc⟩ := List.mem_flatMap.1 hc
  have := hquiet event hevent
  cases event <;> simp_all [Event.changes, Event.isOfClosing, Work.submit, Work.withdraw, Work.begin,
    Work.finish]

end Engine

namespace Shared

variable {κ τ : Type} {V : τ → Type} {s s' : Shared κ V}

/-- The counters hold what there is, and what was taken out of the queues and is still to be thrown
away, less what was held when the count was last set to zero. -/
structure Counted (s : Shared κ V) : Prop where
  orderly : Orderly s.engine
  closing : ClosedByCalls s.engine
  active : ∀ w, s.tally (.active w) = s.engine.activity.get (.active w)
  queued : ∀ w, s.tally (.queued w) =
    s.engine.activity.get (.queued w) + s.cleared w - s.overtaken w

namespace Counted

lemma new (setup : Setup τ) (seeds : List (Request κ)) : Counted (.new setup seeds : Shared κ V) where
  orderly := .new setup seeds
  closing := .inl rfl
  active w := by cases w <;> rfl
  queued w := by cases w <;> rfl

/-- A call closes a queue. -/
lemma shut (h : Counted s) (w : Work) : Counted (s.shut w) := by
  obtain ⟨horderly, hclosing⟩ := h.orderly.shut h.closing w
  have hwaiting := h.orderly.get_queued h.closing w
  refine ⟨horderly, hclosing, fun v => ?_, fun v => ?_⟩
  · rw [Shared.shut, h.active v]
    cases w <;> cases v <;> rfl
  · have hqueued := h.queued v
    simp only [Shared.shut, get_queued_shut, Function.update_apply]
    split
    · rename_i hv
      subst hv
      omega
    · exact hqueued

/-- The count is set to zero when nothing waits. -/
lemma sweep (h : Counted s) {w : Work} (hs : s.engine.isShut w = true) : Counted (s.sweep w) := by
  have hqueued := h.orderly.get_queued h.closing w
  rw [h.orderly.waitingCount_of_isShut hs] at hqueued
  refine ⟨h.orderly, h.closing, fun v => ?_, fun v => ?_⟩
  · simp [Shared.sweep, Tally.apply, Work.discard, Tally.change, h.active v]
  · simp only [Shared.sweep, Tally.apply, Work.discard, List.foldl_cons, List.foldl_nil, Tally.change,
      Function.update_apply, Counter.queued.injEq]
    split
    · rename_i hv
      subst hv
      omega
    · exact h.queued v

variable [DecidableEq τ]

/-- The engine makes a move, and the counters change by the changes that come with it. -/
lemma goOn (h : Counted s) {m : Move κ V} (hm : m.closes = false) {e : Engine κ V}
    (he : s.engine.step? m = some e) : Counted (s.goOn e) := by
  obtain ⟨hreplay, hclear⟩ := h.orderly.replay?_changesTo hm he
  obtain ⟨hchange, -⟩ := Tally.apply_of_replay? (t := s.tally) hclear hreplay
  have hclosing : ClosedByCalls e := by
    rw [ClosedByCalls, (untouched_step m hm he).closing]
    exact h.closing
  refine ⟨h.orderly.step m he, hclosing, fun w => ?_, fun w => ?_⟩
  · have := h.active w
    have := hchange (.active w)
    change s.tally.apply _ _ = _
    simp only [Shared.goOn]
    omega
  · have := h.queued w
    have := hchange (.queued w)
    change s.tally.apply _ _ = _
    simp only [Shared.goOn]
    omega

end Counted

end Shared

end WebCrawl
