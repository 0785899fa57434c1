import WebCrawl.Engine.Schedule
import WebCrawl.Proofs.Engine.Counting
import WebCrawl.Proofs.Engine.Idle
import WebCrawl.Proofs.Engine.Updates

set_option autoImplicit false

/-!
# Closed engines

When an engine was closed its parts have ended, and nothing sets them going again. What is handed in
is refused and counted, an attempt to start the engine fails, and to close it once more finds
nothing to throw away. So nothing of the outside is asked for any more, and there is never anything
to do.

## Main definitions

* `WebCrawl.Engine.Move.handsRequest`, `WebCrawl.Engine.Move.handsItem` — whether someone hands
  something in with a move.
* `WebCrawl.Engine.Event.isVain` — whether an event is one of those that a closed engine still has.
* `WebCrawl.Engine.Dead` — all parts have ended and there is nothing to do.

## Main results

* `WebCrawl.Engine.Dead.step`, `WebCrawl.Engine.Dead.run` — such an engine stays so, whatever is
  tried, and only counts what it refuses.
* `WebCrawl.Schedule.run_of_dead`, `WebCrawl.Schedule.wait_of_dead` — to run it fails, and to wait for
  it ends at once.
-/

namespace WebCrawl.Engine

open Crawl

variable {κ τ : Type} {V : τ → Type}

/-! ## What can still happen -/

/-- Whether an effect hands in a request. -/
def Effect.handsRequest : Effect κ V → Bool
  | .add _ _ => true
  | .retry _ _ => true
  | .submit _ => true
  | _ => false

/-- Whether an effect hands in an item. -/
def Effect.handsItem : Effect κ V → Bool
  | .item _ _ => true
  | _ => false

/-- Whether someone hands in a request with a move. -/
def Move.handsRequest (m : Move κ V) : Bool := m.effect?.any Effect.handsRequest

/-- Whether someone hands in an item with a move. -/
def Move.handsItem (m : Move κ V) : Bool := m.effect?.any Effect.handsItem

/-- Whether with an event something is refused, or closed without anything to throw away. Nothing is
asked of a server, a handler or a stage with such an event. -/
def Event.isVain : Event κ V → Bool
  | .refused _ _ => true
  | .itemRefused _ => true
  | .cleared rs => rs.isEmpty
  | .discarded requests items => requests == 0 && items == 0
  | .pipelineClosed _ => true
  | _ => false

/-- What an engine has done between two states is nothing but to refuse so many requests and items.
-/
structure Refuses (requests items : Nat) (e e' : Engine κ V) : Prop where
  journal : ∃ later, e'.journal = later ++ e.journal ∧ ∀ event ∈ later, event.isVain = true
  stats : e'.stats = { e.stats with
    requestsDropped := e.stats.requestsDropped + requests
    itemsDropped := e.stats.itemsDropped + items }

namespace Refuses

variable {e e' e'' : Engine κ V}

/-- An engine that has not counted or written down anything. -/
lemma none (hjournal : e'.journal = e.journal) (hstats : e'.stats = e.stats) : Refuses 0 0 e e' :=
  ⟨⟨[], hjournal, nofun⟩, hstats⟩

/-- An engine that has written down that something was in vain. -/
lemma event {requests items : Nat} {event : Event κ V} (hjournal : e'.journal = event :: e.journal)
    (hvain : event.isVain = true)
    (hstats : e'.stats = { e.stats with
      requestsDropped := e.stats.requestsDropped + requests
      itemsDropped := e.stats.itemsDropped + items }) : Refuses requests items e e' := by
  refine ⟨⟨[event], hjournal, fun v hv => ?_⟩, hstats⟩
  obtain rfl := List.mem_singleton.1 hv
  exact hvain

/-- What was refused first and what was refused later. -/
lemma trans {requests items requests' items' : Nat} (h : Refuses requests items e e')
    (h' : Refuses requests' items' e' e'') :
    Refuses (requests + requests') (items + items') e e'' := by
  obtain ⟨first, hfirst, hvain⟩ := h.journal
  obtain ⟨later, hlater, hvain'⟩ := h'.journal
  refine ⟨⟨later ++ first, ?_, fun event hevent => ?_⟩, ?_⟩
  · rw [hlater, hfirst, List.append_assoc]
  · exact (List.mem_append.1 hevent).elim (hvain' event) (hvain event)
  · rw [h'.stats, h.stats]
    simp only [Nat.add_assoc]

end Refuses

/-! ## Engines whose parts have ended -/

/-- The queues are closed, the dispatcher and the item workers have ended, there is nothing to do,
and the closing has nothing to throw away. -/
structure Dead (e : Engine κ V) : Prop where
  orderly : Orderly e
  requests : e.requests.closed = true
  dispatcher : e.dispatcherHasEnded = true
  items : e.items.closed = true
  itemWorkers : e.itemWorkersHaveEnded = true
  idle : e.isIdle = true
  owed : ∀ d n, e.closing = .items d n → d = 0

namespace Dead

variable {e e' : Engine κ V} {n k : Nat}

/-- An item worker that has ended neither holds nor processes an item. -/
lemma not_busy_of_ended (h : e.itemWorkersHaveEnded = true) :
    ∀ w ∈ e.itemWorkers, w.isHolding = false ∧ w.isProcessing = false := by
  intro w hw
  have hend := List.all_eq_true.1 h w hw
  cases w <;> simp_all [ItemWorker.isHolding, ItemWorker.isProcessing]

/-- An engine whose parts have ended, and whose closing has nothing to throw away. -/
lemma of_ended (h : Orderly e) (hrequests : e.requests.closed = true)
    (hdispatcher : e.dispatcherHasEnded = true) (hitems : e.items.closed = true)
    (hitemWorkers : e.itemWorkersHaveEnded = true) (hcleared : e.closing.clearedRequests = 0)
    (hclearedItems : e.closing.clearedItems = 0) (howed : ∀ d n, e.closing = .items d n → d = 0) :
    Dead e := by
  refine ⟨h, hrequests, hdispatcher, hitems, hitemWorkers, h.isIdle_iff.2 ?_, howed⟩
  exact ⟨h.waiting_of_closed hrequests, Orderly.held_of_ended hdispatcher,
    h.workers_of_ended hdispatcher, h.items_of_closed hitems, not_busy_of_ended hitemWorkers,
    hcleared, hclearedItems⟩

/-- An engine that was closed, with nothing of that left to be done. -/
lemma of_isClosed (h : Orderly e) (hc : e.isClosed = true) : Dead e := by
  simp only [isClosed, Bool.and_eq_true, beq_iff_eq] at hc
  obtain ⟨hrequests, hno⟩ := hc
  have hfits := h.closing
  simp only [ClosingFits, hno] at hfits
  obtain ⟨hdispatcher, hitems, hitemWorkers⟩ := hfits hrequests
  exact of_ended h hrequests hdispatcher hitems hitemWorkers (by rw [hno]; rfl) (by rw [hno]; rfl)
    (by simp [hno])

/-- An engine whose closing has come to the pipelines. -/
lemma of_pipelines (h : Orderly e) (hc : e.closing = .pipelines n) : Dead e := by
  have hfits := h.closing
  simp only [ClosingFits, hc] at hfits
  obtain ⟨hrequests, hdispatcher, hitems, hitemWorkers⟩ := hfits
  exact of_ended h hrequests hdispatcher hitems hitemWorkers (by rw [hc]; rfl) (by rw [hc]; rfl)
    (by simp [hc])

/-- No worker is live. -/
lemma worker?_eq_none (h : Dead e) (n : Nat) : e.worker? n = none := by
  rw [worker?, h.orderly.workers_of_ended h.dispatcher]
  rfl

/-- An item worker of a dead engine has ended. -/
lemma isEnded (h : Dead e) {w : ItemWorker κ V} (hw : e.itemWorkers[k]? = some w) :
    w.isEnded = true := by
  by_contra hne
  exact Orderly.not_haveEnded hw (by simpa using hne) h.itemWorkers

/-- Nothing is connected to the queues any more. -/
lemma connectable (h : Dead e) : e.connectable = false := by
  by_contra hc
  have hopen := (h.orderly.startable (by simpa using hc)).2.2
  exact absurd (hopen.symm.trans h.requests) (by simp)

/-! ### What is tried -/

/-- A request that is handed in is refused. -/
lemma handIn (h : Dead e) (origin : Origin) (r : Request κ) :
    Dead (e.handIn origin r).2 ∧ Refuses 1 0 e (e.handIn origin r).2 := by
  have ho := h.orderly.handIn origin r
  rw [handIn_closed e origin r h.requests] at ho ⊢
  exact ⟨{ h with orderly := ho }, .event rfl rfl rfl⟩

/-- An item that is handed in is refused. -/
lemma submitItem (h : Dead e) (i : Envelope κ V) :
    Dead (e.submitItem i).2 ∧ Refuses 0 1 e (e.submitItem i).2 := by
  have ho := h.orderly.submitItem i
  rw [submitItem_closed e i h.items] at ho ⊢
  exact ⟨{ h with orderly := ho }, .event rfl rfl rfl⟩

/-- What someone hands in is refused. -/
lemma perform (h : Dead e) (effect : Effect κ V) :
    Dead (e.perform effect) ∧
      Refuses effect.handsRequest.toNat effect.handsItem.toNat e (e.perform effect) := by
  have ho := h.orderly.perform effect
  cases effect with
  | add c r => exact h.handIn _ _
  | retry c r => exact h.handIn _ _
  | submit r => exact h.handIn _ _
  | item c i => exact h.submitItem _
  | query source => exact ⟨{ h with orderly := ho }, .none rfl rfl⟩

/-- An attempt to start a dead engine fails, and hands in nothing. -/
lemma start_eq (h : Dead e) : e.start = (.error .alreadyStarted, { e with started := true }) := by
  simp [start, h.connectable]

/-- The closing of a dead engine goes on to a pipeline or to its end. -/
lemma closes (h : Dead e) {activity : Activity} {stats : Stats} {i : Nat}
    {journal : List (Event κ V)}
    (ho : Orderly { e with
      activity := activity, stats := stats, closing := e.closingFrom i, journal := journal })
    (hidle : activity.isIdle = true) :
    Dead { e with
      activity := activity, stats := stats, closing := e.closingFrom i, journal := journal } := by
  refine { h with orderly := ho, idle := hidle, owed := fun d n hd => ?_ }
  obtain hno | hno := Orderly.closingFrom_cases e i <;> cases hno.symm.trans hd

variable [DecidableEq τ]

/-- Whatever is tried with a dead engine, it stays so and only counts what it refuses.

**Proof sketch.** No worker is live and no item is in a stage, so no handler and no stage can make a
move, and the dispatcher and the item workers have ended. What is left is to hand something in, to
start the engine and to close it again. -/
theorem step (h : Dead e) (m : Move κ V) (he : e.step? m = some e') :
    Dead e' ∧ Refuses m.handsRequest.toNat m.handsItem.toNat e e' := by
  have ho := h.orderly.step m he
  have hdispatcher := h.dispatcher
  cases m with
  | start =>
    obtain rfl := Option.some.inj he
    rw [h.start_eq] at ho ⊢
    exact ⟨{ h with orderly := ho }, .none rfl rfl⟩
  | ask effect =>
    obtain rfl := Option.some.inj he
    exact h.perform effect
  | receive =>
    obtain ⟨hd, -⟩ := receive?_eq_some he
    simp [dispatcherHasEnded, hd] at hdispatcher
  | launch =>
    obtain ⟨r, hd, -⟩ := launch?_eq_some he
    simp [dispatcherHasEnded, hd] at hdispatcher
  | attended =>
    obtain ⟨n, hd, -⟩ := attended?_eq_some he
    simp [dispatcherHasEnded, hd] at hdispatcher
  | resume =>
    obtain ⟨hd, -⟩ := resume?_eq_some he
    simp [dispatcherHasEnded, hd] at hdispatcher
  | drained =>
    obtain ⟨hd, -⟩ := drained?_eq_some he
    simp [dispatcherHasEnded, hd] at hdispatcher
  | send n =>
    obtain ⟨m, r, hw, -⟩ := send?_eq_some he
    cases (h.worker?_eq_none n).symm.trans hw
  | answer n outcome =>
    obtain ⟨m, r, wire, hw, -⟩ := answer?_eq_some he
    cases (h.worker?_eq_none n).symm.trans hw
  | act n effect =>
    obtain ⟨m, notice, level, later, _, _, hw, -⟩ := act?_eq_some he
    cases (h.worker?_eq_none n).symm.trans hw
  | reply n next =>
    obtain ⟨m, notice, level, later, isRead, d, hw, -⟩ := reply?_eq_some he
    cases (h.worker?_eq_none n).symm.trans hw
  | panic n =>
    obtain ⟨m, notice, level, later, isRead, hw, -⟩ := panic?_eq_some he
    cases (h.worker?_eq_none n).symm.trans hw
  | receiveItem k =>
    obtain ⟨hk, -⟩ := receiveItem?_eq_some he
    cases h.isEnded hk
  | beginItem k =>
    obtain ⟨i, hk, -⟩ := beginItem?_eq_some he
    cases h.isEnded hk
  | actItem k effect =>
    obtain ⟨i, stage, later, hk, -⟩ := actItem?_eq_some he
    cases h.isEnded hk
  | judge k verdict =>
    obtain ⟨i, stage, later, hk, -⟩ := judge?_eq_some he
    cases h.isEnded hk
  | close =>
    obtain ⟨-, rfl⟩ := close?_eq_some he
    have hnone : e.requests.waiting.isEmpty = true := by
      rw [h.orderly.waiting_of_closed h.requests]
      rfl
    exact ⟨{ h with orderly := ho, requests := rfl, owed := by rintro d n ⟨⟩ }, .event rfl hnone rfl⟩
  | discardRequests =>
    obtain ⟨n, -, -, rfl⟩ := discardRequests?_eq_some he
    have hzero := (Activity.isIdle_iff e.activity).1 h.idle
    have hqueued : e.activity.queuedRequests = 0 := hzero (.queued .request)
    refine ⟨{ h with orderly := ho, items := rfl, idle := ?_, owed := ?_ }, .none rfl rfl⟩
    · rw [← h.idle, isIdle, isIdle, ← hqueued]
    · rintro d n ⟨rfl, rfl⟩
      exact hqueued
  | discardItems =>
    obtain ⟨d, n, hc, -, rfl⟩ := discardItems?_eq_some he
    obtain rfl := h.owed d n hc
    have hzero := (Activity.isIdle_iff e.activity).1 h.idle
    have hqueued : e.activity.queuedItems = 0 := hzero (.queued .item)
    refine ⟨h.closes ho ?_, .event rfl (by simp [Event.isVain, hqueued]) (by rw [hqueued]; rfl)⟩
    rw [← h.idle, isIdle, ← hqueued]
  | closePipeline =>
    obtain ⟨i, -, rfl⟩ := closePipeline?_eq_some he
    exact ⟨h.closes ho h.idle, .event rfl rfl rfl⟩

/-- Whatever is tried with a dead engine, one thing after the other, it stays so and only counts
what it refuses. -/
theorem run (h : Dead e) {moves : List (Move κ V)} (he : e.run? moves = some e') :
    Dead e' ∧ Refuses (moves.countP Move.handsRequest) (moves.countP Move.handsItem) e e' := by
  induction moves generalizing e with
  | nil =>
    obtain rfl : e = e' := by simpa using he
    exact ⟨h, .none rfl rfl⟩
  | cons m moves ih =>
    rw [run?_cons] at he
    obtain ⟨d, hd, he⟩ := Option.bind_eq_some_iff.1 he
    obtain ⟨hdead, hfirst⟩ := h.step m hd
    obtain ⟨hdead', hlater⟩ := ih hdead he
    refine ⟨hdead', ?_⟩
    have hcount : ∀ p : Move κ V → Bool, (m :: moves).countP p = (p m).toNat + moves.countP p := by
      intro p
      cases hp : p m <;> simp [hp, Nat.add_comm]
    rw [hcount, hcount]
    exact hfirst.trans hlater

end Dead

end WebCrawl.Engine

/-! ## Turns -/

namespace WebCrawl.Schedule

open Crawl Engine

variable {ω κ τ : Type} {V : τ → Type} {s : Schedule ω κ V}

/-- A dispatcher that has ended cannot go on. -/
lemma dispatcherCanGoOn_of_dead (h : Dead s.engine) : s.dispatcherCanGoOn = false := by
  have hdispatcher := h.dispatcher
  unfold dispatcherHasEnded at hdispatcher
  unfold dispatcherCanGoOn
  split at hdispatcher <;> simp_all

variable [DecidableEq τ]

/-- Item workers that have ended are woken for nothing. -/
lemma wakeItemWorkers_of_dead (h : Dead s.engine) (waiting : List Nat) :
    (s.wakeItemWorkers waiting).engine = s.engine ∧
      (s.wakeItemWorkers waiting).outside = s.outside := by
  induction waiting generalizing s with
  | nil => exact ⟨rfl, rfl⟩
  | cons k later ih =>
    have hnone : s.engine.step? (.receiveItem k) = none := by
      by_contra hne
      obtain ⟨e', he⟩ := Option.ne_none_iff_exists'.1 hne
      cases h.isEnded (receiveItem?_eq_some he).1
    have hsame : s.apply (.receiveItem k) = s := by simp [apply, hnone]
    unfold wakeItemWorkers
    split
    · exact ⟨rfl, rfl⟩
    · rw [hsame]
      exact ih (s := s.enqueue (.itemWorker k)) h

/-- After a move of a dead engine no part of it has anything to do. -/
lemma move_of_dead {m : Move κ V} {e : Engine κ V} (h : Dead s.engine)
    (he : s.engine.step? m = some e) :
    (s.move m).engine = e ∧ (s.move m).outside = s.outside := by
  have hmoved : s.apply m = { s with engine := e } := by simp [apply, he]
  have hdead : Dead (s.apply m).engine := by
    rw [hmoved]
    exact (h.step m he).1
  have hasleep : (s.apply m).wakeDispatcher = s.apply m := by
    simp [wakeDispatcher, dispatcherCanGoOn_of_dead hdead]
  unfold move
  dsimp only
  rw [hasleep]
  obtain ⟨hengine, houtside⟩ := wakeItemWorkers_of_dead hdead (s.apply m).itemWorkersWaiting
  rw [hengine, houtside, hmoved]
  exact ⟨rfl, rfl⟩

/-- To run a dead engine fails, and nothing of the outside is asked for. -/
lemma run_of_dead (h : Dead s.engine) (fuel : Nat) :
    (s.run fuel).1 = .error .alreadyStarted ∧
      (s.run fuel).2.engine = { s.engine with started := true } ∧
      (s.run fuel).2.outside = s.outside := by
  have hstart : s.start = (.error .alreadyStarted, s.move .start) := by
    simp [start, h.start_eq]
  have hstep : s.engine.step? .start = some { s.engine with started := true } := by
    simp [step?, h.start_eq]
  rw [run, hstart]
  exact ⟨rfl, move_of_dead h hstep⟩

/-- To wait for a dead engine ends at once. -/
lemma wait_of_dead (h : Dead s.engine) (looks fuel : Nat) : s.wait looks fuel = s := by
  cases looks with
  | zero => rfl
  | succ looks => rw [wait, if_pos h.idle]

end WebCrawl.Schedule
