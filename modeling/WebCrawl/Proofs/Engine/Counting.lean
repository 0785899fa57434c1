import WebCrawl.Proofs.Engine.Idle

set_option autoImplicit false

/-!
# The counters of the work

The counters of an engine are kept apart from the queues and the workers that they describe, by small
changes on every way that work can take. They always tell exactly what there is, so none of the
changes takes from a counter that is at zero, and an engine is seen to be idle exactly when nothing
is in it.

## Main definitions

* `WebCrawl.Crawl.Activity.replay?` — the counters after some changes, unless one takes from zero.
* `WebCrawl.Engine.Event.changes`, `WebCrawl.Engine.Move.discards` — the changes that go with what
  happens.
* `WebCrawl.Engine.Counts` — one engine comes from another by changes none of which takes from zero.

## Main results

* `WebCrawl.Engine.Orderly.isIdle_iff` — when an engine is idle.
* `WebCrawl.Engine.Orderly.counts_step` — no move takes from a counter that is at zero.
-/

namespace WebCrawl.Crawl.Activity

/-! ## Changes that are refused at zero -/

/-- The counters after a change, if it does not take from a counter that is at zero. -/
def change? (a : Activity) : Change → Option Activity
  | .up c => some (a.change (.up c))
  | .down c => if a.get c = 0 then none else some (a.change (.down c))
  | .clear c => some (a.change (.clear c))

/-- The counters after some changes, if none of them takes from a counter that is at zero. -/
def replay? (a : Activity) (changes : List Change) : Option Activity := changes.foldlM change? a

@[simp] lemma replay?_nil (a : Activity) : a.replay? [] = some a := rfl

lemma replay?_append (a : Activity) (cs ds : List Change) :
    a.replay? (cs ++ ds) = (a.replay? cs).bind (·.replay? ds) := by
  simp [replay?, List.foldlM_append]

variable (a : Activity) (w : Work)

/-- Work that was just handed in can be withdrawn, and nothing has changed. -/
lemma replay?_submit_withdraw : a.replay? (w.submit ++ w.withdraw) = some a := by
  cases w <;> simp [replay?, Work.submit, Work.withdraw, change?, change, get, set]

/-- Work begins if some waits. -/
lemma replay?_begin (h : 0 < a.get (.queued w)) : a.replay? w.begin = some (a.apply w.begin) := by
  have hq : (a.change (.up (.active w))).get (.queued w) = a.get (.queued w) := by simp [change]
  have hne : (a.change (.up (.active w))).get (.queued w) ≠ 0 := hq ▸ Nat.pos_iff_ne_zero.1 h
  simp [replay?, apply, Work.begin, change?, hne]

/-- Work ends if some is under way. -/
lemma replay?_finish (h : 0 < a.get (.active w)) : a.replay? w.finish = some (a.apply w.finish) := by
  simp_all [replay?, apply, Work.finish, change?, Nat.pos_iff_ne_zero]

end WebCrawl.Crawl.Activity

namespace WebCrawl.Engine

open Crawl

variable {κ τ : Type} {V : τ → Type}

/-! ## The changes that go with what happens -/

/-- The changes of the counters that go with an event, in their order. -/
def Event.changes : Event κ V → List Change
  | .enqueued _ _ => Work.request.submit
  | .refused _ _ => Work.request.submit ++ Work.request.withdraw
  | .began _ _ => Work.request.begin
  | .finished _ => Work.request.finish
  | .itemEnqueued _ => Work.item.submit
  | .itemRefused _ => Work.item.submit ++ Work.item.withdraw
  | .itemBegan _ _ => Work.item.begin
  | .itemFinished _ _ => Work.item.finish
  | .discarded _ _ => Work.item.discard
  | _ => []

/-- The changes of a move that are not told by an event: the requests that waited are thrown away
silently, and told of together with the items. -/
def Move.discards : Move κ V → List Change
  | .discardRequests => Work.request.discard
  | _ => []

/-- An engine comes from another by events whose changes, one after the other, never take from a
counter that is at zero, and by some changes after them. -/
def Counts (later : List Change) (e e' : Engine κ V) : Prop :=
  ∃ events : List (Event κ V), e'.journal = events.reverse ++ e.journal ∧
    e.activity.replay? (events.flatMap Event.changes ++ later) = some e'.activity

namespace Counts

variable {e d e' : Engine κ V} {later : List Change}

/-- Nothing has happened. -/
lemma none (hj : e'.journal = e.journal) (ha : e'.activity = e.activity) : Counts [] e e' :=
  ⟨[], by simpa using hj, by simp [ha]⟩

/-- One thing has happened. -/
lemma one (event : Event κ V) (hj : e'.journal = event :: e.journal)
    (ha : e.activity.replay? event.changes = some e'.activity) : Counts [] e e' :=
  ⟨[event], by simpa using hj, by simpa using ha⟩

/-- What happens first and what happens then. -/
lemma trans (h : Counts [] e d) (h' : Counts later d e') : Counts later e e' := by
  obtain ⟨events, hj, ha⟩ := h
  obtain ⟨events', hj', ha'⟩ := h'
  refine ⟨events ++ events', ?_, ?_⟩
  · rw [hj', hj, List.reverse_append, List.append_assoc]
  · rw [List.append_nil] at ha
    rw [List.flatMap_append, List.append_assoc, Activity.replay?_append, ha]
    exact ha'

end Counts

section Parts

variable {e e' : Engine κ V} {n k : Nat}

/-! ## Handing in -/

/-- A request that is handed in is counted, and no longer if it is not taken. -/
lemma counts_handIn (e : Engine κ V) (origin : Origin) (r : Request κ) :
    Counts [] e (e.handIn origin r).2 := by
  cases hc : e.requests.closed with
  | true =>
    rw [handIn_closed e origin r hc]
    exact .one (.refused origin r) rfl (e.activity.replay?_submit_withdraw .request)
  | false =>
    rw [handIn_open e origin r hc]
    exact .one (.enqueued origin r) rfl rfl

/-- An item that is handed in is counted, and no longer if it is not taken. -/
lemma counts_submitItem (e : Engine κ V) (i : Envelope κ V) : Counts [] e (e.submitItem i).2 := by
  cases hc : e.items.closed with
  | true =>
    rw [submitItem_closed e i hc]
    exact .one (.itemRefused i) rfl (e.activity.replay?_submit_withdraw .item)
  | false =>
    rw [submitItem_open e i hc]
    exact .one (.itemEnqueued i) rfl rfl

lemma counts_perform (e : Engine κ V) (effect : Effect κ V) : Counts [] e (e.perform effect) :=
  perform_induction effect (counts_handIn e _) (counts_submitItem e) fun _ => .none rfl rfl

lemma counts_start (e : Engine κ V) : Counts [] e e.start.2 := by
  obtain hs | ⟨-, hs⟩ := start_cases e <;> rw [hs]
  · exact .none rfl rfl
  · exact foldl_perform_induction (fun d effect hd => hd.trans (counts_perform d effect)) _ _
      (.none rfl rfl)

/-! ## Requests under way -/

/-- The dispatcher gives away a request that is counted as waiting. -/
lemma Orderly.counts_launch (h : Orderly e) (he : e.launch? = some e') : Counts [] e e' := by
  obtain ⟨r, hd, hcase⟩ := launch?_eq_some he
  have hqueued := h.queued
  simp only [held, hd, List.length_singleton] at hqueued
  have hbegin := e.activity.replay?_begin .request (by rw [get_queuedRequests]; omega)
  rcases hcase with ⟨-, rfl⟩ | ⟨-, -, rfl⟩
  · exact .one (.began e.begun r) rfl hbegin
  · exact .one (.began e.begun r) rfl hbegin

/-- The worker of a request is one of those that are counted. -/
lemma Orderly.active_pos {w : Worker κ} (h : Orderly e) (hw : e.worker? n = some w) :
    0 < e.activity.activeRequests := by
  rw [h.active]
  exact List.length_pos_of_mem (List.mem_of_find?_eq_some hw)

lemma counts_finish (n : Nat) (h : 0 < e.activity.activeRequests) : Counts [] e (e.finish n) :=
  .one (.finished n) rfl (e.activity.replay?_finish .request h)

lemma counts_tellNext (n : Nat) (h : 0 < e.activity.activeRequests) (notice : Notice κ)
    (isRead : Bool) (levels : List (Level κ)) :
    Counts [] e (e.tellNext n notice isRead levels) := by
  cases levels with
  | nil => exact counts_finish n h
  | cons level later => exact .one (.told n level notice) rfl rfl

lemma counts_tell (n : Nat) (h : 0 < e.activity.activeRequests) (notice : Notice κ)
    (isRead : Bool) : Counts [] e (e.tell n notice isRead) := by
  have hnoted : Counts [] e (e.log (.noted n notice)) := .one (.noted n notice) rfl rfl
  exact hnoted.trans (counts_tellNext (e := e.log _) n h notice isRead _)

/-- A request that is handed in leaves the count of those under way as it is. -/
lemma handIn_active (e : Engine κ V) (origin : Origin) (r : Request κ) :
    (e.handIn origin r).2.activity.activeRequests = e.activity.activeRequests := by
  cases hc : e.requests.closed with
  | true => rw [handIn_closed e origin r hc]
  | false => rw [handIn_open e origin r hc]

/-- A worker ends after it has handed in the request that takes the place of its own. -/
lemma counts_resubmit_finish (n : Nat) (h : 0 < e.activity.activeRequests) (c : Context κ)
    (r : Request κ) : Counts [] e ((e.resubmit n c r).finish n) :=
  (counts_handIn e _ _).trans (counts_finish n ((handIn_active e _ _).symm ▸ h))

lemma counts_concludes {r : Request κ} (h : 0 < e.activity.activeRequests)
    (he : Concludes e n r e') : Counts [] e e' := by
  -- the statistics change first, and the counters are not among them
  have hstats : ∀ stats, Counts [] e { e with stats := stats } := fun _ => .none rfl rfl
  cases he with
  | failed error => exact (hstats _).trans (counts_tell n (by exact h) _ _)
  | succeeded a ha => exact (hstats _).trans (counts_tell n (by exact h) _ _)
  | judged a target hj => exact (hstats _).trans (counts_tell n (by exact h) _ _)
  | retried hr => exact (hstats _).trans (counts_resubmit_finish n (by exact h) _ _)
  | redirected a location target here join hmax hj =>
    exact (hstats _).trans (counts_resubmit_finish n (by exact h) _ _)

/-! ## Items under way -/

/-- An item that a worker holds is one of those that are counted as waiting. -/
lemma Orderly.queuedItems_pos {w : ItemWorker κ V} (h : Orderly e) (hw : e.itemWorkers[k]? = some w)
    (hh : w.isHolding = true) : 0 < e.activity.queuedItems := by
  have hpos : 0 < e.itemWorkers.countP (·.isHolding) :=
    List.countP_pos_iff.2 ⟨w, List.mem_of_getElem? hw, hh⟩
  rw [h.queuedItems]
  omega

/-- An item in a stage is one of those that are counted as under way. -/
lemma Orderly.activeItems_pos {w : ItemWorker κ V} (h : Orderly e)
    (hw : e.itemWorkers[k]? = some w) (hp : w.isProcessing = true) :
    0 < e.activity.activeItems := by
  rw [h.activeItems]
  exact List.countP_pos_iff.2 ⟨w, List.mem_of_getElem? hw, hp⟩

lemma counts_finishItem (k : Nat) (h : 0 < e.activity.activeItems) (passed : Bool) :
    Counts [] e (e.finishItem k passed) :=
  .one (.itemFinished k passed) (by rw [finishItem_eq])
    (by rw [finishItem_eq]; exact e.activity.replay?_finish .item h)

lemma counts_nextStage (k : Nat) (h : 0 < e.activity.activeItems) (i : Envelope κ V)
    (stages : List (Stage τ)) : Counts [] e (e.nextStage k i stages) := by
  obtain hn | ⟨stage, later, hn⟩ := nextStage_cases e k i stages <;> rw [hn]
  · exact counts_finishItem k h true
  · exact .one (.staged k stage i) rfl rfl

/-! ## Every move -/

variable [DecidableEq τ]

/-- An item begins, and ends at once if there is no stage for it. -/
lemma Orderly.counts_beginItem (h : Orderly e) (he : e.beginItem? k = some e') :
    Counts [] e e' := by
  obtain ⟨i, hk, -, rfl⟩ := beginItem?_eq_some he
  have hbegan : Counts [] e { e with
      activity := { e.activity with
        activeItems := e.activity.activeItems + 1, queuedItems := e.activity.queuedItems - 1 }
      itemPermits := e.itemPermits - 1
      journal := .itemBegan k i :: e.journal } :=
    .one (.itemBegan k i) rfl (e.activity.replay?_begin .item (h.queuedItems_pos hk rfl))
  exact hbegan.trans (counts_nextStage k (Nat.succ_pos _) i _)

/-- No move takes from a counter that is at zero. -/
theorem Orderly.counts_step (h : Orderly e) (m : Move κ V) (he : e.step? m = some e') :
    Counts m.discards e e' := by
  cases m with
  | start =>
    obtain rfl := Option.some.inj he
    exact counts_start e
  | ask effect =>
    obtain rfl := Option.some.inj he
    exact counts_perform e effect
  | receive =>
    obtain ⟨-, ⟨r, rest, -, rfl⟩ | ⟨-, -, rfl⟩⟩ := receive?_eq_some he
    · exact .none rfl rfl
    · exact .none rfl rfl
  | launch => exact h.counts_launch he
  | attended =>
    obtain ⟨n, -, -, rfl⟩ := attended?_eq_some he
    exact .none rfl rfl
  | resume =>
    obtain ⟨-, rfl⟩ := resume?_eq_some he
    exact .none rfl rfl
  | drained =>
    obtain ⟨-, -, rfl⟩ := drained?_eq_some he
    exact .none rfl rfl
  | send n =>
    obtain ⟨m, r, hw, hc | ⟨wire, rfl⟩⟩ := send?_eq_some he
    · exact counts_concludes (h.active_pos hw) hc
    · exact .one (.sent n wire) rfl rfl
  | answer n outcome =>
    obtain ⟨m, r, wire, hw, hc | ⟨a, hc⟩⟩ := answer?_eq_some he
    · exact counts_concludes (h.active_pos hw) hc
    · have hheard : Counts [] e (e.hear n a) := .one (.answered n a) rfl rfl
      exact hheard.trans (counts_concludes (by exact h.active_pos hw) hc)
  | act n effect =>
    obtain ⟨m, notice, level, later, _, _, -, rfl⟩ := act?_eq_some he
    exact (counts_perform e effect).trans (.none rfl rfl)
  | reply n next =>
    obtain ⟨m, notice, level, later, isRead, d, hw, rfl | ⟨_, _, c, r, -, rfl⟩, rfl⟩ :=
      reply?_eq_some he
    · exact counts_tellNext n (h.active_pos hw) _ _ _
    · refine (counts_handIn e _ _).trans (counts_tellNext n ?_ _ _ _)
      exact (handIn_active e _ _).symm ▸ h.active_pos hw
  | panic n =>
    obtain ⟨m, notice, level, later, isRead, hw, rfl⟩ := panic?_eq_some he
    exact counts_finish n (h.active_pos hw)
  | receiveItem k =>
    obtain ⟨-, ⟨i, rest, -, rfl⟩ | ⟨-, -, rfl⟩⟩ := receiveItem?_eq_some he
    · exact .none rfl rfl
    · exact .none rfl rfl
  | beginItem k => exact h.counts_beginItem he
  | actItem k effect =>
    obtain ⟨-, -, -, -, rfl⟩ := actItem?_eq_some he
    exact counts_perform e effect
  | judge k verdict =>
    obtain ⟨i, stage, later, hk, ⟨j, rfl⟩ | rfl⟩ := judge?_eq_some he
    · exact counts_nextStage k (h.activeItems_pos hk rfl) j later
    · exact counts_finishItem k (h.activeItems_pos hk rfl) false
  | close =>
    obtain ⟨-, rfl⟩ := close?_eq_some he
    exact .one (.cleared e.requests.waiting) rfl rfl
  | discardRequests =>
    obtain ⟨n, -, -, rfl⟩ := discardRequests?_eq_some he
    exact ⟨[], rfl, rfl⟩
  | discardItems =>
    obtain ⟨d, n, -, -, rfl⟩ := discardItems?_eq_some he
    exact .one (.discarded d e.activity.queuedItems) rfl rfl
  | closePipeline =>
    obtain ⟨i, -, rfl⟩ := closePipeline?_eq_some he
    exact .one (.pipelineClosed i) rfl rfl

end Parts

/-! ## Idleness -/

/-- An engine is idle exactly when nothing waits, is held, is under way, or was taken out of a queue
that was closed and is still to be thrown away. -/
theorem Orderly.isIdle_iff {e : Engine κ V} (h : Orderly e) :
    e.isIdle = true ↔
      e.requests.waiting = [] ∧ e.held = [] ∧ e.workers = [] ∧ e.items.waiting = [] ∧
        (∀ w ∈ e.itemWorkers, w.isHolding = false ∧ w.isProcessing = false) ∧
        e.closing.clearedRequests = 0 ∧ e.closing.clearedItems = 0 := by
  have hqueued := h.queued
  have hitems := h.queuedItems
  constructor
  · intro hi
    have hzero := (Activity.isIdle_iff e.activity).1 hi
    have hno : e.activity.queuedRequests = 0 := hzero (.queued .request)
    have hnoItems : e.activity.queuedItems = 0 := hzero (.queued .item)
    obtain ⟨hr, hheld, hw, hi, hbusy⟩ := h.nothing_of_isIdle hi
    exact ⟨hr, hheld, hw, hi, hbusy, by omega, by omega⟩
  · rintro ⟨hr, hheld, hw, hi, hbusy, hcleared, hclearedItems⟩
    have hholding : e.itemWorkers.countP (·.isHolding) = 0 :=
      List.countP_eq_zero.2 fun w hw => by simp [(hbusy w hw).1]
    have hprocessing : e.itemWorkers.countP (·.isProcessing) = 0 :=
      List.countP_eq_zero.2 fun w hw => by simp [(hbusy w hw).2]
    rw [hr, hheld, hcleared] at hqueued
    rw [hi, hholding, hclearedItems] at hitems
    refine (Activity.isIdle_iff e.activity).2 fun c => ?_
    match c with
    | .queued .request => exact hqueued
    | .active .request => exact h.active.trans (by rw [hw]; rfl)
    | .queued .item => exact hitems
    | .active .item => exact h.activeItems.trans hprocessing

end WebCrawl.Engine
