import WebCrawl.Proofs.Engine.Admission
import WebCrawl.Proofs.Engine.Closed
import WebCrawl.Proofs.Engine.Trails

set_option autoImplicit false

/-!
# The closing of pipelines

A closing comes to the pipelines when the item workers have ended, and closes one after the other,
whatever becomes of those before. So no item is in a stage when a pipeline is closed, and none comes
to a stage after that. But nothing remembers that the pipelines were closed: an engine that is
closed once more has nothing to throw away, and still closes each of its pipelines again.

## Main definitions

* `WebCrawl.Engine.Event.closesPipeline`, `WebCrawl.Engine.Event.opensClosing` — what the journal
  tells of a closing.
* `WebCrawl.Engine.Closing.owes` — whether the closing under way has still to come to a pipeline.
* `WebCrawl.Engine.Untouched` — one engine comes from another while its closing stands still.
* `WebCrawl.Engine.ClosesInTurn` — the pipelines were closed as often as the engine, and after the
  items.

## Main results

* `WebCrawl.Engine.untouched_step` — only the steps of the closing take it further.
* `WebCrawl.Schedule.closePipelines_of_dead` — the pipelines are closed in their order.
* `WebCrawl.Engine.Reachable.pipelines_closed` — when and how often pipelines are closed.
* `WebCrawl.Engine.pipeline_closed_twice` — a pipeline that was closed by a run is closed again.
-/

namespace WebCrawl.Engine

open Crawl

variable {κ τ : Type} {V : τ → Type}

/-! ## What the journal tells of a closing -/

/-- Whether a pipeline is closed with an event. -/
def Event.closesPipeline (k : Nat) : Event κ V → Bool
  | .pipelineClosed i => i == k
  | _ => false

/-- Whether a closing begins with an event. -/
def Event.opensClosing : Event κ V → Bool
  | .cleared _ => true
  | _ => false

/-- Whether a closing begins or goes on with an event. -/
def Event.isOfClosing : Event κ V → Bool
  | .cleared _ => true
  | .discarded _ _ => true
  | .pipelineClosed _ => true
  | _ => false

/-- Whether a closing begins or goes on with a move. -/
def Move.closes : Move κ V → Bool
  | .close => true
  | .discardRequests => true
  | .discardItems => true
  | .closePipeline => true
  | _ => false

/-- Whether a pipeline is still to be closed. -/
def Closing.owes (k : Nat) : Closing → Bool
  | .no => false
  | .pipelines next => next ≤ k
  | _ => true

/-! ## What does not touch the closing -/

/-- One engine comes from another while its closing stands still. -/
structure Untouched (e e' : Engine κ V) : Prop where
  setup : e'.setup = e.setup
  closing : e'.closing = e.closing
  journal : ∃ later, e'.journal = later ++ e.journal ∧ ∀ event ∈ later, event.isOfClosing = false

namespace Untouched

variable {e d e' : Engine κ V}

lemma trans (h : Untouched e d) (h' : Untouched d e') : Untouched e e' := by
  obtain ⟨first, hfirst, hnone⟩ := h.journal
  obtain ⟨later, hlater, hnone'⟩ := h'.journal
  refine ⟨h'.setup.trans h.setup, h'.closing.trans h.closing, later ++ first, ?_, ?_⟩
  · rw [hlater, hfirst, List.append_assoc]
  · exact fun event hevent => (List.mem_append.1 hevent).elim (hnone' event) (hnone event)

/-- Nothing happens that is written down. -/
lemma quiet (hsetup : e'.setup = e.setup) (hclosing : e'.closing = e.closing)
    (hjournal : e'.journal = e.journal) : Untouched e e' := ⟨hsetup, hclosing, [], hjournal, nofun⟩

/-- Something else happens. -/
lemma event (event : Event κ V) (hnone : event.isOfClosing = false) (hsetup : e'.setup = e.setup)
    (hclosing : e'.closing = e.closing) (hjournal : e'.journal = event :: e.journal) :
    Untouched e e' :=
  ⟨hsetup, hclosing, [event], hjournal, List.forall_mem_singleton.2 hnone⟩

end Untouched

section Parts

variable {e e' : Engine κ V}

/-- Deeds leave the closing where it stands. -/
lemma Deed.untouched (h : Deed e e') : Untouched e e' := by
  cases h with
  | request origin r =>
    cases hc : e.requests.closed with
    | true =>
      rw [handIn_closed e origin r hc]
      exact .event (.refused origin r) rfl rfl rfl rfl
    | false =>
      rw [handIn_open e origin r hc]
      exact .event (.enqueued origin r) rfl rfl rfl rfl
  | item i =>
    cases hc : e.items.closed with
    | true =>
      rw [submitItem_closed e i hc]
      exact .event (.itemRefused i) rfl rfl rfl rfl
    | false =>
      rw [submitItem_open e i hc]
      exact .event (.itemEnqueued i) rfl rfl rfl rfl
  | other events hevents same hjournal =>
    obtain ⟨hsetup, -, -, -, hclosing, -, -, -⟩ := Background.mk.inj same
    refine ⟨hsetup, hclosing, events, hjournal, fun event hevent => ?_⟩
    have hworker := hevents event hevent
    cases event <;> first | rfl | cases hworker

lemma Deeds.untouched (h : Deeds e e') : Untouched e e' := by
  induction h with
  | refl => exact .quiet rfl rfl rfl
  | tail _ hdeed ih => exact ih.trans hdeed.untouched

lemma untouched_start (e : Engine κ V) : Untouched e e.start.2 := by
  obtain hs | ⟨-, hs⟩ := start_cases e <;> rw [hs]
  · exact .quiet rfl rfl rfl
  · have hignite : Untouched e e.ignite := .quiet rfl rfl rfl
    exact hignite.trans (deeds_seeds e.seeds e.ignite).untouched

/-! ### Items -/

lemma untouched_finishItem (e : Engine κ V) (k : Nat) (passed : Bool) :
    Untouched e (e.finishItem k passed) := by
  rw [finishItem_eq]
  exact .event (.itemFinished k passed) rfl rfl rfl rfl

lemma untouched_nextStage (e : Engine κ V) (k : Nat) (i : Envelope κ V) (stages : List (Stage τ)) :
    Untouched e (e.nextStage k i stages) := by
  obtain hn | ⟨stage, later, hn⟩ := nextStage_cases e k i stages <;> rw [hn]
  · exact untouched_finishItem e k true
  · exact .event (.staged k stage i) rfl rfl rfl rfl

end Parts

/-! ### Moves -/

/-- The other moves leave the closing where it stands. -/
lemma untouched_step [DecidableEq τ] {e e' : Engine κ V} (m : Move κ V) (hm : m.closes = false)
    (he : e.step? m = some e') : Untouched e e' := by
  cases m with
  | close | discardRequests | discardItems | closePipeline => cases hm
  | start =>
    obtain rfl := Option.some.inj he
    exact untouched_start e
  | receiveItem k =>
    obtain ⟨-, ⟨i, rest, -, rfl⟩ | ⟨-, -, rfl⟩⟩ := receiveItem?_eq_some he
    · exact .quiet rfl rfl rfl
    · exact .quiet rfl rfl rfl
  | beginItem k =>
    obtain ⟨i, -, -, rfl⟩ := beginItem?_admits he
    have hbegan : Untouched e (e.admitItem k i) := .event (.itemBegan k i) rfl rfl rfl rfl
    exact hbegan.trans (untouched_nextStage _ k i _)
  | judge k verdict =>
    obtain ⟨i, stage, later, -, ⟨j, rfl⟩ | rfl⟩ := judge?_eq_some he
    · exact untouched_nextStage e k j later
    · exact untouched_finishItem e k false
  | _ => exact (deeds_step _ rfl he).untouched

/-! ## After the items -/

/-- A pipeline is closed after all items that had begun have ended, and nothing happens to an item
after that. -/
def AfterItems (journal : List (Event κ V)) : Prop :=
  ∀ later k past, journal = later ++ .pipelineClosed k :: past →
    (∀ event ∈ later, event.itemWorker? = none) ∧
      past.countP Event.beginsItem = past.countP Event.endsItem

namespace AfterItems

variable {journal events : List (Event κ V)}

/-- Other things happen, and nothing to an item if a pipeline was closed. -/
lemma append (h : AfterItems journal) (hother : ∀ k, .pipelineClosed k ∉ events)
    (hquiet : ∀ k, .pipelineClosed k ∈ journal → ∀ event ∈ events, event.itemWorker? = none) :
    AfterItems (events ++ journal) := by
  intro later k past hsplit
  rcases List.append_eq_append_iff.1 hsplit with ⟨front, rfl, hfront⟩ | ⟨front, rfl, hfront⟩
  · obtain ⟨hnone, hended⟩ := h front k past hfront
    have hmem : .pipelineClosed k ∈ journal := by simp [hfront]
    exact ⟨fun event hevent => (List.mem_append.1 hevent).elim (hquiet k hmem event) (hnone event),
      hended⟩
  · cases front with
    | nil =>
      obtain ⟨-, hended⟩ := h [] k past hfront.symm
      have hmem : .pipelineClosed k ∈ journal := by
        rw [show journal = .pipelineClosed k :: past from hfront.symm]
        exact List.mem_cons_self
      exact ⟨fun event hevent => hquiet k hmem event (List.mem_append_left _ hevent), hended⟩
    | cons event front =>
      obtain ⟨rfl, -⟩ := List.cons.inj hfront
      exact absurd (List.mem_append_right _ List.mem_cons_self) (hother k)

/-- One more pipeline is closed. -/
lemma close (h : AfterItems journal)
    (hended : journal.countP Event.beginsItem = journal.countP Event.endsItem) (i : Nat) :
    AfterItems (.pipelineClosed i :: journal) := by
  intro later k past hsplit
  cases later with
  | nil =>
    obtain ⟨-, rfl⟩ := List.cons.inj hsplit
    exact ⟨nofun, hended⟩
  | cons event later =>
    obtain ⟨rfl, hrest⟩ := List.cons.inj hsplit
    obtain ⟨hnone, hended⟩ := h later k past hrest
    exact ⟨List.forall_mem_cons.2 ⟨rfl, hnone⟩, hended⟩

end AfterItems

/-! ## As often as the engine -/

/-- What is still to be closed from a place on. -/
lemma owes_closingFrom {e : Engine κ V} {k : Nat} (hk : k < e.setup.pipelines.length) (i : Nat) :
    (e.closingFrom i).owes k = decide (i ≤ k) := by
  unfold closingFrom
  split
  · rfl
  · exact (decide_eq_false (by omega)).symm

/-- The pipeline that is closed was due and is so no more, and no other changes. -/
lemma owes_pipelines (i k : Nat) :
    (if (i == k) = true then 1 else 0) + (decide (i + 1 ≤ k)).toNat = (decide (i ≤ k)).toNat := by
  rcases Nat.lt_trichotomy i k with h | rfl | h
  · simp [Nat.ne_of_lt h, Nat.le_of_lt h, Nat.succ_le_of_lt h]
  · simp
  · simp [Nat.ne_of_gt h, Nat.not_le_of_gt h, Nat.not_le_of_gt (Nat.lt_succ_of_lt h)]

/-- What is closed next is a pipeline of the engine. -/
lemma lt_of_closingFrom {e : Engine κ V} {i k : Nat} (h : e.closingFrom i = .pipelines k) :
    k < e.setup.pipelines.length := by
  unfold closingFrom at h
  split at h
  · cases h
    assumption
  · cases h

/-- The pipelines were closed as often as the engine, those excepted that the closing under way has
not come to, and after the items. -/
structure ClosesInTurn (e : Engine κ V) : Prop where
  asOften : ∀ k < e.setup.pipelines.length,
    e.journal.countP (Event.closesPipeline k) + (e.closing.owes k).toNat =
      e.journal.countP Event.opensClosing
  known : ∀ k, .pipelineClosed k ∈ e.journal → k < e.setup.pipelines.length
  next : ∀ i, e.closing = .pipelines i → i < e.setup.pipelines.length
  dead : ∀ k, .pipelineClosed k ∈ e.journal → Dead e
  afterItems : AfterItems e.journal

/-- In an engine whose item workers have ended, every item that began has ended. -/
lemma Dead.items_ended {setup : Setup τ} {e : Engine κ V} (h : Dead e) (ha : Admitted setup e) :
    e.journal.countP Event.beginsItem = e.journal.countP Event.endsItem := by
  have hnone : e.itemPermitsHeld = 0 :=
    List.countP_eq_zero.2 fun w hw => by simp [(Dead.not_busy_of_ended h.itemWorkers w hw).2]
  rw [ha.liveItems, hnone, Nat.add_zero]

namespace ClosesInTurn

variable [DecidableEq τ] {setup : Setup τ} {e e' : Engine κ V}

omit [DecidableEq τ] in
lemma new (setup : Setup τ) (seeds : List (Request κ)) :
    ClosesInTurn (.new setup seeds : Engine κ V) where
  asOften _ _ := rfl
  known := nofun
  next := nofun
  dead := nofun
  afterItems := by
    intro later k past h
    simp [Engine.new] at h

/-- Nothing happens to an item any more after a pipeline was closed. -/
lemma quiet (h : ClosesInTurn e) {m : Move κ V} (he : e.step? m = some e')
    {later : List (Event κ V)} (hlater : e'.journal = later ++ e.journal) {k : Nat}
    (hk : .pipelineClosed k ∈ e.journal) : ∀ event ∈ later, event.itemWorker? = none := by
  obtain ⟨-, ⟨vain, hvain, hisVain⟩, -⟩ := (h.dead k hk).step m he
  obtain rfl : later = vain := List.append_cancel_right (hlater.symm.trans hvain)
  intro event hevent
  have := hisVain event hevent
  cases event <;> first | rfl | cases this

/-- One more thing happens, which is not the closing of a pipeline. -/
lemma afterItems_cons (h : ClosesInTurn e) {m : Move κ V} (he : e.step? m = some e')
    {event : Event κ V} (hjournal : e'.journal = event :: e.journal)
    (hother : ∀ k, event ≠ .pipelineClosed k) : AfterItems e'.journal := by
  have hnone : ∀ k, Event.pipelineClosed k ∉ [event] := fun k hk =>
    hother k (List.mem_singleton.1 hk).symm
  rw [hjournal]
  exact h.afterItems.append hnone fun k hk => h.quiet he hjournal hk

/-- What leaves the closing where it stands. -/
lemma untouched (h : ClosesInTurn e) {m : Move κ V} (he : e.step? m = some e')
    (hu : Untouched e e') : ClosesInTurn e' := by
  obtain ⟨hsetup, hclosing, later, hlater, hnone⟩ := hu
  have hother : ∀ k, .pipelineClosed k ∉ later := fun k hk => by cases hnone _ hk
  have hmem : ∀ {k}, .pipelineClosed k ∈ e'.journal → .pipelineClosed k ∈ e.journal := by
    intro k hk
    rw [hlater] at hk
    exact (List.mem_append.1 hk).resolve_left (hother k)
  refine ⟨fun k hk => ?_, fun k hk => ?_, fun i hi => ?_, fun k hk => ?_, ?_⟩
  · have hcloses : later.countP (Event.closesPipeline k) = 0 :=
      List.countP_eq_zero.2 fun event hevent => by
        have := hnone event hevent
        cases event <;> simp_all [Event.closesPipeline, Event.isOfClosing]
    have hopens : later.countP Event.opensClosing = 0 :=
      List.countP_eq_zero.2 fun event hevent => by
        have := hnone event hevent
        cases event <;> simp_all [Event.opensClosing, Event.isOfClosing]
    rw [hlater, List.countP_append, List.countP_append, hcloses, hopens, hclosing, Nat.zero_add,
      Nat.zero_add]
    exact h.asOften k (hsetup ▸ hk)
  · rw [hsetup]
    exact h.known k (hmem hk)
  · rw [hsetup]
    exact h.next i (hclosing ▸ hi)
  · exact ((h.dead k (hmem hk)).step m he).1
  · rw [hlater]
    exact h.afterItems.append hother fun k hk => h.quiet he hlater hk

/-- Every move of an engine keeps this.

**Proof sketch.** Only the steps of the closing matter. Its beginning makes every pipeline due once
more, and each pipeline that is closed is the one that is due next. At that moment the item workers
have ended, so that nothing happens to an item from then on. -/
theorem step (h : ClosesInTurn e) (ho : Orderly e) (ha : Admitted setup e) (m : Move κ V)
    (he : e.step? m = some e') : ClosesInTurn e' := by
  have hdead : ∀ k, .pipelineClosed k ∈ e.journal → Dead e' := fun k hk =>
    ((h.dead k hk).step m he).1
  cases hm : m.closes with
  | false => exact h.untouched he (untouched_step m hm he)
  | true => cases m with
    | close =>
      obtain ⟨hno, rfl⟩ := close?_eq_some he
      refine ⟨fun k hk => ?_, by simpa using h.known, nofun, by simpa using hdead, ?_⟩
      · have hoften := h.asOften k hk
        rw [hno] at hoften
        dsimp only
        rw [List.countP_cons_of_pos (p := Event.opensClosing) rfl, ← hoften]
        rfl
      · exact h.afterItems_cons he rfl nofun
    | discardRequests =>
      obtain ⟨n, hc, -, rfl⟩ := discardRequests?_eq_some he
      refine ⟨fun k hk => ?_, h.known, nofun, hdead, h.afterItems⟩
      have hoften := h.asOften k hk
      rw [hc] at hoften
      exact hoften
    | discardItems =>
      obtain ⟨d, n, hc, -, rfl⟩ := discardItems?_eq_some he
      refine ⟨fun k hk => ?_, by simpa using h.known, fun i hi => ?_, by simpa using hdead, ?_⟩
      · have hoften := h.asOften k hk
        rw [hc] at hoften
        dsimp only
        rw [owes_closingFrom (e := e) hk, decide_eq_true (Nat.zero_le k)]
        exact hoften
      · exact lt_of_closingFrom (e := e) hi
      · exact h.afterItems_cons he rfl nofun
    | closePipeline =>
      obtain ⟨i, hc, rfl⟩ := closePipeline?_eq_some he
      have hend := Dead.of_pipelines ho hc
      have hi := h.next i hc
      refine ⟨fun k hk => ?_, fun k hk => ?_, fun j hj => ?_, fun _ _ => (hend.step _ he).1,
        h.afterItems.close (hend.items_ended ha) i⟩
      · have hoften := h.asOften k hk
        rw [hc] at hoften
        have hopens : (Event.pipelineClosed i :: e.journal).countP Event.opensClosing =
            e.journal.countP Event.opensClosing :=
          List.countP_cons_of_neg (by simp [Event.opensClosing])
        dsimp only
        rw [hopens, ← hoften, List.countP_cons, owes_closingFrom (e := e) hk, Nat.add_assoc]
        exact congrArg _ (owes_pipelines i k)
      · rcases List.mem_cons.1 hk with hk | hk
        · cases hk
          exact hi
        · exact h.known k hk
      · exact lt_of_closingFrom (e := e) hj
    | _ => cases hm

end ClosesInTurn

/-- Every reachable engine has closed its pipelines in turn. -/
theorem Reachable.closesInTurn [DecidableEq τ] {setup : Setup τ} {seeds : List (Request κ)}
    {e : Engine κ V} (h : Reachable setup seeds e) : ClosesInTurn e := by
  refine (h.induction (P := fun d => Reachable setup seeds d ∧ ClosesInTurn d)
    ⟨⟨[], rfl⟩, .new setup seeds⟩ ?_).2
  rintro d m d' ⟨hd, hinTurn⟩ he
  exact ⟨hd.step m he, hinTurn.step hd.orderly hd.admitted m he⟩

/-! ## Closing once more -/

/-- A closed queue in which nothing waits. -/
lemma queue_eq {α : Type} {q : Queue α} (hwaiting : q.waiting = []) (hclosed : q.closed = true) :
    q = ⟨[], true⟩ := by
  obtain ⟨waiting, closed⟩ := q
  obtain rfl : waiting = [] := hwaiting
  obtain rfl : closed = true := hclosed
  rfl

namespace Dead

variable [DecidableEq τ] {e : Engine κ V} {i d n : Nat}

omit [DecidableEq τ] in
/-- Nothing waits in the queue of requests, which is closed. -/
lemma requests_eq (h : Dead e) : e.requests = ⟨[], true⟩ :=
  queue_eq (h.orderly.waiting_of_closed h.requests) h.requests

omit [DecidableEq τ] in
/-- Nothing waits in the queue of items, which is closed. -/
lemma items_eq (h : Dead e) : e.items = ⟨[], true⟩ :=
  queue_eq (h.orderly.items_of_closed h.items) h.items

omit [DecidableEq τ] in
/-- Nothing is counted as waiting. -/
lemma queued_eq (h : Dead e) : e.activity.queuedRequests = 0 ∧ e.activity.queuedItems = 0 := by
  have hzero := (Activity.isIdle_iff e.activity).1 h.idle
  exact ⟨hzero (.queued .request), hzero (.queued .item)⟩

/-- The closing of a dead engine takes nothing out of the queue of requests. -/
lemma step_close (h : Dead e) (hc : e.closing = .no) :
    e.step? .close =
      some { e with closing := .requests 0, journal := .cleared [] :: e.journal } := by
  have hconnectable := h.connectable
  have hrequests := h.requests_eq
  simp only [step?, Engine.close?, hc, Queue.close, log, hrequests, List.length_nil]
  rw [← hconnectable, ← hrequests]

/-- It throws no requests away. -/
lemma step_discardRequests (h : Dead e) (hc : e.closing = .requests n) :
    e.step? .discardRequests = some { e with closing := .items 0 0 } := by
  have hitems := h.items_eq
  have hqueued : { e.activity with queuedRequests := 0 } = e.activity := by rw [← h.queued_eq.1]
  simp only [step?, discardRequests?, hc, h.dispatcher, count, Work.discard, Activity.apply,
    List.foldl_cons, List.foldl_nil, Activity.change, Activity.set, Activity.get, Queue.close,
    if_true, hqueued, hitems, h.queued_eq.1, List.length_nil]

/-- It throws no items away. -/
lemma step_discardItems (h : Dead e) (hc : e.closing = .items d n) :
    e.step? .discardItems =
      some { e with closing := e.closingFrom 0, journal := .discarded 0 0 :: e.journal } := by
  have hqueued : { e.activity with queuedItems := 0 } = e.activity := by rw [← h.queued_eq.2]
  simp only [step?, discardItems?, hc, h.itemWorkers, count, Work.discard, Activity.apply,
    List.foldl_cons, List.foldl_nil, Activity.change, Activity.set, Activity.get, log, if_true,
    hqueued, h.owed d n hc, h.queued_eq.2, Stats.recordDiscarded, Nat.add_zero]

/-- It closes the next pipeline. -/
lemma step_closePipeline (hc : e.closing = .pipelines i) :
    e.step? .closePipeline =
      some { e with
        closing := e.closingFrom (i + 1), journal := .pipelineClosed i :: e.journal } := by
  simp only [step?, closePipeline?, hc, log]

end Dead

end WebCrawl.Engine

namespace WebCrawl.Schedule

open Crawl Engine

variable {ω κ τ : Type} {V : τ → Type} [DecidableEq τ] {s : Schedule ω κ V}

/-! ### What lies outside stays what it is -/

@[simp] lemma apply_world (s : Schedule ω κ V) (m : Move κ V) : (s.apply m).world = s.world := by
  unfold apply
  split <;> rfl

@[simp] lemma wakeDispatcher_world (s : Schedule ω κ V) : s.wakeDispatcher.world = s.world := by
  unfold wakeDispatcher
  split
  · exact apply_world _ _
  · rfl

@[simp] lemma wakeItemWorkers_world (s : Schedule ω κ V) (waiting : List Nat) :
    (s.wakeItemWorkers waiting).world = s.world := by
  induction waiting generalizing s with
  | nil => rfl
  | cons k later ih =>
    unfold wakeItemWorkers
    split
    · rfl
    · rw [ih]
      exact apply_world _ _

@[simp] lemma move_world (s : Schedule ω κ V) (m : Move κ V) : (s.move m).world = s.world := by
  simp [move]

/-! ### The pipelines in their order -/

/-- The pipelines from a place on are closed in their order, whatever becomes of each.

**Proof sketch.** Induction on the number of pipelines that are left. Each move closes the next one,
and the closing goes on to the one after it. -/
lemma closePipelines_of_dead (left i : Nat) (h : Dead s.engine)
    (hlast : i + left = s.engine.setup.pipelines.length)
    (hc : s.engine.closing = s.engine.closingFrom i) :
    (closePipelines left s).engine =
        { s.engine with
          closing := .no
          journal := ((List.range' i left).map .pipelineClosed).reverse ++ s.engine.journal } ∧
      (closePipelines left s).outside =
        (List.range' i left).foldl s.world.closePipeline s.outside := by
  induction left generalizing s i with
  | zero =>
    have hno : s.engine.closing = .no := by
      rw [hc, closingFrom, if_neg (by omega)]
    simp [closePipelines, ← hno]
  | succ left ih =>
    have hnext : s.engine.closing = .pipelines i := by
      rw [hc, closingFrom, if_pos (by omega)]
    let t : Schedule ω κ V := { s with outside := s.world.closePipeline s.outside i }
    have hstep := Dead.step_closePipeline (e := t.engine) hnext
    obtain ⟨hengine, houtside⟩ := move_of_dead (s := t) h hstep
    have hrest : closePipelines (left + 1) s = closePipelines left (t.move .closePipeline) := by
      rw [closePipelines, hnext]
    have hdead : Dead (t.move .closePipeline).engine := by
      rw [hengine]
      exact (h.step _ hstep).1
    obtain ⟨hengine', houtside'⟩ := ih (s := t.move .closePipeline) (i + 1) hdead
      (by rw [hengine, ← hlast]; exact Nat.succ_add_eq_add_succ i left) (by rw [hengine]; rfl)
    rw [hrest, hengine', houtside', hengine, houtside, move_world, List.range'_succ]
    simp [t]

/-- A closed engine that is closed once more has nothing to throw away, and all pipelines are closed
once more in their order. -/
lemma close_of_dead (h : Dead s.engine) (hc : s.engine.closing = .no) (fuel : Nat) :
    (s.close fuel).engine =
        { s.engine with
          journal := ((List.range s.engine.setup.pipelines.length).map .pipelineClosed).reverse ++
            .discarded 0 0 :: .cleared [] :: s.engine.journal } ∧
      (s.close fuel).outside =
        (List.range s.engine.setup.pipelines.length).foldl s.world.closePipeline s.outside := by
  have hstep := h.step_close hc
  obtain ⟨hengine, houtside⟩ := move_of_dead h hstep
  have hdead : Dead (s.move .close).engine := hengine ▸ (h.step _ hstep).1
  have hstep' := hdead.step_discardRequests (n := 0) (by rw [hengine])
  obtain ⟨hengine', houtside'⟩ := move_of_dead hdead hstep'
  have hdead' : Dead ((s.move .close).move .discardRequests).engine :=
    hengine' ▸ (hdead.step _ hstep').1
  have hstep'' := hdead'.step_discardItems (d := 0) (n := 0) (by rw [hengine'])
  obtain ⟨hengine'', houtside''⟩ := move_of_dead hdead' hstep''
  have hdead'' : Dead (((s.move .close).move .discardRequests).move .discardItems).engine :=
    hengine'' ▸ (hdead'.step _ hstep'').1
  have hclose : s.close fuel = closePipelines
      (((s.move .close).move .discardRequests).move .discardItems).engine.setup.pipelines.length
      (((s.move .close).move .discardRequests).move .discardItems) := by
    simp only [close, await, hdead.dispatcher, hdead'.itemWorkers, if_true]
  obtain ⟨hlast, hlast'⟩ := closePipelines_of_dead _ 0 hdead'' (Nat.zero_add _)
    (by rw [hengine'']; rfl)
  rw [hclose, hlast, hlast', houtside'', houtside', houtside, hengine'', hengine', hengine,
    move_world, move_world, move_world, List.range_eq_range']
  simp [hc]

end WebCrawl.Schedule

/-! ## Every reachable engine -/

namespace WebCrawl.Engine

open Crawl

variable {κ τ : Type} {V : τ → Type} [DecidableEq τ]

/-- In every reachable engine, whatever was tried and in any order:

* each pipeline was closed exactly as often as the engine, only not yet by the closing under way as
  long as that has not come to it; so it was closed exactly once after an engine was closed for the
  first time, and at most once until it is closed a second time;
* nothing else is closed;
* when a pipeline is closed all items that have begun have ended, and from then on no item begins,
  comes to a stage or ends.

When the closing comes to the pipelines, all of them are closed in their order, and what becomes of
one does not matter for the others. An engine that was closed and is closed once more stays as it
is, except that each pipeline is closed once more.

**Proof sketch.** The closing is the only part of an engine that closes pipelines, and it comes to
them when all other parts have ended. That they were closed is written nowhere. -/
theorem Reachable.pipelines_closed {setup : Setup τ} {seeds : List (Request κ)} {e : Engine κ V}
    (h : Reachable setup seeds e) :
    (∀ k < setup.pipelines.length,
      e.journal.countP (Event.closesPipeline k) + (e.closing.owes k).toNat =
        e.journal.countP Event.opensClosing) ∧
    (∀ k, .pipelineClosed k ∈ e.journal → k < setup.pipelines.length) ∧
    (∀ later k past, e.journal = later ++ .pipelineClosed k :: past →
      (∀ event ∈ later, event.itemWorker? = none) ∧
        past.countP Event.beginsItem = past.countP Event.endsItem) ∧
    ∀ (ω : Type) (s : Schedule ω κ V), s.engine = e →
      (e.closing = .pipelines 0 →
        (s.closePipelines setup.pipelines.length).engine.isClosed = true ∧
        (s.closePipelines setup.pipelines.length).outside =
          (List.range setup.pipelines.length).foldl s.world.closePipeline s.outside) ∧
      (e.isClosed = true → ∀ fuel,
        (s.close fuel).engine =
          { e with
            journal := ((List.range setup.pipelines.length).map .pipelineClosed).reverse ++
              .discarded 0 0 :: .cleared [] :: e.journal } ∧
        (s.close fuel).outside =
          (List.range setup.pipelines.length).foldl s.world.closePipeline s.outside) := by
  have hinTurn := h.closesInTurn
  have hsetup := h.admitted.setup_eq
  refine ⟨hsetup ▸ hinTurn.asOften, hsetup ▸ hinTurn.known, hinTurn.afterItems, ?_⟩
  rintro ω s rfl
  refine ⟨fun hc => ?_, fun hclosed fuel => ?_⟩
  · have hdead := Dead.of_pipelines h.orderly hc
    have hfrom : s.engine.closing = s.engine.closingFrom 0 := by
      rw [hc, closingFrom, if_pos (hinTurn.next 0 hc)]
    obtain ⟨hengine, houtside⟩ := Schedule.closePipelines_of_dead setup.pipelines.length 0 hdead
      (by rw [Nat.zero_add, hsetup]) hfrom
    rw [List.range_eq_range']
    refine ⟨?_, houtside⟩
    rw [hengine]
    simp [isClosed, hdead.requests]
  · have hno : s.engine.closing = .no := by
      simp only [isClosed, Bool.and_eq_true, beq_iff_eq] at hclosed
      exact hclosed.2
    have hagain := Schedule.close_of_dead (Dead.of_isClosed h.orderly hclosed) hno fuel
    rwa [hsetup] at hagain

/-- An item passes both pipelines, and then the engine is closed: each pipeline is closed once, and
the item had ended. -/
theorem pipelines_closed_after_item :
    ∃ (setup : Setup Unit) (e : Engine Unit fun _ : Unit => Unit),
      Reachable setup [] e ∧ setup.pipelines.length = 2 ∧ e.isClosed = true ∧
      e.journal.countP Event.beginsItem = 1 ∧ e.journal.countP (Event.closesPipeline 0) = 1 ∧
      e.journal.countP (Event.closesPipeline 1) = 1 ∧
      ∀ later k past, e.journal = later ++ .pipelineClosed k :: past →
        (∀ event ∈ later, event.itemWorker? = none) ∧
          past.countP Event.beginsItem = past.countP Event.endsItem := by
  let setup : Setup Unit := { settings := { itemWorkers := 1 }, pipelines := [['p'], ['q']] }
  let moves : List (Move Unit fun _ : Unit => Unit) :=
    [.start, .ask (.item .root ⟨(), ()⟩), .receiveItem 0, .beginItem 0, .judge 0 .keep,
      .judge 0 .keep, .close, .receive, .drained, .discardRequests, .receiveItem 0, .discardItems,
      .closePipeline, .closePipeline]
  have hrun : ∃ e : Engine Unit fun _ : Unit => Unit, (new setup []).run? moves = some e ∧
      e.isClosed = true ∧ e.closing = .no ∧ e.journal.countP Event.beginsItem = 1 ∧
      e.journal.countP Event.opensClosing = 1 :=
    ⟨_, rfl, rfl, rfl, rfl, rfl⟩
  obtain ⟨e, he, hclosed, hno, hitem, honce⟩ := hrun
  have hreach : Reachable setup [] e := ⟨moves, he⟩
  obtain ⟨hoften, -, hafter, -⟩ := Reachable.pipelines_closed hreach
  have hcloses : ∀ k < 2, e.journal.countP (Event.closesPipeline k) = 1 := by
    intro k hk
    rw [← honce, ← hoften k hk, hno]
    rfl
  exact ⟨setup, e, hreach, rfl, hclosed, hitem, hcloses 0 (by decide), hcloses 1 (by decide),
    hafter⟩

/-- A crawler with one pipeline runs with nothing to do, which closes the pipeline, and is closed
once more. The outside, which keeps a list of what is closed, sees the pipeline closed twice. -/
theorem pipeline_closed_twice :
    ∃ (setup : Setup Unit) (world : World (List Nat) Unit fun _ : Unit => Unit),
      let ran := (Schedule.new (new setup []) world []).run 20
      let closed := ran.2.close 20
      setup.pipelines.length = 1 ∧ ran.1 = .ok () ∧ ran.2.outside = [0] ∧ closed.outside = [0, 0] ∧
        ran.2.engine.journal.countP (Event.closesPipeline 0) = 1 ∧
        closed.engine.journal.countP (Event.closesPipeline 0) = 2 := by
  let setup : Setup Unit := { settings := { itemWorkers := 1 }, pipelines := [['p']] }
  let world : World (List Nat) Unit fun _ : Unit => Unit :=
    { exchange := fun outside _ => (outside, ⟨⟨0⟩, .expired⟩)
      tell := fun outside _ _ _ _ => (outside, ⟨[], .done none⟩)
      process := fun outside _ _ => (outside, ⟨[], .keep⟩)
      closePipeline := fun outside k => outside ++ [k] }
  refine ⟨setup, world, rfl, ?_, ?_⟩
  · rfl
  · decide +kernel

end WebCrawl.Engine
