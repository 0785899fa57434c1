import WebCrawl.Proofs.Engine.Updates

set_option autoImplicit false

/-!
# Admission

A request begins only with a permit, which its worker gives back when it ends, however it does. With
a pause between requests no permit is needed, since the dispatcher waits for the end of each worker.
Items begin with permits too, and each needs an item worker of its own. So what is under way stays
within the limits of the settings, and no permit is ever lost or made.

A permit is taken in the same update in which the work begins, and given back in the one in which it
ends.

## Main definitions

* `WebCrawl.Engine.Setup.requestLimit`, `WebCrawl.Engine.Setup.itemLimit` — how much may be under
  way at once.
* `WebCrawl.Engine.permitsHeld`, `WebCrawl.Engine.itemPermitsHeld` — the permits of what is under
  way.
* `WebCrawl.Engine.WithinLimits` — what had begun and not ended at some moment is within the limits.

## Main results

* `WebCrawl.Engine.Admitted.update` — every update keeps the limits and the permits.
* `WebCrawl.Engine.Reachable.within_limits` — the limits are never exceeded, and permits are never
  lost.
-/

namespace WebCrawl.Engine

open Crawl

variable {κ τ : Type} {V : τ → Type}

/-! ## Limits and permits -/

/-- How many requests may be under way at once. -/
def Setup.requestLimit (s : Setup τ) : Nat :=
  if s.settings.requestDelay.nanoseconds = 0 then s.settings.maxConcurrentRequests else 1

/-- How many items may be in a stage at once. -/
def Setup.itemLimit (s : Setup τ) : Nat := min s.settings.itemWorkers s.settings.maxConcurrentItems

/-- The permits that live workers hold. Requests that go one by one need none. -/
def permitsHeld (e : Engine κ V) : Nat := if e.isPaced then 0 else e.workers.length

/-- The permits that item workers hold for the items in their stages. -/
def itemPermitsHeld (e : Engine κ V) : Nat := e.itemWorkers.countP (·.isProcessing)

/-- Whether a request begins. -/
def Event.begins : Event κ V → Bool
  | .began _ _ => true
  | _ => false

/-- Whether a request ends. -/
def Event.ends : Event κ V → Bool
  | .finished _ => true
  | _ => false

/-- Whether an item begins. -/
def Event.beginsItem : Event κ V → Bool
  | .itemBegan _ _ => true
  | _ => false

/-- Whether an item ends. -/
def Event.endsItem : Event κ V → Bool
  | .itemFinished _ _ => true
  | _ => false

/-- What had begun and not ended, as a journal tells it, was within the limits. -/
structure WithinLimits (setup : Setup τ) (journal : List (Event κ V)) : Prop where
  requests : journal.countP Event.begins ≤ journal.countP Event.ends + setup.requestLimit
  items : journal.countP Event.beginsItem ≤ journal.countP Event.endsItem + setup.itemLimit

/-- As long as nothing begins, the limits are kept. -/
lemma WithinLimits.cons {setup : Setup τ} {event : Event κ V} {journal : List (Event κ V)}
    (h : WithinLimits setup journal) (hb : event.begins = false) (hi : event.beginsItem = false) :
    WithinLimits setup (event :: journal) := by
  refine ⟨?_, ?_⟩
  · rw [List.countP_cons_of_neg (by simp [hb])]
    have hends := ((List.sublist_cons_self event journal).countP_le (p := Event.ends))
    exact Nat.le_trans h.requests (Nat.add_le_add_right hends _)
  · rw [List.countP_cons_of_neg (by simp [hi])]
    have hends := ((List.sublist_cons_self event journal).countP_le (p := Event.endsItem))
    exact Nat.le_trans h.items (Nat.add_le_add_right hends _)

/-! ## The invariant -/

/-- The worker for which the dispatcher waits. -/
def Dispatcher.awaited : Dispatcher κ → List Nat
  | .attending n => [n]
  | _ => []

/-- The journal tells what is under way, the permits add up, and the limits were kept so far. -/
structure Admitted (setup : Setup τ) (e : Engine κ V) : Prop where
  setup_eq : e.setup = setup
  live : e.journal.countP Event.begins = e.journal.countP Event.ends + e.workers.length
  liveItems : e.journal.countP Event.beginsItem =
    e.journal.countP Event.endsItem + e.itemPermitsHeld
  permits : e.permits + e.permitsHeld = setup.settings.maxConcurrentRequests
  itemPermits : e.itemPermits + e.itemPermitsHeld = setup.settings.maxConcurrentItems
  pool : e.itemWorkers.length ≤ setup.settings.itemWorkers
  paced : e.isPaced = true → (e.workers.map (·.number)).Sublist e.dispatcher.awaited
  moments : ∀ past, past <:+ e.journal → WithinLimits setup past

/-- With a pause between requests no worker holds a permit. -/
lemma permitsHeld_of_paced {e : Engine κ V} (h : e.isPaced = true) : e.permitsHeld = 0 := if_pos h

/-- Without a pause between requests every worker holds a permit. -/
lemma permitsHeld_of_unpaced {e : Engine κ V} (h : e.isPaced = false) :
    e.permitsHeld = e.workers.length := if_neg (by simp [h])

namespace Admitted

variable {setup : Setup τ} {d e e' : Engine κ V} {m : Move κ V} {n k : Nat}

/-! ### Requests -/

/-- Whether requests go one by one decides about their limit. -/
lemma requestLimit_eq (h : Admitted setup e) :
    setup.requestLimit = if e.isPaced then 1 else setup.settings.maxConcurrentRequests := by
  unfold Setup.requestLimit isPaced
  rw [h.setup_eq]
  by_cases hz : setup.settings.requestDelay.nanoseconds = 0 <;> simp [hz]

/-- Now, as ever, the limits are kept. -/
lemma now (h : Admitted setup e) : WithinLimits setup e.journal :=
  h.moments e.journal (List.suffix_refl _)

/-- An event with which nothing begins or ends. -/
lemma log (h : Admitted setup e) (event : Event κ V) (hb : event.begins = false)
    (he : event.ends = false) (hbi : event.beginsItem = false) (hei : event.endsItem = false) :
    Admitted setup (e.log event) := by
  refine { h with
    live := ?_
    liveItems := ?_
    moments := forall_suffix_cons h.moments (h.now.cons hb hbi) }
  · rw [Engine.log, List.countP_cons_of_neg (by simp [hb]), List.countP_cons_of_neg (by simp [he])]
    exact h.live
  · rw [Engine.log, List.countP_cons_of_neg (by simp [hbi]),
      List.countP_cons_of_neg (by simp [hei])]
    exact h.liveItems

lemma handIn (h : Admitted setup e) (origin : Origin) (r : Request κ) :
    Admitted setup (e.handIn origin r).2 := by
  cases hc : e.requests.closed with
  | true =>
    rw [handIn_closed e origin r hc]
    exact { h.log (.refused origin r) rfl rfl rfl rfl with }
  | false =>
    rw [handIn_open e origin r hc]
    exact { h.log (.enqueued origin r) rfl rfl rfl rfl with }

lemma submitItem (h : Admitted setup e) (i : Envelope κ V) : Admitted setup (e.submitItem i).2 := by
  cases hc : e.items.closed with
  | true =>
    rw [submitItem_closed e i hc]
    exact { h.log (.itemRefused i) rfl rfl rfl rfl with }
  | false =>
    rw [submitItem_open e i hc]
    exact { h.log (.itemEnqueued i) rfl rfl rfl rfl with }

/-- With a pause between requests, a dispatcher that waits for no worker has left none under way. -/
lemma workers_of_paced (h : Admitted setup e) (hd : e.dispatcher.awaited = [])
    (hp : e.isPaced = true) : e.workers = [] := by
  have hnone := h.paced hp
  rw [hd, List.sublist_nil, List.map_eq_nil_iff] at hnone
  exact hnone

/-- The dispatcher goes on when no worker is left for which it would wait. -/
lemma setDispatcher (h : Admitted setup e) (queue : Queue (Request κ)) (dispatcher : Dispatcher κ)
    (hidle : e.isPaced = true → e.workers = []) :
    Admitted setup { e with requests := queue, dispatcher := dispatcher } := by
  refine { h with paced := fun hp => ?_ }
  have hnone : e.workers = [] := hidle hp
  simp [hnone]

/-- The dispatcher goes on from a state in which it waits for no worker. -/
lemma goesOn (h : Admitted setup e) (queue : Queue (Request κ)) (dispatcher : Dispatcher κ)
    (hd : e.dispatcher.awaited = []) :
    Admitted setup { e with requests := queue, dispatcher := dispatcher } :=
  h.setDispatcher queue dispatcher (h.workers_of_paced hd)

/-- The dispatcher goes on, since the only worker that there was has ended. -/
lemma attended (h : Admitted setup e) (hd : e.dispatcher = .attending n)
    (hended : e.worker? n = none) : Admitted setup { e with dispatcher := .pausing } := by
  refine h.setDispatcher e.requests _ fun hp => List.eq_nil_iff_forall_not_mem.2 fun w hw => ?_
  have hone := h.paced hp
  rw [hd] at hone
  have hn : w.number = n := List.mem_singleton.1 (hone.subset (List.mem_map_of_mem hw))
  have hother := List.find?_eq_none.1 hended w hw
  simp [hn] at hother

/-- The limits are kept when a request begins, as long as fewer than the limit are under way. -/
lemma beginsRequest (h : Admitted setup e) (r : Request κ)
    (hlimit : e.workers.length < setup.requestLimit) :
    WithinLimits setup (.began e.begun r :: e.journal) := by
  have hlive := h.live
  refine ⟨?_, h.now.items⟩
  rw [List.countP_cons_of_pos rfl, List.countP_cons_of_neg (by simp [Event.ends])]
  omega

/-- There is one more live worker when a request begins. -/
lemma live_began (h : Admitted setup e) (r : Request κ) :
    (Event.began e.begun r :: e.journal).countP Event.begins =
      (Event.began e.begun r :: e.journal).countP Event.ends +
        (e.workers ++ [(⟨e.begun, .ready r⟩ : Worker κ)]).length := by
  rw [List.countP_cons_of_pos rfl, List.countP_cons_of_neg (by simp [Event.ends]), h.live,
    List.length_append, List.length_singleton, Nat.add_assoc]

/-- A request begins after a pause: nothing was under way, since the dispatcher waited for no
worker. -/
lemma attends {r : Request κ} (h : Admitted setup e) (hd : e.dispatcher = .holding r)
    (hp : e.isPaced = true) :
    Admitted setup { e.begin r with dispatcher := .attending e.begun } := by
  have hnone : e.workers = [] := h.workers_of_paced (by simp [hd, Dispatcher.awaited]) hp
  have hlimit : e.workers.length < setup.requestLimit := by
    rw [h.requestLimit_eq, if_pos hp, hnone]
    exact Nat.zero_lt_one
  rw [begin_eq]
  refine { h with
    live := h.live_began r
    permits := ?_
    paced := fun _ => by simp [hnone, Dispatcher.awaited]
    moments := forall_suffix_cons h.moments (h.beginsRequest r hlimit) }
  have hpermits := h.permits
  rw [permitsHeld_of_paced hp] at hpermits
  rw [permitsHeld_of_paced (by exact hp)]
  exact hpermits

/-- A request begins with a permit: one was left, so fewer than the limit were under way. -/
lemma admits {r : Request κ} (h : Admitted setup e) (hp : e.isPaced = false)
    (hpos : 0 < e.permits) :
    Admitted setup { e.begin r with dispatcher := .idle, permits := e.permits - 1 } := by
  have hpermits := h.permits
  rw [permitsHeld_of_unpaced hp] at hpermits
  have hlimit : e.workers.length < setup.requestLimit := by
    rw [h.requestLimit_eq, if_neg (by simp [hp])]
    omega
  rw [begin_eq]
  refine { h with
    live := h.live_began r
    permits := ?_
    paced := fun hp' => absurd (hp'.symm.trans hp) (by simp)
    moments := forall_suffix_cons h.moments (h.beginsRequest r hlimit) }
  rw [permitsHeld_of_unpaced (by exact hp)]
  simp only [List.length_append, List.length_singleton]
  omega

/-- A worker goes on to another phase, and the others stand as they did. -/
lemma entered {w : Worker κ} (h : Admitted setup e) (hw : e.HasWorker n w) (phase : Phase κ) :
    Admitted setup (e.enter n phase) := by
  obtain ⟨as, bs, hs, hn, hne⟩ := hw
  rw [enter_split hs hn hne]
  have hlength : (as ++ (⟨n, phase⟩ : Worker κ) :: bs).length = e.workers.length := by simp [hs]
  refine { h with live := ?_, permits := ?_, paced := fun hp => ?_ }
  · dsimp only
    rw [hlength]
    exact h.live
  · have hpermits := h.permits
    unfold permitsHeld at hpermits ⊢
    dsimp only
    rw [hlength]
    exact hpermits
  · have hsame : (as ++ (⟨n, phase⟩ : Worker κ) :: bs).map (·.number) =
        e.workers.map (·.number) := by
      simp [hs, hn]
    exact hsame ▸ h.paced hp

/-- A worker ends and gives its permit back. -/
lemma finished {w : Worker κ} (h : Admitted setup e) (hw : e.HasWorker n w) :
    Admitted setup (e.finish n) := by
  obtain ⟨as, bs, hs, hn, hne⟩ := hw
  rw [finish_split hs hn hne]
  have hlength : e.workers.length = (as ++ bs).length + 1 := by
    simp only [hs, List.length_append, List.length_cons]
    omega
  have hbegins : (Event.finished n :: e.journal).countP Event.begins =
      e.journal.countP Event.begins := List.countP_cons_of_neg (by simp [Event.begins])
  have hends : (Event.finished n :: e.journal).countP Event.ends =
      e.journal.countP Event.ends + 1 := List.countP_cons_of_pos rfl
  have hlive := h.live
  have hpermits := h.permits
  refine { h with
    live := by dsimp only; omega
    permits := ?_
    paced := fun hp => ?_
    moments := forall_suffix_cons h.moments (h.now.cons rfl rfl) }
  · cases hp : e.isPaced with
    | true =>
      rw [permitsHeld_of_paced hp] at hpermits
      rw [permitsHeld_of_paced (by exact hp)]
      exact hpermits
    | false =>
      rw [permitsHeld_of_unpaced hp] at hpermits
      rw [permitsHeld_of_unpaced (by exact hp)]
      simp only [Bool.false_eq_true, ↓reduceIte]
      omega
  · have hsub : ((as ++ bs).map (·.number)).Sublist (e.workers.map (·.number)) := by
      rw [hs]
      exact List.Sublist.map _ (by simp)
    exact hsub.trans (h.paced hp)

/-! ### Items -/

/-- An item worker goes on and gives a permit back, or takes one, or neither. -/
lemma setItem {v : ItemWorker κ V} (h : Admitted setup e) (w : ItemWorker κ V) (activity : Activity)
    (stats : Stats) (items : Queue (Envelope κ V)) (permits : Nat) (journal : List (Event κ V))
    (hv : e.itemWorkers[k]? = some v)
    (hp : permits + w.isProcessing.toNat = e.itemPermits + v.isProcessing.toNat)
    (hb : journal.countP Event.begins = e.journal.countP Event.begins)
    (he : journal.countP Event.ends = e.journal.countP Event.ends)
    (hi : journal.countP Event.beginsItem + e.journal.countP Event.endsItem + v.isProcessing.toNat =
      e.journal.countP Event.beginsItem + journal.countP Event.endsItem + w.isProcessing.toNat)
    (hm : ∀ past, past <:+ journal → WithinLimits setup past) :
    Admitted setup { e with
      activity := activity, stats := stats, items := items, itemPermits := permits,
      itemWorkers := e.itemWorkers.set k w, journal := journal } := by
  have hheld : (e.itemWorkers.set k w).countP (·.isProcessing) + v.isProcessing.toNat =
      e.itemPermitsHeld + w.isProcessing.toNat := Orderly.countP_set_add hv
  have hliveItems := h.liveItems
  have hitemPermits := h.itemPermits
  refine { h with
    live := ?_
    liveItems := ?_
    itemPermits := ?_
    pool := by simpa using h.pool
    moments := hm }
  · dsimp only
    rw [hb, he]
    exact h.live
  · dsimp only [itemPermitsHeld] at hheld hliveItems ⊢
    omega
  · dsimp only [itemPermitsHeld] at hheld hitemPermits ⊢
    omega

/-- An idle item worker goes on without a permit. -/
lemma setIdle (h : Admitted setup e) (hk : e.itemWorkers[k]? = some .idle) (w : ItemWorker κ V)
    (hw : w.isProcessing = false) (items : Queue (Envelope κ V)) :
    Admitted setup { e with items := items, itemWorkers := e.itemWorkers.set k w } :=
  h.setItem w e.activity e.stats items e.itemPermits e.journal hk (by rw [hw]; rfl) rfl rfl
    (by rw [hw]; rfl) h.moments

/-- An item comes to its next stage. -/
lemma staged {i : Envelope κ V} {s : Stage τ} {later : List (Stage τ)} (h : Admitted setup e)
    (hk : e.itemWorkers[k]? = some (.processing i s later)) (j : Envelope κ V) (stage : Stage τ)
    (rest : List (Stage τ)) :
    Admitted setup ((e.enterItem k (.processing j stage rest)).log (.staged k stage j)) :=
  h.setItem (.processing j stage rest) e.activity e.stats e.items e.itemPermits
    (.staged k stage j :: e.journal) hk rfl rfl rfl rfl
    (forall_suffix_cons h.moments (h.now.cons rfl rfl))

/-- An item ends, and the permit that it had is given back. -/
lemma finishedItem {i : Envelope κ V} {s : Stage τ} {later : List (Stage τ)} (h : Admitted setup e)
    (hk : e.itemWorkers[k]? = some (.processing i s later)) (passed : Bool) :
    Admitted setup (e.finishItem k passed) := by
  rw [finishItem_eq]
  refine h.setItem .idle _ _ e.items _ (.itemFinished k passed :: e.journal) hk rfl rfl rfl ?_
    (forall_suffix_cons h.moments (h.now.cons rfl rfl))
  simp only [Event.beginsItem, Event.endsItem, ItemWorker.isProcessing, List.countP_cons,
    Bool.toNat_true, Bool.toNat_false, Bool.false_eq_true, reduceIte]
  omega

/-- Another item may begin when there is a permit and an item worker for it. -/
lemma beginsItem {i : Envelope κ V} (h : Admitted setup e)
    (hk : e.itemWorkers[k]? = some (.holding i)) (hpos : 0 < e.itemPermits) :
    WithinLimits setup (.itemBegan k i :: e.journal) := by
  have hspare : (e.itemWorkers.set k (.processing i .any [])).countP (·.isProcessing) + 0 =
      e.itemPermitsHeld + 1 := Orderly.countP_set_add hk
  have hpool : (e.itemWorkers.set k (.processing i .any [])).countP (·.isProcessing) ≤
      setup.settings.itemWorkers := by
    refine Nat.le_trans List.countP_le_length ?_
    simpa using h.pool
  have hlive := h.liveItems
  have hpermits := h.itemPermits
  refine ⟨h.now.requests, ?_⟩
  rw [List.countP_cons_of_pos rfl, List.countP_cons_of_neg (by simp [Event.endsItem])]
  unfold Setup.itemLimit
  omega

/-- An item begins with a permit, and comes to its first stage or ends at once. -/
lemma beganItem {i : Envelope κ V} (h : Admitted setup e) (stages : List (Stage τ))
    (hk : e.itemWorkers[k]? = some (.holding i)) (hpos : 0 < e.itemPermits) :
    Admitted setup (Engine.nextStage { e with
      activity := { e.activity with
        activeItems := e.activity.activeItems + 1, queuedItems := e.activity.queuedItems - 1 }
      itemPermits := e.itemPermits - 1
      journal := .itemBegan k i :: e.journal } k i stages) := by
  have hmoments := forall_suffix_cons h.moments (h.beginsItem hk hpos)
  have hnow := hmoments _ (List.suffix_refl _)
  -- the item has begun and ended at once, or is in its first stage
  obtain hn | ⟨stage, later, hn⟩ := nextStage_cases _ k i stages <;> rw [hn]
  · rw [finishItem_eq]
    refine h.setItem .idle _ _ e.items _ (.itemFinished k true :: .itemBegan k i :: e.journal) hk ?_
      rfl rfl ?_ (forall_suffix_cons hmoments (hnow.cons rfl rfl))
    · exact congrArg (· + 0) (Nat.sub_add_cancel hpos)
    · simp only [Event.beginsItem, Event.endsItem, ItemWorker.isProcessing, List.countP_cons,
        Bool.toNat_false, Bool.false_eq_true, reduceIte]
      omega
  · refine h.setItem (.processing i stage later) _ _ e.items _
      (.staged k stage i :: .itemBegan k i :: e.journal) hk ?_ rfl rfl ?_
      (forall_suffix_cons hmoments (hnow.cons rfl rfl))
    · exact Nat.sub_add_cancel hpos
    · simp only [Event.beginsItem, Event.endsItem, ItemWorker.isProcessing, List.countP_cons,
        Bool.toNat_true, Bool.toNat_false, Bool.false_eq_true, reduceIte]
      omega

/-! ### Starting -/

/-- An engine that is set going has its item workers, and none of them has an item. -/
lemma ignited (h : Admitted setup e) (hoff : e.dispatcher = .off) (hnone : e.itemWorkers = []) :
    Admitted setup e.ignite := by
  have hidle : e.ignite.itemPermitsHeld = 0 := Orderly.countP_replicate_idle rfl _
  have hheld : e.itemPermitsHeld = 0 := by rw [itemPermitsHeld, hnone, List.countP_nil]
  have hpaced := h.paced
  rw [hoff] at hpaced
  refine { h with liveItems := ?_, itemPermits := ?_, pool := ?_, paced := hpaced }
  · rw [hidle]
    exact hheld ▸ h.liveItems
  · rw [hidle]
    exact hheld ▸ h.itemPermits
  · simp [ignite, h.setup_eq]

/-! ### Every update -/

/-- A new engine has all its permits. -/
lemma new (setup : Setup τ) (seeds : List (Request κ)) :
    Admitted setup (.new setup seeds : Engine κ V) where
  setup_eq := rfl
  live := rfl
  liveItems := rfl
  permits := congrArg (setup.settings.maxConcurrentRequests + ·) (ite_self 0)
  itemPermits := rfl
  pool := Nat.zero_le _
  paced := fun _ => List.Sublist.refl _
  moments := fun past hpast => by
    obtain rfl := List.suffix_nil.1 hpast
    exact ⟨Nat.zero_le _, Nat.zero_le _⟩

/-- Every update keeps the limits and the permits. -/
theorem update (h : Admitted setup e) (he : Update d m e e') : Admitted setup e' := by
  cases he with
  | aside started stats cache => exact { h with }
  | ignited off none => exact h.ignited off none
  | request _ => exact h.handIn _ _
  | item _ => exact h.submitItem _
  | took idle _ => exact h.goesOn _ _ (by simp [idle, Dispatcher.awaited])
  | drains idle => exact h.goesOn e.requests _ (by simp [idle, Dispatcher.awaited])
  | attends holding paced => exact h.attends holding paced
  | admits _ unpaced permit => exact h.admits unpaced permit
  | attended attending ended => exact h.attended attending ended
  | resumed pausing => exact h.goesOn e.requests _ (by simp [pausing, Dispatcher.awaited])
  | drained _ none => exact h.setDispatcher e.requests _ fun _ => none
  | entered phase hw => exact h.entered hw phase
  | sent n wire => exact h.log _ rfl rfl rfl rfl
  | answered n a => exact h.log _ rfl rfl rfl rfl
  | noted n notice => exact h.log _ rfl rfl rfl rfl
  | told n level _ => exact h.log _ rfl rfl rfl rfl
  | finished hw => exact h.finished hw
  | tookItem idle _ => exact h.setIdle idle _ rfl _
  | endedItems idle => exact h.setIdle idle .ended rfl e.items
  | beganItem stages holding permit => exact h.beganItem stages holding permit
  | staged stage rest hk _ => exact h.staged hk _ stage rest
  | finishedItem passed hk => exact h.finishedItem hk passed
  | cleared => exact { h.log (.cleared _) rfl rfl rfl rfl with }
  | discardedRequests => exact { h with }
  | discardedItems requests => exact { h.log (.discarded requests _) rfl rfl rfl rfl with }
  | pipelineClosed i => exact { h.log (.pipelineClosed i) rfl rfl rfl rfl with }

end Admitted

/-! ## Every reachable engine -/

section Reachable

variable [DecidableEq τ] {setup : Setup τ} {seeds : List (Request κ)} {e : Engine κ V}

/-- Every reachable engine keeps the limits and the permits. -/
theorem Reachable.admitted (h : Reachable setup seeds e) : Admitted setup e :=
  h.update_induction (.new setup seeds) fun _ _ _ _ _ he hd => hd.update he

/-- In every reachable engine, whatever has broken down before:

* no more workers are live than the settings allow, and no more than one if there is a pause between
  requests;
* no more items are in a stage than there are item workers, nor than the settings allow;
* the free permits and those of the live workers make up the number of the settings, and so do the
  free permits and those of the items in a stage.

What is live is what has begun and not ended. So it was within the limits at every moment that the
journal tells of, also in the middle of a move. A permit is taken in the move in which a request or
an item begins, so that none is held by who is only about to begin.

**Proof sketch.** Every update keeps this: what begins takes a permit or, with a pause, finds no
other request under way; and what ends gives its permit back in the same update. -/
theorem Reachable.within_limits (h : Reachable setup seeds e) :
    e.workers.length ≤ setup.requestLimit ∧
    e.itemWorkers.countP (·.isProcessing) ≤ setup.itemLimit ∧
    e.permits + e.permitsHeld = setup.settings.maxConcurrentRequests ∧
    e.itemPermits + e.itemPermitsHeld = setup.settings.maxConcurrentItems ∧
    e.journal.countP Event.begins = e.journal.countP Event.ends + e.workers.length ∧
    e.journal.countP Event.beginsItem =
      e.journal.countP Event.endsItem + e.itemWorkers.countP (·.isProcessing) ∧
    ∀ past, past <:+ e.journal → WithinLimits setup past := by
  have ha := h.admitted
  have hrequests := ha.now.requests
  have hitems := ha.now.items
  have hlive := ha.live
  have hliveItems := ha.liveItems
  dsimp only [itemPermitsHeld] at hliveItems
  exact ⟨by omega, by omega, ha.permits, ha.itemPermits, hlive, hliveItems, ha.moments⟩

/-- With one permit, the first worker breaks down while it tells of a failure, and the second has
begun with the permit that the first gave back. -/
theorem limits_after_breakdown :
    ∃ (setup : Setup Unit) (seeds : List (Request Unit)) (e : Engine Unit fun _ : Unit => Unit),
      Reachable setup seeds e ∧ setup.requestLimit = 1 ∧ e.begun = 2 ∧ e.workers.length = 1 ∧
      e.workers.length ≤ setup.requestLimit ∧ e.permits = 0 ∧ e.permits + e.permitsHeld = 1 := by
  let setup : Setup Unit :=
    { settings := { itemWorkers := 1, maxConcurrentRequests := 1 }, hearsFailures := true }
  let seeds : List (Request Unit) := [.make [] [] .empty, .make [] [] .empty]
  let moves : List (Move Unit fun _ : Unit => Unit) :=
    [.start, .receive, .launch, .send 0, .panic 0, .receive, .launch]
  have hrun : ∃ e : Engine Unit fun _ : Unit => Unit, (new setup seeds).run? moves = some e ∧
      e.begun = 2 ∧ e.workers.length = 1 ∧ e.permits = 0 :=
    ⟨_, rfl, rfl, rfl, rfl⟩
  obtain ⟨e, he, hbegun, hworkers, hpermits⟩ := hrun
  have hreach : Reachable setup seeds e := ⟨moves, he⟩
  obtain ⟨hlive, -, hsum, -⟩ := Reachable.within_limits hreach
  exact ⟨setup, seeds, e, hreach, rfl, hbegun, hworkers, hlive, hpermits, hsum⟩

end Reachable

end WebCrawl.Engine
