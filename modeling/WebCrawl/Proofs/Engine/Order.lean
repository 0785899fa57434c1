import WebCrawl.Proofs.Engine.Moves

set_option autoImplicit false

/-!
# An engine in order

The counters of an engine tell how much of each kind of work there is, and its parts end in the
order in which it is closed. Each way in which an engine changes keeps it in order, and so does
every move.

## Main definitions

* `WebCrawl.Engine.Orderly` — the counters fit the queues and the workers, and the parts that have
  ended fit how far the closing has come.
* `WebCrawl.Engine.isClosed` — the engine was closed, and nothing of that is left to be done.

## Main results

* `WebCrawl.Engine.Orderly.step` — every move keeps an engine in order.
* `WebCrawl.Engine.Reachable.orderly` — every reachable engine is in order.
-/

namespace WebCrawl.Engine

open Crawl

variable {κ τ : Type} {V : τ → Type}

/-! ## Where work is -/

/-- Whether the worker holds an item that has not begun. -/
def ItemWorker.isHolding : ItemWorker κ V → Bool
  | .holding _ => true
  | _ => false

/-- Whether the worker has an item in a stage. -/
def ItemWorker.isProcessing : ItemWorker κ V → Bool
  | .processing _ _ _ => true
  | _ => false

/-- Whether the worker has ended. -/
def ItemWorker.isEnded : ItemWorker κ V → Bool
  | .ended => true
  | _ => false

/-- The requests that were taken out of the queue and are still counted as waiting. -/
def Closing.clearedRequests : Closing → Nat
  | .requests n => n
  | _ => 0

/-- The items that were taken out of the queue and are still counted as waiting. -/
def Closing.clearedItems : Closing → Nat
  | .items _ n => n
  | _ => 0

/-- Whether the parts that have ended are those that the closing has waited for. -/
def ClosingFits (e : Engine κ V) : Prop :=
  match e.closing with
  | .no => e.requests.closed = true →
    e.dispatcherHasEnded = true ∧ e.items.closed = true ∧ e.itemWorkersHaveEnded = true
  | .requests _ => e.requests.closed = true
  | .items _ _ => e.requests.closed = true ∧ e.dispatcherHasEnded = true ∧ e.items.closed = true
  | .pipelines _ => e.requests.closed = true ∧ e.dispatcherHasEnded = true ∧
    e.items.closed = true ∧ e.itemWorkersHaveEnded = true

/-- The counters fit the queues and the workers, workers have numbers of their own, and the parts
that have ended fit how far the closing has come. -/
structure Orderly (e : Engine κ V) : Prop where
  queued : e.activity.queuedRequests =
    e.requests.waiting.length + e.held.length + e.closing.clearedRequests
  active : e.activity.activeRequests = e.workers.length
  queuedItems : e.activity.queuedItems =
    e.items.waiting.length + e.itemWorkers.countP (·.isHolding) + e.closing.clearedItems
  activeItems : e.activity.activeItems = e.itemWorkers.countP (·.isProcessing)
  numbers : (e.workers.map (·.number)).Nodup
  begun : ∀ w ∈ e.workers, w.number < e.begun
  waiting_of_closed : e.requests.closed = true → e.requests.waiting = []
  items_of_closed : e.items.closed = true → e.items.waiting = []
  workers_of_ended : e.dispatcherHasEnded = true → e.workers = []
  closed_of_draining : e.dispatcher = .draining ∨ e.dispatcher = .ended → e.requests.closed = true
  closing : e.ClosingFits
  startable : e.connectable = true →
    e.dispatcher = .off ∧ e.itemWorkers = [] ∧ e.requests.closed = false

/-- Whether the engine was closed and nothing of that is left to be done. -/
def isClosed (e : Engine κ V) : Bool := e.requests.closed && e.closing == .no

namespace Orderly

variable {e : Engine κ V} {n k : Nat}

/-! ## Handing in -/

/-- A dispatcher that has ended holds nothing. -/
lemma held_of_ended (h : e.dispatcherHasEnded = true) : e.held = [] := by
  unfold dispatcherHasEnded at h
  unfold held
  split at h <;> simp_all

lemma handIn (h : Orderly e) (origin : Origin) (r : Request κ) :
    Orderly (e.handIn origin r).2 := by
  cases hc : e.requests.closed with
  | true =>
    rw [handIn_closed e origin r hc]
    exact { h with }
  | false =>
    rw [handIn_open e origin r hc]
    have hclosing := h.closing
    refine { h with
      queued := ?_
      waiting_of_closed := by simp
      closed_of_draining := fun hd => absurd (h.closed_of_draining hd) (by simp [hc])
      closing := ?_
      startable := fun hs => ⟨(h.startable hs).1, (h.startable hs).2.1, rfl⟩ }
    · have := h.queued
      simp only [List.length_append, List.length_singleton]
      change _ = _ + e.held.length + _
      omega
    · unfold ClosingFits at hclosing ⊢
      dsimp only
      split at hclosing <;> simp_all

lemma submitItem (h : Orderly e) (i : Envelope κ V) : Orderly (e.submitItem i).2 := by
  cases hc : e.items.closed with
  | true =>
    rw [submitItem_closed e i hc]
    exact { h with }
  | false =>
    rw [submitItem_open e i hc]
    have hclosing := h.closing
    refine { h with queuedItems := ?_, items_of_closed := by simp, closing := ?_ }
    · have := h.queuedItems
      simp only [List.length_append, List.length_singleton]
      omega
    · unfold ClosingFits at hclosing ⊢
      dsimp only
      split at hclosing <;> simp_all

lemma perform (h : Orderly e) (effect : Effect κ V) : Orderly (e.perform effect) :=
  perform_induction effect (h.handIn _) h.submitItem fun _ => { h with }

lemma resubmit (h : Orderly e) (n : Nat) (c : Context κ) (r : Request κ) :
    Orderly (e.resubmit n c r) := h.handIn _ _

/-! ## Workers -/

/-- The end of a live worker. -/
lemma finish {w : Worker κ} (h : Orderly e) (hw : e.worker? n = some w) :
    Orderly (e.finish n) := by
  obtain ⟨as, bs, hs, hwn, hne⟩ := exists_split h.numbers hw
  rw [finish_split hs hwn hne]
  have hnumbers := h.numbers
  have hactive := h.active
  have hended := h.workers_of_ended
  rw [hs] at hnumbers hactive hended
  have hsub : (as ++ bs).Sublist (as ++ w :: bs) := by simp
  refine { h with active := ?_, numbers := ?_, begun := ?_, workers_of_ended := ?_ }
  · simp only [List.length_append, List.length_cons] at hactive ⊢
    omega
  · exact (hsub.map _).nodup hnumbers
  · exact fun v hv => h.begun v (hs ▸ hsub.subset hv)
  · exact fun he => absurd (hended he) (by simp)

/-- A live worker goes on to another phase. -/
lemma enter {w : Worker κ} (h : Orderly e) (hw : e.worker? n = some w) (phase : Phase κ) :
    Orderly (e.enter n phase) := by
  obtain ⟨as, bs, hs, hwn, hne⟩ := exists_split h.numbers hw
  rw [enter_split hs hwn hne]
  have hnumbers := h.numbers
  have hactive := h.active
  have hended := h.workers_of_ended
  rw [hs] at hnumbers hactive hended
  refine { h with active := ?_, numbers := ?_, begun := ?_, workers_of_ended := ?_ }
  · simpa using hactive
  · simpa [hwn] using hnumbers
  · intro v hv
    rcases List.mem_append.1 hv with hv | hv
    · exact h.begun v (by simp [hs, hv])
    · rcases List.mem_cons.1 hv with rfl | hv
      · exact hwn ▸ h.begun w (by simp [hs])
      · exact h.begun v (by simp [hs, hv])
  · exact fun he => absurd (hended he) (by simp)

lemma log (h : Orderly e) (event : Event κ V) : Orderly (e.log event) := { h with }

lemma tellNext {w : Worker κ} (h : Orderly e) (hw : e.worker? n = some w) (notice : Notice κ)
    (isRead : Bool) (levels : List (Level κ)) : Orderly (e.tellNext n notice isRead levels) := by
  cases levels with
  | nil => exact h.finish hw
  | cons level later => exact (h.enter hw _).log _

lemma tell {w : Worker κ} (h : Orderly e) (hw : e.worker? n = some w) (notice : Notice κ)
    (isRead : Bool) : Orderly (e.tell n notice isRead) :=
  tellNext (h.log _) (w := w) hw notice isRead _

lemma stats (h : Orderly e) (stats : Stats) : Orderly { e with stats := stats } := { h with }

/-- The end of an exchange, however it comes. -/
lemma concludes {e' : Engine κ V} {w : Worker κ} {r : Request κ} (h : Orderly e)
    (hw : e.worker? n = some w) (he : Concludes e n r e') : Orderly e' := by
  cases he with
  | failed error =>
    exact (h.stats { e.stats with failed := e.stats.failed + 1 }).tell (w := w) hw _ _
  | succeeded a ha =>
    exact (h.stats { e.stats with succeeded := e.stats.succeeded + 1 }).tell (w := w) hw _ _
  | judged a target hj =>
    exact (h.stats { e.stats with redirected := e.stats.redirected + 1 }).tell (w := w) hw _ _
  | retried hr =>
    have hd := (h.stats { e.stats with retried := e.stats.retried + 1 }).resubmit n (contextOf r)
      { r with retryTimes := r.retryTimes + 1 }
    exact hd.finish ((worker?_congr (handIn_frame _ _ _).2 n).trans hw)
  | redirected a location target here join hmax hj =>
    have hd := (h.stats { e.stats with redirected := e.stats.redirected + 1 }).resubmit n
      (contextOf r) (r.redirected target (a.toResponse r))
    exact hd.finish ((worker?_congr (handIn_frame _ _ _).2 n).trans hw)

/-! ## Items -/

/-- Item workers of which one is not at its end have not all ended. -/
lemma not_haveEnded {v : ItemWorker κ V} (hv : e.itemWorkers[k]? = some v)
    (hne : v.isEnded = false) : e.itemWorkersHaveEnded ≠ true := by
  intro h
  have hmem : v ∈ e.itemWorkers := List.mem_of_getElem? hv
  have hend := List.all_eq_true.1 h v hmem
  cases v <;> simp_all [ItemWorker.isEnded]

/-- How many elements of a list pass a test when one of them is replaced. -/
lemma countP_set_add {α : Type} {p : α → Bool} {v w : α} :
    ∀ {l : List α} {k : Nat}, l[k]? = some v →
      (l.set k w).countP p + (p v).toNat = l.countP p + (p w).toNat := by
  intro l
  induction l with
  | nil => simp
  | cons a l ih =>
    intro k h
    cases k with
    | zero =>
      obtain rfl : a = v := by simpa using h
      cases ha : p a <;> cases hw : p w <;> simp [ha, hw]
    | succ k =>
      have := ih (k := k) (by simpa using h)
      simp only [List.set_cons_succ, List.countP_cons]
      omega

/-- An item worker that has not ended goes on to another phase, and the counters and the queue of
items with it. -/
lemma setItem {v : ItemWorker κ V} (h : Orderly e) (w : ItemWorker κ V) (activity : Activity)
    (items : Queue (Envelope κ V)) (hv : e.itemWorkers[k]? = some v) (hne : v.isEnded = false)
    (hr : activity.queuedRequests = e.activity.queuedRequests ∧
      activity.activeRequests = e.activity.activeRequests)
    (hq : activity.queuedItems + e.items.waiting.length + v.isHolding.toNat =
      e.activity.queuedItems + items.waiting.length + w.isHolding.toNat)
    (ha : activity.activeItems + v.isProcessing.toNat =
      e.activity.activeItems + w.isProcessing.toNat)
    (hc : items.closed = e.items.closed) (hi : items.closed = true → items.waiting = []) :
    Orderly { e with
      activity := activity, items := items, itemWorkers := e.itemWorkers.set k w } := by
  have hbusy := not_haveEnded hv hne
  have hclosing := h.closing
  have hqueued := h.queuedItems
  have hactive := h.activeItems
  have hholding := countP_set_add (p := (·.isHolding)) (w := w) hv
  have hprocessing := countP_set_add (p := (·.isProcessing)) (w := w) hv
  refine { h with
    queued := hr.1.trans h.queued
    active := hr.2.trans h.active
    queuedItems := ?_
    activeItems := ?_
    items_of_closed := hi
    closing := ?_
    startable := fun hs => ?_ }
  · dsimp only
    omega
  · dsimp only
    omega
  · unfold ClosingFits at hclosing ⊢
    dsimp only
    split at hclosing <;> simp_all [dispatcherHasEnded]
  · have hnil := (h.startable hs).2.1
    simp [hnil] at hv

lemma receiveItem {e' : Engine κ V} (h : Orderly e) (he : e.receiveItem? k = some e') :
    Orderly e' := by
  obtain ⟨hk, ⟨i, rest, hw, rfl⟩ | ⟨hw, hc, rfl⟩⟩ := receiveItem?_eq_some he
  · have hopen : e.items.closed = false := by
      by_contra hc
      simp [h.items_of_closed (by simpa using hc)] at hw
    exact h.setItem (.holding i) e.activity ⟨rest, e.items.closed⟩ hk rfl ⟨rfl, rfl⟩
      (by simp [hw, ItemWorker.isHolding]; omega) rfl rfl (by simp [hopen])
  · exact h.setItem .ended e.activity e.items hk rfl ⟨rfl, rfl⟩ rfl rfl rfl h.items_of_closed

/-- A worker that has an item in a stage has not ended and holds none that has not begun. -/
lemma notEnded_of_processing {v : ItemWorker κ V} (hp : v.isProcessing = true) :
    v.isEnded = false ∧ v.isHolding = false := by
  cases v <;> simp_all [ItemWorker.isProcessing, ItemWorker.isEnded, ItemWorker.isHolding]

lemma finishItem {v : ItemWorker κ V} (h : Orderly e) (hv : e.itemWorkers[k]? = some v)
    (hp : v.isProcessing = true) (passed : Bool) : Orderly (e.finishItem k passed) := by
  rw [finishItem_eq]
  obtain ⟨hne, hh⟩ := notEnded_of_processing hp
  have hcount : _ + _ = e.itemWorkers.countP (·.isProcessing) + 0 :=
    countP_set_add (p := (·.isProcessing)) (w := .idle) hv
  have hactive := h.activeItems
  rw [hp, Bool.toNat_true] at hcount
  have hset := h.setItem .idle { e.activity with activeItems := e.activity.activeItems - 1 }
    e.items hv hne ⟨rfl, rfl⟩
    (by rw [hh]; rfl)
    (by rw [hp, Bool.toNat_true]; change _ = _ + 0; dsimp only; omega)
    rfl h.items_of_closed
  exact { hset with }

lemma nextStage {v : ItemWorker κ V} (h : Orderly e) (hv : e.itemWorkers[k]? = some v)
    (hp : v.isProcessing = true) (i : Envelope κ V) (stages : List (Stage τ)) :
    Orderly (e.nextStage k i stages) := by
  obtain ⟨hne, hh⟩ := notEnded_of_processing hp
  obtain hn | ⟨stage, later, hn⟩ := nextStage_cases e k i stages <;> rw [hn]
  · exact h.finishItem hv hp true
  · have hset := h.setItem (.processing i stage later) e.activity e.items hv hne ⟨rfl, rfl⟩
      (by rw [hh]; rfl) (by rw [hp]; rfl) rfl h.items_of_closed
    exact { hset with }

lemma beginItem [DecidableEq τ] {e' : Engine κ V} (h : Orderly e)
    (he : e.beginItem? k = some e') : Orderly e' := by
  obtain ⟨i, hk, -, rfl⟩ := beginItem?_eq_some he
  have hcount : _ + 1 = e.itemWorkers.countP (·.isHolding) + 0 :=
    countP_set_add (p := (·.isHolding)) (w := .idle) hk
  have hqueued := h.queuedItems
  -- the item has begun and ended at once, or is in its first stage
  obtain hn | ⟨stage, later, hn⟩ := nextStage_cases _ k i _ <;> rw [hn]
  · rw [finishItem_eq]
    have hset := h.setItem .idle { e.activity with queuedItems := e.activity.queuedItems - 1 }
      e.items hk rfl ⟨rfl, rfl⟩
      (by change _ + _ + 1 = _ + _ + 0; dsimp only; omega) rfl rfl
      h.items_of_closed
    exact { hset with }
  · have hset := h.setItem (.processing i stage later)
      { e.activity with
        activeItems := e.activity.activeItems + 1, queuedItems := e.activity.queuedItems - 1 }
      e.items hk rfl ⟨rfl, rfl⟩
      (by change _ + _ + 1 = _ + _ + 0; dsimp only; omega) rfl rfl
      h.items_of_closed
    exact { hset with }

lemma judge {e' : Engine κ V} {verdict : Verdict V} (h : Orderly e)
    (he : e.judge? k verdict = some e') : Orderly e' := by
  obtain ⟨i, stage, later, hk, ⟨j, rfl⟩ | rfl⟩ := judge?_eq_some he
  · exact h.nextStage hk rfl j later
  · exact h.finishItem hk rfl false

/-! ## The dispatcher -/

lemma receive {e' : Engine κ V} (h : Orderly e) (he : e.receive? = some e') : Orderly e' := by
  obtain ⟨hd, ⟨r, rest, hw, rfl⟩ | ⟨hw, hc, rfl⟩⟩ := receive?_eq_some he
  · have hopen : e.requests.closed = false := by
      by_contra hc
      simp [h.waiting_of_closed (by simpa using hc)] at hw
    have hqueued := h.queued
    have hclosing := h.closing
    refine { h with
      queued := ?_
      waiting_of_closed := by simp [hopen]
      workers_of_ended := fun hend => by cases hend
      closed_of_draining := by simp
      closing := ?_
      startable := fun hs => by simp [(h.startable hs).1] at hd }
    · simp only [held, hd, hw, List.length_cons, List.length_nil] at hqueued ⊢
      omega
    · unfold ClosingFits at hclosing ⊢
      dsimp only
      split at hclosing <;> simp_all
  · have hclosing := h.closing
    refine { h with
      queued := ?_
      workers_of_ended := fun hend => by cases hend
      closed_of_draining := fun _ => hc
      closing := ?_
      startable := fun hs => by simp [(h.startable hs).1] at hd }
    · simpa [held, hd] using h.queued
    · unfold ClosingFits at hclosing ⊢
      dsimp only
      split at hclosing <;> simp_all [dispatcherHasEnded]

lemma launch {e' : Engine κ V} (h : Orderly e) (he : e.launch? = some e') : Orderly e' := by
  obtain ⟨r, hd, hcase⟩ := launch?_eq_some he
  have hqueued := h.queued
  have hactive := h.active
  have hclosing := h.closing
  simp only [held, hd, List.length_singleton] at hqueued
  have hnumbers : ((e.workers ++ [(⟨e.begun, .ready r⟩ : Worker κ)]).map (·.number)).Nodup := by
    rw [List.map_append, List.nodup_append]
    refine ⟨h.numbers, by simp, ?_⟩
    rintro a ha b hb rfl
    obtain ⟨w, hw, rfl⟩ := List.mem_map.1 ha
    have := h.begun w hw
    simp only [List.map_cons, List.map_nil, List.mem_singleton] at hb
    omega
  have hbegun : ∀ w ∈ e.workers ++ [(⟨e.begun, .ready r⟩ : Worker κ)], w.number < e.begun + 1 := by
    intro w hw
    rcases List.mem_append.1 hw with hw | hw
    · exact Nat.lt_succ_of_lt (h.begun w hw)
    · obtain rfl := List.mem_singleton.1 hw
      exact Nat.lt_succ_self _
  rcases hcase with ⟨-, rfl⟩ | ⟨-, -, rfl⟩ <;> rw [begin_eq]
  all_goals
    refine { h with
      queued := ?_
      active := by simp only [List.length_append, List.length_singleton]; omega
      numbers := hnumbers
      begun := hbegun
      workers_of_ended := fun hend => by cases hend
      closed_of_draining := by simp
      closing := ?_
      startable := fun hs => by simp [(h.startable hs).1] at hd }
    · simp only [held, List.length_nil]
      omega
    · unfold ClosingFits at hclosing ⊢
      dsimp only
      split at hclosing <;> simp_all [dispatcherHasEnded]

/-- The dispatcher goes on and holds nothing before and after. -/
lemma setDispatcher {d : Dispatcher κ} (h : Orderly e) (hnow : e.dispatcherHasEnded = false)
    (hheld : e.held = []) (hd : d = .idle ∨ d = .pausing ∨ d = .ended)
    (hend : d = .ended → e.workers = [] ∧ e.requests.closed = true) :
    Orderly { e with dispatcher := d } := by
  have hclosing := h.closing
  have hqueued := h.queued
  rw [hheld] at hqueued
  refine { h with
    queued := ?_
    workers_of_ended := fun he => ?_
    closed_of_draining := fun he => ?_
    closing := ?_
    startable := fun hs => ?_ }
  · rcases hd with rfl | rfl | rfl <;> exact hqueued
  · rcases hd with rfl | rfl | rfl
    · cases he
    · cases he
    · exact (hend rfl).1
  · rcases hd with rfl | rfl | rfl
    · simp at he
    · simp at he
    · exact (hend rfl).2
  · unfold ClosingFits at hclosing ⊢
    dsimp only
    split at hclosing <;> simp_all
  · simp [dispatcherHasEnded, (h.startable hs).1] at hnow

lemma attended {e' : Engine κ V} (h : Orderly e) (he : e.attended? = some e') : Orderly e' := by
  obtain ⟨n, hd, -, rfl⟩ := attended?_eq_some he
  exact h.setDispatcher (by simp [dispatcherHasEnded, hd]) (by simp [held, hd]) (by simp) (by simp)

lemma resume {e' : Engine κ V} (h : Orderly e) (he : e.resume? = some e') : Orderly e' := by
  obtain ⟨hd, rfl⟩ := resume?_eq_some he
  exact h.setDispatcher (by simp [dispatcherHasEnded, hd]) (by simp [held, hd]) (by simp) (by simp)

lemma drained {e' : Engine κ V} (h : Orderly e) (he : e.drained? = some e') : Orderly e' := by
  obtain ⟨hd, hw, rfl⟩ := drained?_eq_some he
  exact h.setDispatcher (by simp [dispatcherHasEnded, hd]) (by simp [held, hd]) (by simp)
    fun _ => ⟨hw, h.closed_of_draining (.inl hd)⟩

/-! ## Workers and handlers -/

lemma send {e' : Engine κ V} (h : Orderly e) (he : e.send? n = some e') : Orderly e' := by
  obtain ⟨m, r, hw, hc | ⟨wire, rfl⟩⟩ := send?_eq_some he
  · exact h.concludes hw hc
  · exact ((h.stats { e.stats with sent := e.stats.sent + 1 }).enter hw _).log _

lemma answer {e' : Engine κ V} {outcome : Outcome} (h : Orderly e)
    (he : e.answer? n outcome = some e') : Orderly e' := by
  obtain ⟨m, r, wire, hw, hc | ⟨a, hc⟩⟩ := answer?_eq_some he
  · exact h.concludes hw hc
  · have hheard : Orderly (e.hear n a) := { h with }
    exact hheard.concludes hw hc

lemma act {e' : Engine κ V} {effect : Effect κ V} (h : Orderly e)
    (he : e.act? n effect = some e') : Orderly e' := by
  obtain ⟨m, notice, level, later, _, _, hw, rfl⟩ := act?_eq_some he
  exact (h.perform effect).enter ((worker?_congr (perform_frame e effect).2 n).trans hw) _

lemma reply {e' : Engine κ V} {reply : Option (Request κ)} (h : Orderly e)
    (he : e.reply? n reply = some e') : Orderly e' := by
  obtain ⟨m, notice, level, later, isRead, d, hw, rfl | ⟨_, _, c, r, -, rfl⟩, rfl⟩ :=
    reply?_eq_some he
  · exact h.tellNext hw _ _ _
  · exact (h.resubmit n c r).tellNext ((worker?_congr (handIn_frame _ _ _).2 n).trans hw) _ _ _

lemma panic {e' : Engine κ V} (h : Orderly e) (he : e.panic? n = some e') : Orderly e' := by
  obtain ⟨m, notice, level, later, isRead, hw, rfl⟩ := panic?_eq_some he
  exact h.finish hw

lemma actItem {e' : Engine κ V} {effect : Effect κ V} (h : Orderly e)
    (he : e.actItem? k effect = some e') : Orderly e' := by
  obtain ⟨-, -, -, -, rfl⟩ := actItem?_eq_some he
  exact h.perform effect

/-! ## Starting and closing -/

/-- Item workers that wait for their first item hold and process nothing. -/
lemma countP_replicate_idle {p : ItemWorker κ V → Bool} (hp : p .idle = false) (m : Nat) :
    (List.replicate m (ItemWorker.idle : ItemWorker κ V)).countP p = 0 := by
  rw [List.countP_replicate, hp]
  rfl

/-- An engine that was set going. -/
lemma ignite (h : Orderly e) (hs : e.connectable = true) : Orderly e.ignite := by
  obtain ⟨hoff, hnone, hopen⟩ := h.startable hs
  have hqueued := h.queued
  have hitems := h.queuedItems
  have hactive := h.activeItems
  have hclosing := h.closing
  simp only [held, hoff, hnone, List.countP_nil, List.length_nil] at hqueued hitems hactive
  refine { h with
    queued := hqueued
    queuedItems := ?_
    activeItems := ?_
    workers_of_ended := fun hend => by cases hend
    closed_of_draining := by simp [Engine.ignite]
    closing := ?_
    startable := by simp [Engine.ignite] }
  · dsimp only [Engine.ignite]
    rw [countP_replicate_idle rfl]
    exact hitems
  · dsimp only [Engine.ignite]
    rw [countP_replicate_idle rfl]
    exact hactive
  · unfold ClosingFits at hclosing ⊢
    dsimp only [Engine.ignite]
    split at hclosing <;> simp_all

lemma start (h : Orderly e) : Orderly e.start.2 := by
  obtain hs | ⟨hs, hstart⟩ := start_cases e
  · rw [hs]
    exact { h with }
  · rw [hstart]
    exact foldl_perform_induction (fun _ effect hd => hd.perform effect) _ _ (h.ignite hs)

lemma close {e' : Engine κ V} (h : Orderly e) (he : e.close? = some e') : Orderly e' := by
  obtain ⟨hc, rfl⟩ := close?_eq_some he
  have hqueued := h.queued
  have hitems := h.queuedItems
  simp only [hc, Closing.clearedRequests, Closing.clearedItems] at hqueued hitems
  refine { h with
    queued := ?_
    queuedItems := hitems
    waiting_of_closed := fun _ => rfl
    closed_of_draining := fun _ => rfl
    closing := rfl
    startable := by simp }
  simp only [Closing.clearedRequests, List.length_nil]
  change _ = _ + e.held.length + _
  omega

lemma discardRequests {e' : Engine κ V} (h : Orderly e) (he : e.discardRequests? = some e') :
    Orderly e' := by
  obtain ⟨n, hc, hend, rfl⟩ := discardRequests?_eq_some he
  have hitems := h.queuedItems
  have hclosing := h.closing
  simp only [ClosingFits, hc] at hclosing
  simp only [hc, Closing.clearedItems] at hitems
  refine { h with
    queued := ?_
    queuedItems := ?_
    items_of_closed := fun _ => rfl
    closing := ⟨hclosing, hend, rfl⟩ }
  · simp only [h.waiting_of_closed hclosing, Closing.clearedRequests, List.length_nil]
    change 0 = 0 + e.held.length + 0
    rw [held_of_ended hend]
    rfl
  · simp only [Closing.clearedItems, List.length_nil]
    omega

/-- Item workers that have all ended hold nothing. -/
lemma countP_holding_of_ended (h : e.itemWorkersHaveEnded = true) :
    e.itemWorkers.countP (·.isHolding) = 0 := by
  rw [List.countP_eq_zero]
  intro w hw
  have hend := List.all_eq_true.1 h w hw
  cases w <;> simp_all [ItemWorker.isHolding]

/-- What is closed next is a pipeline, or nothing. -/
lemma closingFrom_cases (e : Engine κ V) (i : Nat) :
    e.closingFrom i = .no ∨ e.closingFrom i = .pipelines i := by
  unfold closingFrom
  split
  · exact .inr rfl
  · exact .inl rfl

/-- The closing goes on to a pipeline or to its end. -/
lemma closeFrom {queued : Nat} (h : Orderly e) (i : Nat) (stats : Stats)
    (hr : e.closing.clearedRequests = 0) (hclosed : e.requests.closed = true)
    (hend : e.dispatcherHasEnded = true) (hitems : e.items.closed = true)
    (hitemsEnd : e.itemWorkersHaveEnded = true) (hqueued : queued = 0) :
    Orderly { e with
      activity := { e.activity with queuedItems := queued }
      stats := stats
      closing := e.closingFrom i } := by
  have hq := h.queued
  rw [hr] at hq
  refine { h with queued := ?_, queuedItems := ?_, closing := ?_ }
  · obtain hc | hc := closingFrom_cases e i <;> dsimp only <;> rw [hc] <;> exact hq
  · have hnone := countP_holding_of_ended hitemsEnd
    have hnil := h.items_of_closed hitems
    obtain hc | hc := closingFrom_cases e i <;> dsimp only <;>
      simp only [hc, hnone, hnil, hqueued, Closing.clearedItems, List.length_nil]
  · obtain hc | hc := closingFrom_cases e i <;>
      simp only [ClosingFits, hc]
    · exact fun _ => ⟨hend, hitems, hitemsEnd⟩
    · exact ⟨hclosed, hend, hitems, hitemsEnd⟩

lemma discardItems {e' : Engine κ V} (h : Orderly e) (he : e.discardItems? = some e') :
    Orderly e' := by
  obtain ⟨d, n, hc, hitemsEnd, rfl⟩ := discardItems?_eq_some he
  have hclosing := h.closing
  simp only [ClosingFits, hc] at hclosing
  have hd := h.closeFrom 0 (e.stats.recordDiscarded d e.activity.queuedItems)
    (by rw [hc]; rfl) hclosing.1 hclosing.2.1 hclosing.2.2 hitemsEnd rfl
  exact { hd with }

lemma closePipeline {e' : Engine κ V} (h : Orderly e) (he : e.closePipeline? = some e') :
    Orderly e' := by
  obtain ⟨i, hc, rfl⟩ := closePipeline?_eq_some he
  have hclosing := h.closing
  simp only [ClosingFits, hc] at hclosing
  have hqueued := h.queuedItems
  simp only [hc, Closing.clearedItems, h.items_of_closed hclosing.2.2.1,
    countP_holding_of_ended hclosing.2.2.2, List.length_nil] at hqueued
  have hd := h.closeFrom (i + 1) e.stats (by rw [hc]; rfl) hclosing.1 hclosing.2.1
    hclosing.2.2.1 hclosing.2.2.2 hqueued
  exact { hd with }

/-! ## Every reachable engine -/

lemma new (setup : Setup τ) (seeds : List (Request κ)) :
    Orderly (.new setup seeds : Engine κ V) where
  queued := rfl
  active := rfl
  queuedItems := rfl
  activeItems := rfl
  numbers := List.nodup_nil
  begun := by simp [Engine.new]
  waiting_of_closed := fun _ => rfl
  items_of_closed := fun _ => rfl
  workers_of_ended := fun _ => rfl
  closed_of_draining := by simp [Engine.new]
  closing := by simp [ClosingFits, Engine.new, Queue.empty]
  startable := fun _ => ⟨rfl, rfl, rfl⟩

variable [DecidableEq τ]

/-- Every move keeps an engine in order. -/
theorem step {e' : Engine κ V} (m : Move κ V) (h : Orderly e) (he : e.step? m = some e') :
    Orderly e' := by
  cases m with
  | start =>
    obtain rfl := Option.some.inj he
    exact h.start
  | ask effect =>
    obtain rfl := Option.some.inj he
    exact h.perform effect
  | receive => exact h.receive he
  | launch => exact h.launch he
  | attended => exact h.attended he
  | resume => exact h.resume he
  | drained => exact h.drained he
  | send n => exact h.send he
  | answer n outcome => exact h.answer he
  | act n effect => exact h.act he
  | reply n next => exact h.reply he
  | panic n => exact h.panic he
  | receiveItem k => exact h.receiveItem he
  | beginItem k => exact h.beginItem he
  | actItem k effect => exact h.actItem he
  | judge k verdict => exact h.judge he
  | close => exact h.close he
  | discardRequests => exact h.discardRequests he
  | discardItems => exact h.discardItems he
  | closePipeline => exact h.closePipeline he

end Orderly

/-- Every reachable engine is in order. -/
theorem Reachable.orderly [DecidableEq τ] {setup : Setup τ} {seeds : List (Request κ)}
    {e : Engine κ V} (h : Reachable setup seeds e) : Orderly e :=
  h.induction (.new setup seeds) fun _ m _ he => he.step m

end WebCrawl.Engine
