import Mathlib.Algebra.GroupWithZero.Nat
import WebCrawl.Proofs.Engine.Idle

set_option autoImplicit false

/-!
# What becomes of requests and items

Whatever was handed in has been counted under exactly one outcome or is still somewhere in the
engine. When the engine is closed nothing is left in it, so the outcomes add up to what was handed
in.

## Main definitions

* `WebCrawl.Engine.requestsHandedIn`, `WebCrawl.Engine.itemsHandedIn` — how often something was
  handed in, whether it was taken or not.
* `WebCrawl.Engine.Accounted` — the counters balance.

## Main results

* `WebCrawl.Engine.Accounted.step` — every move keeps the balance.
* `WebCrawl.Engine.Reachable.accounted` — the counters of every reachable engine balance.
* `WebCrawl.Engine.Reachable.balance_of_isClosed` — nothing is lost or counted twice in an engine
  that was closed, and nothing is thrown away in one that ran alone.
-/

namespace WebCrawl.Engine

open Crawl

variable {κ τ : Type} {V : τ → Type}

/-! ## What is counted -/

/-- Whether a request was handed in. -/
def Event.isRequest : Event κ V → Bool
  | .enqueued _ _ => true
  | .refused _ _ => true
  | _ => false

/-- Whether an item was handed in. -/
def Event.isItem : Event κ V → Bool
  | .itemEnqueued _ => true
  | .itemRefused _ => true
  | _ => false

/-- The bytes that came with an answer. -/
def Event.bytes : Event κ V → Nat
  | .answered _ a => a.body.size
  | _ => 0

/-- How often a request was handed in, by whomever and whether it was taken or not. -/
def requestsHandedIn (e : Engine κ V) : Nat := e.journal.countP (·.isRequest)

/-- How often an item was handed in, whether it was taken or not. -/
def itemsHandedIn (e : Engine κ V) : Nat := e.journal.countP (·.isItem)

/-- The bytes that came with all answers. -/
def bytesAnswered (e : Engine κ V) : Nat := (e.journal.map Event.bytes).sum

/-- Whether a worker at this point has not come to the outcome of its request. -/
def Phase.isOpen : Phase κ → Bool
  | .telling _ _ _ _ => false
  | _ => true

/-- Whether the worker has an item. -/
def ItemWorker.isBusy (w : ItemWorker κ V) : Bool := w.isHolding || w.isProcessing

/-- The requests that have left the queue and are still to be counted as dropped. -/
def Closing.owedRequests : Closing → Nat
  | .requests n => n
  | .items d _ => d
  | _ => 0

/-- The requests whose outcome was counted. -/
def requestsSettled (s : Stats) : Nat :=
  s.succeeded + s.failed + s.retried + s.redirected + s.requestsDropped

/-- The items whose outcome was counted. -/
def itemsSettled (s : Stats) : Nat := s.processed + s.itemsDropped

/-- The requests that wait, are held, are under way without an outcome, or were cleared. -/
def requestsPending (e : Engine κ V) : Nat :=
  e.requests.waiting.length + e.held.length + e.workers.countP (·.phase.isOpen) +
    e.closing.owedRequests

/-- The items that wait, are under way, or were cleared. -/
def itemsPending (e : Engine κ V) : Nat :=
  e.items.waiting.length + e.itemWorkers.countP (·.isBusy) + e.closing.clearedItems

/-- The counters balance. So many outcomes were counted of requests that are still counted as under
way. -/
structure Accounted (counted : Nat) (e : Engine κ V) : Prop where
  requests : e.requestsHandedIn + counted = requestsSettled e.stats + e.requestsPending
  items : e.itemsHandedIn = itemsSettled e.stats + e.itemsPending
  received : e.stats.received = (e.stats.statuses.map Prod.snd).sum
  bytes : e.stats.bytes = e.bytesAnswered

namespace Accounted

variable {e e' : Engine κ V} {c n k : Nat}

/-! ## Handing in -/

lemma handIn (h : Accounted c e) (origin : Origin) (r : Request κ) :
    Accounted c (e.handIn origin r).2 := by
  have hrequests := h.requests
  cases hc : e.requests.closed with
  | true =>
    rw [handIn_closed e origin r hc]
    refine { h with requests := ?_, items := h.items, bytes := ?_ }
    · simp only [requestsHandedIn, List.countP_cons, Event.isRequest, requestsSettled,
        reduceIte] at hrequests ⊢
      change _ = _ + e.requestsPending
      omega
    · simpa [bytesAnswered, Event.bytes] using h.bytes
  | false =>
    rw [handIn_open e origin r hc]
    refine { h with requests := ?_, items := h.items, bytes := ?_ }
    · simp only [requestsHandedIn, List.countP_cons, Event.isRequest, requestsSettled,
        requestsPending, List.length_append, List.length_singleton] at hrequests ⊢
      change _ = _ + (_ + e.held.length + _ + _)
      simp only [reduceIte]
      omega
    · simpa [bytesAnswered, Event.bytes] using h.bytes

lemma submitItem (h : Accounted c e) (i : Envelope κ V) : Accounted c (e.submitItem i).2 := by
  have hitems := h.items
  cases hc : e.items.closed with
  | true =>
    rw [submitItem_closed e i hc]
    refine { h with requests := h.requests, items := ?_, bytes := ?_ }
    · simp only [itemsHandedIn, List.countP_cons, Event.isItem, itemsSettled, itemsPending,
        reduceIte] at hitems ⊢
      omega
    · simpa [bytesAnswered, Event.bytes] using h.bytes
  | false =>
    rw [submitItem_open e i hc]
    refine { h with requests := h.requests, items := ?_, bytes := ?_ }
    · simp only [itemsHandedIn, List.countP_cons, Event.isItem, itemsSettled, itemsPending,
        List.length_append, List.length_singleton, reduceIte] at hitems ⊢
      omega
    · simpa [bytesAnswered, Event.bytes] using h.bytes

lemma perform (h : Accounted c e) (effect : Effect κ V) : Accounted c (e.perform effect) :=
  perform_induction effect (h.handIn _) h.submitItem fun _ => { h with }

lemma resubmit (h : Accounted c e) (n : Nat) (x : Context κ) (r : Request κ) :
    Accounted c (e.resubmit n x r) := h.handIn _ _

/-! ## Workers -/

/-- An event that is no handing in and no answer. -/
lemma log (h : Accounted c e) (event : Event κ V) (hr : event.isRequest = false)
    (hi : event.isItem = false) (hb : event.bytes = 0) : Accounted c (e.log event) where
  requests := by
    have hrequests := h.requests
    simp only [Engine.log, requestsHandedIn, List.countP_cons, hr] at hrequests ⊢
    exact hrequests
  items := by
    have hitems := h.items
    simp only [Engine.log, itemsHandedIn, List.countP_cons, hi] at hitems ⊢
    exact hitems
  received := h.received
  bytes := by simpa [Engine.log, bytesAnswered, hb] using h.bytes

/-- An outcome is counted. -/
lemma outcome (h : Accounted c e) (stats : Stats)
    (hs : requestsSettled stats = requestsSettled e.stats + 1)
    (hi : itemsSettled stats = itemsSettled e.stats) (hr : stats.received = e.stats.received)
    (hl : stats.statuses = e.stats.statuses) (hb : stats.bytes = e.stats.bytes) :
    Accounted (c + 1) { e with stats := stats } where
  requests := by
    have hrequests := h.requests
    change e.requestsHandedIn + (c + 1) = requestsSettled stats + e.requestsPending
    omega
  items := by
    dsimp only
    rw [hi]
    exact h.items
  received := by
    dsimp only
    rw [hr, hl]
    exact h.received
  bytes := hb.trans h.bytes

/-- A live worker ends. If its outcome was open until then, it has been counted before. -/
lemma finish {w : Worker κ} (h : Accounted (c + w.phase.isOpen.toNat) e) (ho : Orderly e)
    (hw : e.worker? n = some w) : Accounted c (e.finish n) := by
  obtain ⟨as, bs, hs, hwn, hne⟩ := exists_split ho.numbers hw
  have hrequests := h.requests
  rw [finish_split hs hwn hne]
  refine { h with requests := ?_, items := h.items, bytes := ?_ }
  · simp only [requestsHandedIn, requestsPending, hs, List.countP_append, List.countP_cons,
      Event.isRequest] at hrequests ⊢
    change _ = _ + (_ + e.held.length + _ + _)
    cases hopen : w.phase.isOpen <;> simp [hopen] at hrequests ⊢ <;> omega
  · simpa [bytesAnswered, Event.bytes] using h.bytes

/-- A live worker goes on. If its outcome is not open any more, it has been counted before. -/
lemma enter {w : Worker κ} (h : Accounted c e) (ho : Orderly e) (hw : e.worker? n = some w)
    (phase : Phase κ) {d : Nat} (hd : d + w.phase.isOpen.toNat = c + phase.isOpen.toNat) :
    Accounted d (e.enter n phase) := by
  obtain ⟨as, bs, hs, hwn, hne⟩ := exists_split ho.numbers hw
  have hrequests := h.requests
  rw [enter_split hs hwn hne]
  refine { h with requests := ?_, items := h.items, bytes := h.bytes }
  simp only [requestsHandedIn, requestsPending, hs, List.countP_append, List.countP_cons]
    at hrequests ⊢
  change _ = _ + (_ + e.held.length + _ + _)
  cases hopen : w.phase.isOpen <;> cases hopen' : phase.isOpen <;>
    simp [hopen, hopen'] at hrequests hd ⊢ <;> omega

lemma tellNext {w : Worker κ} (h : Accounted w.phase.isOpen.toNat e) (ho : Orderly e)
    (hw : e.worker? n = some w) (notice : Notice κ) (isRead : Bool) (levels : List (Level κ)) :
    Accounted 0 (e.tellNext n notice isRead levels) := by
  cases levels with
  | nil =>
    have h' : Accounted (0 + w.phase.isOpen.toNat) e := by rwa [Nat.zero_add]
    exact h'.finish ho hw
  | cons level later =>
    have h' := h.enter ho hw (.telling notice level later isRead) (d := 0) (Nat.add_comm ..)
    exact h'.log (.told n level notice) rfl rfl rfl

lemma tell {w : Worker κ} (h : Accounted w.phase.isOpen.toNat e) (ho : Orderly e)
    (hw : e.worker? n = some w) (notice : Notice κ) (isRead : Bool) :
    Accounted 0 (e.tell n notice isRead) :=
  (h.log (.noted n notice) rfl rfl rfl).tellNext (ho.log _) hw notice isRead _

/-- The end of an exchange, however it comes, is one outcome. -/
lemma concludes {w : Worker κ} {r : Request κ} (h : Accounted 0 e) (ho : Orderly e)
    (hw : e.worker? n = some w) (hopen : w.phase.isOpen = true) (he : Concludes e n r e') :
    Accounted 0 e' := by
  have hone : w.phase.isOpen.toNat = 0 + 1 := by rw [hopen]; rfl
  have hs := fun stats => h.outcome stats
  rw [← hone] at hs
  have hkeep : ∀ (d : Engine κ V) x r, d.worker? n = some w →
      (d.resubmit n x r).worker? n = some w :=
    fun d x r hd => (worker?_congr (handIn_frame d _ _).2 n).trans hd
  cases he with
  | failed error =>
    have hd := hs { e.stats with failed := e.stats.failed + 1 }
      (by simp only [requestsSettled]; omega) rfl rfl rfl rfl
    exact hd.tell (ho.stats _) hw _ _
  | succeeded a ha =>
    have hd := hs { e.stats with succeeded := e.stats.succeeded + 1 }
      (by simp only [requestsSettled]; omega) rfl rfl rfl rfl
    exact hd.tell (ho.stats _) hw _ _
  | judged a target hj =>
    have hd := hs { e.stats with redirected := e.stats.redirected + 1 }
      (by simp only [requestsSettled]; omega) rfl rfl rfl rfl
    exact hd.tell (ho.stats _) hw _ _
  | retried hr =>
    have hd := hs { e.stats with retried := e.stats.retried + 1 }
      (by simp only [requestsSettled]; omega) rfl rfl rfl rfl
    rw [← Nat.zero_add (Bool.toNat _)] at hd
    exact (hd.resubmit _ _ _).finish ((ho.stats _).resubmit _ _ _) (hkeep _ _ _ hw)
  | redirected a location target here join hmax hj =>
    have hd := hs { e.stats with redirected := e.stats.redirected + 1 }
      (by simp only [requestsSettled]; omega) rfl rfl rfl rfl
    rw [← Nat.zero_add (Bool.toNat _)] at hd
    exact (hd.resubmit _ _ _).finish ((ho.stats _).resubmit _ _ _) (hkeep _ _ _ hw)

/-- One more of a number makes the counts in a list one more in sum. -/
lemma sum_increment (counts : List (Nat × Nat)) (m : Nat) :
    ((Stats.increment counts m).map Prod.snd).sum = (counts.map Prod.snd).sum + 1 := by
  induction counts with
  | nil => rfl
  | cons count counts ih =>
    unfold Stats.increment
    split
    · simp only [List.map_cons, List.sum_cons]
      omega
    · split
      · simp only [List.map_cons, List.sum_cons]
        omega
      · simp only [List.map_cons, List.sum_cons, ih]
        omega

lemma hear (h : Accounted c e) (n : Nat) (a : Answer) : Accounted c (e.hear n a) where
  requests := h.requests
  items := h.items
  received := by
    have hreceived := h.received
    simp only [Engine.hear, Stats.recordAnswer, sum_increment]
    omega
  bytes := by
    have hbytes := h.bytes
    simp only [Engine.hear, Stats.recordAnswer, bytesAnswered, List.map_cons, List.sum_cons,
      Event.bytes] at hbytes ⊢
    omega

lemma send (h : Accounted 0 e) (ho : Orderly e) (he : e.send? n = some e') : Accounted 0 e' := by
  obtain ⟨m, r, hw, hc | ⟨wire, rfl⟩⟩ := send?_eq_some he
  · exact h.concludes ho hw rfl hc
  · have hsent : Accounted 0 { e with stats := { e.stats with sent := e.stats.sent + 1 } } :=
      { h with }
    have hd := hsent.enter (ho.stats _) hw (.exchanging r wire) (d := 0) rfl
    exact hd.log (.sent n wire) rfl rfl rfl

lemma answer {outcome : Outcome} (h : Accounted 0 e) (ho : Orderly e)
    (he : e.answer? n outcome = some e') : Accounted 0 e' := by
  obtain ⟨m, r, wire, hw, hc | ⟨a, hc⟩⟩ := answer?_eq_some he
  · exact h.concludes ho hw rfl hc
  · have hheard : Orderly (e.hear n a) := { ho with }
    exact (h.hear n a).concludes hheard hw rfl hc

lemma act {effect : Effect κ V} (h : Accounted 0 e) (ho : Orderly e)
    (he : e.act? n effect = some e') : Accounted 0 e' := by
  obtain ⟨m, notice, level, later, _, _, hw, rfl⟩ := act?_eq_some he
  exact (h.perform effect).enter (ho.perform effect)
    ((worker?_congr (perform_frame e effect).2 n).trans hw) _ rfl

lemma reply {reply : Option (Request κ)} (h : Accounted 0 e) (ho : Orderly e)
    (he : e.reply? n reply = some e') : Accounted 0 e' := by
  obtain ⟨m, notice, level, later, isRead, d, hw, rfl | ⟨_, _, x, r, -, rfl⟩, rfl⟩ :=
    reply?_eq_some he
  · exact tellNext (w := ⟨m, .telling notice level later isRead⟩) h ho hw _ _ _
  · exact tellNext (w := ⟨m, .telling notice level later isRead⟩) (h.resubmit n x r)
      (ho.resubmit n x r) ((worker?_congr (handIn_frame _ _ _).2 n).trans hw) _ _ _

lemma panic (h : Accounted 0 e) (ho : Orderly e) (he : e.panic? n = some e') :
    Accounted 0 e' := by
  obtain ⟨m, notice, level, later, isRead, hw, rfl⟩ := panic?_eq_some he
  exact finish (w := ⟨m, .telling notice level later isRead⟩) h ho hw

/-! ## The dispatcher -/

/-- The dispatcher goes on and has as many requests with it as before. -/
lemma setDispatcher {d : Dispatcher κ} {requests : Queue (Request κ)} (h : Accounted 0 e)
    (hd : requests.waiting.length + ({ e with dispatcher := d } : Engine κ V).held.length =
      e.requests.waiting.length + e.held.length) :
    Accounted 0 { e with requests := requests, dispatcher := d } := by
  have hrequests := h.requests
  refine { h with requests := ?_, items := h.items, bytes := h.bytes }
  simp only [requestsHandedIn, requestsPending, held] at hrequests hd ⊢
  omega

lemma receive (h : Accounted 0 e) (he : e.receive? = some e') : Accounted 0 e' := by
  obtain ⟨hd, ⟨r, rest, hw, rfl⟩ | ⟨hw, hc, rfl⟩⟩ := receive?_eq_some he
  · exact h.setDispatcher (by simp [held, hd, hw])
  · exact h.setDispatcher (by simp [held, hd])

lemma launch (h : Accounted 0 e) (he : e.launch? = some e') : Accounted 0 e' := by
  obtain ⟨r, hd, hcase⟩ := launch?_eq_some he
  have hlog := h.log (.began e.begun r) rfl rfl rfl
  have hrequests := hlog.requests
  have hopen : (e.workers ++ [(⟨e.begun, .ready r⟩ : Worker κ)]).countP (·.phase.isOpen) =
      e.workers.countP (·.phase.isOpen) + 1 := by
    rw [List.countP_append]
    rfl
  simp only [requestsPending, held, Engine.log, hd, List.length_singleton] at hrequests
  rcases hcase with ⟨-, rfl⟩ | ⟨-, -, rfl⟩ <;> rw [begin_eq]
  all_goals
    refine { hlog with requests := ?_, items := hlog.items, bytes := hlog.bytes }
    change (e.log (.began e.begun r)).requestsHandedIn + 0 = _
    simp only [requestsPending, held, hopen, List.length_nil]
    exact hrequests.trans (by omega)

lemma attended (h : Accounted 0 e) (he : e.attended? = some e') : Accounted 0 e' := by
  obtain ⟨n, hd, -, rfl⟩ := attended?_eq_some he
  exact h.setDispatcher (by simp [held, hd])

lemma resume (h : Accounted 0 e) (he : e.resume? = some e') : Accounted 0 e' := by
  obtain ⟨hd, rfl⟩ := resume?_eq_some he
  exact h.setDispatcher (by simp [held, hd])

lemma drained (h : Accounted 0 e) (he : e.drained? = some e') : Accounted 0 e' := by
  obtain ⟨hd, -, rfl⟩ := drained?_eq_some he
  exact h.setDispatcher (by simp [held, hd])

/-! ## Items -/

/-- An item worker goes on, and what it had is counted, still with it or gone back to the queue. -/
lemma setItem {v : ItemWorker κ V} (h : Accounted c e) (w : ItemWorker κ V) (activity : Activity)
    (stats : Stats) (items : Queue (Envelope κ V)) (permits : Nat)
    (hv : e.itemWorkers[k]? = some v)
    (hs : requestsSettled stats = requestsSettled e.stats) (hr : stats.received = e.stats.received)
    (hl : stats.statuses = e.stats.statuses) (hb : stats.bytes = e.stats.bytes)
    (hq : itemsSettled stats + items.waiting.length + w.isBusy.toNat =
      itemsSettled e.stats + e.items.waiting.length + v.isBusy.toNat) :
    Accounted c { e with
      activity := activity, stats := stats, items := items, itemPermits := permits,
      itemWorkers := e.itemWorkers.set k w } where
  requests := by
    dsimp only
    rw [hs]
    exact h.requests
  items := by
    have hitems := h.items
    have hbusy := Orderly.countP_set_add (p := (·.isBusy)) (w := w) hv
    simp only [itemsHandedIn, itemsPending] at hitems ⊢
    omega
  received := by
    dsimp only
    rw [hr, hl]
    exact h.received
  bytes := hb.trans h.bytes

lemma receiveItem (h : Accounted c e) (he : e.receiveItem? k = some e') : Accounted c e' := by
  obtain ⟨hk, ⟨i, rest, hw, rfl⟩ | ⟨hw, hc, rfl⟩⟩ := receiveItem?_eq_some he
  · exact h.setItem (.holding i) e.activity e.stats ⟨rest, e.items.closed⟩ e.itemPermits hk
      rfl rfl rfl rfl (by simp [hw, ItemWorker.isBusy, ItemWorker.isHolding,
        ItemWorker.isProcessing]; omega)
  · exact h.setItem .ended e.activity e.stats e.items e.itemPermits hk rfl rfl rfl rfl rfl

lemma finishItem {v : ItemWorker κ V} (h : Accounted c e) (hv : e.itemWorkers[k]? = some v)
    (hb : v.isBusy = true) (passed : Bool) : Accounted c (e.finishItem k passed) := by
  rw [finishItem_eq]
  have hone : v.isBusy.toNat = 1 := by rw [hb]; rfl
  cases passed with
  | false =>
    have hset := h.setItem .idle { e.activity with activeItems := e.activity.activeItems - 1 }
      { e.stats with itemsDropped := e.stats.itemsDropped + 1 } e.items (e.itemPermits + 1) hv
      rfl rfl rfl rfl (by rw [hone]; simp only [itemsSettled]; change _ + 0 = _; omega)
    exact hset.log (.itemFinished k false) rfl rfl rfl
  | true =>
    have hset := h.setItem .idle { e.activity with activeItems := e.activity.activeItems - 1 }
      { e.stats with processed := e.stats.processed + 1 } e.items (e.itemPermits + 1) hv
      rfl rfl rfl rfl (by rw [hone]; simp only [itemsSettled]; change _ + 0 = _; omega)
    exact hset.log (.itemFinished k true) rfl rfl rfl

lemma nextStage {v : ItemWorker κ V} (h : Accounted c e) (hv : e.itemWorkers[k]? = some v)
    (hb : v.isBusy = true) (i : Envelope κ V) (stages : List (Stage τ)) :
    Accounted c (e.nextStage k i stages) := by
  obtain hn | ⟨stage, later, hn⟩ := nextStage_cases e k i stages <;> rw [hn]
  · exact h.finishItem hv hb true
  · have hset := h.setItem (.processing i stage later) e.activity e.stats e.items e.itemPermits hv
      rfl rfl rfl rfl (by rw [hb]; rfl)
    exact hset.log (.staged k stage i) rfl rfl rfl

lemma beginItem [DecidableEq τ] (h : Accounted c e) (he : e.beginItem? k = some e') :
    Accounted c e' := by
  obtain ⟨i, hk, -, rfl⟩ := beginItem?_eq_some he
  have hlog := h.log (.itemBegan k i) rfl rfl rfl
  have hd : Accounted c { e with
      activity := { e.activity with
        activeItems := e.activity.activeItems + 1, queuedItems := e.activity.queuedItems - 1 }
      itemPermits := e.itemPermits - 1
      journal := .itemBegan k i :: e.journal } := { hlog with }
  exact hd.nextStage (v := .holding i) hk rfl i _

lemma judge {verdict : Verdict V} (h : Accounted c e) (he : e.judge? k verdict = some e') :
    Accounted c e' := by
  obtain ⟨i, stage, later, hk, ⟨j, rfl⟩ | rfl⟩ := judge?_eq_some he
  · exact h.nextStage hk rfl j later
  · exact h.finishItem hk rfl false

lemma actItem {effect : Effect κ V} (h : Accounted c e) (he : e.actItem? k effect = some e') :
    Accounted c e' := by
  obtain ⟨-, -, -, -, rfl⟩ := actItem?_eq_some he
  exact h.perform effect

/-! ## Starting and closing -/

lemma start (h : Accounted 0 e) (ho : Orderly e) : Accounted 0 e.start.2 := by
  obtain hs | ⟨hs, hstart⟩ := start_cases e
  · rw [hs]
    exact { h with }
  · rw [hstart]
    refine foldl_perform_induction (fun _ effect hd => hd.perform effect) _ _ ?_
    obtain ⟨hoff, hnone, -⟩ := ho.startable hs
    have hrequests := h.requests
    have hitems := h.items
    simp only [requestsHandedIn, requestsPending, held, hoff] at hrequests
    simp only [itemsHandedIn, itemsPending, hnone, List.countP_nil] at hitems
    refine { h with requests := hrequests, items := ?_, bytes := h.bytes }
    simp only [itemsHandedIn, itemsPending, ignite]
    rw [Orderly.countP_replicate_idle rfl]
    exact hitems

lemma close (h : Accounted 0 e) (he : e.close? = some e') : Accounted 0 e' := by
  obtain ⟨hc, rfl⟩ := close?_eq_some he
  have hlog := h.log (.cleared e.requests.waiting) rfl rfl rfl
  have hrequests := hlog.requests
  have hitems := hlog.items
  simp only [requestsPending, Engine.log, hc, Closing.owedRequests] at hrequests
  simp only [itemsPending, Engine.log, hc, Closing.clearedItems] at hitems
  refine { hlog with requests := hrequests.trans ?_, items := hitems }
  simp only [requestsPending, Closing.owedRequests, List.length_nil]
  change requestsSettled e.stats + (_ + e.held.length + _ + 0) =
    requestsSettled e.stats + (0 + e.held.length + _ + _)
  omega

/-- The requests that waited when the queue was closed are those that are still counted as waiting
when the dispatcher has ended. -/
lemma discardRequests (h : Accounted 0 e) (ho : Orderly e) (he : e.discardRequests? = some e') :
    Accounted 0 e' := by
  obtain ⟨n, hc, hend, rfl⟩ := discardRequests?_eq_some he
  have hclosing := ho.closing
  have hqueued := ho.queued
  have hrequests := h.requests
  have hitems := h.items
  simp only [ClosingFits, hc] at hclosing
  simp only [hc, Closing.clearedRequests, ho.waiting_of_closed hclosing, List.length_nil,
    Orderly.held_of_ended hend] at hqueued
  simp only [requestsHandedIn, requestsPending, hc, Closing.owedRequests] at hrequests
  simp only [itemsHandedIn, itemsPending, hc, Closing.clearedItems] at hitems
  refine { h with requests := ?_, items := ?_ }
  · simp only [requestsHandedIn, requestsPending, Closing.owedRequests]
    change _ = _ + (_ + e.held.length + _ + _)
    omega
  · simp only [itemsHandedIn, itemsPending, Closing.clearedItems, List.length_nil]
    omega

/-- The items that waited when the queue was closed are those that are still counted as waiting
when the item workers have ended. -/
lemma discardItems (h : Accounted 0 e) (ho : Orderly e) (he : e.discardItems? = some e') :
    Accounted 0 e' := by
  obtain ⟨d, n, hc, hend, rfl⟩ := discardItems?_eq_some he
  have hclosing := ho.closing
  have hqueued := ho.queuedItems
  simp only [ClosingFits, hc] at hclosing
  simp only [hc, Closing.clearedItems, ho.items_of_closed hclosing.2.2, List.length_nil,
    Orderly.countP_holding_of_ended hend] at hqueued
  have hlog := h.log (.discarded d e.activity.queuedItems) rfl rfl rfl
  have hrequests := hlog.requests
  have hitems := hlog.items
  simp only [requestsPending, Engine.log, hc, Closing.owedRequests, requestsSettled] at hrequests
  simp only [itemsPending, Engine.log, hc, Closing.clearedItems, itemsSettled] at hitems
  obtain hnext | hnext := Orderly.closingFrom_cases e 0 <;> rw [hnext]
  all_goals
    refine { hlog with requests := hrequests.trans ?_, items := hitems.trans ?_ }
    · simp only [requestsPending, Closing.owedRequests, requestsSettled, Stats.recordDiscarded]
      change _ + (_ + e.held.length + _ + d) = _ + (_ + e.held.length + _ + 0)
      omega
    · simp only [itemsPending, Closing.clearedItems, itemsSettled, Stats.recordDiscarded]
      omega

lemma closePipeline (h : Accounted 0 e) (he : e.closePipeline? = some e') : Accounted 0 e' := by
  obtain ⟨i, hc, rfl⟩ := closePipeline?_eq_some he
  have hlog := h.log (.pipelineClosed i) rfl rfl rfl
  have hrequests := hlog.requests
  have hitems := hlog.items
  simp only [requestsPending, Engine.log, hc, Closing.owedRequests] at hrequests
  simp only [itemsPending, Engine.log, hc, Closing.clearedItems] at hitems
  obtain hnext | hnext := Orderly.closingFrom_cases e (i + 1) <;> rw [hnext]
  all_goals exact { hlog with requests := hrequests, items := hitems }

/-! ## Every reachable engine -/

lemma new (setup : Setup τ) (seeds : List (Request κ)) :
    Accounted 0 (.new setup seeds : Engine κ V) where
  requests := rfl
  items := rfl
  received := rfl
  bytes := rfl

variable [DecidableEq τ]

/-- Every move keeps the balance. -/
theorem step (m : Move κ V) (h : Accounted 0 e) (ho : Orderly e) (he : e.step? m = some e') :
    Accounted 0 e' := by
  cases m with
  | start =>
    obtain rfl := Option.some.inj he
    exact h.start ho
  | ask effect =>
    obtain rfl := Option.some.inj he
    exact h.perform effect
  | receive => exact h.receive he
  | launch => exact h.launch he
  | attended => exact h.attended he
  | resume => exact h.resume he
  | drained => exact h.drained he
  | send n => exact h.send ho he
  | answer n outcome => exact h.answer ho he
  | act n effect => exact h.act ho he
  | reply n next => exact h.reply ho he
  | panic n => exact h.panic ho he
  | receiveItem k => exact h.receiveItem he
  | beginItem k => exact h.beginItem he
  | actItem k effect => exact h.actItem he
  | judge k verdict => exact h.judge he
  | close => exact h.close he
  | discardRequests => exact h.discardRequests ho he
  | discardItems => exact h.discardItems ho he
  | closePipeline => exact h.closePipeline he

end Accounted

end WebCrawl.Engine
