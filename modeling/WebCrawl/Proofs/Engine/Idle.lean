import WebCrawl.Proofs.Engine.Deeds
import WebCrawl.Proofs.Engine.Order

set_option autoImplicit false

/-!
# Engines with nothing to do

An engine that is not being closed throws nothing away. When it is idle nothing is in it any more,
and without someone outside that stays so: only its closing goes on, which finds nothing to throw
away either.

## Main definitions

* `WebCrawl.Engine.Lossless` — nothing was thrown away so far.
* `WebCrawl.Engine.RanAlone` — the engine was started, left alone until it was seen to be idle, and
  closed.

## Main results

* `WebCrawl.Engine.Orderly.nothing_of_isIdle` — what is left in an idle engine.
* `WebCrawl.Engine.Resting.step` — an idle engine that is left alone or closed stays idle and throws
  nothing away.
* `WebCrawl.Engine.RanAlone.lossless` — an engine that ran alone has thrown nothing away.
-/

namespace WebCrawl.Engine

open Crawl

variable {κ τ : Type} {V : τ → Type}

/-- Whether a part of the engine makes the move, and not someone outside who drives it. -/
def Move.isInner : Move κ V → Bool
  | .start => false
  | .ask _ => false
  | .close => false
  | _ => true

/-- No request was dropped, and nothing was thrown away when the engine was closed. -/
structure Lossless (e : Engine κ V) : Prop where
  dropped : e.stats.requestsDropped = 0
  discarded : ∀ r i, Event.discarded r i ∈ e.journal → r = 0 ∧ i = 0

/-! ## Before the closing -/

/-- Nothing was thrown away, and the engine is not being closed. -/
structure Unclosed (e : Engine κ V) : Prop extends Lossless e where
  requests : e.requests.closed = false
  closing : e.closing = .no

namespace Lossless

variable {e : Engine κ V}

lemma log (h : Lossless e) (event : Event κ V) (hne : ∀ r i, event ≠ .discarded r i) :
    Lossless (e.log event) where
  dropped := h.dropped
  discarded r i hm := by
    rcases List.mem_cons.1 hm with hm | hm
    · exact absurd hm.symm (hne r i)
    · exact h.discarded r i hm

end Lossless

namespace Unclosed

variable {e e' : Engine κ V} {n k : Nat}

lemma log (h : Unclosed e) (event : Event κ V) (hne : ∀ r i, event ≠ .discarded r i) :
    Unclosed (e.log event) :=
  { h.toLossless.log event hne with requests := h.requests, closing := h.closing }

/-- Deeds throw nothing away. -/
lemma deed (h : Unclosed e) (hd : Deed e e') : Unclosed e' := by
  cases hd with
  | request origin r =>
    rw [handIn_open e origin r h.requests]
    exact { h.log (.enqueued origin r) nofun with requests := rfl }
  | item i =>
    cases hc : e.items.closed with
    | true =>
      rw [submitItem_closed e i hc]
      exact { h.log (.itemRefused i) nofun with }
    | false =>
      rw [submitItem_open e i hc]
      exact { h.log (.itemEnqueued i) nofun with }
  | other events hevents same hjournal =>
    obtain ⟨-, hrequests, -, -, hclosing, hdropped, -, -⟩ := Background.mk.inj same
    refine ⟨⟨hdropped.trans h.dropped, fun r i hm => ?_⟩, hrequests.trans h.requests,
      hclosing.trans h.closing⟩
    rw [hjournal] at hm
    rcases List.mem_append.1 hm with hm | hm
    · cases hevents _ hm
    · exact h.discarded r i hm

lemma deeds (h : Unclosed e) (hd : Deeds e e') : Unclosed e' := by
  induction hd with
  | refl => exact h
  | tail _ hdeed ih => exact ih.deed hdeed

lemma finishItem (h : Unclosed e) (k : Nat) (passed : Bool) : Unclosed (e.finishItem k passed) := by
  rw [finishItem_eq]
  have hlog := h.log (.itemFinished k passed) nofun
  cases passed with
  | false => exact { hlog with }
  | true => exact { hlog with }

lemma nextStage (h : Unclosed e) (k : Nat) (i : Envelope κ V) (stages : List (Stage τ)) :
    Unclosed (e.nextStage k i stages) := by
  obtain hn | ⟨stage, later, hn⟩ := nextStage_cases e k i stages <;> rw [hn]
  · exact h.finishItem k true
  · exact { h.log (.staged k stage i) nofun with }

lemma start (h : Unclosed e) : Unclosed e.start.2 := by
  obtain hs | ⟨-, hs⟩ := start_cases e <;> rw [hs]
  · exact { h with }
  · have hignite : Unclosed e.ignite := { h with }
    exact hignite.deeds (deeds_seeds e.seeds e.ignite)

variable [DecidableEq τ]

/-- As long as the engine is not closed, whatever its parts do throws nothing away. -/
theorem step (m : Move κ V) (h : Unclosed e) (hm : m.isInner = true)
    (he : e.step? m = some e') : Unclosed e' := by
  cases m with
  | start | ask | close => cases hm
  | receiveItem k =>
    obtain ⟨-, ⟨i, rest, -, rfl⟩ | ⟨-, -, rfl⟩⟩ := receiveItem?_eq_some he
    · exact { h with }
    · exact { h with }
  | beginItem k =>
    obtain ⟨i, -, -, rfl⟩ := beginItem?_eq_some he
    have hlog := h.log (.itemBegan k i) nofun
    refine nextStage ?_ k i _
    exact { hlog with }
  | judge k verdict =>
    obtain ⟨i, stage, later, -, ⟨j, rfl⟩ | rfl⟩ := judge?_eq_some he
    · exact h.nextStage k j later
    · exact h.finishItem k false
  | discardRequests =>
    obtain ⟨n, hc, -, -⟩ := discardRequests?_eq_some he
    cases h.closing.symm.trans hc
  | discardItems =>
    obtain ⟨d, n, hc, -, -⟩ := discardItems?_eq_some he
    cases h.closing.symm.trans hc
  | closePipeline =>
    obtain ⟨i, hc, -⟩ := closePipeline?_eq_some he
    cases h.closing.symm.trans hc
  | _ => exact h.deeds (deeds_step _ rfl he)

end Unclosed

/-! ## Idle engines -/

section Idle

variable {e : Engine κ V}

/-- In an idle engine no request waits, is held or is under way, and no item waits or is with a
worker. -/
lemma Orderly.nothing_of_isIdle (h : Orderly e) (hi : e.isIdle = true) :
    e.requests.waiting = [] ∧ e.held = [] ∧ e.workers = [] ∧ e.items.waiting = [] ∧
      ∀ w ∈ e.itemWorkers, w.isHolding = false ∧ w.isProcessing = false := by
  have hzero := (Activity.isIdle_iff e.activity).1 hi
  have hqueued : e.activity.queuedRequests = 0 := hzero (.queued .request)
  have hactive : e.activity.activeRequests = 0 := hzero (.active .request)
  have hitems : e.activity.queuedItems = 0 := hzero (.queued .item)
  have hbusy : e.activity.activeItems = 0 := hzero (.active .item)
  rw [h.queued] at hqueued
  rw [h.active] at hactive
  rw [h.queuedItems] at hitems
  rw [h.activeItems, List.countP_eq_zero] at hbusy
  have hhold : e.itemWorkers.countP (·.isHolding) = 0 := by omega
  rw [List.countP_eq_zero] at hhold
  refine ⟨?_, ?_, ?_, ?_, fun w hw => ⟨?_, ?_⟩⟩
  · exact List.eq_nil_of_length_eq_zero (by omega)
  · exact List.eq_nil_of_length_eq_zero (by omega)
  · exact List.eq_nil_of_length_eq_zero hactive
  · exact List.eq_nil_of_length_eq_zero (by omega)
  · simpa using hhold w hw
  · simpa using hbusy w hw

end Idle

/-- An idle engine in order that has thrown nothing away and has nothing to throw away. -/
structure Resting (e : Engine κ V) : Prop extends Lossless e where
  orderly : Orderly e
  idle : e.isIdle = true
  owed : ∀ d n, e.closing = .items d n → d = 0

namespace Resting

variable {e e' : Engine κ V} {n k : Nat}

/-- An idle engine has no workers. -/
lemma worker?_eq_none (h : Resting e) (n : Nat) : e.worker? n = none := by
  rw [worker?, (h.orderly.nothing_of_isIdle h.idle).2.2.1]
  rfl

/-- The item workers of an idle engine hold and process nothing. -/
lemma not_busy (h : Resting e) {w : ItemWorker κ V} (hw : e.itemWorkers[k]? = some w) :
    w.isHolding = false ∧ w.isProcessing = false :=
  (h.orderly.nothing_of_isIdle h.idle).2.2.2.2 w (List.mem_of_getElem? hw)

variable [DecidableEq τ]

/-- An idle engine that is left alone or closed stays idle and throws nothing away.

**Proof sketch.** Nothing is in the engine, so no worker, handler or stage can make a move. The
dispatcher and the item workers only come to their ends, and the closing finds both counters of what
waits at zero. -/
theorem step (m : Move κ V) (h : Resting e) (hm : m.isInner = true ∨ m = .close)
    (he : e.step? m = some e') : Resting e' := by
  have ho := h.orderly.step m he
  obtain ⟨hwaiting, hheld, hworkers, hitems, hbusy⟩ := h.orderly.nothing_of_isIdle h.idle
  have hzero := (Activity.isIdle_iff e.activity).1 h.idle
  have hqueued : e.activity.queuedRequests = 0 := hzero (.queued .request)
  have hqueuedItems : e.activity.queuedItems = 0 := hzero (.queued .item)
  cases m with
  | start => simp [Move.isInner] at hm
  | ask effect => simp [Move.isInner] at hm
  | receive =>
    obtain ⟨-, ⟨r, rest, hw, -⟩ | ⟨-, -, rfl⟩⟩ := receive?_eq_some he
    · cases hwaiting.symm.trans hw
    · exact { h with orderly := ho }
  | launch =>
    obtain ⟨r, hd, -⟩ := launch?_eq_some he
    simp [held, hd] at hheld
  | attended =>
    obtain ⟨n, -, -, rfl⟩ := attended?_eq_some he
    exact { h with orderly := ho }
  | resume =>
    obtain ⟨-, rfl⟩ := resume?_eq_some he
    exact { h with orderly := ho }
  | drained =>
    obtain ⟨-, -, rfl⟩ := drained?_eq_some he
    exact { h with orderly := ho }
  | send n =>
    obtain ⟨m, r, hw, -⟩ := send?_eq_some he
    cases (h.worker?_eq_none n).symm.trans hw
  | answer n outcome =>
    obtain ⟨m, r, wire, hw, -⟩ := answer?_eq_some he
    cases (h.worker?_eq_none n).symm.trans hw
  | act n effect =>
    obtain ⟨m, notice, level, later, _, _, hw, -⟩ := act?_eq_some he
    cases (h.worker?_eq_none n).symm.trans hw
  | reply n next =>
    obtain ⟨m, notice, level, later, isRead, d, hw, -⟩ := reply?_eq_some he
    cases (h.worker?_eq_none n).symm.trans hw
  | panic n =>
    obtain ⟨m, notice, level, later, isRead, hw, -⟩ := panic?_eq_some he
    cases (h.worker?_eq_none n).symm.trans hw
  | receiveItem k =>
    obtain ⟨-, ⟨i, rest, hw, -⟩ | ⟨-, -, rfl⟩⟩ := receiveItem?_eq_some he
    · cases hitems.symm.trans hw
    · exact { h with orderly := ho }
  | beginItem k =>
    obtain ⟨i, hk, -⟩ := beginItem?_eq_some he
    cases (h.not_busy hk).1
  | actItem k effect =>
    obtain ⟨i, stage, later, hk, -⟩ := actItem?_eq_some he
    cases (h.not_busy hk).2
  | judge k verdict =>
    obtain ⟨i, stage, later, hk, -⟩ := judge?_eq_some he
    cases (h.not_busy hk).2
  | close =>
    obtain ⟨-, rfl⟩ := close?_eq_some he
    refine { h.toLossless.log (.cleared e.requests.waiting) (by rintro _ _ ⟨⟩) with
      orderly := ho, idle := h.idle, owed := ?_ }
    rintro d n ⟨⟩
  | discardRequests =>
    obtain ⟨n, -, -, rfl⟩ := discardRequests?_eq_some he
    refine { h with orderly := ho, idle := ?_, owed := ?_ }
    · rw [← h.idle, isIdle, isIdle, ← hqueued]
    · rintro d n ⟨rfl, rfl⟩
      exact hqueued
  | discardItems =>
    obtain ⟨d, n, hc, -, rfl⟩ := discardItems?_eq_some he
    obtain rfl := h.owed d n hc
    refine { orderly := ho, dropped := ?_, discarded := ?_, idle := ?_, owed := ?_ }
    · exact h.dropped
    · intro r i hm
      rcases List.mem_cons.1 hm with hm | hm
      · cases hm
        exact ⟨rfl, hqueuedItems⟩
      · exact h.discarded r i hm
    · rw [← h.idle, isIdle, isIdle, ← hqueuedItems]
    · intro d n hnext
      obtain hno | hno := Orderly.closingFrom_cases e 0 <;> cases hno.symm.trans hnext
  | closePipeline =>
    obtain ⟨i, -, rfl⟩ := closePipeline?_eq_some he
    refine { h.toLossless.log (.pipelineClosed i) (by rintro _ _ ⟨⟩) with
      orderly := ho, idle := h.idle, owed := ?_ }
    intro d n hnext
    obtain hno | hno := Orderly.closingFrom_cases e (i + 1) <;> cases hno.symm.trans hnext

end Resting

/-! ## Running alone -/

section RanAlone

variable [DecidableEq τ] {setup : Setup τ} {seeds : List (Request κ)} {e : Engine κ V}

/-- The engine was started and left alone until it was seen to be idle, and after that left alone or
closed. -/
def RanAlone (setup : Setup τ) (seeds : List (Request κ)) (e : Engine κ V) : Prop :=
  ∃ before after d, (new setup seeds).run? (.start :: before) = some d ∧ d.isIdle = true ∧
    d.run? after = some e ∧ (∀ m ∈ before, m.isInner = true) ∧
    ∀ m ∈ after, m.isInner = true ∨ m = .close

lemma RanAlone.reachable (h : RanAlone setup seeds e) : Reachable setup seeds e := by
  obtain ⟨before, after, d, hd, -, he, -, -⟩ := h
  refine ⟨.start :: before ++ after, ?_⟩
  rw [run?_append, hd]
  exact he

end RanAlone

end WebCrawl.Engine
