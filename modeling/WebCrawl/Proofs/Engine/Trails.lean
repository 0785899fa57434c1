import Mathlib.Algebra.BigOperators.Group.List.Basic
import Mathlib.Algebra.GroupWithZero.Nat
import WebCrawl.Proofs.Engine.Deeds
import WebCrawl.Proofs.Engine.Order

set_option autoImplicit false

/-!
# What is written down of items

The journal tells what happens with each item worker, and the counters of items fit what it tells.
Most of what an engine does has nothing to do with its item workers, so that what is true of them is
affected by few moves only.

## Main definitions

* `WebCrawl.Engine.trail` — what has happened with an item worker.
* `WebCrawl.Engine.itemsLost` — the items that were lost before they began.
* `WebCrawl.Engine.ItemsFit` — the counters of items fit the journal.
* `WebCrawl.Engine.Spares` — one engine comes from another without anything that concerns its item
  workers.

## Main results

* `WebCrawl.Engine.spares_step` — the moves that do not concern the item workers.
* `WebCrawl.Engine.Reachable.itemsFit` — the counters of items fit the journal of every reachable
  engine.
-/

namespace WebCrawl.Engine

open Crawl

variable {κ τ : Type} {V : τ → Type}

/-! ## What is written down of items -/

/-- The item worker with which something happens to an item. -/
def Event.itemWorker? : Event κ V → Option Nat
  | .itemBegan k _ => some k
  | .staged k _ _ => some k
  | .itemFinished k _ => some k
  | _ => none

/-- Whether an item ends after it has passed all stages, or ends otherwise. -/
def Event.endsItemAs (passed : Bool) : Event κ V → Bool
  | .itemFinished _ p => p == passed
  | _ => false

/-- The items that are lost before they begin. -/
def Event.itemsLost : Event κ V → Nat
  | .itemRefused _ => 1
  | .discarded _ items => items
  | _ => 0

/-- What has happened with an item worker, in order. -/
def trail (e : Engine κ V) (k : Nat) : List (Event κ V) :=
  (e.journal.filter (·.itemWorker? = some k)).reverse

/-- The items that were refused or thrown away. -/
def itemsLost (e : Engine κ V) : Nat := (e.journal.map Event.itemsLost).sum

/-- The counters of items fit the journal, and so do the items that wait, are held or have begun. -/
structure ItemsFit (e : Engine κ V) : Prop where
  processed : e.stats.processed = e.journal.countP (Event.endsItemAs true)
  dropped : e.stats.itemsDropped = e.journal.countP (Event.endsItemAs false) + e.itemsLost
  waiting : ∀ i ∈ e.items.waiting, .itemEnqueued i ∈ e.journal
  held : ∀ i, .holding i ∈ e.itemWorkers → .itemEnqueued i ∈ e.journal
  begun : ∀ k i, .itemBegan k i ∈ e.journal → .itemEnqueued i ∈ e.journal
  closed_of_ended : .ended ∈ e.itemWorkers → e.items.closed = true

/-- One engine comes from another without anything that concerns its item workers. -/
structure Spares (e e' : Engine κ V) : Prop where
  setup : e'.setup = e.setup
  itemWorkers : e'.itemWorkers = e.itemWorkers
  trail : ∀ k, e'.trail k = e.trail k
  fits : ItemsFit e → ItemsFit e'

section Trail

variable {e e' : Engine κ V} {k : Nat}

/-- One more thing happens. -/
lemma trail_of_cons {event : Event κ V} (h : e'.journal = event :: e.journal) (k : Nat) :
    e'.trail k = e.trail k ++ if event.itemWorker? = some k then [event] else [] := by
  unfold trail
  rw [h, List.filter_cons]
  split <;> simp_all

/-- What happens with other workers, or with none, does not belong to the trail. -/
lemma trail_of_append {events : List (Event κ V)} (h : e'.journal = events ++ e.journal)
    (hevents : ∀ event ∈ events, event.itemWorker? ≠ some k) : e'.trail k = e.trail k := by
  have hfilter : events.filter (·.itemWorker? = some k) = [] :=
    List.filter_eq_nil_iff.2 fun event hevent => by simp [hevents event hevent]
  unfold trail
  rw [h, List.filter_append, hfilter, List.nil_append]

end Trail

/-! ## What does not concern the item workers -/

namespace Spares

variable {e d e' : Engine κ V}

lemma refl (e : Engine κ V) : Spares e e := ⟨rfl, rfl, fun _ => rfl, id⟩

lemma trans (h : Spares e d) (h' : Spares d e') : Spares e e' where
  setup := h'.setup.trans h.setup
  itemWorkers := h'.itemWorkers.trans h.itemWorkers
  trail k := (h'.trail k).trans (h.trail k)
  fits he := h'.fits (h.fits he)

/-- Some things happen with no item worker, and the counters of items follow. -/
lemma happen (events : List (Event κ V)) (hnone : ∀ event ∈ events, event.itemWorker? = none)
    (hsetup : e'.setup = e.setup) (hworkers : e'.itemWorkers = e.itemWorkers)
    (hjournal : e'.journal = events ++ e.journal)
    (hwaiting : ∀ i ∈ e'.items.waiting, i ∈ e.items.waiting ∨ .itemEnqueued i ∈ events)
    (hclosed : e.items.closed = true → e'.items.closed = true)
    (hprocessed : e'.stats.processed = e.stats.processed)
    (hdropped : e'.stats.itemsDropped = e.stats.itemsDropped + (events.map Event.itemsLost).sum) :
    Spares e e' where
  setup := hsetup
  itemWorkers := hworkers
  trail k := trail_of_append hjournal fun event hevent => by simp [hnone event hevent]
  fits h := by
    have hends : ∀ passed, events.countP (Event.endsItemAs passed) = 0 := by
      intro passed
      refine List.countP_eq_zero.2 fun event hevent => ?_
      cases event with
      | itemFinished k p => exact absurd (hnone _ hevent) (by simp [Event.itemWorker?])
      | _ => simp [Event.endsItemAs]
    have hmem : ∀ i, .itemEnqueued i ∈ e.journal → .itemEnqueued i ∈ e'.journal := fun i hi => by
      rw [hjournal]
      exact List.mem_append_right _ hi
    constructor
    · rw [hprocessed, h.processed, hjournal, List.countP_append, hends, Nat.zero_add]
    · rw [hdropped, h.dropped, itemsLost, itemsLost, hjournal, List.countP_append, hends,
        List.map_append, List.sum_append]
      omega
    · intro i hi
      obtain hi | hi := hwaiting i hi
      · exact hmem i (h.waiting i hi)
      · rw [hjournal]
        exact List.mem_append_left _ hi
    · intro i hi
      exact hmem i (h.held i (hworkers ▸ hi))
    · intro k i hi
      rw [hjournal] at hi
      rcases List.mem_append.1 hi with hi | hi
      · exact absurd (hnone _ hi) (by simp [Event.itemWorker?])
      · exact hmem i (h.begun k i hi)
    · intro hended
      exact hclosed (h.closed_of_ended (hworkers ▸ hended))

end Spares

section Deeds

variable {e e' : Engine κ V}

/-- What happens with a worker does not happen with an item worker. -/
lemma Event.itemWorker?_of_isOfWorker {event : Event κ V} (h : event.isOfWorker = true) :
    event.itemWorker? = none ∧ event.itemsLost = 0 := by
  cases event <;> first | exact ⟨rfl, rfl⟩ | cases h

/-- Deeds do not concern the item workers. Only an item that is handed in concerns the items, and it
waits or is lost. -/
lemma Deed.spares (h : Deed e e') : Spares e e' := by
  cases h with
  | request origin r =>
    cases hc : e.requests.closed with
    | true =>
      rw [handIn_closed e origin r hc]
      exact .happen [.refused origin r] (List.forall_mem_singleton.2 rfl) rfl rfl rfl
        (fun _ hi => .inl hi) id rfl rfl
    | false =>
      rw [handIn_open e origin r hc]
      exact .happen [.enqueued origin r] (List.forall_mem_singleton.2 rfl) rfl rfl rfl
        (fun _ hi => .inl hi) id rfl rfl
  | item i =>
    cases hc : e.items.closed with
    | true =>
      rw [submitItem_closed e i hc]
      exact .happen [.itemRefused i] (List.forall_mem_singleton.2 rfl) rfl rfl rfl
        (fun _ hi => .inl hi) id rfl rfl
    | false =>
      rw [submitItem_open e i hc]
      refine .happen [.itemEnqueued i] (List.forall_mem_singleton.2 rfl) rfl rfl rfl
        (fun j hj => ?_) (fun hclosed => absurd hclosed (by simp [hc])) rfl rfl
      rcases List.mem_append.1 hj with hj | hj
      · exact .inl hj
      · exact .inr (by rw [List.mem_singleton.1 hj]; exact List.mem_singleton_self _)
  | other events hevents same hjournal =>
    obtain ⟨hsetup, -, hitems, hworkers, -, -, hdropped, hprocessed⟩ := Background.mk.inj same
    have hlost : (events.map Event.itemsLost).sum = 0 :=
      List.sum_eq_zero (List.forall_mem_map.2 fun event hevent =>
        (Event.itemWorker?_of_isOfWorker (hevents event hevent)).2)
    exact .happen events (fun event hevent => (Event.itemWorker?_of_isOfWorker (hevents _ hevent)).1)
      hsetup hworkers hjournal (fun _ hi => .inl (hitems ▸ hi)) (fun hclosed => hitems ▸ hclosed)
      hprocessed (by rw [hdropped, hlost, Nat.add_zero])

lemma Deeds.spares (h : Deeds e e') : Spares e e' := by
  induction h with
  | refl => exact .refl e
  | tail _ hdeed ih => exact ih.trans hdeed.spares

end Deeds

/-! ## Item workers -/

/-- The engine after an item began with a worker and before it comes to its first stage. -/
def admitItem (e : Engine κ V) (k : Nat) (i : Envelope κ V) : Engine κ V :=
  { e with
    activity := { e.activity with
      activeItems := e.activity.activeItems + 1, queuedItems := e.activity.queuedItems - 1 }
    itemPermits := e.itemPermits - 1
    journal := .itemBegan k i :: e.journal }

/-- An item that begins comes to its first stage, or ends at once if there is none. -/
lemma beginItem?_admits [DecidableEq τ] {e e' : Engine κ V} {k : Nat}
    (h : e.beginItem? k = some e') :
    ∃ i, e.itemWorkers[k]? = some (.holding i) ∧ 0 < e.itemPermits ∧
      e' = (e.admitItem k i).nextStage k i (e.stagesOf i.item.kind) := beginItem?_eq_some h

/-- Whether a move is one that an item worker makes by itself, or that sets the item workers going. -/
def Move.drivesItems : Move κ V → Bool
  | .start => true
  | .receiveItem _ => true
  | .beginItem _ => true
  | .judge _ _ => true
  | _ => false

/-- The other moves do not concern the item workers. -/
lemma spares_step [DecidableEq τ] {e e' : Engine κ V} (m : Move κ V) (hm : m.drivesItems = false)
    (he : e.step? m = some e') : Spares e e' := by
  cases m with
  | start | receiveItem | beginItem | judge => cases hm
  | close =>
    obtain ⟨-, rfl⟩ := close?_eq_some he
    exact .happen [.cleared _] (List.forall_mem_singleton.2 rfl) rfl rfl rfl (fun _ hi => .inl hi) id
      rfl rfl
  | discardRequests =>
    obtain ⟨n, -, -, rfl⟩ := discardRequests?_eq_some he
    exact .happen [] (List.forall_mem_nil _) rfl rfl rfl (List.forall_mem_nil _) (fun _ => rfl) rfl
      rfl
  | discardItems =>
    obtain ⟨d, n, -, -, rfl⟩ := discardItems?_eq_some he
    exact .happen [.discarded d _] (List.forall_mem_singleton.2 rfl) rfl rfl rfl
      (fun _ hi => .inl hi) id rfl rfl
  | closePipeline =>
    obtain ⟨i, -, rfl⟩ := closePipeline?_eq_some he
    exact .happen [.pipelineClosed i] (List.forall_mem_singleton.2 rfl) rfl rfl rfl
      (fun _ hi => .inl hi) id rfl rfl
  | _ => exact (deeds_step _ rfl he).spares

/-! ## The counters of items -/

namespace ItemsFit

variable {e e' : Engine κ V} {k : Nat}

/-- An item worker goes on, and what happens with it is counted. -/
lemma setItem (h : ItemsFit e) (w : ItemWorker κ V) (events : List (Event κ V))
    (hworkers : e'.itemWorkers = e.itemWorkers.set k w)
    (hjournal : e'.journal = events ++ e.journal)
    (hlost : ∀ event ∈ events, event.itemsLost = 0)
    (hbegan : ∀ n i, .itemBegan n i ∈ events → .itemEnqueued i ∈ e.journal)
    (hholding : ∀ i, w = .holding i → .itemEnqueued i ∈ e.journal)
    (hended : w = .ended → e.items.closed = true)
    (hwaiting : ∀ i ∈ e'.items.waiting, i ∈ e.items.waiting)
    (hclosed : e'.items.closed = e.items.closed)
    (hprocessed : e'.stats.processed =
      e.stats.processed + events.countP (Event.endsItemAs true))
    (hdropped : e'.stats.itemsDropped =
      e.stats.itemsDropped + events.countP (Event.endsItemAs false)) : ItemsFit e' := by
  have hmem : ∀ i, .itemEnqueued i ∈ e.journal → .itemEnqueued i ∈ e'.journal := fun i hi => by
    rw [hjournal]
    exact List.mem_append_right _ hi
  constructor
  · rw [hprocessed, h.processed, hjournal, List.countP_append, Nat.add_comm]
  · have hnothing : (events.map Event.itemsLost).sum = 0 :=
      List.sum_eq_zero fun n hn => by
        obtain ⟨event, hevent, rfl⟩ := List.mem_map.1 hn
        exact hlost event hevent
    rw [hdropped, h.dropped, itemsLost, itemsLost, hjournal, List.countP_append, List.map_append,
      List.sum_append, hnothing]
    omega
  · exact fun i hi => hmem i (h.waiting i (hwaiting i hi))
  · intro i hi
    rw [hworkers] at hi
    rcases List.mem_or_eq_of_mem_set hi with hi | rfl
    · exact hmem i (h.held i hi)
    · exact hmem i (hholding i rfl)
  · intro n i hi
    rw [hjournal] at hi
    rcases List.mem_append.1 hi with hi | hi
    · exact hmem i (hbegan n i hi)
    · exact hmem i (h.begun n i hi)
  · intro hmemEnded
    rw [hworkers] at hmemEnded
    rw [hclosed]
    rcases List.mem_or_eq_of_mem_set hmemEnded with hi | hi
    · exact h.closed_of_ended hi
    · exact hended hi.symm

/-- An item ends. -/
lemma finishItem (h : ItemsFit e) (k : Nat) (passed : Bool) : ItemsFit (e.finishItem k passed) := by
  rw [finishItem_eq]
  refine h.setItem .idle [.itemFinished k passed] rfl rfl (by simp [Event.itemsLost]) (by simp)
    nofun nofun (fun _ hi => hi) rfl ?_ ?_
  · cases passed <;> rfl
  · cases passed <;> rfl

/-- An item goes on to its next stage, or has passed the last. -/
lemma nextStage (h : ItemsFit e) (k : Nat) (i : Envelope κ V) (stages : List (Stage τ)) :
    ItemsFit (e.nextStage k i stages) := by
  obtain hn | ⟨stage, later, hn⟩ := nextStage_cases e k i stages <;> rw [hn]
  · exact h.finishItem k true
  · exact h.setItem (.processing i stage later) [.staged k stage i] rfl rfl
      (by simp [Event.itemsLost]) (by simp) nofun nofun (fun _ hi => hi) rfl rfl rfl

lemma receiveItem (h : ItemsFit e) (he : e.receiveItem? k = some e') : ItemsFit e' := by
  obtain ⟨-, ⟨i, rest, hw, rfl⟩ | ⟨-, hc, rfl⟩⟩ := receiveItem?_eq_some he
  · refine h.setItem (.holding i) [] rfl rfl (List.forall_mem_nil _)
      (fun _ _ hbegan => absurd hbegan List.not_mem_nil) (fun j hj => ?_) nofun
      (fun j hj => hw ▸ List.mem_cons_of_mem i hj) rfl rfl rfl
    obtain rfl := ItemWorker.holding.inj hj
    exact h.waiting i (hw ▸ List.mem_cons_self ..)
  · exact h.setItem .ended [] rfl rfl (List.forall_mem_nil _)
      (fun _ _ hbegan => absurd hbegan List.not_mem_nil) nofun (fun _ => hc) (fun _ hi => hi) rfl rfl
      rfl

lemma beginItem [DecidableEq τ] (h : ItemsFit e) (he : e.beginItem? k = some e') :
    ItemsFit e' := by
  obtain ⟨i, hk, -, rfl⟩ := beginItem?_admits he
  have hi := h.held i (List.mem_of_getElem? hk)
  have hsame : e.itemWorkers.set k (.holding i) = e.itemWorkers := by
    obtain ⟨hlt, hget⟩ := List.getElem?_eq_some_iff.1 hk
    rw [← hget, List.set_getElem_self]
  have hbegun : ItemsFit (e.admitItem k i) := by
    refine h.setItem (.holding i) [.itemBegan k i] hsame.symm rfl (by simp [Event.itemsLost])
      (fun n j hj => ?_) (fun j hj => ?_) nofun (fun _ hi => hi) rfl rfl rfl
    · obtain ⟨rfl, rfl⟩ := Event.itemBegan.inj (List.mem_singleton.1 hj)
      exact hi
    · obtain rfl := ItemWorker.holding.inj hj
      exact hi
  exact hbegun.nextStage k i _

lemma judge {verdict : Verdict V} (h : ItemsFit e) (he : e.judge? k verdict = some e') :
    ItemsFit e' := by
  obtain ⟨i, stage, later, -, ⟨j, rfl⟩ | rfl⟩ := judge?_eq_some he
  · exact h.nextStage k j later
  · exact h.finishItem k false

lemma start (h : ItemsFit e) : ItemsFit e.start.2 := by
  obtain hs | ⟨-, hs⟩ := start_cases e <;> rw [hs]
  · exact { h with }
  · have hignite : ItemsFit e.ignite := { h with
      held := fun i hi => absurd (List.eq_of_mem_replicate hi) (by simp)
      closed_of_ended := fun hended => absurd (List.eq_of_mem_replicate hended) (by simp) }
    exact (deeds_seeds e.seeds e.ignite).spares.fits hignite

lemma new (setup : Setup τ) (seeds : List (Request κ)) :
    ItemsFit (Engine.new setup seeds : Engine κ V) where
  processed := rfl
  dropped := rfl
  waiting := nofun
  held := nofun
  begun := nofun
  closed_of_ended := nofun

variable [DecidableEq τ]

/-- Every move keeps the counters of items. -/
theorem step (h : ItemsFit e) (m : Move κ V) (he : e.step? m = some e') : ItemsFit e' := by
  by_cases hm : m.drivesItems = false
  · exact (spares_step m hm he).fits h
  · cases m with
    | start =>
      obtain rfl := Option.some.inj he
      exact h.start
    | receiveItem k => exact h.receiveItem he
    | beginItem k => exact h.beginItem he
    | judge k verdict => exact h.judge he
    | _ => exact absurd rfl hm

end ItemsFit

/-- The counters of items fit the journal of every reachable engine. -/
theorem Reachable.itemsFit [DecidableEq τ] {setup : Setup τ} {seeds : List (Request κ)}
    {e : Engine κ V} (h : Reachable setup seeds e) : ItemsFit e :=
  h.induction (.new setup seeds) fun _ m _ hd he => hd.step m he

end WebCrawl.Engine
