import Mathlib.Algebra.BigOperators.Group.Finset.Piecewise
import WebCrawl.Proofs.Engine.Admission
import WebCrawl.Proofs.Engine.Tours
import WebCrawl.Proofs.Engine.Trails

set_option autoImplicit false

/-!
# Items under way

However the parts of an engine take turns, what happens with an item worker is a row of ways of items,
one after the other. Each goes through the stages for its item as it should, all but the last have
ended, and each that has ended is counted once. No stage can keep a worker from its next item: not by
dropping an item, not by an error and not by breaking down.

## Main definitions

* `WebCrawl.Engine.verdictsOf` — what the stages of an item worker have decided in a run.
* `WebCrawl.Engine.Toured` — the trail of an item worker is made of ways of items.
* `WebCrawl.Engine.GoesOn` — an item worker can go on.

## Main results

* `WebCrawl.Engine.Toured.step` — every move keeps the trails of the item workers in this form.
* `WebCrawl.Engine.Reachable.goesOn` — every item worker of a reachable engine can go on.
* `WebCrawl.Engine.items_toured` — in every run, items pass their stages as they should.
-/

namespace WebCrawl.Engine

open Crawl

variable {κ τ : Type} {V : τ → Type}

/-! ## What an item worker has done -/

/-- What a stage has decided about the item of a worker with a move. -/
def Move.verdictOf? (k : Nat) : Move κ V → Option (Verdict V)
  | .judge n verdict => if n = k then some verdict else none
  | _ => none

/-- What the stages have decided about the items of a worker in a run. -/
def verdictsOf (k : Nat) (moves : List (Move κ V)) : List (Verdict V) :=
  moves.filterMap (Move.verdictOf? k)

/-- The way goes through the stages for items of the kind that its item has when it begins. -/
def Tour.IsLawful (setup : Setup τ) (t : Tour κ V) : Prop :=
  ∃ stages, setup.IsChain t.envelope.item.kind stages ∧ t.Follows stages

/-- The ways that are under way with an item worker: the one of the item that is in a stage, if one
is. -/
def ItemWorker.Carries (setup : Setup τ) (current : List (Tour κ V)) : ItemWorker κ V → Prop
  | .processing now stage later => ∃ stages envelope visits,
    setup.IsChain envelope.item.kind stages ∧
      OnWay stages envelope visits now (stage :: later) ∧
      current = [⟨envelope, visits ++ [⟨stage, now, none⟩], none⟩]
  | _ => current = []

/-- The trail of an item worker is made of the ways that have ended and of the one that is under way,
and these have the results that stages have handed back. -/
structure Toured (k : Nat) (results : List (Stage.Result V)) (ended current : List (Tour κ V))
    (e : Engine κ V) : Prop where
  lawful : ∀ t ∈ ended, t.IsLawful e.setup ∧ t.passed? ≠ none
  carries : ∀ w, e.itemWorkers[k]? = some w → w.Carries e.setup current
  absent : e.itemWorkers[k]? = none → ended = [] ∧ current = []
  trail_eq : e.trail k = (ended ++ current).flatMap (·.events k)
  results_eq : results = (ended ++ current).flatMap (·.results)

/-- What an item worker has done is not affected. -/
structure Leaves (k : Nat) (e e' : Engine κ V) : Prop where
  setup : e'.setup = e.setup
  worker : e'.itemWorkers[k]? = e.itemWorkers[k]?
  trail : e'.trail k = e.trail k

section Leaving

variable {e d e' : Engine κ V} {k n : Nat}

lemma Spares.leaves (h : Spares e e') (k : Nat) : Leaves k e e' :=
  ⟨h.setup, by rw [h.itemWorkers], h.trail k⟩

lemma Leaves.trans (h : Leaves k e d) (h' : Leaves k d e') : Leaves k e e' :=
  ⟨h'.setup.trans h.setup, h'.worker.trans h.worker, h'.trail.trans h.trail⟩

/-- Another item worker goes on, and something happens with it. -/
lemma leaves_other (hn : n ≠ k) (w : ItemWorker κ V) (events : List (Event κ V))
    (hevents : ∀ event ∈ events, event.itemWorker? = some n) (hsetup : e'.setup = e.setup)
    (hworkers : e'.itemWorkers = e.itemWorkers.set n w)
    (hjournal : e'.journal = events ++ e.journal) : Leaves k e e' where
  setup := hsetup
  worker := by rw [hworkers, List.getElem?_set_ne hn]
  trail := trail_of_append hjournal fun event hevent => by simp [hevents event hevent, hn]

lemma leaves_finishItem (e : Engine κ V) (hn : n ≠ k) (passed : Bool) :
    Leaves k e (e.finishItem n passed) := by
  rw [finishItem_eq]
  exact leaves_other hn .idle [.itemFinished n passed] (by simp [Event.itemWorker?]) rfl rfl rfl

lemma leaves_nextStage (e : Engine κ V) (hn : n ≠ k) (i : Envelope κ V)
    (stages : List (Stage τ)) : Leaves k e (e.nextStage n i stages) := by
  obtain hs | ⟨stage, later, hs⟩ := nextStage_cases e n i stages <;> rw [hs]
  · exact leaves_finishItem e hn true
  · exact leaves_other hn (.processing i stage later) [.staged n stage i]
      (by simp [Event.itemWorker?]) rfl rfl rfl

lemma leaves_receiveItem (he : e.receiveItem? n = some e') (hn : n ≠ k) : Leaves k e e' := by
  obtain ⟨-, ⟨i, rest, -, rfl⟩ | ⟨-, -, rfl⟩⟩ := receiveItem?_eq_some he
  · exact leaves_other hn (.holding i) [] (List.forall_mem_nil _) rfl rfl rfl
  · exact leaves_other hn .ended [] (List.forall_mem_nil _) rfl rfl rfl

lemma leaves_beginItem [DecidableEq τ] (he : e.beginItem? n = some e') (hn : n ≠ k) :
    Leaves k e e' := by
  obtain ⟨i, -, -, rfl⟩ := beginItem?_admits he
  have hcons : (e.admitItem n i).journal = [.itemBegan n i] ++ e.journal := rfl
  have htrail : (e.admitItem n i).trail k = e.trail k :=
    trail_of_append hcons (by simp [Event.itemWorker?, hn])
  have hbegun : Leaves k e (e.admitItem n i) := ⟨rfl, rfl, htrail⟩
  exact hbegun.trans (leaves_nextStage _ hn i _)

lemma leaves_judge {verdict : Verdict V} (he : e.judge? n verdict = some e') (hn : n ≠ k) :
    Leaves k e e' := by
  obtain ⟨i, stage, later, -, ⟨j, rfl⟩ | rfl⟩ := judge?_eq_some he
  · exact leaves_nextStage e hn j later
  · exact leaves_finishItem e hn false

end Leaving

/-! ## What moves do to the trail -/

namespace Toured

variable {e d e' : Engine κ V} {k : Nat} {results : List (Stage.Result V)}
  {ended current : List (Tour κ V)}

lemma of_leaves (h : Toured k results ended current e) (he : Leaves k e e') :
    Toured k results ended current e' where
  lawful := he.setup ▸ h.lawful
  carries := by rw [he.worker, he.setup]; exact h.carries
  absent := by rw [he.worker]; exact h.absent
  trail_eq := he.trail.trans h.trail_eq
  results_eq := h.results_eq

/-- The way of an item ends, and its worker is free. -/
lemma finishItem (hk : k < d.itemWorkers.length)
    (hended : ∀ t ∈ ended, t.IsLawful d.setup ∧ t.passed? ≠ none) {t : Tour κ V} {passed : Bool}
    (ht : t.IsLawful d.setup) (hpassed : t.passed? = some passed)
    (htrail : d.trail k =
      ended.flatMap (·.events k) ++ Tour.events k { t with passed? := none }) :
    Toured k (ended.flatMap (·.results) ++ t.results) (ended ++ [t]) []
      (d.finishItem k passed) := by
  rw [finishItem_eq]
  constructor
  · intro u hu
    rcases List.mem_append.1 hu with hu | hu
    · exact hended u hu
    · rw [List.mem_singleton.1 hu]
      exact ⟨ht, by simp [hpassed]⟩
  · intro w hw
    obtain rfl : ItemWorker.idle = w := by simpa [hk] using hw
    rfl
  · intro hnone
    exact absurd hnone (by simp [hk])
  · rw [trail_of_cons rfl k, htrail]
    simp [Event.itemWorker?, Tour.events, hpassed]
  · simp

/-- An item that is on its way comes to the next stage, or its way ends because there is none. -/
lemma nextStage (hk : k < d.itemWorkers.length)
    (hended : ∀ t ∈ ended, t.IsLawful d.setup ∧ t.passed? ≠ none) {stages later : List (Stage τ)}
    {envelope now : Envelope κ V} {visits : List (Visit κ V)}
    (hchain : d.setup.IsChain envelope.item.kind stages)
    (hway : OnWay stages envelope visits now later)
    (htrail : d.trail k =
      ended.flatMap (·.events k) ++ Tour.events k ⟨envelope, visits, none⟩) :
    ∃ ended' current', Toured k (ended.flatMap (·.results) ++ visits.filterMap (·.result?))
      ended' current' (d.nextStage k now later) := by
  cases later with
  | nil =>
    have hlawful : Tour.IsLawful d.setup ⟨envelope, visits, some true⟩ :=
      ⟨stages, hchain, hway.follows_passed⟩
    exact ⟨_, _, finishItem hk hended hlawful rfl htrail⟩
  | cons stage later =>
    refine ⟨ended, [⟨envelope, visits ++ [⟨stage, now, none⟩], none⟩], ?_⟩
    constructor
    · exact hended
    · intro w hw
      obtain rfl : ItemWorker.processing now stage later = w := by
        simpa [Engine.nextStage, log, enterItem, hk] using hw
      exact ⟨stages, envelope, visits, hchain, hway, rfl⟩
    · intro hnone
      exact absurd hnone (by simp [Engine.nextStage, log, enterItem, hk])
    · have hcons : (d.nextStage k now (stage :: later)).journal =
        .staged k stage now :: d.journal := rfl
      rw [trail_of_cons hcons k, htrail]
      simp [Event.itemWorker?, Tour.events]
    · simp [Tour.results]

/-- A worker goes on while nothing happens with an item. -/
lemma setWorker (h : Toured k results ended current e) (hk : k < e.itemWorkers.length)
    (w : ItemWorker κ V) (hw : w.Carries e.setup current) (hsetup : e'.setup = e.setup)
    (hworkers : e'.itemWorkers = e.itemWorkers.set k w) (htrail : e'.trail k = e.trail k) :
    Toured k results ended current e' where
  lawful := hsetup ▸ h.lawful
  carries v hv := by
    obtain rfl : w = v := by simpa [hworkers, hk] using hv
    exact hsetup ▸ hw
  absent hnone := absurd hnone (by simp [hworkers, hk])
  trail_eq := htrail.trans h.trail_eq
  results_eq := h.results_eq

lemma receiveItem (h : Toured k results ended current e) (he : e.receiveItem? k = some e') :
    Toured k results ended current e' := by
  obtain ⟨hk, hcase⟩ := receiveItem?_eq_some he
  have hcurrent : current = [] := h.carries _ hk
  have hlt := (List.getElem?_eq_some_iff.1 hk).1
  obtain ⟨i, rest, -, rfl⟩ | ⟨-, -, rfl⟩ := hcase
  · exact h.setWorker hlt (.holding i) hcurrent rfl rfl rfl
  · exact h.setWorker hlt .ended hcurrent rfl rfl rfl

lemma beginItem [DecidableEq τ] (h : Toured k results ended current e)
    (he : e.beginItem? k = some e') :
    ∃ ended' current', Toured k results ended' current' e' := by
  obtain ⟨i, hk, -, rfl⟩ := beginItem?_admits he
  obtain rfl : current = [] := h.carries _ hk
  have hlt := (List.getElem?_eq_some_iff.1 hk).1
  have hcons : (e.admitItem k i).journal = .itemBegan k i :: e.journal := rfl
  have htrail : (e.admitItem k i).trail k =
      ended.flatMap (·.events k) ++ Tour.events k ⟨i, [], none⟩ := by
    rw [trail_of_cons hcons k, h.trail_eq]
    simp [Event.itemWorker?, Tour.events]
  have hchain : (e.admitItem k i).setup.IsChain i.item.kind (e.stagesOf i.item.kind) :=
    isChain_stagesOf e _
  have hresults : results = ended.flatMap (·.results) ++ [] := by simpa using h.results_eq
  rw [hresults]
  exact nextStage (by exact hlt) (by exact h.lawful) hchain (.begins _ i) htrail

/-- What a stage hands back decides whether its item goes on, and as which. -/
lemma judge?_verdict {r : Stage.Result V} (he : e.judge? k r.verdict = some e') :
    ∃ now stage later, e.itemWorkers[k]? = some (.processing now stage later) ∧
      e' = if r.passes then e.nextStage k { now with item := r.replacement?.getD now.item } later
        else e.finishItem k false := by
  unfold judge? at he
  split at he
  · rename_i now stage later hk
    refine ⟨now, stage, later, hk, ?_⟩
    obtain (_ | item) | (_ | _ | item) | _ := r <;> exact (Option.some.inj he).symm
  · cases he

lemma judge {r : Stage.Result V} (h : Toured k results ended current e)
    (he : e.judge? k r.verdict = some e') :
    ∃ ended' current', Toured k (results ++ [r]) ended' current' e' := by
  obtain ⟨now, stage, later, hk, rfl⟩ := judge?_verdict he
  obtain ⟨stages, envelope, visits, hchain, hway, rfl⟩ := h.carries _ hk
  have hlt := (List.getElem?_eq_some_iff.1 hk).1
  have hresults : results ++ [r] = ended.flatMap (·.results) ++
      (visits ++ [(⟨stage, now, some r⟩ : Visit κ V)]).filterMap (·.result?) := by
    rw [h.results_eq]
    simp [Tour.results]
  -- what is written down does not depend on what the stage hands back
  have htrail : e.trail k = ended.flatMap (·.events k) ++
      Tour.events k ⟨envelope, visits ++ [⟨stage, now, some r⟩], none⟩ := by
    rw [h.trail_eq]
    simp [Tour.events]
  rw [hresults]
  cases hr : r.passes with
  | true => exact nextStage hlt h.lawful hchain (hway.pass hr) htrail
  | false =>
    have hlawful : Tour.IsLawful e.setup
        ⟨envelope, visits ++ [⟨stage, now, some r⟩], some false⟩ :=
      ⟨stages, hchain, hway.follows_failed hr⟩
    exact ⟨_, _, finishItem hlt h.lawful hlawful rfl htrail⟩

lemma start (h : Toured k results ended current e) (ho : Orderly e) :
    Toured k results ended current e.start.2 := by
  obtain hs | ⟨hconnectable, hs⟩ := start_cases e <;> rw [hs]
  · exact { h with }
  · have hnone : e.itemWorkers[k]? = none := by simp [(ho.startable hconnectable).2.1]
    obtain ⟨rfl, rfl⟩ := h.absent hnone
    have hignite : Toured k results [] [] e.ignite := { h with
      carries := fun w hw => by
        rw [List.eq_of_mem_replicate (List.mem_of_getElem? hw)]
        rfl
      absent := fun _ => ⟨rfl, rfl⟩ }
    exact hignite.of_leaves ((deeds_seeds e.seeds e.ignite).spares.leaves k)

variable [DecidableEq τ]

/-- Every move keeps the form of the trail. -/
theorem step (h : Toured k results ended current e) (ho : Orderly e) (m : Move κ V)
    (he : e.step? m = some e') {new : List (Stage.Result V)}
    (hnew : (m.verdictOf? k).toList = new.map (·.verdict)) :
    ∃ ended' current', Toured k (results ++ new) ended' current' e' := by
  -- a move with which no stage of this worker hands anything back
  have hsilent : m.verdictOf? k = none →
      (∃ ended' current', Toured k results ended' current' e') →
      ∃ ended' current', Toured k (results ++ new) ended' current' e' := by
    rintro hnone htoured
    rw [hnone] at hnew
    rwa [List.map_eq_nil_iff.1 hnew.symm, List.append_nil]
  by_cases hm : m.drivesItems = false
  · have hnone : m.verdictOf? k = none := by cases m <;> first | rfl | cases hm
    exact hsilent hnone ⟨_, _, h.of_leaves ((spares_step m hm he).leaves k)⟩
  cases m with
  | start =>
    obtain rfl := Option.some.inj he
    exact hsilent rfl ⟨_, _, h.start ho⟩
  | receiveItem n =>
    refine hsilent rfl ?_
    by_cases hn : n = k
    · subst hn
      exact ⟨_, _, h.receiveItem he⟩
    · exact ⟨_, _, h.of_leaves (leaves_receiveItem he hn)⟩
  | beginItem n =>
    refine hsilent rfl ?_
    by_cases hn : n = k
    · subst hn
      exact h.beginItem he
    · exact ⟨_, _, h.of_leaves (leaves_beginItem he hn)⟩
  | judge n verdict =>
    by_cases hn : n = k
    · subst hn
      obtain ⟨r, rfl, hr⟩ : ∃ r, new = [r] ∧ verdict = r.verdict := by
        obtain ⟨r, hr, hv⟩ := List.map_eq_singleton_iff.1
          (hnew.symm.trans (by simp [Move.verdictOf?] : _ = [verdict]))
        exact ⟨r, hr, hv.symm⟩
      subst hr
      exact h.judge he
    · refine hsilent (if_neg hn) ?_
      exact ⟨_, _, h.of_leaves (leaves_judge he hn)⟩
  | _ => exact absurd rfl hm

/-- The trail of every item worker has this form in every run. -/
theorem run {setup : Setup τ} {seeds : List (Request κ)} (k : Nat) :
    ∀ {moves : List (Move κ V)} {e : Engine κ V} {results : List (Stage.Result V)},
      (Engine.new setup seeds).run? moves = some e →
      verdictsOf k moves = results.map (·.verdict) →
      ∃ ended current, Toured k results ended current e := by
  intro moves
  induction moves using List.reverseRecOn with
  | nil =>
    intro e results he hresults
    obtain rfl : Engine.new setup seeds = e := by simpa using he
    obtain rfl : results = [] := List.map_eq_nil_iff.1 hresults.symm
    exact ⟨[], [], nofun, nofun, fun _ => ⟨rfl, rfl⟩, rfl, rfl⟩
  | append_singleton moves m ih =>
    intro e results he hresults
    rw [run?_append] at he
    obtain ⟨d, hd, he⟩ := Option.bind_eq_some_iff.1 he
    have hstep : d.step? m = some e := by simpa using he
    have hsplit : verdictsOf k moves ++ (m.verdictOf? k).toList = results.map (·.verdict) := by
      rw [← hresults, verdictsOf, verdictsOf, List.filterMap_append]
      cases hm : m.verdictOf? k <;> simp [hm]
    obtain ⟨first, new, rfl, hfirst, hnew⟩ := List.map_eq_append_iff.1 hsplit.symm
    obtain ⟨ended, current, h⟩ := ih hd hfirst.symm
    exact h.step (Reachable.orderly ⟨moves, hd⟩) m hstep hnew.symm

end Toured

section Ways

variable {e : Engine κ V} {k : Nat} {results : List (Stage.Result V)}
  {ended current : List (Tour κ V)}

/-- A way is under way exactly with a worker that has an item in a stage. -/
lemma Toured.current_cases (h : Toured k results ended current e) :
    (current = [] ∧ ∀ now stage later, e.itemWorkers[k]? ≠ some (.processing now stage later)) ∨
      ∃ now stage later t, e.itemWorkers[k]? = some (.processing now stage later) ∧
        current = [t] ∧ t.IsLawful e.setup ∧ t.passed? = none := by
  cases hk : e.itemWorkers[k]? with
  | none => exact .inl ⟨(h.absent hk).2, by simp⟩
  | some w =>
    have hcarries := h.carries w hk
    cases w with
    | idle => exact .inl ⟨hcarries, by simp⟩
    | holding i => exact .inl ⟨hcarries, by simp⟩
    | ended => exact .inl ⟨hcarries, by simp⟩
    | processing now stage later =>
      obtain ⟨stages, envelope, visits, hchain, hway, rfl⟩ := hcarries
      exact .inr ⟨now, stage, later, _, rfl, rfl, ⟨stages, hchain, hway.follows_underWay⟩, rfl⟩

/-- All ways go through the stages as they should. -/
lemma Toured.isLawful_of_mem (h : Toured k results ended current e) {t : Tour κ V}
    (ht : t ∈ ended ++ current) : t.IsLawful e.setup := by
  rcases List.mem_append.1 ht with ht | ht
  · exact (h.lawful t ht).1
  · obtain ⟨rfl, -⟩ | ⟨_, _, _, u, -, rfl, hu, -⟩ := h.current_cases
    · cases ht
    · rw [List.mem_singleton.1 ht]
      exact hu

/-- All ways but the last have ended. -/
lemma Toured.ended_of_mem_dropLast (h : Toured k results ended current e) {t : Tour κ V}
    (ht : t ∈ (ended ++ current).dropLast) : t.passed? ≠ none := by
  obtain ⟨rfl, -⟩ | ⟨_, _, _, u, -, rfl, -⟩ := h.current_cases
  · rw [List.append_nil] at ht
    exact (h.lawful t (List.mem_of_mem_dropLast ht)).2
  · rw [List.dropLast_concat] at ht
    exact (h.lawful t ht).2

/-- A way is under way exactly if its worker has an item in a stage. -/
lemma Toured.underWay_iff (h : Toured k results ended current e) :
    (∃ t ∈ ended ++ current, t.passed? = none) ↔
      ∃ now stage later, e.itemWorkers[k]? = some (.processing now stage later) := by
  obtain ⟨rfl, hnot⟩ | ⟨now, stage, later, u, hk, rfl, -, hu⟩ := h.current_cases
  · refine iff_of_false ?_ fun ⟨now, stage, later, hk⟩ => hnot now stage later hk
    rintro ⟨t, ht, hnone⟩
    rw [List.append_nil] at ht
    exact (h.lawful t ht).2 hnone
  · exact iff_of_true ⟨u, by simp, hu⟩ ⟨now, stage, later, hk⟩

/-- What happens with an item worker is in the journal. -/
lemma mem_trail {event : Event κ V} :
    event ∈ e.trail k ↔ event ∈ e.journal ∧ event.itemWorker? = some k := by
  simp [trail]

/-- The item of a way has begun. -/
lemma Toured.itemBegan_mem (h : Toured k results ended current e) {t : Tour κ V}
    (ht : t ∈ ended ++ current) : .itemBegan k t.envelope ∈ e.journal := by
  have hbegan : .itemBegan k t.envelope ∈ e.trail k := by
    rw [h.trail_eq]
    exact List.mem_flatMap.2 ⟨t, ht, List.mem_cons_self ..⟩
  exact (mem_trail.1 hbegan).1

/-- Nothing happens with a worker that does not exist. -/
lemma Toured.lt_of_mem_trail (h : Toured k results ended current e) {event : Event κ V}
    (hevent : event ∈ e.trail k) : k < e.itemWorkers.length := by
  by_contra hlt
  obtain ⟨rfl, rfl⟩ := h.absent (List.getElem?_eq_none (Nat.le_of_not_lt hlt))
  rw [h.trail_eq] at hevent
  cases hevent

end Ways

/-! ## Going on -/

/-- An item worker can go on, whatever happens. -/
structure GoesOn (k : Nat) (e : Engine κ V) [DecidableEq τ] : Prop where
  /-- A free worker can take the item that waits longest. -/
  takes : e.itemWorkers[k]? = some .idle → ∀ i rest, e.items.waiting = i :: rest →
    ∃ e', e.step? (.receiveItem k) = some e' ∧ e'.itemWorkers[k]? = some (.holding i)
  /-- With a permit, a worker can begin with the item that it has taken. -/
  begins : ∀ i, e.itemWorkers[k]? = some (.holding i) → 0 < e.itemPermits →
    ∃ e' events, e.step? (.beginItem k) = some e' ∧
      e'.trail k = e.trail k ++ .itemBegan k i :: events
  /-- A worker has to wait with its item only while as many items are in a stage as may be. -/
  waits : ∀ i, e.itemWorkers[k]? = some (.holding i) → e.itemPermits = 0 →
    e.itemWorkers.countP (·.isProcessing) = e.setup.settings.maxConcurrentItems
  /-- Whatever a stage makes of the item, it comes to the next stage, or the worker is free and can
  begin with the next item at once, because it has given back its permit. -/
  judged : ∀ now stage later, e.itemWorkers[k]? = some (.processing now stage later) →
    ∀ verdict, ∃ e', e.step? (.judge k verdict) = some e' ∧
      ((∃ i next rest, later = next :: rest ∧ e'.itemWorkers[k]? = some (.processing i next rest)) ∨
        (e'.itemWorkers[k]? = some .idle ∧ e'.items = e.items ∧
          ∀ i rest, e'.items.waiting = i :: rest → ∃ e'' events,
            e'.run? [.receiveItem k, .beginItem k] = some e'' ∧
              e''.trail k = e'.trail k ++ .itemBegan k i :: events))
  /-- A worker ends only when no item waits and none will come. -/
  ended : e.itemWorkers[k]? = some .ended → e.items.closed = true ∧ e.items.waiting = []

section GoesOn

variable {d e : Engine κ V} {k : Nat} {i : Envelope κ V}

/-- A free worker takes the item that waits longest. -/
lemma receiveItem?_of_idle (hk : e.itemWorkers[k]? = some .idle) {rest : List (Envelope κ V)}
    (hwaiting : e.items.waiting = i :: rest) :
    e.receiveItem? k = some { e with
      items := ⟨rest, e.items.closed⟩, itemWorkers := e.itemWorkers.set k (.holding i) } := by
  simp [receiveItem?, hk, Queue.pop?, hwaiting, enterItem]

/-- The trail of a worker grows when its item comes to a stage or ends. -/
lemma trail_nextStage (d : Engine κ V) (k : Nat) (i : Envelope κ V) (stages : List (Stage τ)) :
    ∃ event, (d.nextStage k i stages).trail k = d.trail k ++ [event] := by
  obtain hs | ⟨stage, later, hs⟩ := nextStage_cases d k i stages <;> rw [hs]
  · rw [finishItem_eq]
    exact ⟨.itemFinished k true, by rw [trail_of_cons rfl k]; simp [Event.itemWorker?]⟩
  · exact ⟨.staged k stage i, by rw [trail_of_cons rfl k]; simp [Event.itemWorker?]⟩

variable [DecidableEq τ]

/-- With a permit, a worker begins with the item that it has taken. -/
lemma beginItem?_of_holding (hk : e.itemWorkers[k]? = some (.holding i))
    (hpermit : 0 < e.itemPermits) :
    ∃ e' events, e.beginItem? k = some e' ∧ e'.trail k = e.trail k ++ .itemBegan k i :: events := by
  obtain ⟨event, hevent⟩ := trail_nextStage (e.admitItem k i) k i (e.stagesOf i.item.kind)
  have hcons : (e.admitItem k i).journal = .itemBegan k i :: e.journal := rfl
  refine ⟨(e.admitItem k i).nextStage k i (e.stagesOf i.item.kind), [event], ?_, ?_⟩
  · simp only [beginItem?, hk, hpermit, ↓reduceIte]
    rfl
  · rw [hevent, trail_of_cons hcons k]
    simp [Event.itemWorker?]

/-- After its item has ended, a worker can begin with the next. -/
lemma next_of_finishItem (hk : k < d.itemWorkers.length) (passed : Bool) :
    (d.finishItem k passed).itemWorkers[k]? = some .idle ∧ (d.finishItem k passed).items = d.items ∧
      ∀ i rest, (d.finishItem k passed).items.waiting = i :: rest → ∃ e events,
        (d.finishItem k passed).run? [.receiveItem k, .beginItem k] = some e ∧
          e.trail k = (d.finishItem k passed).trail k ++ .itemBegan k i :: events := by
  have hidle : (d.finishItem k passed).itemWorkers[k]? = some .idle := by
    rw [finishItem_eq]
    simp [hk]
  refine ⟨hidle, by rw [finishItem_eq], fun i rest hwaiting => ?_⟩
  let taken : Engine κ V := { d.finishItem k passed with
    items := ⟨rest, (d.finishItem k passed).items.closed⟩
    itemWorkers := (d.finishItem k passed).itemWorkers.set k (.holding i) }
  have htake : (d.finishItem k passed).step? (.receiveItem k) = some taken :=
    receiveItem?_of_idle hidle hwaiting
  have hlt : k < (d.finishItem k passed).itemWorkers.length := (List.getElem?_eq_some_iff.1 hidle).1
  have hholding : taken.itemWorkers[k]? = some (.holding i) := by simp [taken, hlt]
  have hpermit : 0 < taken.itemPermits := by simp [taken, finishItem_eq]
  obtain ⟨e, events, hbegin, htrail⟩ := beginItem?_of_holding hholding hpermit
  refine ⟨e, events, ?_, htrail⟩
  rw [run?_cons, htake]
  exact (run?_cons ..).trans (by simp [step?, hbegin])

omit [DecidableEq τ] in
/-- Whatever a stage makes of the item, it comes to the next stage, or ends. -/
lemma judge?_goesOn {now : Envelope κ V} {stage : Stage τ} {later : List (Stage τ)}
    (hk : e.itemWorkers[k]? = some (.processing now stage later)) (verdict : Verdict V) :
    ∃ e', e.judge? k verdict = some e' ∧
      ((∃ i, e' = e.nextStage k i later) ∨ e' = e.finishItem k false) := by
  cases verdict with
  | keep => exact ⟨e.nextStage k now later, by simp only [judge?, hk], .inl ⟨now, rfl⟩⟩
  | replace item =>
    exact ⟨e.nextStage k { now with item := item } later, by simp only [judge?, hk], .inl ⟨_, rfl⟩⟩
  | drop => exact ⟨_, by simp only [judge?, hk], .inr rfl⟩
  | panic => exact ⟨_, by simp only [judge?, hk], .inr rfl⟩

variable {setup : Setup τ} {seeds : List (Request κ)}

/-- Every item worker of a reachable engine can go on. -/
theorem Reachable.goesOn (h : Reachable setup seeds e) (k : Nat) : GoesOn k e where
  takes hk i rest hwaiting := by
    have hlt := (List.getElem?_eq_some_iff.1 hk).1
    exact ⟨_, receiveItem?_of_idle hk hwaiting, by simp [hlt]⟩
  begins i hk hpermit := beginItem?_of_holding hk hpermit
  waits i _ hzero := by
    have hpermits := h.admitted.itemPermits
    rw [hzero, Nat.zero_add] at hpermits
    rw [h.admitted.setup_eq]
    exact hpermits
  judged now stage later hk verdict := by
    have hlt := (List.getElem?_eq_some_iff.1 hk).1
    obtain ⟨e', he', ⟨i, rfl⟩ | rfl⟩ := judge?_goesOn hk verdict
    · refine ⟨_, he', ?_⟩
      cases later with
      | nil => exact .inr (next_of_finishItem hlt true)
      | cons next rest =>
        exact .inl ⟨i, next, rest, rfl, by simp [nextStage, log, enterItem, hlt]⟩
    · exact ⟨_, he', .inr (next_of_finishItem hlt false)⟩
  ended hk := by
    have hclosed := h.itemsFit.closed_of_ended (List.mem_of_getElem? hk)
    exact ⟨hclosed, h.orderly.items_of_closed hclosed⟩

end GoesOn

/-! ## Every item is counted once -/

section Counting

variable {e : Engine κ V} {k : Nat}

/-- What happens with the item workers happens with each of them. -/
lemma countP_eq_sum_trail (p : Event κ V → Bool) (n : Nat)
    (h : ∀ event ∈ e.journal, p event = true → ∃ k < n, event.itemWorker? = some k) :
    e.journal.countP p = ∑ k ∈ Finset.range n, (e.trail k).countP p := by
  have hcount : ∀ k, (e.trail k).countP p =
      e.journal.countP fun event => p event && decide (event.itemWorker? = some k) := by
    intro k
    rw [trail, List.countP_reverse, List.countP_filter]
  simp only [hcount]
  clear hcount
  generalize e.journal = journal at h
  induction journal with
  | nil => simp
  | cons event journal ih =>
    have hrest := ih fun event' hevent' => h event' (List.mem_cons_of_mem _ hevent')
    simp only [List.countP_cons, Finset.sum_add_distrib, hrest]
    congr 1
    cases hp : p event with
    | false => simp
    | true =>
      obtain ⟨k, hk, hworker⟩ := h event (List.mem_cons_self ..) hp
      simp [hworker, hk]

/-- A way has one end, if it has ended. -/
lemma Tour.countP_events (t : Tour κ V) (k : Nat) (passed : Bool) :
    (t.events k).countP (Event.endsItemAs passed) = if t.passed? = some passed then 1 else 0 := by
  have hvisits : (t.visits.map fun v => Event.staged k v.stage v.given).countP
      (Event.endsItemAs passed) = 0 := by
    refine List.countP_eq_zero.2 fun event hevent => ?_
    obtain ⟨v, -, rfl⟩ := List.mem_map.1 hevent
    simp [Event.endsItemAs]
  unfold Tour.events
  rw [List.cons_append, List.countP_cons, List.countP_append, hvisits]
  cases t.passed? <;> simp [Event.endsItemAs]

/-- So many ways have ended in one manner as items have. -/
lemma countP_flatMap_events (tours : List (Tour κ V)) (k : Nat) (passed : Bool) :
    (tours.flatMap (·.events k)).countP (Event.endsItemAs passed) =
      tours.countP (·.passed? = some passed) := by
  induction tours with
  | nil => rfl
  | cons t tours ih =>
    rw [List.flatMap_cons, List.countP_append, ih, t.countP_events, List.countP_cons]
    simp [Nat.add_comm]

end Counting

/-! ## Every run -/

section Runs

variable [DecidableEq τ] {setup : Setup τ} {seeds : List (Request κ)} {moves : List (Move κ V)}
  {e : Engine κ V}

/-- In every run, whatever the stages hand back, what happens with an item worker is a row of ways of
items, one after the other. All but the last have ended, and the last is under way exactly if the
worker has an item in a stage. On each way

* the item was handed in before, and its way begins with what was handed in;
* the stages are those for the kind that the item has when it begins, in their order and none of them
  twice, up to the one to which the item has come;
* each stage is given what the last stage before it that replaced the item has handed back, in the
  context in which the item was handed in, and only if all stages before it have let the item pass;
* the item has passed exactly if all stages have let it pass, and has failed exactly if one has not.

An item that has passed is counted as processed and one that has failed as dropped, and apart from
these only items that never began are counted as dropped. Whatever a stage makes of an item, the
worker goes on.

**Proof sketch.** What the trail of a worker is by now and the stages that its item is still to come
to say together that an item is on its way. A result of a stage leads from there to the next stage, or
ends the way; the other moves leave the trail as it is. -/
theorem items_toured (hrun : (new setup seeds).run? moves = some e)
    (results : Nat → List (Stage.Result V))
    (hresults : ∀ k, verdictsOf k moves = (results k).map (·.verdict)) :
    ∃ tours : Nat → List (Tour κ V),
      (∀ k, e.trail k = (tours k).flatMap (·.events k) ∧
        results k = (tours k).flatMap (·.results) ∧
        (∀ t ∈ tours k, t.IsLawful setup ∧ (t.visits.map (·.stage)).Nodup ∧
          .itemEnqueued t.envelope ∈ e.journal) ∧
        (∀ t ∈ (tours k).dropLast, t.passed? ≠ none) ∧
        ((∃ t ∈ tours k, t.passed? = none) ↔
          ∃ now stage later, e.itemWorkers[k]? = some (.processing now stage later)) ∧
        GoesOn k e) ∧
      e.stats.processed = ∑ k ∈ Finset.range setup.settings.itemWorkers,
        (tours k).countP (·.passed? = some true) ∧
      e.stats.itemsDropped = (∑ k ∈ Finset.range setup.settings.itemWorkers,
        (tours k).countP (·.passed? = some false)) + e.itemsLost := by
  have hreach : Reachable setup seeds e := ⟨moves, hrun⟩
  have hfits := hreach.itemsFit
  have hsetup := hreach.admitted.setup_eq
  choose ended current htoured using fun k => Toured.run k hrun (hresults k)
  have hends : ∀ passed, e.journal.countP (Event.endsItemAs passed) =
      ∑ k ∈ Finset.range setup.settings.itemWorkers,
        (ended k ++ current k).countP (·.passed? = some passed) := by
    intro passed
    rw [countP_eq_sum_trail _ setup.settings.itemWorkers]
    · refine Finset.sum_congr rfl fun k _ => ?_
      rw [(htoured k).trail_eq, countP_flatMap_events]
    · intro event hevent hend
      cases event with
      | itemFinished k p =>
        have hlt := (htoured k).lt_of_mem_trail (mem_trail.2 ⟨hevent, rfl⟩)
        exact ⟨k, Nat.lt_of_lt_of_le hlt hreach.admitted.pool, rfl⟩
      | _ => cases hend
  have hmem : ∀ k, ∀ t ∈ ended k ++ current k, t.IsLawful setup ∧
      (t.visits.map (·.stage)).Nodup ∧ .itemEnqueued t.envelope ∈ e.journal := by
    intro k t ht
    have hlawful : t.IsLawful setup := hsetup ▸ (htoured k).isLawful_of_mem ht
    obtain ⟨stages, hchain, hfollows⟩ := hlawful
    exact ⟨⟨stages, hchain, hfollows⟩, hfollows.nodup hchain,
      hfits.begun k _ ((htoured k).itemBegan_mem ht)⟩
  refine ⟨fun k => ended k ++ current k, fun k => ⟨(htoured k).trail_eq, (htoured k).results_eq,
    hmem k, fun t ht => (htoured k).ended_of_mem_dropLast ht, (htoured k).underWay_iff,
    hreach.goesOn k⟩, ?_, ?_⟩
  · rw [hfits.processed, hends]
  · rw [hfits.dropped, hends]

/-- The function for its kind changes the kind of the first item, which then passes the function for
all kinds and is kept by the first pipeline; the second pipeline breaks down with it. The second item
has another kind, is replaced by the second pipeline and passes. -/
theorem tours_of_two_items :
    ∃ (setup : Setup Bool) (moves : List (Move Unit fun _ : Bool => Nat))
      (e : Engine Unit fun _ : Bool => Nat) (results : Nat → List (Stage.Result fun _ : Bool => Nat)),
      (new setup []).run? moves = some e ∧
      (∀ k, verdictsOf k moves = (results k).map (·.verdict)) ∧
      e.stats.processed = 1 ∧ e.stats.itemsDropped = 1 ∧ e.itemsLost = 0 ∧
      ∃ tours : Nat → List (Tour Unit fun _ : Bool => Nat),
        e.trail 0 = (tours 0).flatMap (·.events 0) ∧ results 0 = (tours 0).flatMap (·.results) ∧
        (∀ t ∈ tours 0, t.IsLawful setup) ∧
        (tours 0).countP (·.passed? = some true) = 1 ∧
        (tours 0).countP (·.passed? = some false) = 1 := by
  let setup : Setup Bool :=
    { settings := { itemWorkers := 1 }, itemKinds := [true], anyItem := true, pipelines := [[], []] }
  let moves : List (Move Unit fun _ : Bool => Nat) :=
    [.start, .ask (.item .root ⟨true, 1⟩), .ask (.item .root ⟨false, 2⟩), .receiveItem 0,
      .beginItem 0, .judge 0 (.replace ⟨false, 3⟩), .judge 0 (.replace ⟨false, 3⟩), .judge 0 .keep,
      .judge 0 .panic, .receiveItem 0, .beginItem 0, .judge 0 (.replace ⟨false, 2⟩), .judge 0 .keep,
      .judge 0 (.replace ⟨true, 4⟩)]
  let results : Nat → List (Stage.Result fun _ : Bool => Nat) := fun k => if k = 0 then
    [.function (some ⟨false, 3⟩), .function (some ⟨false, 3⟩), .pipeline (.ok none), .panic,
      .function (some ⟨false, 2⟩), .pipeline (.ok none), .pipeline (.ok (some ⟨true, 4⟩))]
    else []
  have hrun : ((new setup []).run? moves).map
      (fun e => (e.stats.processed, e.stats.itemsDropped, e.itemsLost)) = some (1, 1, 0) := by
    decide +kernel
  have hresults : ∀ k, verdictsOf k moves = (results k).map (·.verdict) := by
    intro k
    by_cases hk : k = 0
    · subst hk
      rfl
    · simp [verdictsOf, moves, results, Move.verdictOf?, hk, Ne.symm hk]
  obtain ⟨e, he, hcounts⟩ := Option.map_eq_some_iff.1 hrun
  obtain ⟨hprocessed, hdropped, hlost⟩ :
      e.stats.processed = 1 ∧ e.stats.itemsDropped = 1 ∧ e.itemsLost = 0 := by
    simpa only [Prod.mk.injEq] using hcounts
  obtain ⟨tours, htours, hpassed, hfailed⟩ := items_toured he results hresults
  obtain ⟨htrail, hgiven, hmem, -⟩ := htours 0
  have hworkers : setup.settings.itemWorkers = 1 := rfl
  rw [hworkers, Finset.sum_range_one, hprocessed] at hpassed
  rw [hworkers, Finset.sum_range_one, hdropped, hlost] at hfailed
  exact ⟨setup, moves, e, results, he, hresults, hprocessed, hdropped, hlost, tours, htrail, hgiven,
    fun t ht => (hmem t ht).1, hpassed.symm, hfailed.symm⟩

end Runs

end WebCrawl.Engine
