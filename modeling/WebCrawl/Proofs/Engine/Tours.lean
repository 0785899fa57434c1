import Mathlib.Data.List.Infix
import Mathlib.Data.List.Nodup
import Mathlib.Data.List.Pairwise
import Mathlib.Data.List.Range
import Mathlib.Tactic.Common
import WebCrawl.Engine.Processing

set_option autoImplicit false

/-!
# The way of an item through the stages

An item that begins with a worker comes to one stage after the other. Where it comes to, and what it
is by then, depends only on what the stages before have handed back. This module says what such a way
has to be like, whatever the stages do, and how it goes on with one more result.

## Main definitions

* `WebCrawl.Engine.Setup.IsChain` — some stages are those of items of a kind, in their order.
* `WebCrawl.Engine.Tour` — the way of an item: the stages that it came to, what each was given and
  has handed back, and how it ended.
* `WebCrawl.Engine.Tour.Follows` — the way goes through a chain of stages as it should.
* `WebCrawl.Engine.OnWay` — an item that has passed some stages and is to come to the others.

## Main results

* `WebCrawl.Engine.isChain_stagesOf` — the stages that an item is sent through are those of its kind.
* `WebCrawl.Engine.OnWay.pass`, `OnWay.follows_passed`, `OnWay.follows_failed` — the way goes on when
  a stage lets the item pass, and ends after the last stage or when one does not.
-/

namespace WebCrawl.Engine

open Crawl

variable {κ τ : Type} {V : τ → Type}

/-! ## Chains of stages -/

/-- Whether there is a stage for items of a kind. -/
def Setup.HasStage (s : Setup τ) (kind : τ) : Stage τ → Prop
  | .kind k => k = kind ∧ kind ∈ s.itemKinds
  | .any => s.anyItem = true
  | .pipeline i => i < s.pipelines.length

/-- Functions for a kind come before the function for all kinds, and that before the pipelines, which
come in the order in which they were added. -/
def Stage.Precedes : Stage τ → Stage τ → Prop
  | .kind _, .any => True
  | .kind _, .pipeline _ => True
  | .any, .pipeline _ => True
  | .pipeline i, .pipeline j => i < j
  | _, _ => False

/-- The stages are those for items of a kind, each of them once and in their order. -/
structure Setup.IsChain (s : Setup τ) (kind : τ) (stages : List (Stage τ)) : Prop where
  mem : ∀ stage, stage ∈ stages ↔ s.HasStage kind stage
  order : stages.Pairwise Stage.Precedes

/-- No stage is in a chain twice. -/
lemma Setup.IsChain.nodup {s : Setup τ} {kind : τ} {stages : List (Stage τ)}
    (h : s.IsChain kind stages) : stages.Nodup := by
  refine h.order.imp ?_
  rintro stage _ hbefore rfl
  cases stage with
  | kind k => exact hbefore
  | any => exact hbefore
  | pipeline i => exact Nat.lt_irrefl i hbefore

/-- The stages that an item is sent through are those for items of its kind. -/
lemma isChain_stagesOf [DecidableEq τ] (e : Engine κ V) (kind : τ) :
    e.setup.IsChain kind (e.stagesOf kind) where
  mem stage := by
    unfold stagesOf
    by_cases hkind : kind ∈ e.setup.itemKinds <;> cases hany : e.setup.anyItem <;>
      cases stage <;> simp [hkind, hany, Setup.HasStage]
  order := by
    have hpipelines : ((List.range e.setup.pipelines.length).map Stage.pipeline).Pairwise
        (Stage.Precedes (τ := τ)) := List.pairwise_map.2 List.pairwise_lt_range
    unfold stagesOf
    split <;> split <;> simp [Stage.Precedes, hpipelines]

/-! ## What stages hand back -/

namespace Stage.Result

/-- The item that goes on in the place of the one that the stage was given. -/
def replacement? : Stage.Result V → Option (Item V)
  | .function item? => item?
  | .pipeline (.ok item?) => item?
  | .pipeline (.error _) => none
  | .panic => none

/-- Whether the item goes on after the stage: a function has to hand back an item, and a pipeline no
error. -/
def passes : Stage.Result V → Bool
  | .function item? => item?.isSome
  | .pipeline (.ok _) => true
  | .pipeline (.error _) => false
  | .panic => false

end Stage.Result

/-! ## The way of an item -/

/-- An item in a stage. -/
structure Visit {τ : Type} (κ : Type) (V : τ → Type) where
  /-- The stage. -/
  stage : Stage τ
  /-- What the stage was given. -/
  given : Envelope κ V
  /-- What the stage has handed back, if it is done. -/
  result? : Option (Stage.Result V)

/-- The way of an item through the stages. -/
structure Tour {τ : Type} (κ : Type) (V : τ → Type) where
  /-- The item as it was handed in. -/
  envelope : Envelope κ V
  /-- The stages that the item came to. -/
  visits : List (Visit κ V)
  /-- Whether the item has passed all stages, if its way has ended. -/
  passed? : Option Bool

/-- Whether the stage has let the item pass. -/
def Visit.passes (v : Visit κ V) : Bool := v.result?.any (·.passes)

/-- Whether the stage is done with the item and has not let it pass. -/
def Visit.stops (v : Visit κ V) : Bool := v.result?.any (!·.passes)

/-- The item that goes on in the place of the one that the stage was given. -/
def Visit.replacement? (v : Visit κ V) : Option (Item V) := v.result?.bind (·.replacement?)

/-- What an item has become after some stages: what the last of those that replaced it has handed
back. -/
def become (item : Item V) (visits : List (Visit κ V)) : Item V :=
  (visits.filterMap (·.replacement?)).getLast?.getD item

namespace Tour

/-- What happens on the way with a worker. -/
def events (k : Nat) (t : Tour κ V) : List (Event κ V) :=
  .itemBegan k t.envelope :: t.visits.map (fun v => .staged k v.stage v.given) ++
    t.passed?.toList.map (.itemFinished k)

/-- What the stages have handed back. -/
def results (t : Tour κ V) : List (Stage.Result V) := t.visits.filterMap (·.result?)

/-- The way goes through a chain of stages as it should. -/
structure Follows (stages : List (Stage τ)) (t : Tour κ V) : Prop where
  /-- The stages come in the order of the chain, from the first on. -/
  order : t.visits.map (·.stage) <+: stages
  /-- A stage is run only if all stages before it have let the item pass, and it is given what the
  item has become by then, with the context in which it was handed in. -/
  visit : ∀ earlier v, earlier ++ [v] <+: t.visits →
    (∀ w ∈ earlier, w.passes = true) ∧
      v.given = ⟨become t.envelope.item earlier, t.envelope.context⟩
  /-- The item has passed exactly if every stage of the chain has let it pass. -/
  passed_iff : t.passed? = some true ↔
    (∀ v ∈ t.visits, v.passes = true) ∧ t.visits.map (·.stage) = stages
  /-- The item has failed exactly if some stage has not let it pass. -/
  failed_iff : t.passed? = some false ↔ ∃ v ∈ t.visits, v.stops = true
  /-- The item is under way exactly if it is in a stage. -/
  underWay_iff : t.passed? = none ↔ ∃ v ∈ t.visits, v.result? = none

/-- No stage is run twice. -/
lemma Follows.nodup {s : Setup τ} {kind : τ} {stages : List (Stage τ)} {t : Tour κ V}
    (h : t.Follows stages) (hchain : s.IsChain kind stages) : (t.visits.map (·.stage)).Nodup :=
  h.order.sublist.nodup hchain.nodup

end Tour

/-! ## On the way -/

/-- An item that was handed in as an envelope has passed some stages, is on its way as another and is
to come to the later stages. -/
structure OnWay (stages : List (Stage τ)) (envelope : Envelope κ V) (visits : List (Visit κ V))
    (now : Envelope κ V) (later : List (Stage τ)) : Prop where
  order : visits.map (·.stage) ++ later = stages
  passed : ∀ v ∈ visits, v.passes = true
  given : ∀ earlier v, earlier ++ [v] <+: visits →
    v.given = ⟨become envelope.item earlier, envelope.context⟩
  now_eq : now = ⟨become envelope.item visits, envelope.context⟩

namespace OnWay

variable {stages later : List (Stage τ)} {stage : Stage τ} {envelope now : Envelope κ V}
  {visits : List (Visit κ V)} {r : Stage.Result V}

/-- An item that begins. -/
lemma begins (stages : List (Stage τ)) (envelope : Envelope κ V) :
    OnWay stages envelope [] envelope stages where
  order := rfl
  passed := nofun
  given earlier v h := absurd (List.prefix_nil.1 h) (by simp)
  now_eq := rfl

/-- What is given to the stages up to the next one. -/
lemma given_concat (h : OnWay stages envelope visits now later) (stage : Stage τ)
    (result? : Option (Stage.Result V)) (earlier : List (Visit κ V)) (v : Visit κ V)
    (hv : earlier ++ [v] <+: visits ++ [⟨stage, now, result?⟩]) :
    (∀ w ∈ earlier, w.passes = true) ∧
      v.given = ⟨become envelope.item earlier, envelope.context⟩ := by
  rcases List.prefix_concat_iff.1 hv with hlast | hbefore
  · obtain ⟨rfl, rfl⟩ := List.append_singleton_inj.1 hlast
    exact ⟨h.passed, h.now_eq⟩
  · have hsub : ∀ w ∈ earlier, w ∈ visits := fun w hw =>
      hbefore.subset (List.mem_append_left _ hw)
    exact ⟨fun w hw => h.passed w (hsub w hw), h.given earlier v hbefore⟩

/-- The next stage lets the item pass. -/
lemma pass (h : OnWay stages envelope visits now (stage :: later)) (hr : r.passes = true) :
    OnWay stages envelope (visits ++ [⟨stage, now, some r⟩])
      { now with item := r.replacement?.getD now.item } later where
  order := by simpa using h.order
  passed := by
    intro v hv
    rcases List.mem_append.1 hv with hv | hv
    · exact h.passed v hv
    · rw [List.mem_singleton.1 hv]
      exact hr
  given earlier v hv := (h.given_concat stage (some r) earlier v hv).2
  now_eq := by
    rw [h.now_eq]
    cases hitem : r.replacement? with
    | none => simp [become, List.filterMap_append, Visit.replacement?, hitem]
    | some item => simp [become, List.filterMap_append, Visit.replacement?, hitem]

/-- Every stage that is done with an item that is on its way has let it pass. -/
lemma result?_of_mem (h : OnWay stages envelope visits now later) {v : Visit κ V} (hv : v ∈ visits) :
    v.stops = false ∧ v.result? ≠ none := by
  have hpasses := h.passed v hv
  unfold Visit.passes at hpasses
  unfold Visit.stops
  cases hresult : v.result? with
  | none => simp [hresult] at hpasses
  | some result =>
    simp only [hresult, Option.any_some] at hpasses
    simp [hpasses]

/-- The item has passed all stages. -/
lemma follows_passed (h : OnWay stages envelope visits now []) :
    Tour.Follows stages ⟨envelope, visits, some true⟩ where
  order := by
    have horder := h.order
    rw [List.append_nil] at horder
    exact horder ▸ List.prefix_refl _
  visit earlier v hv :=
    ⟨fun w hw => h.passed w (hv.subset (List.mem_append_left _ hw)), h.given earlier v hv⟩
  passed_iff := by
    have horder := h.order
    rw [List.append_nil] at horder
    exact iff_of_true rfl ⟨h.passed, horder⟩
  failed_iff := by
    refine iff_of_false (by simp) ?_
    rintro ⟨v, hv, hstops⟩
    exact absurd hstops (by simp [(h.result?_of_mem hv).1])
  underWay_iff := by
    refine iff_of_false (by simp) ?_
    rintro ⟨v, hv, hnone⟩
    exact (h.result?_of_mem hv).2 hnone

/-- The stages up to the next one come in their order. -/
lemma order_concat (h : OnWay stages envelope visits now (stage :: later))
    (result? : Option (Stage.Result V)) :
    (visits ++ [(⟨stage, now, result?⟩ : Visit κ V)]).map (·.stage) <+: stages :=
  ⟨later, by rw [← h.order]; simp⟩

/-- The next stage does not let the item pass. -/
lemma follows_failed (h : OnWay stages envelope visits now (stage :: later))
    (hr : r.passes = false) :
    Tour.Follows stages ⟨envelope, visits ++ [⟨stage, now, some r⟩], some false⟩ where
  order := h.order_concat (some r)
  visit := h.given_concat stage (some r)
  passed_iff := by
    refine iff_of_false (by simp) fun hall => ?_
    have hlast := hall.1 ⟨stage, now, some r⟩ (by simp)
    exact absurd hlast (by simp [Visit.passes, hr])
  failed_iff := iff_of_true rfl ⟨⟨stage, now, some r⟩, by simp, by simp [Visit.stops, hr]⟩
  underWay_iff := by
    refine iff_of_false (by simp) ?_
    rintro ⟨v, hv, hnone⟩
    rcases List.mem_append.1 hv with hv | hv
    · exact (h.result?_of_mem hv).2 hnone
    · rw [List.mem_singleton.1 hv] at hnone
      exact absurd hnone (by simp)

/-- The item is in the next stage. -/
lemma follows_underWay (h : OnWay stages envelope visits now (stage :: later)) :
    Tour.Follows stages ⟨envelope, visits ++ [⟨stage, now, none⟩], none⟩ where
  order := h.order_concat none
  visit := h.given_concat stage none
  passed_iff := by
    refine iff_of_false (by simp) fun hall => ?_
    have hlast := hall.1 ⟨stage, now, none⟩ (by simp)
    exact absurd hlast (by simp [Visit.passes])
  failed_iff := by
    refine iff_of_false (by simp) ?_
    rintro ⟨v, hv, hstops⟩
    rcases List.mem_append.1 hv with hv | hv
    · exact absurd hstops (by simp [(h.result?_of_mem hv).1])
    · rw [List.mem_singleton.1 hv] at hstops
      exact absurd hstops (by simp [Visit.stops])
  underWay_iff := iff_of_true rfl ⟨⟨stage, now, none⟩, by simp, rfl⟩

end OnWay

end WebCrawl.Engine
