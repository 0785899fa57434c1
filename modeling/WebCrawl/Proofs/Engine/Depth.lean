import WebCrawl.Proofs.Engine.Ancestry
import WebCrawl.Proofs.Engine.Solitary

set_option autoImplicit false

/-!
# How far requests are from the start

The depth of a context counts how often a context was asked for a request on the way to it from the
start, with 32 bits. Handlers and stages are shown contexts, and they have no others but the start. As
long as they use only these, every request that has begun and every context that is shown lies as many
such steps from the start as its depth says, up to a multiple of `2 ^ 32`.

## Main definitions

* `WebCrawl.Engine.shown` — the contexts that handlers and stages were shown.
* `WebCrawl.Engine.Informed` — whoever hands something in uses only contexts that were shown before.
* `WebCrawl.Engine.Hops` — how a context came about, with the number of steps from the start.
* `WebCrawl.Engine.Undisturbed` — what was emitted before is as it was.

## Main results

* `WebCrawl.Engine.Rooted.update`, `WebCrawl.Engine.Rooted.run` — in an informed run all contexts
  come from the start.
* `WebCrawl.Engine.lineage_exact` — the places of all requests of a run.
* `WebCrawl.Engine.depth_starts_again` — a request that lies `2 ^ 32` steps from the start, at depth `0`.
-/

namespace WebCrawl.Engine

open Crawl Relation

variable {κ τ : Type} {V : τ → Type}

/-! ## Contexts that are shown and used -/

/-- The context with which handlers are told something. -/
def Notice.context : Notice κ → Context κ
  | .response _ c => c
  | .failure _ _ c => c
  | .redirect _ _ c => c

/-- The context that a handler or a stage is shown with an event. -/
def Event.shown? : Event κ V → Option (Context κ)
  | .told _ _ notice => some notice.context
  | .staged _ _ i => some i.context
  | _ => none

/-- The contexts that handlers and stages were shown. -/
def shown (e : Engine κ V) : List (Context κ) := e.journal.filterMap Event.shown?

/-- The contexts that an effect uses. A request that is to keep its place uses that of the context
only if it has none. -/
def Effect.contexts : Effect κ V → List (Context κ)
  | .add c _ => [c]
  | .retry c r => [r.context.getD c]
  | .submit r => r.context.toList
  | .item c _ => [c]
  | .query _ => []

/-- The contexts that a handler or a stage, or someone outside, uses in a move. -/
def Move.contexts : Move κ V → List (Context κ)
  | .ask effect => effect.contexts
  | .act _ effect => effect.contexts
  | .actItem _ effect => effect.contexts
  | .reply _ (some next) => next.context.toList
  | _ => []

lemma Move.contexts_of_effect {m : Move κ V} {effect : Effect κ V} (h : m.effect? = some effect) :
    m.contexts = effect.contexts := by
  cases m <;> cases h <;> rfl

/-- Whoever hands something in uses only the start and contexts that were shown before. -/
def Informed [DecidableEq τ] (e : Engine κ V) : List (Move κ V) → Prop
  | [] => True
  | m :: moves => (∀ c ∈ m.contexts, c = .root ∨ c ∈ e.shown) ∧
    ∀ e', e.step? m = some e' → e'.Informed moves

section Informed

variable [DecidableEq τ]

/-- A run in which nobody uses a context. -/
lemma informed_of_contexts_eq_nil : ∀ {moves : List (Move κ V)} (e : Engine κ V),
    (∀ m ∈ moves, m.contexts = []) → e.Informed moves := by
  intro moves
  induction moves with
  | nil => exact fun _ _ => trivial
  | cons m moves ih =>
    intro e h
    have hnone : m.contexts = [] := h m (List.mem_cons_self ..)
    exact ⟨by simp [hnone], fun e' _ => ih e' fun m' hm' => h m' (List.mem_cons_of_mem _ hm')⟩

/-- An informed run that goes on informed. -/
lemma Informed.append {later : List (Move κ V)} : ∀ {moves : List (Move κ V)} {e : Engine κ V},
    e.Informed moves → (∀ d, e.run? moves = some d → d.Informed later) →
      e.Informed (moves ++ later) := by
  intro moves
  induction moves with
  | nil => exact fun _ hlater => hlater _ rfl
  | cons m moves ih =>
    intro e h hlater
    refine ⟨h.1, fun e' he' => ih (h.2 e' he') fun d hd => hlater d ?_⟩
    rw [run?_cons, he']
    exact hd

end Informed

/-! ## Steps from the start -/

/-- How a context came about, as the journal tells it, with the number of steps from the start: it
is the start; or it was made of the place of a request when that was answered; or it lies one step
further than a context that was asked for a request. -/
inductive Hops (journal : List (Event κ V)) : Nat → Context κ → Prop where
  | root : Hops journal 0 .root
  | observed {k n : Nat} {q : Request κ} {a : Answer} (before : Hops journal k (contextOf q))
    (began : .began n q ∈ journal) (answered : .answered n a ∈ journal) :
    Hops journal k ((contextOf q).observe q.detached (a.toResponse q))
  | added {k : Nat} {c : Context κ} {origin : Origin} {q r : Request κ} (before : Hops journal k c)
    (adopted : c.Adopted q r) (taken : .enqueued origin r ∈ journal) :
    Hops journal (k + 1) { c with depth := (c.depth + 1) % 2 ^ 32 }

namespace Hops

variable {journal journal' : List (Event κ V)} {k : Nat} {c : Context κ}

/-- The depth of a context is the number of steps, with 32 bits. -/
lemma depth_eq (h : Hops journal k c) : c.depth = k % 2 ^ 32 := by
  induction h with
  | root => rfl
  | observed _ _ _ ih => exact ih
  | added _ _ _ ih => rw [ih, Nat.mod_add_mod]

/-- What a journal tells a longer one tells too. -/
lemma mono (h : Hops journal k c) (hsub : journal ⊆ journal') : Hops journal' k c := by
  induction h with
  | root => exact .root
  | observed _ began answered ih => exact .observed ih (hsub began) (hsub answered)
  | added _ adopted taken ih => exact .added ih adopted (hsub taken)

end Hops

/-- A context came about in some number of steps from the start. -/
def Grounded (journal : List (Event κ V)) (c : Context κ) : Prop := ∃ k, Hops journal k c

namespace Grounded

variable {journal journal' : List (Event κ V)} {c : Context κ}

lemma root : Grounded journal (.root : Context κ) := ⟨0, .root⟩

lemma mono (h : Grounded journal c) (hsub : journal ⊆ journal') : Grounded journal' c :=
  h.imp fun _ hk => hk.mono hsub

/-- A context that was made of the place of a request when that was answered. -/
lemma observed {n : Nat} {q : Request κ} {a : Answer} (h : Grounded journal (contextOf q))
    (began : .began n q ∈ journal) (answered : .answered n a ∈ journal) :
    Grounded journal ((contextOf q).observe q.detached (a.toResponse q)) :=
  h.imp fun _ hk => hk.observed began answered

/-- A context one step further than another one. -/
lemma added {origin : Origin} {q r : Request κ} (h : Grounded journal c) (adopted : c.Adopted q r)
    (taken : .enqueued origin r ∈ journal) :
    Grounded journal { c with depth := (c.depth + 1) % 2 ^ 32 } :=
  h.elim fun k hk => ⟨k + 1, hk.added adopted taken⟩

end Grounded

/-- A request that has begun is named by an event. -/
lemma mem_beginnings_iff {e : Engine κ V} {n : Nat} {r : Request κ} :
    (n, r) ∈ e.beginnings ↔ .began n r ∈ e.journal := by
  constructor
  · intro h
    obtain ⟨event, hevent, hbegan⟩ := List.mem_filterMap.1 h
    cases event <;> cases hbegan
    exact hevent
  · exact fun h => List.mem_filterMap.2 ⟨_, h, rfl⟩

/-- An answer that came back is named by an event. -/
lemma mem_answers_iff {e : Engine κ V} {n : Nat} {a : Answer} :
    (n, a) ∈ e.answers ↔ .answered n a ∈ e.journal := by
  constructor
  · intro h
    obtain ⟨event, hevent, hanswered⟩ := List.mem_filterMap.1 h
    cases event <;> cases hanswered
    exact hevent
  · exact fun h => List.mem_filterMap.2 ⟨_, h, rfl⟩

/-! ## The invariant -/

/-- The item that a worker has, in its context. -/
def ItemWorker.envelope? : ItemWorker κ V → Option (Envelope κ V)
  | .holding i => some i
  | .processing i _ _ => some i
  | _ => none

/-- The items that wait or are with a worker. -/
def envelopes (e : Engine κ V) : List (Envelope κ V) :=
  e.items.waiting ++ e.itemWorkers.filterMap ItemWorker.envelope?

/-- The contexts of the requests that were taken, of the items and of those who were shown one came
about in steps from the start. -/
structure Rooted (e : Engine κ V) : Prop where
  takings : ∀ p ∈ e.takings, Grounded e.journal (contextOf p.2)
  envelopes : ∀ i ∈ e.envelopes, Grounded e.journal i.context
  shown : ∀ c ∈ e.shown, Grounded e.journal c

namespace Rooted

variable {d e e' : Engine κ V} {m : Move κ V} {n k : Nat}

/-- Something happens, and what it shows came about from the start. -/
lemma log (h : Rooted e) (event : Event κ V) (ht : event.taking? = none)
    (hs : ∀ c, event.shown? = some c → Grounded e.journal c) : Rooted (e.log event) := by
  have hsub : e.journal ⊆ event :: e.journal := List.subset_cons_self _ _
  refine ⟨fun p hp => ?_, fun i hi => (h.envelopes i hi).mono hsub, fun c hc => ?_⟩
  · rw [Engine.takings, Engine.log, List.filterMap_cons_none ht] at hp
    exact (h.takings p hp).mono hsub
  · obtain ⟨event', hmem, hshown⟩ := List.mem_filterMap.1 hc
    rcases List.mem_cons.1 hmem with rfl | hmem
    · exact (hs c hshown).mono hsub
    · exact (h.shown c (List.mem_filterMap.2 ⟨event', hmem, hshown⟩)).mono hsub

/-- Something happens that shows no context. -/
lemma silent (h : Rooted e) (event : Event κ V) (ht : event.taking? = none)
    (hs : event.shown? = none) : Rooted (e.log event) :=
  h.log event ht fun c hc => by
    rw [hs] at hc
    cases hc

/-- A request is handed in, in a place that came about from the start. -/
lemma handIn (h : Rooted e) (origin : Origin) (r : Request κ)
    (hr : Grounded (.enqueued origin r :: e.journal) (contextOf r)) :
    Rooted (e.handIn origin r).2 := by
  cases hc : e.requests.closed with
  | true =>
    rw [handIn_closed e origin r hc]
    exact { h.silent (.refused origin r) rfl rfl with }
  | false =>
    rw [handIn_open e origin r hc]
    have hsub : e.journal ⊆ .enqueued origin r :: e.journal := List.subset_cons_self _ _
    refine ⟨fun p hp => ?_, fun i hi => (h.envelopes i hi).mono hsub,
      fun c hc => (h.shown c hc).mono hsub⟩
    rcases List.mem_cons.1 hp with rfl | hp
    · exact hr
    · exact (h.takings p hp).mono hsub

/-- An item is handed in, in a context that came about from the start. -/
lemma submitItem (h : Rooted e) (i : Envelope κ V) (hi : Grounded e.journal i.context) :
    Rooted (e.submitItem i).2 := by
  cases hc : e.items.closed with
  | true =>
    rw [submitItem_closed e i hc]
    exact { h.silent (.itemRefused i) rfl rfl with }
  | false =>
    rw [submitItem_open e i hc]
    have hlog := h.silent (.itemEnqueued i) rfl rfl
    refine { hlog with envelopes := fun j hj => ?_ }
    have hcases : j ∈ e.envelopes ∨ j = i := by
      simp only [Engine.envelopes, List.mem_append, List.mem_singleton] at hj ⊢
      tauto
    rcases hcases with hj | rfl
    · exact hlog.envelopes j hj
    · exact hi.mono (List.subset_cons_self _ _)

/-- An item worker goes on, with an item that it or the queue had before or with none. -/
lemma setItem (h : Rooted e) (items : Queue (Envelope κ V)) (w : ItemWorker κ V)
    (hitems : items.waiting ⊆ e.items.waiting)
    (hw : ∀ i, w.envelope? = some i → Grounded e.journal i.context) :
    Rooted { e with items := items, itemWorkers := e.itemWorkers.set k w } := by
  refine { h with envelopes := fun i hi => ?_ }
  rcases List.mem_append.1 hi with hi | hi
  · exact h.envelopes i (List.mem_append_left _ (hitems hi))
  · obtain ⟨v, hv, hiv⟩ := List.mem_filterMap.1 hi
    rcases List.mem_or_eq_of_mem_set hv with hv | rfl
    · exact h.envelopes i (List.mem_append_right _ (List.mem_filterMap.2 ⟨v, hv, hiv⟩))
    · exact hw i hiv

/-- The item that a worker has came from the start. -/
lemma grounded_item {w : ItemWorker κ V} {i : Envelope κ V} (h : Rooted e)
    (hk : e.itemWorkers[k]? = some w) (hi : w.envelope? = some i) : Grounded e.journal i.context :=
  h.envelopes i (List.mem_append_right _ (List.mem_filterMap.2 ⟨w, List.mem_of_getElem? hk, hi⟩))

/-- An item comes to a stage. -/
lemma staged (h : Rooted e) (j : Envelope κ V) (stage : Stage τ) (rest : List (Stage τ))
    (hj : Grounded e.journal j.context) :
    Rooted ((e.enterItem k (.processing j stage rest)).log (.staged k stage j)) := by
  have hset : Rooted (e.enterItem k (.processing j stage rest)) :=
    h.setItem e.items (.processing j stage rest) (List.Subset.refl _) (by rintro i ⟨⟩; exact hj)
  exact hset.log _ rfl (by rintro c ⟨⟩; exact hj)

/-- An item ends. -/
lemma finishItem (h : Rooted e) (k : Nat) (passed : Bool) : Rooted (e.finishItem k passed) := by
  rw [finishItem_eq]
  have hset := h.setItem (k := k) e.items .idle (List.Subset.refl _) (by rintro i ⟨⟩)
  exact { hset.silent (.itemFinished k passed) rfl rfl with }

/-- The place of a request that has begun came about from the start. -/
lemma grounded_of_began (h : Rooted e) (hs : Sequenced e) {q : Request κ}
    (hq : (n, q) ∈ e.beginnings) : Grounded e.journal (contextOf q) := by
  have hmem : q ∈ acceptedIn e.journal := List.mem_of_getElem? (hs.getElem?_accepted hq)
  obtain ⟨p, hp, rfl⟩ := List.mem_map.1 hmem
  exact h.takings p (List.mem_reverse.1 hp)

/-- What is told is told in a context that came about from the start. -/
lemma grounded_of_reports (h : Rooted e) (hs : Sequenced e) {notice : Notice κ}
    (hn : e.Reports n notice) : Grounded e.journal notice.context := by
  cases notice with
  | response response c =>
    obtain ⟨q, a, hq, ha, rfl, rfl⟩ := hn
    exact (h.grounded_of_began hs hq).observed (mem_beginnings_iff.1 hq) (mem_answers_iff.1 ha)
  | failure q error c =>
    obtain ⟨hq, rfl⟩ := hn
    exact h.grounded_of_began hs hq
  | redirect response next c =>
    obtain ⟨-, q, a, target, hq, -, -, -, rfl⟩ := hn
    exact h.grounded_of_began hs hq

/-- A request that is handed in from outside by an informed move has a place that came about from
the start. -/
lemma grounded_of_submits (hm : ∀ c ∈ m.contexts, Grounded d.journal c) {r : Request κ}
    {c : Context κ} (hr : Submits d m r c) {journal : List (Event κ V)} (hsub : d.journal ⊆ journal)
    {origin : Origin} (htaken : .enqueued origin r ∈ journal) : Grounded journal c := by
  cases hr with
  | seed _ adopted => exact Grounded.root.added adopted htaken
  | @added _ c _ _ heffect adopted =>
    have hc : Grounded d.journal c :=
      hm c (by simp [Move.contexts_of_effect heffect, Effect.contexts])
    exact (hc.mono hsub).added adopted htaken
  | retried heffect =>
    exact (hm _ (by simp [Move.contexts_of_effect heffect, Effect.contexts])).mono hsub
  | placed heffect context =>
    exact (hm c (by simp [Move.contexts_of_effect heffect, Effect.contexts, context])).mono hsub
  | bare => exact .root
  | replied _ context _ => exact (hm c (by simp [Move.contexts, context])).mono hsub

/-- What is handed in by an informed move has a place that came about from the start. -/
lemma grounded_of_handsIn (h : Rooted d) (hs : Sequenced d)
    (hm : ∀ c ∈ m.contexts, Grounded d.journal c) {origin : Origin} {r : Request κ}
    (hr : HandsIn d m origin r) {journal : List (Event κ V)} (hsub : d.journal ⊆ journal)
    (htaken : .enqueued origin r ∈ journal) : Grounded journal (contextOf r) := by
  obtain hsubmits | ⟨n, q, -, hq, hcontinues⟩ := hr.cases
  · exact grounded_of_submits hm hsubmits hsub htaken
  · rw [hcontinues.contextOf_eq]
    exact (h.grounded_of_began hs hq).mono hsub

/-- Every update of an informed move keeps the contexts rooted. -/
theorem update (h : Rooted e) (hs : Sequenced e) (hd : Rooted d) (hds : Sequenced d)
    (hm : ∀ c ∈ m.contexts, Grounded d.journal c) (hsub : d.journal <:+ e.journal)
    (he : Update d m e e') : Rooted e' := by
  cases he with
  | aside started stats cache => exact { h with }
  | ignited off none =>
    refine { h with envelopes := fun i hi => h.envelopes i ?_ }
    have hnone : (List.replicate e.setup.settings.itemWorkers .idle).filterMap
        ItemWorker.envelope? = ([] : List (Envelope κ V)) := by
      simp [ItemWorker.envelope?]
    simpa [Engine.envelopes, ignite, hnone] using Or.inl hi
  | @request origin r hr =>
    refine h.handIn origin r (hd.grounded_of_handsIn hds hm hr ?_ (List.mem_cons_self ..))
    exact List.subset_cons_of_subset _ hsub.subset
  | @item c i heffect =>
    refine h.submitItem _ ((hm c ?_).mono hsub.subset)
    simp [Move.contexts_of_effect heffect, Effect.contexts]
  | took _ _ => exact { h with }
  | drains _ => exact { h with }
  | @attends r _ _ => exact { h.silent (.began e.begun r) rfl rfl with }
  | @admits r _ _ _ => exact { h.silent (.began e.begun r) rfl rfl with }
  | attended _ _ => exact { h with }
  | resumed _ => exact { h with }
  | drained _ _ => exact { h with }
  | entered phase _ => exact { h with }
  | sent n wire => exact h.silent _ rfl rfl
  | answered n a => exact h.silent _ rfl rfl
  | noted n notice => exact h.silent _ rfl rfl
  | told n level hn => exact h.log _ rfl (by rintro c ⟨⟩; exact h.grounded_of_reports hs hn)
  | @finished n _ _ => exact { h.silent (.finished n) rfl rfl with }
  | @tookItem k i rest _ hw =>
    refine h.setItem ⟨rest, e.items.closed⟩ (.holding i) ?_ ?_
    · rw [hw]
      exact List.subset_cons_self _ _
    · rintro j ⟨⟩
      exact h.envelopes i (List.mem_append_left _ (hw ▸ List.mem_cons_self ..))
  | endedItems _ => exact h.setItem e.items .ended (List.Subset.refl _) (by rintro i ⟨⟩)
  | @beganItem k i stages hk _ =>
    have hi : Grounded e.journal i.context := h.grounded_item hk rfl
    have hbegan := h.silent (.itemBegan k i) rfl rfl
    obtain hn | ⟨stage, later, hn⟩ := nextStage_cases _ k i stages <;> rw [hn]
    · have hended := hbegan.finishItem k true
      rw [finishItem_eq] at hended ⊢
      exact { hended with }
    · have hstaged := hbegan.staged (k := k) i stage later (hi.mono (List.subset_cons_self _ _))
      exact { hstaged with }
  | @staged k i j _ _ stage rest hk same =>
    exact h.staged j stage rest (same ▸ h.grounded_item hk rfl)
  | finishedItem passed hk => exact h.finishItem _ passed
  | cleared => exact { h.silent (.cleared e.requests.waiting) rfl rfl with }
  | discardedRequests =>
    refine { h with envelopes := fun i hi => h.envelopes i (List.mem_append_right _ ?_) }
    simpa [Engine.envelopes] using hi
  | discardedItems requests =>
    exact { h.silent (.discarded requests e.activity.queuedItems) rfl rfl with }
  | pipelineClosed i => exact { h.silent (.pipelineClosed i) rfl rfl with }

/-- In a new engine there are no contexts. -/
lemma new (setup : Setup τ) (seeds : List (Request κ)) :
    Rooted (.new setup seeds : Engine κ V) where
  takings := by simp [Engine.takings, Engine.new]
  envelopes := by simp [Engine.envelopes, Engine.new, Queue.empty]
  shown := by simp [Engine.shown, Engine.new]

variable [DecidableEq τ] {setup : Setup τ} {seeds : List (Request κ)}

/-- A move that uses only the start and contexts that were shown before keeps the contexts rooted.
-/
theorem step (hd : Reachable setup seeds d) (h : Rooted d)
    (hm : ∀ c ∈ m.contexts, c = .root ∨ c ∈ d.shown) (he : d.step? m = some e) : Rooted e := by
  have hgrounded : ∀ c ∈ m.contexts, Grounded d.journal c := by
    intro c hc
    obtain rfl | hshown := hm c hc
    · exact .root
    · exact h.shown c hshown
  refine ((hd.updates m he).keep (P := fun x => d.journal <:+ x.journal ∧ Sequenced x ∧ Rooted x) ?_
    ⟨List.suffix_refl _, hd.sequenced, h⟩).2.2
  rintro x y hxy ⟨hsub, hs, hx⟩
  exact ⟨hsub.trans hxy.journal_suffix, hs.update hxy,
    hx.update hs h hd.sequenced hgrounded hsub hxy⟩

/-- In a run in which whoever hands something in uses only the start and contexts that were shown
before, all contexts came about from the start. -/
theorem run : ∀ {moves : List (Move κ V)} {d e : Engine κ V}, Reachable setup seeds d → Rooted d →
    d.Informed moves → d.run? moves = some e → Rooted e := by
  intro moves
  induction moves with
  | nil =>
    intro d e _ h _ he
    obtain rfl : d = e := by simpa using he
    exact h
  | cons m moves ih =>
    intro d e hd h hinformed he
    rw [run?_cons] at he
    obtain ⟨d', hd', he⟩ := Option.bind_eq_some_iff.1 he
    exact ih (hd.step m hd') (h.step hd hinformed.1 hd') (hinformed.2 d' hd') he

end Rooted

/-! ## Emitting -/

/-- The phase of a worker, but for whether the document of the response was read. -/
def Phase.unread : Phase κ → Phase κ
  | .telling notice level later _ => .telling notice level later false
  | phase => phase

/-- What was emitted before and what is told is as it was, and what is emitted comes after all that.
-/
structure Undisturbed (e e' : Engine κ V) : Prop where
  dispatcher : e'.dispatcher = e.dispatcher
  workers : e'.workers.map (fun w => (w.number, w.phase.unread)) =
    e.workers.map fun w => (w.number, w.phase.unread)
  itemWorkers : e'.itemWorkers = e.itemWorkers
  requests : e.requests.waiting <+: e'.requests.waiting
  items : e.items.waiting <+: e'.items.waiting
  journal : e.journal <:+ e'.journal

/-- What a handler or a stage does leaves what was emitted before as it was. -/
lemma undisturbed_perform (e : Engine κ V) (effect : Effect κ V) :
    Undisturbed e (e.perform effect) := by
  refine perform_induction (P := Undisturbed e) effect (fun r => ?_) (fun i => ?_) fun cache => ?_
  · cases hc : e.requests.closed with
    | true =>
      rw [handIn_closed e _ r hc]
      exact ⟨rfl, rfl, rfl, List.prefix_refl _, List.prefix_refl _, List.suffix_cons _ _⟩
    | false =>
      rw [handIn_open e _ r hc]
      exact ⟨rfl, rfl, rfl, List.prefix_append _ _, List.prefix_refl _, List.suffix_cons _ _⟩
  · cases hc : e.items.closed with
    | true =>
      rw [submitItem_closed e i hc]
      exact ⟨rfl, rfl, rfl, List.prefix_refl _, List.prefix_refl _, List.suffix_cons _ _⟩
    | false =>
      rw [submitItem_open e i hc]
      exact ⟨rfl, rfl, rfl, List.prefix_refl _, List.prefix_append _ _, List.suffix_cons _ _⟩
  · exact ⟨rfl, rfl, rfl, List.prefix_refl _, List.prefix_refl _, List.suffix_refl _⟩

variable [DecidableEq τ]

/-- A move in which a handler or a stage does something leaves what was emitted before as it was. -/
lemma Orderly.undisturbed {e e' : Engine κ V} {m : Move κ V} {effect : Effect κ V} (h : Orderly e)
    (hm : m.effect? = some effect) (he : e.step? m = some e') : Undisturbed e e' := by
  have hperform := undisturbed_perform e effect
  cases m <;> cases hm
  case ask =>
    obtain rfl := Option.some.inj he
    exact hperform
  case act n =>
    obtain ⟨v, notice, level, later, isRead, isRead', hw, rfl⟩ := act?_eq_some he
    obtain ⟨as, bs, hs, hn, hne⟩ := exists_split h.numbers hw
    have hs' : (e.perform effect).workers = as ++ _ :: bs := (perform_frame e effect).2.trans hs
    rw [enter_split hs' hn hne]
    refine { hperform with workers := ?_ }
    have hn : v = n := hn
    simp [hs, hn, Phase.unread]
  case actItem k =>
    obtain ⟨-, -, -, -, rfl⟩ := actItem?_eq_some he
    exact hperform

/-! ## A way of any length -/

/-- A request without a method cannot be sent. -/
lemma exists_error_of_method_nil {r : Request κ} (h : r.method = []) (settings : Settings) :
    ∃ error, Wire.ofRequest r settings = .error error := by
  refine ⟨.build r.method r.url Wire.badMethod, ?_⟩
  rw [Wire.ofRequest, Wire.assemble, h]
  rfl

/-- A context that is asked for a request changes neither its method nor its handlers. -/
lemma adopt_eq (c : Context κ) (q : Request κ) :
    (c.adopt q).method = q.method ∧ (c.adopt q).onError = q.onError :=
  ⟨congrArg (·.method) (Context.adopted_adopt c q).rest,
    congrArg (·.onError) (Context.adopted_adopt c q).rest⟩

/-- A run to any distance from the start: whenever the request cannot be sent, the handler that is told
of this asks the context that it is given for another one.

**Proof sketch.** Induction on the distance. Each round begins and ends with one request that waits, and
that of the next lies one step further. -/
lemma exists_hops {setup : Setup τ} (hears : setup.hearsFailures = true)
    (hpermits : 0 < setup.settings.maxConcurrentRequests)
    (hunpaced : setup.settings.requestDelay.nanoseconds = 0) (k : Nat) :
    ∃ (moves : List (Move κ V)) (e : Engine κ V) (r : Request κ),
      (new setup []).run? moves = some e ∧ (new setup []).Informed moves ∧ e.setup = setup ∧
      Solitary e r ∧ r.method = [] ∧ r.onError = none ∧ Hops e.journal k (contextOf r) := by
  induction k with
  | zero =>
    obtain ⟨e, hrun, halone, hsetup, -⟩ :=
      solitary_of_started (κ := κ) (V := V) (.make [] [] .empty) hpermits hunpaced
    exact ⟨_, e, _, hrun, informed_of_contexts_eq_nil _ (by simp [Move.contexts, Effect.contexts,
      Request.make]), hsetup, halone, rfl, rfl, .root⟩
  | succ k ih =>
    obtain ⟨moves, e, r, hrun, hinformed, hsetup, halone, hmethod, hquiet, hhops⟩ := ih
    obtain ⟨error, hwire⟩ := exists_error_of_method_nil hmethod e.setup.settings
    obtain ⟨d, e', hd, htold, he', halone', hsetup', htaken, hsuffix⟩ :=
      halone.asked hwire (hsetup ▸ hears) hquiet (.make [] [] .empty)
    obtain ⟨hmethod', hquiet'⟩ := adopt_eq (contextOf r) (.make [] [] .empty)
    have hshown : contextOf r ∈ d.shown := List.mem_filterMap.2 ⟨_, htold, rfl⟩
    refine ⟨moves ++ ([.receive, .launch, .send e.begun] ++
      [.act e.begun (.add (contextOf r) (.make [] [] .empty)), .reply e.begun none]), e',
      (contextOf r).adopt (.make [] [] .empty), ?_, ?_, hsetup'.trans hsetup, halone', hmethod',
      hquiet', (hhops.mono hsuffix.subset).added (Context.adopted_adopt _ _) htaken⟩
    · rw [run?_append, hrun, Option.bind_some, run?_append, hd, Option.bind_some, he']
    · refine hinformed.append fun x hx => ?_
      obtain rfl : e = x := Option.some.inj (hrun.symm.trans hx)
      refine (informed_of_contexts_eq_nil _ (by simp [Move.contexts])).append fun x hx => ?_
      obtain rfl : d = x := Option.some.inj (hd.symm.trans hx)
      refine ⟨fun c hc => .inr ?_, fun x _ => informed_of_contexts_eq_nil x (by simp [Move.contexts])⟩
      obtain rfl : c = contextOf r := by simpa [Move.contexts, Effect.contexts] using hc
      exact hshown

/-! ## Every run -/

section Run

variable {setup : Setup τ} {seeds : List (Request κ)} {moves : List (Move κ V)} {e : Engine κ V}

/-- The places of all requests of a run, whatever handlers and stages do:

* every request that has begun goes back to one that a move of the run handed in from outside, over
  requests that the engine derived from one another, and has the place in the crawl with which that
  was handed in: one step further than a context `c`, if `c` was asked for it, and then it names the
  last response of `c` as where it came from if it named nothing; and the start, if it was handed in
  as it is and without a place;
* if handlers and stages use only the start and contexts that they were shown, every request that has
  begun and every context that is shown has a way there from the start, and its depth is the number of
  times that a context was asked for a request on such a way, with 32 bits;
* a handler that is told of a response is given the context of the request that was answered, at its
  depth and with just that request and that response as the last exchange;
* to hand in something changes neither the context that a handler was given nor anything that was
  handed in before.

**Proof sketch.** The way back is found by induction on the number of the worker. The steps from the
start are counted along the run, as every update makes contexts only of those that there were. -/
theorem lineage_exact (hrun : (new setup seeds).run? moves = some e) :
    (∀ n r, (n, r) ∈ e.beginnings → ∃ n₀ r₀ d m,
      ReflTransGen e.Succeeds n₀ n ∧ (acceptedIn e.journal)[n₀]? = some r₀ ∧
      TakenAt setup seeds moves n₀ d m ∧ Submits d m r₀ (contextOf r)) ∧
    ((new setup seeds).Informed moves →
      (∀ n r, (n, r) ∈ e.beginnings → (∃ k, Hops e.journal k (contextOf r)) ∧
        ∀ k, Hops e.journal k (contextOf r) → (contextOf r).depth = k % 2 ^ 32) ∧
      ∀ c ∈ e.shown, (∃ k, Hops e.journal k c) ∧
        ∀ k, Hops e.journal k c → c.depth = k % 2 ^ 32) ∧
    (∀ n response c, (n, .response response c) ∈ e.tellings →
      ∃ r a, (n, r) ∈ e.beginnings ∧ (n, a) ∈ e.answers ∧ response = a.toResponse r ∧
        response.request = r.detached ∧ c.lastRequest = some response.request ∧
        c.lastResponse = some response ∧ c.depth = (contextOf r).depth) ∧
    ∀ m effect e', m.effect? = some effect → e.step? m = some e' → Undisturbed e e' := by
  have hreach : Reachable setup seeds e := ⟨moves, hrun⟩
  refine ⟨exists_ancestor hrun, fun hinformed => ?_, fun n response c hn => ?_,
    fun m effect e' hm he => hreach.orderly.undisturbed hm he⟩
  · have hrooted : Rooted e := Rooted.run ⟨[], rfl⟩ (.new setup seeds) hinformed hrun
    exact ⟨fun n r hr => ⟨hrooted.grounded_of_began hreach.sequenced hr, fun _ => Hops.depth_eq⟩,
      fun c hc => ⟨hrooted.shown c hc, fun _ => Hops.depth_eq⟩⟩
  · obtain ⟨r, a, hr, ha, rfl, rfl⟩ := hreach.chronicled.tellings _ hn
    exact ⟨r, a, hr, ha, rfl, rfl, rfl, rfl, rfl⟩

end Run

/-- A handler that is told of the response to the first request asks its context for another one,
which begins two steps from the start and names the first as where it came from. -/
theorem lineage_of_second_page :
    ∃ (setup : Setup Unit) (seeds : List (Request Unit))
      (moves : List (Move Unit fun _ : Unit => Unit)) (e : Engine Unit fun _ : Unit => Unit)
      (r : Request Unit),
      (new setup seeds).run? moves = some e ∧ (new setup seeds).Informed moves ∧
      (1, r) ∈ e.beginnings ∧ (contextOf r).depth = 2 ∧
      r.headers.getAll "Referer" = ["http://a/"] ∧
      (∃ k, Hops e.journal k (contextOf r) ∧ 2 = k % 2 ^ 32) ∧ ∃ n₀ r₀ d m, ReflTransGen e.Succeeds n₀ 1 ∧
        TakenAt setup seeds moves n₀ d m ∧ Submits d m r₀ (contextOf r) := by
  let setup : Setup Unit := { settings := { itemWorkers := 1 }, hearsResponses := true }
  let first : Request Unit := .get "http://a/"
  let second : Request Unit := .get "http://a/b"
  let answer : Answer := { status := 200 }
  let asked : Request Unit := Context.root.adopt first
  let c : Context Unit := (contextOf asked).observe asked.detached (answer.toResponse asked)
  let before : List (Move Unit fun _ : Unit => Unit) :=
    [.start, .receive, .launch, .send 0, .answer 0 (.answered answer)]
  let after : List (Move Unit fun _ : Unit => Unit) := [.reply 0 none, .receive, .launch]
  have hrun : ∃ d e : Engine Unit fun _ : Unit => Unit, (new setup [first]).run? before = some d ∧
      d.shown = [c] ∧
      (new setup [first]).run? (before ++ .act 0 (.add c second) :: after) = some e ∧
      e.beginnings = [(1, c.adopt second), (0, asked)] := by
    with_unfolding_all exact ⟨_, _, rfl, rfl, rfl, rfl⟩
  obtain ⟨d, e, hd, hshown, he, hbegan⟩ := hrun
  have hinformed : (new setup [first]).Informed (before ++ .act 0 (.add c second) :: after) := by
    refine (informed_of_contexts_eq_nil _ ?_).append fun d' hd' => ?_
    · simp [before, Move.contexts]
    · obtain rfl : d = d' := Option.some.inj (hd.symm.trans hd')
      refine ⟨fun c' hc' => .inr ?_, fun d'' _ => informed_of_contexts_eq_nil _ ?_⟩
      · rw [hshown]
        exact hc'
      · simp [after, Move.contexts]
  have hsecond : (1, c.adopt second) ∈ e.beginnings := by simp [hbegan]
  obtain ⟨hancestor, hhops, -, -⟩ := lineage_exact he
  obtain ⟨n₀, r₀, x, m, hchain, -, htaken, hsubmits⟩ := hancestor 1 _ hsecond
  obtain ⟨⟨k, hk⟩, hdepth⟩ := (hhops hinformed).1 1 _ hsecond
  exact ⟨setup, [first], _, e, c.adopt second, he, hinformed, hsecond, rfl, by decide +kernel,
    ⟨k, hk, hdepth k hk⟩, n₀, r₀, x, m, hchain, htaken, hsubmits⟩

/-- After `2 ^ 32` steps the count starts again: a handler that is told of every failure asks the context
that it is given for another request each time, and the last of these requests begins at the depth of
the start. -/
theorem depth_starts_again :
    ∃ (setup : Setup Unit) (seeds : List (Request Unit))
      (moves : List (Move Unit fun _ : Unit => Unit)) (e : Engine Unit fun _ : Unit => Unit) (n : Nat)
      (r : Request Unit),
      (new setup seeds).run? moves = some e ∧ (new setup seeds).Informed moves ∧
      (n, r) ∈ e.beginnings ∧ Hops e.journal (2 ^ 32) (contextOf r) ∧ (contextOf r).depth = 0 := by
  let setup : Setup Unit := { settings := {}, hearsFailures := true }
  have hears : setup.hearsFailures = true := rfl
  obtain ⟨moves, e, r, hrun, hinformed, -, halone, -, -, hhops⟩ :=
    exists_hops (κ := Unit) (V := fun _ : Unit => Unit) hears (by decide) rfl (2 ^ 32)
  obtain ⟨d, hd, -, -, -, hjournal⟩ := halone.launched
  have hlater : Hops d.journal (2 ^ 32) (contextOf r) := by
    rw [hjournal]
    exact hhops.mono (List.subset_cons_self _ _)
  refine ⟨setup, [], moves ++ [.receive, .launch], d, e.begun, r, ?_, ?_, ?_, hlater, hlater.depth_eq⟩
  · rw [run?_append, hrun, Option.bind_some, hd]
  · exact hinformed.append fun x _ => informed_of_contexts_eq_nil x (by simp [Move.contexts])
  · rw [mem_beginnings_iff, hjournal]
    exact List.mem_cons_self ..

end WebCrawl.Engine
