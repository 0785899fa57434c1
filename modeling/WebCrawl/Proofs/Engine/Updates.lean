import Mathlib.Logic.Relation
import WebCrawl.Proofs.Engine.Exchanges
import WebCrawl.Proofs.Engine.Order

set_option autoImplicit false

/-!
# The updates of which a move consists

A move of an engine is a short sequence of small updates: something is handed in, a worker goes on
to another phase, an event is written down, a worker ends. What is kept by every update is kept by
every move, and it also holds at every moment in the middle of a move. The updates say what the
journal knows when they are made: how a request comes to be handed in, and of what a handler is
told.

## Main definitions

* `WebCrawl.Engine.HandsIn` — how a request comes to be handed in by a move.
* `WebCrawl.Engine.HasWorker` — a live worker among the others, which have other numbers.
* `WebCrawl.Engine.Update` — the updates.

## Main results

* `WebCrawl.Engine.Chronicled.updates` — a move is a sequence of updates.
* `WebCrawl.Engine.Reachable.update_induction` — what a new engine has and every update keeps, every
  reachable engine has.
-/

namespace WebCrawl.Engine

open Crawl Relation

variable {κ τ : Type} {V : τ → Type}

/-! ## What is handed in -/

/-- What a handler or a stage, or someone outside, does in a move. -/
def Move.effect? : Move κ V → Option (Effect κ V)
  | .ask effect => some effect
  | .act _ effect => some effect
  | .actItem _ effect => some effect
  | _ => none

/-- How a request comes to be handed in by a move of an engine, and by whom: it is one of the first
requests; or someone asks for it; or it takes the place of the request with which a worker began,
because that is tried again, or redirected, or because a handler replied with it to a redirect. -/
inductive HandsIn (d : Engine κ V) : Move κ V → Origin → Request κ → Prop where
  | seed {q : Request κ} (mem : q ∈ d.seeds) : HandsIn d .start .outside (Context.root.adopt q)
  | added {m : Move κ V} {c : Context κ} {q : Request κ} (h : m.effect? = some (.add c q)) :
    HandsIn d m .outside (c.adopt q)
  | kept {m : Move κ V} {c : Context κ} {q : Request κ} (h : m.effect? = some (.retry c q)) :
    HandsIn d m .outside (c.keep q)
  | submitted {m : Move κ V} {q : Request κ} (h : m.effect? = some (.submit q)) :
    HandsIn d m .outside q
  | retried {n : Nat} {outcome : Outcome} {q : Request κ} (began : (n, q) ∈ d.beginnings) :
    HandsIn d (.answer n outcome) (.worker n)
      ((contextOf q).keep { q with retryTimes := q.retryTimes + 1 })
  | redirected {n : Nat} {outcome : Outcome} {q : Request κ} (target : Text)
    (response : Response κ) (began : (n, q) ∈ d.beginnings) :
    HandsIn d (.answer n outcome) (.worker n) ((contextOf q).keep (q.redirected target response))
  | replied {n : Nat} {q next : Request κ} (began : (n, q) ∈ d.beginnings) :
    HandsIn d (.reply n (some next)) (.worker n) ((contextOf q).keep next)

/-! ## Updates -/

/-- A live worker stands among the others, which have other numbers. -/
def HasWorker (e : Engine κ V) (n : Nat) (w : Worker κ) : Prop :=
  ∃ as bs, e.workers = as ++ w :: bs ∧ w.number = n ∧ ∀ v ∈ as ++ bs, v.number ≠ n

/-- One of the small updates of which a move of an engine `d` consists. -/
inductive Update (d : Engine κ V) (m : Move κ V) (e : Engine κ V) : Engine κ V → Prop where
  /-- What was done is counted, or something is looked up, or someone tried to start the engine. -/
  | aside (started : Bool) (stats : Stats) (cache : Query.Cache) :
    Update d m e { e with started := started, stats := stats, cache := cache }
  /-- The engine is set going. -/
  | ignited (off : e.dispatcher = .off) (none : e.itemWorkers = []) : Update d m e e.ignite
  /-- A request is handed in. -/
  | request {origin : Origin} {r : Request κ} (h : HandsIn d m origin r) :
    Update d m e (e.handIn origin r).2
  /-- An item is handed in. -/
  | item {c : Context κ} {i : Item V} (h : m.effect? = some (.item c i)) :
    Update d m e (e.submitItem ⟨i, c⟩).2
  /-- The dispatcher takes the request that waits longest. -/
  | took {r : Request κ} {rest : List (Request κ)} (idle : e.dispatcher = .idle)
    (waiting : e.requests.waiting = r :: rest) :
    Update d m e { e with
      requests := ⟨rest, e.requests.closed⟩, dispatcher := .holding r }
  /-- The dispatcher learns that no more requests will come. -/
  | drains (idle : e.dispatcher = .idle) : Update d m e { e with dispatcher := .draining }
  /-- The dispatcher gives its request to a worker, for which it waits. -/
  | attends {r : Request κ} (holding : e.dispatcher = .holding r) (paced : e.isPaced = true) :
    Update d m e { e.begin r with dispatcher := .attending e.begun }
  /-- The dispatcher gives its request to a worker, with a permit. -/
  | admits {r : Request κ} (holding : e.dispatcher = .holding r) (unpaced : e.isPaced = false)
    (permit : 0 < e.permits) :
    Update d m e { e.begin r with dispatcher := .idle, permits := e.permits - 1 }
  /-- The dispatcher goes on, since the worker for which it waits has ended. -/
  | attended {n : Nat} (attending : e.dispatcher = .attending n) (ended : e.worker? n = none) :
    Update d m e { e with dispatcher := .pausing }
  /-- The dispatcher goes on after a pause. -/
  | resumed (pausing : e.dispatcher = .pausing) : Update d m e { e with dispatcher := .idle }
  /-- The dispatcher ends. -/
  | drained (draining : e.dispatcher = .draining) (none : e.workers = []) :
    Update d m e { e with dispatcher := .ended }
  /-- A worker goes on to another phase. -/
  | entered {n : Nat} {w : Worker κ} (phase : Phase κ) (h : e.HasWorker n w) :
    Update d m e (e.enter n phase)
  /-- A request is sent. -/
  | sent (n : Nat) (wire : Wire) : Update d m e (e.log (.sent n wire))
  /-- An answer comes back. -/
  | answered (n : Nat) (a : Answer) : Update d m e (e.log (.answered n a))
  /-- The handlers are to be told something. -/
  | noted (n : Nat) (notice : Notice κ) : Update d m e (e.log (.noted n notice))
  /-- A handler is told something. -/
  | told (n : Nat) (level : Level κ) {notice : Notice κ} (h : e.Reports n notice) :
    Update d m e (e.log (.told n level notice))
  /-- A worker ends. -/
  | finished {n : Nat} {w : Worker κ} (h : e.HasWorker n w) : Update d m e (e.finish n)
  /-- An item worker takes the item that waits longest. -/
  | tookItem {k : Nat} {i : Envelope κ V} {rest : List (Envelope κ V)}
    (idle : e.itemWorkers[k]? = some .idle) (waiting : e.items.waiting = i :: rest) :
    Update d m e { e with
      items := ⟨rest, e.items.closed⟩, itemWorkers := e.itemWorkers.set k (.holding i) }
  /-- An item worker ends. -/
  | endedItems {k : Nat} (idle : e.itemWorkers[k]? = some .idle) :
    Update d m e { e with itemWorkers := e.itemWorkers.set k .ended }
  /-- An item begins with a permit, and comes to its first stage or ends at once. -/
  | beganItem {k : Nat} {i : Envelope κ V} (stages : List (Stage τ))
    (holding : e.itemWorkers[k]? = some (.holding i)) (permit : 0 < e.itemPermits) :
    Update d m e (Engine.nextStage { e with
      activity := { e.activity with
        activeItems := e.activity.activeItems + 1, queuedItems := e.activity.queuedItems - 1 }
      itemPermits := e.itemPermits - 1
      journal := .itemBegan k i :: e.journal } k i stages)
  /-- An item comes to its next stage. -/
  | staged {k : Nat} {i j : Envelope κ V} {s : Stage τ} {later : List (Stage τ)} (stage : Stage τ)
    (rest : List (Stage τ)) (h : e.itemWorkers[k]? = some (.processing i s later))
    (same : j.context = i.context) :
    Update d m e ((e.enterItem k (.processing j stage rest)).log (.staged k stage j))
  /-- An item ends. -/
  | finishedItem {k : Nat} {i : Envelope κ V} {s : Stage τ} {later : List (Stage τ)} (passed : Bool)
    (h : e.itemWorkers[k]? = some (.processing i s later)) : Update d m e (e.finishItem k passed)
  /-- The queue of requests is closed, and what waited there is taken out. -/
  | cleared :
    Update d m e { e with
      connectable := false
      requests := ⟨[], true⟩
      closing := .requests e.requests.waiting.length
      journal := .cleared e.requests.waiting :: e.journal }
  /-- The requests that waited are thrown away, and the queue of items is closed. -/
  | discardedRequests :
    Update d m e { e with
      activity := { e.activity with queuedRequests := 0 }
      items := ⟨[], true⟩
      closing := .items e.activity.queuedRequests e.items.waiting.length }
  /-- The items that waited are thrown away. -/
  | discardedItems (requests : Nat) :
    Update d m e { e with
      activity := { e.activity with queuedItems := 0 }
      stats := e.stats.recordDiscarded requests e.activity.queuedItems
      closing := e.closingFrom 0
      journal := .discarded requests e.activity.queuedItems :: e.journal }
  /-- A pipeline is closed. -/
  | pipelineClosed (i : Nat) :
    Update d m e { e with
      closing := e.closingFrom (i + 1), journal := .pipelineClosed i :: e.journal }

/-- Some updates after one another. -/
abbrev Updates (d : Engine κ V) (m : Move κ V) : Engine κ V → Engine κ V → Prop :=
  ReflTransGen (Update d m)

/-- What holds at all moments of a journal and also after one more event holds at all moments of the
longer journal. -/
lemma forall_suffix_cons {P : List (Event κ V) → Prop} {event : Event κ V}
    {journal : List (Event κ V)} (h : ∀ past, past <:+ journal → P past)
    (hP : P (event :: journal)) : ∀ past, past <:+ event :: journal → P past := by
  intro past hpast
  rcases List.suffix_cons_iff.1 hpast with rfl | hpast
  · exact hP
  · exact h past hpast

/-! ## The journal -/

/-- An update only adds to the journal. What it puts into the queue of requests is handed in by the
move. -/
lemma Update.events {d e e' : Engine κ V} {m : Move κ V} (h : Update d m e e') :
    (∃ origin r, HandsIn d m origin r ∧ e'.journal = .enqueued origin r :: e.journal) ∨
      ∃ events, e'.journal = events ++ e.journal ∧ events.filterMap Event.taking? = [] := by
  cases h with
  | @request origin r hr =>
    cases hc : e.requests.closed with
    | true =>
      rw [handIn_closed e origin r hc]
      exact .inr ⟨[.refused origin r], rfl, rfl⟩
    | false =>
      rw [handIn_open e origin r hc]
      exact .inl ⟨origin, r, hr, rfl⟩
  | @item c i _ =>
    cases hc : e.items.closed with
    | true =>
      rw [submitItem_closed e _ hc]
      exact .inr ⟨[.itemRefused ⟨i, c⟩], rfl, rfl⟩
    | false =>
      rw [submitItem_open e _ hc]
      exact .inr ⟨[.itemEnqueued ⟨i, c⟩], rfl, rfl⟩
  | @attends r _ _ => exact .inr ⟨[.began e.begun r], rfl, rfl⟩
  | @admits r _ _ _ => exact .inr ⟨[.began e.begun r], rfl, rfl⟩
  | @beganItem k i stages _ _ =>
    obtain hn | ⟨stage, later, hn⟩ := nextStage_cases _ k i stages <;> rw [hn]
    · rw [finishItem_eq]
      exact .inr ⟨[.itemFinished k true, .itemBegan k i], rfl, rfl⟩
    · exact .inr ⟨[.staged k stage i, .itemBegan k i], rfl, rfl⟩
  | cleared => exact .inr ⟨[.cleared e.requests.waiting], rfl, rfl⟩
  | discardedItems requests =>
    exact .inr ⟨[.discarded requests e.activity.queuedItems], rfl, rfl⟩
  | pipelineClosed i => exact .inr ⟨[.pipelineClosed i], rfl, rfl⟩
  | took => exact .inr ⟨[], rfl, rfl⟩
  | drains => exact .inr ⟨[], rfl, rfl⟩
  | attended => exact .inr ⟨[], rfl, rfl⟩
  | resumed => exact .inr ⟨[], rfl, rfl⟩
  | drained => exact .inr ⟨[], rfl, rfl⟩
  | tookItem => exact .inr ⟨[], rfl, rfl⟩
  | endedItems => exact .inr ⟨[], rfl, rfl⟩
  | discardedRequests => exact .inr ⟨[], rfl, rfl⟩
  | aside => exact .inr ⟨[], rfl, rfl⟩
  | ignited => exact .inr ⟨[], rfl, rfl⟩
  | entered => exact .inr ⟨[], rfl, rfl⟩
  | sent n wire => exact .inr ⟨[.sent n wire], rfl, rfl⟩
  | answered n a => exact .inr ⟨[.answered n a], rfl, rfl⟩
  | noted n notice => exact .inr ⟨[.noted n notice], rfl, rfl⟩
  | @told n level notice _ => exact .inr ⟨[.told n level notice], rfl, rfl⟩
  | @finished n _ _ => exact .inr ⟨[.finished n], rfl, rfl⟩
  | @staged k _ j _ _ stage _ _ _ => exact .inr ⟨[.staged k stage j], rfl, rfl⟩
  | @finishedItem k _ _ _ passed _ => exact .inr ⟨[.itemFinished k passed], rfl, rfl⟩

lemma Update.journal_suffix {d e e' : Engine κ V} {m : Move κ V} (h : Update d m e e') :
    e.journal <:+ e'.journal := by
  obtain ⟨origin, r, -, hj⟩ | ⟨events, hj, -⟩ := h.events
  · rw [hj]
    exact List.suffix_cons _ _
  · rw [hj]
    exact List.suffix_append _ _

lemma Update.takings {d e e' : Engine κ V} {m : Move κ V} (h : Update d m e e') :
    ∃ new, e'.takings = new ++ e.takings ∧ ∀ p ∈ new, HandsIn d m p.1 p.2 := by
  obtain ⟨origin, r, hr, hj⟩ | ⟨events, hj, hnone⟩ := h.events
  · refine ⟨[(origin, r)], by rw [Engine.takings, hj]; rfl, fun p hp => ?_⟩
    obtain rfl := List.mem_singleton.1 hp
    exact hr
  · refine ⟨[], ?_, nofun⟩
    rw [Engine.takings, hj, List.filterMap_append, hnone]
    rfl

section Parts

variable {d e : Engine κ V} {m : Move κ V} {n k : Nat} {w : Worker κ}

/-- A worker that is found stands among the others. -/
lemma Orderly.hasWorker (h : Orderly e) (hw : e.worker? n = some w) : e.HasWorker n w :=
  exists_split h.numbers hw

/-! ## Handing in -/

/-- What a handler does is one update. -/
lemma updates_perform {effect : Effect κ V} (h : m.effect? = some effect) :
    Updates d m e (e.perform effect) := by
  cases effect with
  | add c q => exact .single (.request (.added h))
  | retry c q => exact .single (.request (.kept h))
  | submit q => exact .single (.request (.submitted h))
  | item c i => exact .single (.item h)
  | query source => exact .single (.aside _ _ _)

/-- The first requests are handed in one after the other. -/
lemma updates_seeds : ∀ (seeds : List (Request κ)) (e : Engine κ V), (∀ q ∈ seeds, q ∈ d.seeds) →
    Updates d .start e (seeds.foldl (fun e r => e.perform (.add .root r)) e) := by
  intro seeds
  induction seeds with
  | nil => exact fun _ _ => .refl
  | cons q seeds ih =>
    intro e h
    refine .head (.request (.seed (h q (List.mem_cons_self ..)))) ?_
    exact ih _ fun q' hq' => h q' (List.mem_cons_of_mem _ hq')

/-- An engine that is started is set going first, or only remembers the attempt. -/
lemma Orderly.updates_start (h : Orderly e) : Updates e .start e e.start.2 := by
  obtain hs | ⟨hs, hstart⟩ := start_cases e
  · rw [hs]
    exact .single (.aside _ _ _)
  · rw [hstart]
    obtain ⟨hoff, hnone, -⟩ := h.startable hs
    exact .head (.ignited hoff hnone) (updates_seeds e.seeds _ fun _ hq => hq)

/-! ## Workers -/

/-- The next handler is told, or the worker ends. -/
lemma updates_tellNext (hw : e.HasWorker n w) {notice : Notice κ} (hn : e.Reports n notice)
    (isRead : Bool) (levels : List (Level κ)) :
    Updates d m e (e.tellNext n notice isRead levels) := by
  cases levels with
  | nil => exact .single (.finished hw)
  | cons level later =>
    have htold : (e.enter n (.telling notice level later isRead)).Reports n notice := hn
    exact .head (.entered _ hw) (.single (.told n level htold))

/-- The handlers are told one after the other. -/
lemma updates_tell (hw : e.HasWorker n w) {notice : Notice κ} (hn : e.Reports n notice)
    (isRead : Bool) : Updates d m e (e.tell n notice isRead) := by
  have hnoted : (e.log (.noted n notice)).Reports n notice := hn
  exact .head (.noted n notice) (updates_tellNext (e := e.log _) hw hnoted isRead _)

/-- What was done is counted before it goes on. -/
lemma updates_count {e' : Engine κ V} (stats : Stats)
    (h : Updates d m { e with stats := stats } e') : Updates d m e e' :=
  .head (.aside e.started stats e.cache) h

/-- A request has failed. -/
lemma updates_fail (hw : e.HasWorker n w) {r : Request κ} (hr : (n, r) ∈ e.beginnings)
    (error : Error) : Updates d m e (e.fail n r error) := by
  have hn : e.Reports n (.failure r error (contextOf r)) := ⟨hr, rfl⟩
  exact updates_count _ (updates_tell (by exact hw) (by exact hn) false)

/-- A worker hands in the request that takes the place of its own, and ends. -/
lemma updates_again (hw : e.HasWorker n w) {c : Context κ} {r : Request κ}
    (h : HandsIn d m (.worker n) (c.keep r)) : Updates d m e ((e.resubmit n c r).finish n) := by
  have hlive : (e.resubmit n c r).HasWorker n w := by
    unfold HasWorker resubmit
    rw [(handIn_frame e _ _).2]
    exact hw
  exact .head (.request h) (.single (.finished hlive))

/-- The answer that comes back to a worker is counted and written down. -/
lemma updates_hear (e : Engine κ V) (n : Nat) (a : Answer) : Updates d m e (e.hear n a) :=
  .head (.aside e.started (e.stats.recordAnswer a.status a.body.size) e.cache)
    (.single (.answered n a))

/-- The exchange of a worker comes to its end. -/
lemma updates_settles {outcome : Outcome} {r : Request κ} {e' : Engine κ V} (hw : e.HasWorker n w)
    (hr : (n, r) ∈ e.beginnings) (h : Settles e n r e') :
    Updates e (.answer n outcome) e e' := by
  cases h with
  | failed error => exact updates_fail hw hr error
  | retried _ =>
    exact updates_count _ (updates_again (by exact hw) (.retried hr))
  | succeeded a _ =>
    have hn : (e.hear n a).Reports n
        (.response (a.toResponse r) ((contextOf r).observe r.detached (a.toResponse r))) :=
      ⟨r, a, hr, List.mem_cons_self .., rfl, rfl⟩
    exact (updates_hear e n a).trans
      (updates_count _ (updates_tell (by exact hw) (by exact hn) _))
  | misled a error => exact (updates_hear e n a).trans (updates_fail (e := e.hear n a) hw hr error)
  | redirected a location target _ _ _ _ =>
    exact (updates_hear e n a).trans
      (updates_count _ (updates_again (by exact hw) (.redirected target (a.toResponse r) hr)))
  | judged a target hj =>
    have hn : (e.hear n a).Reports n
        (.redirect (a.toResponse r) (r.redirected target (a.toResponse r)) (contextOf r)) :=
      ⟨hj, r, a, target, hr, List.mem_cons_self .., rfl, rfl, rfl⟩
    exact (updates_hear e n a).trans
      (updates_count _ (updates_tell (by exact hw) (by exact hn) false))

/-- A request that a worker was given has begun. -/
lemma Chronicled.began {setup : Setup τ} (h : Chronicled setup none e) {v : Worker κ}
    (hw : e.worker? n = some v) {r : Request κ}
    (hr : v.phase = .ready r ∨ ∃ wire, v.phase = .exchanging r wire) : (n, r) ∈ e.beginnings := by
  obtain ⟨hknows, rfl⟩ := h.knows hw
  unfold Knows at hknows
  obtain hr | ⟨wire, hr⟩ := hr <;> rw [hr] at hknows
  · exact hknows.1
  · exact hknows.1

/-- What a worker tells is known. -/
lemma Chronicled.reports {setup : Setup τ} (h : Chronicled setup none e) {v : Worker κ}
    (hw : e.worker? n = some v) {notice : Notice κ} {level : Level κ} {later : List (Level κ)}
    {isRead : Bool} (hv : v.phase = .telling notice level later isRead) : e.Reports n notice := by
  obtain ⟨hknows, rfl⟩ := h.knows hw
  unfold Knows at hknows
  rw [hv] at hknows
  exact hknows

/-! ## Items -/

/-- An item goes on to its next stage, or ends. -/
lemma updates_nextStage {i j : Envelope κ V} {s : Stage τ} {later : List (Stage τ)}
    (h : e.itemWorkers[k]? = some (.processing i s later)) (same : j.context = i.context)
    (stages : List (Stage τ)) : Updates d m e (e.nextStage k j stages) := by
  cases stages with
  | nil => exact .single (.finishedItem true h)
  | cons stage rest => exact .single (.staged stage rest h same)

end Parts

/-! ## Moves -/

section Moves

variable {setup : Setup τ} {e e' : Engine κ V}

/-- A handler is done: another one is told, or the worker ends; and before that it may hand in the
request that follows a redirect. -/
lemma Chronicled.updates_reply {n : Nat} {reply : Option (Request κ)} (h : Chronicled setup none e)
    (ho : Orderly e) (he : e.reply? n reply = some e') : Updates e (.reply n reply) e e' := by
  obtain ⟨v, notice, level, later, isRead, d, hw, hd, rfl⟩ := reply?_cases he
  have hreports := h.reports hw rfl
  have hlive := ho.hasWorker hw
  obtain rfl | ⟨response, next, c, r, rfl, rfl, rfl⟩ := hd
  · exact updates_tellNext hlive hreports isRead later
  · have hsame := handIn_exchanges e (.worker n) (c.keep r)
    have hstill := hreports.mono (d := e.resubmit n c r) (handIn_frame e _ _).1
      (fun _ hp => hsame.1.symm ▸ hp) (fun _ hp => hsame.2.symm ▸ hp)
    have hstands : (e.resubmit n c r).HasWorker n ⟨v, .telling (.redirect response next c) level
        later isRead⟩ := by
      unfold HasWorker resubmit
      rw [(handIn_frame e _ _).2]
      exact hlive
    obtain ⟨-, q, a, target, hq, -, -, -, rfl⟩ := hreports
    exact .head (.request (.replied hq))
      (updates_tellNext hstands hstill isRead later)

variable [DecidableEq τ]

/-- A move is a sequence of updates. -/
theorem Chronicled.updates (h : Chronicled setup none e) (ho : Orderly e) (m : Move κ V)
    (he : e.step? m = some e') : Updates e m e e' := by
  cases m with
  | start =>
    obtain rfl := Option.some.inj he
    exact ho.updates_start
  | ask effect =>
    obtain rfl := Option.some.inj he
    exact updates_perform rfl
  | receive =>
    obtain ⟨hd, ⟨r, rest, hw, rfl⟩ | ⟨-, -, rfl⟩⟩ := receive?_eq_some he
    · exact .single (.took hd hw)
    · exact .single (.drains hd)
  | launch =>
    obtain ⟨r, hd, ⟨hp, rfl⟩ | ⟨hp, hpos, rfl⟩⟩ := launch?_eq_some he
    · exact .single (.attends hd hp)
    · exact .single (.admits hd hp hpos)
  | attended =>
    obtain ⟨n, hd, hended, rfl⟩ := attended?_eq_some he
    exact .single (.attended hd hended)
  | resume =>
    obtain ⟨hd, rfl⟩ := resume?_eq_some he
    exact .single (.resumed hd)
  | drained =>
    obtain ⟨hd, hnone, rfl⟩ := drained?_eq_some he
    exact .single (.drained hd hnone)
  | send n =>
    obtain ⟨v, r, hw, ⟨error, rfl⟩ | ⟨wire, rfl⟩⟩ := send?_cases he
    · exact updates_fail (ho.hasWorker hw) (h.began hw (.inl rfl)) error
    · have hlive := ho.hasWorker hw
      exact updates_count _ (.head (.entered (.exchanging r wire) (by exact hlive))
        (.single (.sent n wire)))
  | answer n outcome =>
    obtain ⟨v, r, wire, hw, hsettles⟩ := answer?_settles he
    exact updates_settles (ho.hasWorker hw) (h.began hw (.inr ⟨wire, rfl⟩)) hsettles
  | act n effect =>
    obtain ⟨v, notice, level, later, _, isRead, hw, rfl⟩ := act?_eq_some he
    have hsame := (worker?_congr (perform_frame e effect).2 n).trans hw
    have hstands := (ho.perform effect).hasWorker hsame
    exact (updates_perform rfl).tail (.entered _ hstands)
  | reply n next => exact h.updates_reply ho he
  | panic n =>
    obtain ⟨v, notice, level, later, isRead, hw, rfl⟩ := panic?_eq_some he
    exact .single (.finished (ho.hasWorker hw))
  | receiveItem k =>
    obtain ⟨hk, ⟨i, rest, hw, rfl⟩ | ⟨-, -, rfl⟩⟩ := receiveItem?_eq_some he
    · exact .single (.tookItem hk hw)
    · exact .single (.endedItems hk)
  | beginItem k =>
    obtain ⟨i, hk, hpos, rfl⟩ := beginItem?_eq_some he
    exact .single (.beganItem _ hk hpos)
  | actItem k effect =>
    obtain ⟨-, -, -, -, rfl⟩ := actItem?_eq_some he
    exact updates_perform rfl
  | judge k verdict =>
    obtain ⟨i, stage, later, hk, ⟨j, hj, rfl⟩ | rfl⟩ := judge?_cases he
    · exact updates_nextStage hk hj later
    · exact .single (.finishedItem false hk)
  | close =>
    obtain ⟨-, rfl⟩ := close?_eq_some he
    exact .single .cleared
  | discardRequests =>
    obtain ⟨_, -, -, rfl⟩ := discardRequests?_eq_some he
    exact .single .discardedRequests
  | discardItems =>
    obtain ⟨requests, _, -, -, rfl⟩ := discardItems?_eq_some he
    exact .single (.discardedItems requests)
  | closePipeline =>
    obtain ⟨i, -, rfl⟩ := closePipeline?_eq_some he
    exact .single (.pipelineClosed i)

/-! ## Reachable engines -/

variable {seeds : List (Request κ)}

/-- What a reachable engine can come to is reachable. -/
lemma Reachable.step (h : Reachable setup seeds e) (m : Move κ V) (he : e.step? m = some e') :
    Reachable setup seeds e' := by
  obtain ⟨moves, h⟩ := h
  refine ⟨moves ++ [m], ?_⟩
  rw [run?_append, h]
  simp [he]

/-- A move of a reachable engine is a sequence of updates. -/
lemma Reachable.updates (h : Reachable setup seeds e) (m : Move κ V) (he : e.step? m = some e') :
    Updates e m e e' := h.chronicled.updates h.orderly m he

omit [DecidableEq τ] in
/-- What the updates of a move keep, the move keeps. -/
lemma Updates.keep {d : Engine κ V} {m : Move κ V} {P : Engine κ V → Prop}
    (update : ∀ e e', Update d m e e' → P e → P e') (h : Updates d m e e') (he : P e) : P e' := by
  induction h with
  | refl => exact he
  | tail _ hupdate ih => exact update _ _ hupdate ih

omit [DecidableEq τ] in
/-- What the updates of a move put into the queue is handed in by the move. -/
lemma Updates.takings {d e : Engine κ V} {m : Move κ V} (h : Updates d m d e) :
    ∃ new, e.takings = new ++ d.takings ∧ ∀ p ∈ new, HandsIn d m p.1 p.2 := by
  refine h.keep (P := fun e => ∃ new, e.takings = new ++ d.takings ∧
    ∀ p ∈ new, HandsIn d m p.1 p.2) (fun e e' he => ?_) ⟨[], rfl, nofun⟩
  rintro ⟨first, hfirst, hhands⟩
  obtain ⟨later, hlater, hhands'⟩ := he.takings
  refine ⟨later ++ first, by rw [hlater, hfirst, List.append_assoc], fun p hp => ?_⟩
  exact (List.mem_append.1 hp).elim (hhands' p) (hhands p)

/-- What a new engine has and every update of a move of a reachable engine keeps, every reachable
engine has. -/
theorem Reachable.update_induction {P : Engine κ V → Prop} (new : P (.new setup seeds))
    (update : ∀ d m e e', Reachable setup seeds d → Update d m e e' → P e → P e')
    (h : Reachable setup seeds e) : P e := by
  refine (h.induction (P := fun d => Reachable setup seeds d ∧ P d) ⟨⟨[], rfl⟩, new⟩ ?_).2
  rintro d m d' ⟨hd, hP⟩ he
  exact ⟨hd.step m he, (hd.updates m he).keep (fun e e' => update d m e e' hd) hP⟩

end Moves

end WebCrawl.Engine
