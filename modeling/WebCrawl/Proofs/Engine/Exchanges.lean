import Mathlib.Data.List.Nodup
import WebCrawl.Proofs.Engine.Moves

set_option autoImplicit false

/-!
# What the journal knows of exchanges

The journal names which worker began with which request, which answer came back to it, what it told
and what it handed in. So it is known of every request that a worker hands in how that follows from
the request the worker began with, and of every response that a handler is told of which request it
answers.

## Main definitions

* `WebCrawl.Engine.beginnings`, `answers`, `tellings`, `takings`, `sequels` — parts of the journal.
* `WebCrawl.Engine.Sequel` — how a request that a worker hands in follows from its own.
* `WebCrawl.Engine.Chronicled` — the journal fits the workers, the queue and itself.

## Main results

* `WebCrawl.Engine.Chronicled.step` — every move keeps an engine chronicled.
* `WebCrawl.Engine.Reachable.chronicled` — every reachable engine is chronicled.
-/

namespace WebCrawl.Engine

open Crawl

variable {κ τ : Type} {V : τ → Type}

/-! ## Parts of the journal -/

/-- The request that an event begins, with the number of its worker. -/
def Event.beginning? : Event κ V → Option (Nat × Request κ)
  | .began n r => some (n, r)
  | _ => none

/-- The answer that comes back with an event, with the number of the worker. -/
def Event.answer? : Event κ V → Option (Nat × Answer)
  | .answered n a => some (n, a)
  | _ => none

/-- What a handler is told with an event, with the number of the worker. -/
def Event.telling? : Event κ V → Option (Nat × Notice κ)
  | .told n _ notice => some (n, notice)
  | _ => none

/-- The request that an event puts into the queue, with who handed it in. -/
def Event.taking? : Event κ V → Option (Origin × Request κ)
  | .enqueued origin r => some (origin, r)
  | _ => none

/-- The request that an event hands in, taken or not, for a worker in place of its own, with the
number of the worker. -/
def Event.sequel? : Event κ V → Option (Nat × Request κ)
  | .enqueued (.worker n) r => some (n, r)
  | .refused (.worker n) r => some (n, r)
  | _ => none

/-- The requests that have begun, with the numbers of their workers. -/
def beginnings (e : Engine κ V) : List (Nat × Request κ) := e.journal.filterMap Event.beginning?

/-- The answers that came back, with the numbers of the workers. -/
def answers (e : Engine κ V) : List (Nat × Answer) := e.journal.filterMap Event.answer?

/-- What handlers were told, with the numbers of the workers. -/
def tellings (e : Engine κ V) : List (Nat × Notice κ) := e.journal.filterMap Event.telling?

/-- The requests that were put into the queue, with who handed them in. -/
def takings (e : Engine κ V) : List (Origin × Request κ) := e.journal.filterMap Event.taking?

/-- The requests that workers handed in, taken or not, in place of their own. -/
def sequels (e : Engine κ V) : List (Nat × Request κ) := e.journal.filterMap Event.sequel?

/-- A request of a worker in the queue is one that the worker handed in. -/
lemma mem_sequels_of_taking {e : Engine κ V} {n : Nat} {r : Request κ}
    (h : (Origin.worker n, r) ∈ e.takings) : (n, r) ∈ e.sequels := by
  obtain ⟨event, hevent, htaking⟩ := List.mem_filterMap.1 h
  refine List.mem_filterMap.2 ⟨event, hevent, ?_⟩
  cases event with
  | enqueued origin r' =>
    obtain ⟨rfl, rfl⟩ := Prod.mk.inj (Option.some.inj htaking)
    rfl
  | _ => cases htaking

/-! ## How a request follows from another -/

/-- How a request that a worker hands in follows from the one that it began with. Either no answer
came back, and it is the same with one try more; or an answer came back that sends the client
elsewhere, and it is the request redirected there. -/
inductive Sequel (setup : Setup τ) (answers : List (Nat × Answer)) (n : Nat) (r : Request κ) :
    Request κ → Prop where
  | retry (unanswered : ∀ a, (n, a) ∉ answers) :
    Sequel setup answers n r ((contextOf r).keep { r with retryTimes := r.retryTimes + 1 })
  | redirect (a : Answer) (location target : Text) (answered : (n, a) ∈ answers)
    (here : a.location? = some location) (join : Url.join r.url location = .ok target)
    (le : (r.redirected target (a.toResponse r)).redirectTimes ≤ setup.settings.maxRedirectTimes) :
    Sequel setup answers n r ((contextOf r).keep (r.redirected target (a.toResponse r)))

/-- An answer to another worker changes nothing of that. -/
lemma Sequel.cons {setup : Setup τ} {answers : List (Nat × Answer)} {n m : Nat} {r r' : Request κ}
    (h : Sequel setup answers n r r') (hne : m ≠ n) (a : Answer) :
    Sequel setup ((m, a) :: answers) n r r' := by
  cases h with
  | retry unanswered =>
    refine .retry fun a' hmem => ?_
    rcases List.mem_cons.1 hmem with heq | hmem
    · exact hne (Prod.mk.inj heq).1.symm
    · exact unanswered a' hmem
  | redirect a' location target answered here join le =>
    exact .redirect a' location target (List.mem_cons_of_mem _ answered) here join le

/-! ## The journal and the workers -/

/-- The journal knows the exchange that a worker tells of, and the context is that of the request,
after the exchange if there is a response. Handlers are asked about redirects only if there is one who
decides about them. -/
def Reports (e : Engine κ V) (n : Nat) : Notice κ → Prop
  | .response response c =>
    ∃ r a, (n, r) ∈ e.beginnings ∧ (n, a) ∈ e.answers ∧ response = a.toResponse r ∧
      c = (contextOf r).observe r.detached response
  | .failure r _ c => (n, r) ∈ e.beginnings ∧ c = contextOf r
  | .redirect response next c => e.setup.judgesRedirects = true ∧
    ∃ r a target, (n, r) ∈ e.beginnings ∧ (n, a) ∈ e.answers ∧ response = a.toResponse r ∧
      next = r.redirected target response ∧ c = contextOf r

/-- The journal knows what a worker has come to. -/
def Knows (e : Engine κ V) (w : Worker κ) : Prop :=
  match w.phase with
  | .ready r => (w.number, r) ∈ e.beginnings ∧ ∀ a, (w.number, a) ∉ e.answers
  | .exchanging r _ => (w.number, r) ∈ e.beginnings ∧ ∀ a, (w.number, a) ∉ e.answers
  | .telling notice _ _ _ => e.Reports w.number notice

/-- What is told is still known when the journal knows more. -/
lemma Reports.mono {d e : Engine κ V} {n : Nat} {notice : Notice κ} (h : e.Reports n notice)
    (hsetup : d.setup = e.setup) (hbeginnings : e.beginnings ⊆ d.beginnings)
    (hanswers : e.answers ⊆ d.answers) : d.Reports n notice := by
  cases notice with
  | response response c =>
    obtain ⟨r, a, hr, ha, htold⟩ := h
    exact ⟨r, a, hbeginnings hr, hanswers ha, htold⟩
  | failure r error c => exact ⟨hbeginnings h.1, h.2⟩
  | redirect response next c =>
    obtain ⟨hj, r, a, target, hr, ha, htold⟩ := h
    exact ⟨by rw [hsetup, hj], r, a, target, hbeginnings hr, hanswers ha, htold⟩

/-- What a worker has come to is still known when the journal knows more, but no new answer to it. -/
lemma Knows.mono {d e : Engine κ V} {w : Worker κ} (h : e.Knows w) (hsetup : d.setup = e.setup)
    (hbeginnings : e.beginnings ⊆ d.beginnings) (hanswers : e.answers ⊆ d.answers)
    (hsame : ∀ a, (w.number, a) ∈ d.answers → (w.number, a) ∈ e.answers) : d.Knows w := by
  unfold Knows at h ⊢
  split at h
  · exact ⟨hbeginnings h.1, fun a ha => h.2 a (hsame a ha)⟩
  · exact ⟨hbeginnings h.1, fun a ha => h.2 a (hsame a ha)⟩
  · exact h.mono hsetup hbeginnings hanswers

/-- Handing in a request begins nothing and answers nothing. -/
lemma handIn_exchanges (e : Engine κ V) (origin : Origin) (r : Request κ) :
    (e.handIn origin r).2.beginnings = e.beginnings ∧
      (e.handIn origin r).2.answers = e.answers := by
  cases hc : e.requests.closed with
  | true =>
    rw [handIn_closed e origin r hc]
    exact ⟨rfl, rfl⟩
  | false =>
    rw [handIn_open e origin r hc]
    exact ⟨rfl, rfl⟩

/-- Every request that waits or has begun was put into the queue, by a worker with a smaller number if
by a worker. -/
structure Sourced (e : Engine κ V) : Prop where
  waiting : ∀ r ∈ e.held ++ e.requests.waiting, ∃ origin, (origin, r) ∈ e.takings
  begun : ∀ p ∈ e.beginnings, ∃ origin, (origin, p.2) ∈ e.takings ∧
    ∀ m, origin = .worker m → m < p.1

/-- A request that is handed in and taken waits, whoever handed it in. -/
lemma Sourced.handIn {e : Engine κ V} (h : Sourced e) (origin : Origin) (r : Request κ) :
    Sourced (e.handIn origin r).2 := by
  cases hc : e.requests.closed with
  | true =>
    rw [handIn_closed e _ _ hc]
    exact { h with }
  | false =>
    rw [handIn_open e _ _ hc]
    have htakings : ∀ p ∈ e.takings, p ∈ (origin, r) :: e.takings :=
      fun _ => List.mem_cons_of_mem _
    refine { waiting := fun q hq => ?_, begun := fun p hp => ?_ }
    · change q ∈ e.held ++ (e.requests.waiting ++ [r]) at hq
      rw [← List.append_assoc] at hq
      rcases List.mem_append.1 hq with hq | hq
      · obtain ⟨o, ho⟩ := h.waiting q hq
        exact ⟨o, htakings _ ho⟩
      · obtain rfl := List.mem_singleton.1 hq
        exact ⟨origin, List.mem_cons_self ..⟩
    · obtain ⟨o, ho, hlt⟩ := h.begun p hp
      exact ⟨o, htakings _ ho, hlt⟩

/-- The journal fits the workers, but for a busy one that is about to go on, and the queue. Each
worker begins with one request and has one answer at most. What was told fits that, and what workers
handed in does so too if nobody decides about redirects. -/
structure Chronicled (setup : Setup τ) (busy : Option Nat) (e : Engine κ V) : Prop where
  setup_eq : e.setup = setup
  beginnings_lt : ∀ p ∈ e.beginnings, p.1 < e.begun
  beginnings : (e.beginnings.map (·.1)).Nodup
  answers_lt : ∀ p ∈ e.answers, p.1 < e.begun
  answers : (e.answers.map (·.1)).Nodup
  workers : ∀ w ∈ e.workers, busy ≠ some w.number → e.Knows w
  tellings : ∀ p ∈ e.tellings, e.Reports p.1 p.2
  sourced : e.Sourced
  sequels_lt : ∀ p ∈ e.sequels, p.1 < e.begun
  sequels : setup.judgesRedirects = false → ∀ p ∈ e.sequels,
    (∀ w ∈ e.workers, w.number ≠ p.1) ∧
      ∃ r, (p.1, r) ∈ e.beginnings ∧ Sequel setup e.answers p.1 r p.2

/-- A worker that is found is live and has the number. -/
lemma worker?_eq_some {e : Engine κ V} {n : Nat} {w : Worker κ} (h : e.worker? n = some w) :
    w ∈ e.workers ∧ w.number = n :=
  ⟨List.mem_of_find?_eq_some h, by simpa using List.find?_some h⟩

/-! ## All moves -/

namespace Chronicled

variable {setup : Setup τ} {e e' : Engine κ V} {n k : Nat} {busy : Option Nat}

/-- What is known of all workers is known of all but one. -/
lemma besides (h : Chronicled setup none e) (n : Nat) : Chronicled setup (some n) e :=
  { h with workers := fun w hw _ => h.workers w hw nofun }

/-- What is known of a live worker. -/
lemma knows {w : Worker κ} (h : Chronicled setup none e) (hw : e.worker? n = some w) :
    e.Knows w ∧ w.number = n :=
  ⟨h.workers w (worker?_eq_some hw).1 nofun, (worker?_eq_some hw).2⟩

/-! ### Handing in -/

/-- A request that someone outside hands in. -/
lemma handIn (h : Chronicled setup busy e) (r : Request κ) :
    Chronicled setup busy (e.handIn .outside r).2 := by
  have hsourced := h.sourced.handIn .outside r
  cases hc : e.requests.closed with
  | true =>
    rw [handIn_closed e _ _ hc] at hsourced ⊢
    exact { h with sourced := hsourced }
  | false =>
    rw [handIn_open e _ _ hc] at hsourced ⊢
    exact { h with sourced := hsourced }

lemma submitItem (h : Chronicled setup busy e) (i : Envelope κ V) :
    Chronicled setup busy (e.submitItem i).2 := by
  cases hc : e.items.closed with
  | true =>
    rw [submitItem_closed e i hc]
    exact { h with sourced := { h.sourced with } }
  | false =>
    rw [submitItem_open e i hc]
    exact { h with sourced := { h.sourced with } }

lemma perform (h : Chronicled setup busy e) (effect : Effect κ V) :
    Chronicled setup busy (e.perform effect) :=
  perform_induction effect h.handIn h.submitItem fun _ => { h with sourced := { h.sourced with } }

/-! ### Workers -/

lemma stats (h : Chronicled setup busy e) (stats : Stats) :
    Chronicled setup busy { e with stats := stats } := { h with sourced := { h.sourced with } }

/-- The busy worker ends. -/
lemma finish (h : Chronicled setup (some n) e) : Chronicled setup none (e.finish n) where
  setup_eq := h.setup_eq
  beginnings_lt := h.beginnings_lt
  beginnings := h.beginnings
  answers_lt := h.answers_lt
  answers := h.answers
  workers := fun w hw _ => by
    obtain ⟨hw, hwn⟩ := List.mem_filter.1 hw
    have hne : w.number ≠ n := by simpa using hwn
    exact h.workers w hw fun heq => hne (Option.some.inj heq).symm
  tellings := h.tellings
  sourced := { h.sourced with }
  sequels_lt := h.sequels_lt
  sequels := fun hj p hp =>
    ⟨fun w hw => (h.sequels hj p hp).1 w (List.mem_filter.1 hw).1, (h.sequels hj p hp).2⟩

/-- The busy worker goes on to a phase that the journal knows of. -/
lemma enter (h : Chronicled setup (some n) e) (phase : Phase κ) (hknows : e.Knows ⟨n, phase⟩) :
    Chronicled setup none (e.enter n phase) where
  setup_eq := h.setup_eq
  beginnings_lt := h.beginnings_lt
  beginnings := h.beginnings
  answers_lt := h.answers_lt
  answers := h.answers
  workers := fun w hw _ => by
    obtain ⟨v, hv, rfl⟩ := List.mem_map.1 hw
    by_cases hvn : v.number = n
    · rw [if_pos hvn]
      subst hvn
      exact hknows
    · rw [if_neg hvn]
      exact h.workers v hv fun heq => hvn (Option.some.inj heq).symm
  tellings := h.tellings
  sourced := { h.sourced with }
  sequels_lt := h.sequels_lt
  sequels := fun hj p hp => by
    refine ⟨fun w hw => ?_, (h.sequels hj p hp).2⟩
    obtain ⟨v, hv, rfl⟩ := List.mem_map.1 hw
    have hne := (h.sequels hj p hp).1 v hv
    split
    · exact hne
    · exact hne

/-- The next handler is told, or all were. -/
lemma tellNext (h : Chronicled setup (some n) e) {notice : Notice κ} (hn : e.Reports n notice)
    (isRead : Bool) (levels : List (Level κ)) :
    Chronicled setup none (e.tellNext n notice isRead levels) := by
  cases levels with
  | nil => exact h.finish
  | cons level later =>
    have hentered := h.enter (.telling notice level later isRead) hn
    refine { hentered with sourced := { hentered.sourced with }, tellings := ?_ }
    intro p hp
    rcases List.mem_cons.1 hp with rfl | hp
    · exact hn
    · exact hentered.tellings p hp

lemma tell (h : Chronicled setup (some n) e) (notice : Notice κ) (hn : e.Reports n notice)
    (isRead : Bool) : Chronicled setup none (e.tell n notice isRead) :=
  tellNext (e := e.log (.noted n notice)) { h with sourced := { h.sourced with } } hn isRead _

/-- An answer comes back to a worker that has had none. -/
lemma hear (h : Chronicled setup none e) {r : Request κ} (hr : (n, r) ∈ e.beginnings)
    (hunanswered : ∀ a, (n, a) ∉ e.answers) (hlive : ∃ w ∈ e.workers, w.number = n) (a : Answer) :
    Chronicled setup (some n) (e.hear n a) := by
  have hmore : e.answers ⊆ (e.hear n a).answers := List.subset_cons_self ..
  refine { h with
    answers_lt := ?_, answers := ?_, workers := ?_, tellings := ?_
    sourced := { h.sourced with }, sequels := ?_ }
  · intro p hp
    rcases List.mem_cons.1 hp with rfl | hp
    · exact h.beginnings_lt _ hr
    · exact h.answers_lt p hp
  · change (n :: e.answers.map (·.1)).Nodup
    refine List.nodup_cons.2 ⟨fun hn => ?_, h.answers⟩
    obtain ⟨⟨m, a'⟩, ha', rfl⟩ := List.mem_map.1 hn
    exact hunanswered a' ha'
  · intro w hw hwn
    refine (h.workers w hw nofun).mono rfl (List.Subset.refl _) hmore fun a' ha' => ?_
    rcases List.mem_cons.1 ha' with heq | ha'
    · exact absurd (congrArg some (Prod.mk.inj heq).1.symm) hwn
    · exact ha'
  · exact fun p hp => (h.tellings p hp).mono rfl (List.Subset.refl _) hmore
  · intro hj p hp
    obtain ⟨hgone, r', hr', hsequel⟩ := h.sequels hj p hp
    obtain ⟨w, hw, hwn⟩ := hlive
    exact ⟨hgone, r', hr', hsequel.cons (hwn ▸ hgone w hw) a⟩

/-- The busy worker hands in a request that follows from its own, and ends. -/
lemma again (h : Chronicled setup (some n) e) {r r' : Request κ} {c : Context κ}
    (hr : (n, r) ∈ e.beginnings) (hsequel : Sequel setup e.answers n r (c.keep r')) :
    Chronicled setup none ((e.resubmit n c r').finish n) := by
  have hlt : n < e.begun := h.beginnings_lt _ hr
  have hnew : ∀ p ∈ (n, c.keep r') :: e.sequels, p.1 < e.begun := by
    intro p hp
    rcases List.mem_cons.1 hp with rfl | hp
    · exact hlt
    · exact h.sequels_lt p hp
  have hfinished := h.finish
  have hknown : setup.judgesRedirects = false → ∀ p ∈ (n, c.keep r') :: e.sequels,
      (∀ w ∈ (e.finish n).workers, w.number ≠ p.1) ∧
        ∃ r, (p.1, r) ∈ e.beginnings ∧ Sequel setup e.answers p.1 r p.2 := by
    intro hj p hp
    rcases List.mem_cons.1 hp with rfl | hp
    · exact ⟨fun w hw => by simpa using (List.mem_filter.1 hw).2, r, hr, hsequel⟩
    · exact hfinished.sequels hj p hp
  have hsourced := h.sourced.handIn (.worker n) (c.keep r')
  unfold resubmit
  cases hc : e.requests.closed with
  | true =>
    rw [handIn_closed e _ _ hc] at hsourced ⊢
    exact { hfinished with
      sourced := { hsourced with }, sequels_lt := hnew, sequels := hknown }
  | false =>
    rw [handIn_open e _ _ hc] at hsourced ⊢
    exact { hfinished with
      sourced := { hsourced with }, sequels_lt := hnew, sequels := hknown }

/-- The busy worker tells that its request has failed. -/
lemma fail (h : Chronicled setup (some n) e) {r : Request κ} (hr : (n, r) ∈ e.beginnings)
    (error : Error) : Chronicled setup none (e.fail n r error) :=
  (h.stats { e.stats with failed := e.stats.failed + 1 }).tell
    (.failure r error (contextOf r)) ⟨hr, rfl⟩ false

/-- The end of an exchange, however it comes. -/
lemma settles {r : Request κ} (h : Chronicled setup none e) (hlive : ∃ w ∈ e.workers, w.number = n)
    (hr : (n, r) ∈ e.beginnings) (hunanswered : ∀ a, (n, a) ∉ e.answers)
    (he : Settles e n r e') : Chronicled setup none e' := by
  have hheard := fun a => h.hear hr hunanswered hlive a
  cases he with
  | failed error => exact (h.besides n).fail hr error
  | retried =>
    have hd := (h.besides n).stats { e.stats with retried := e.stats.retried + 1 }
    exact hd.again hr (.retry hunanswered)
  | succeeded a =>
    have hn : (e.hear n a).Reports n (.response (a.toResponse r)
        ((contextOf r).observe r.detached (a.toResponse r))) :=
      ⟨r, a, hr, List.mem_cons_self .., rfl, rfl⟩
    refine ((hheard a).stats _).tell _ ?_ _
    exact hn
  | misled a error => exact (hheard a).fail hr error
  | redirected a location target here join le =>
    have hle := le
    rw [h.setup_eq] at hle
    exact ((hheard a).stats _).again hr
      (.redirect a location target (List.mem_cons_self ..) here join hle)
  | judged a target hj =>
    have hn : (e.hear n a).Reports n
        (.redirect (a.toResponse r) (r.redirected target (a.toResponse r)) (contextOf r)) :=
      ⟨hj, r, a, target, hr, List.mem_cons_self .., rfl, rfl, rfl⟩
    refine ((hheard a).stats _).tell _ ?_ false
    exact hn

lemma send (h : Chronicled setup none e) (he : e.send? n = some e') :
    Chronicled setup none e' := by
  obtain ⟨m, r, hw, hcase⟩ := send?_cases he
  obtain ⟨hknows, rfl⟩ := h.knows hw
  obtain ⟨error, rfl⟩ | ⟨wire, rfl⟩ := hcase
  · exact h.settles ⟨_, (worker?_eq_some hw).1, rfl⟩ hknows.1 hknows.2 (.failed error)
  · have hd := (h.besides m).stats { e.stats with sent := e.stats.sent + 1 }
    have hentered := hd.enter (.exchanging r wire) hknows
    exact { hentered with sourced := { hentered.sourced with } }

lemma answer {outcome : Outcome} (h : Chronicled setup none e)
    (he : e.answer? n outcome = some e') : Chronicled setup none e' := by
  obtain ⟨m, r, wire, hw, hsettles⟩ := answer?_settles he
  obtain ⟨hknows, rfl⟩ := h.knows hw
  exact h.settles ⟨_, (worker?_eq_some hw).1, rfl⟩ hknows.1 hknows.2 hsettles

lemma act {effect : Effect κ V} (h : Chronicled setup none e) (he : e.act? n effect = some e') :
    Chronicled setup none e' := by
  obtain ⟨m, notice, level, later, _, isRead, hw, rfl⟩ := act?_eq_some he
  have hperformed := h.perform effect
  obtain ⟨hknows, rfl⟩ :=
    hperformed.knows ((worker?_congr (perform_frame e effect).2 n).trans hw)
  exact (hperformed.besides m).enter (.telling notice level later isRead) hknows

/-- Where handlers decide about redirects, nothing is said of what workers hand in. -/
lemma resubmit_of_judged (h : Chronicled setup busy e) (hj : e.setup.judgesRedirects = true)
    (hlt : n < e.begun) (c : Context κ) (r : Request κ) :
    Chronicled setup busy (e.resubmit n c r) := by
  have hnew : ∀ p ∈ (n, c.keep r) :: e.sequels, p.1 < e.begun := by
    intro p hp
    rcases List.mem_cons.1 hp with rfl | hp
    · exact hlt
    · exact h.sequels_lt p hp
  have hnever : setup.judgesRedirects ≠ false := by simp [← h.setup_eq, hj]
  have hsourced := h.sourced.handIn (.worker n) (c.keep r)
  unfold resubmit
  cases hc : e.requests.closed with
  | true =>
    rw [handIn_closed e _ _ hc] at hsourced ⊢
    exact { h with
      sourced := hsourced, sequels_lt := hnew, sequels := fun hf => absurd hf hnever }
  | false =>
    rw [handIn_open e _ _ hc] at hsourced ⊢
    exact { h with
      sourced := hsourced, sequels_lt := hnew, sequels := fun hf => absurd hf hnever }

/-- A handler is done. -/
lemma reply {reply : Option (Request κ)} (h : Chronicled setup none e)
    (he : e.reply? n reply = some e') : Chronicled setup none e' := by
  obtain ⟨m, notice, level, later, isRead, d, hw, hd, rfl⟩ := reply?_eq_some he
  obtain ⟨hknows, rfl⟩ := h.knows hw
  have hreports : e.Reports m notice := hknows
  obtain rfl | ⟨response, next, c, r, rfl, rfl⟩ := hd
  · exact (h.besides m).tellNext hreports isRead later
  · have hsame := handIn_exchanges e (.worker m) (c.keep r)
    have hstill := hreports.mono (d := e.resubmit m c r) (handIn_frame e _ _).1
      (fun _ hp => hsame.1.symm ▸ hp) (fun _ hp => hsame.2.symm ▸ hp)
    obtain ⟨hj, r', -, -, hr', -⟩ := hreports
    have hd := (h.besides m).resubmit_of_judged hj (h.beginnings_lt _ hr') c r
    exact hd.tellNext hstill isRead later

lemma panic (h : Chronicled setup none e) (he : e.panic? n = some e') :
    Chronicled setup none e' := by
  obtain ⟨m, notice, level, later, isRead, hw, rfl⟩ := panic?_eq_some he
  exact (h.besides n).finish

/-! ### The dispatcher -/

/-- The dispatcher and the queue go on, and no other requests wait. -/
lemma requeue (h : Chronicled setup busy e) (dispatcher : Dispatcher κ) (queue : Queue (Request κ))
    (hsub : ({ e with dispatcher := dispatcher } : Engine κ V).held ++ queue.waiting ⊆
      e.held ++ e.requests.waiting) :
    Chronicled setup busy { e with dispatcher := dispatcher, requests := queue } :=
  { h with sourced := { h.sourced with waiting := fun r hr => h.sourced.waiting r (hsub hr) } }

lemma receive (h : Chronicled setup none e) (he : e.receive? = some e') :
    Chronicled setup none e' := by
  obtain ⟨hd, ⟨r, rest, hw, rfl⟩ | ⟨hw, -, rfl⟩⟩ := receive?_eq_some he
  · exact h.requeue _ _ (by simp [held, hw])
  · exact h.requeue _ _ (by simp [held, hw])

/-- The worker that begins has a number of its own, and its request waited. -/
lemma begin {r : Request κ} (h : Chronicled setup none e) (hd : e.dispatcher = .holding r) :
    Chronicled setup none { e.begin r with dispatcher := .idle } := by
  have hmore : e.beginnings ⊆ (e.begun, r) :: e.beginnings := List.subset_cons_self ..
  have hfresh : ∀ {l : List Nat}, (∀ m ∈ l, m < e.begun) → e.begun ∉ l :=
    fun hl hmem => Nat.lt_irrefl _ (hl _ hmem)
  have hheld : r ∈ e.held ++ e.requests.waiting := by simp [held, hd]
  obtain ⟨origin, horigin⟩ := h.sourced.waiting r hheld
  rw [begin_eq]
  refine { h with
    beginnings_lt := ?_, beginnings := ?_, answers_lt := ?_, workers := ?_, tellings := ?_
    sourced := ⟨?_, ?_⟩, sequels_lt := ?_, sequels := ?_ }
  · intro p hp
    rcases List.mem_cons.1 hp with rfl | hp
    · exact Nat.lt_succ_self _
    · exact Nat.lt_succ_of_lt (h.beginnings_lt p hp)
  · refine List.nodup_cons.2 ⟨hfresh fun m hm => ?_, h.beginnings⟩
    obtain ⟨p, hp, rfl⟩ := List.mem_map.1 hm
    exact h.beginnings_lt p hp
  · exact fun p hp => Nat.lt_succ_of_lt (h.answers_lt p hp)
  · intro w hw _
    rcases List.mem_append.1 hw with hw | hw
    · exact (h.workers w hw nofun).mono rfl hmore (List.Subset.refl _) fun _ ha => ha
    · obtain rfl := List.mem_singleton.1 hw
      exact ⟨List.mem_cons_self .., fun a ha => Nat.lt_irrefl _ (h.answers_lt _ ha)⟩
  · exact fun p hp => (h.tellings p hp).mono rfl hmore (List.Subset.refl _)
  · exact fun q hq => h.sourced.waiting q (List.mem_append_right _ hq)
  · intro p hp
    rcases List.mem_cons.1 hp with rfl | hp
    · refine ⟨origin, horigin, ?_⟩
      rintro m rfl
      exact h.sequels_lt _ (mem_sequels_of_taking horigin)
    · exact h.sourced.begun p hp
  · exact fun p hp => Nat.lt_succ_of_lt (h.sequels_lt p hp)
  · intro hj p hp
    obtain ⟨hgone, r', hr', hsequel⟩ := h.sequels hj p hp
    refine ⟨fun w hw => ?_, r', List.mem_cons_of_mem _ hr', hsequel⟩
    rcases List.mem_append.1 hw with hw | hw
    · exact hgone w hw
    · obtain rfl := List.mem_singleton.1 hw
      exact (Nat.ne_of_lt (h.sequels_lt p hp)).symm

lemma launch (h : Chronicled setup none e) (he : e.launch? = some e') :
    Chronicled setup none e' := by
  obtain ⟨r, hd, hcase⟩ := launch?_eq_some he
  have hbegun := h.begin hd
  obtain ⟨-, rfl⟩ | ⟨-, -, rfl⟩ := hcase
  · exact hbegun.requeue (.attending e.begun) _ (List.Subset.refl _)
  · exact { hbegun with sourced := { hbegun.sourced with } }

lemma attended (h : Chronicled setup none e) (he : e.attended? = some e') :
    Chronicled setup none e' := by
  obtain ⟨n, -, -, rfl⟩ := attended?_eq_some he
  exact h.requeue _ _ (List.subset_append_right ..)

lemma resume (h : Chronicled setup none e) (he : e.resume? = some e') :
    Chronicled setup none e' := by
  obtain ⟨-, rfl⟩ := resume?_eq_some he
  exact h.requeue _ _ (List.subset_append_right ..)

lemma drained (h : Chronicled setup none e) (he : e.drained? = some e') :
    Chronicled setup none e' := by
  obtain ⟨-, -, rfl⟩ := drained?_eq_some he
  exact h.requeue _ _ (List.subset_append_right ..)

/-! ### Items -/

lemma finishItem (h : Chronicled setup none e) (k : Nat) (passed : Bool) :
    Chronicled setup none (e.finishItem k passed) := by
  rw [finishItem_eq]
  exact { h with sourced := { h.sourced with } }

lemma nextStage (h : Chronicled setup none e) (k : Nat) (i : Envelope κ V)
    (stages : List (Stage τ)) : Chronicled setup none (e.nextStage k i stages) := by
  obtain hn | ⟨stage, later, hn⟩ := nextStage_cases e k i stages <;> rw [hn]
  · exact h.finishItem k true
  · exact { h with sourced := { h.sourced with } }

/-! ### Starting and closing -/

lemma start (h : Chronicled setup none e) : Chronicled setup none e.start.2 := by
  obtain hs | ⟨-, hstart⟩ := start_cases e
  · rw [hs]
    exact { h with sourced := { h.sourced with } }
  · rw [hstart]
    refine foldl_perform_induction (fun _ effect hd => hd.perform effect) _ _ ?_
    have hidle := h.requeue .idle e.requests (List.subset_append_right ..)
    exact { hidle with sourced := { hidle.sourced with } }

lemma close (h : Chronicled setup none e) (he : e.close? = some e') : Chronicled setup none e' := by
  obtain ⟨-, rfl⟩ := close?_eq_some he
  have hcleared := h.requeue e.dispatcher ⟨[], true⟩
    (List.append_subset.2 ⟨List.subset_append_left .., List.nil_subset _⟩)
  exact { hcleared with sourced := { hcleared.sourced with } }

/-! ### Every reachable engine -/

lemma new (setup : Setup τ) (seeds : List (Request κ)) :
    Chronicled setup none (.new setup seeds : Engine κ V) where
  setup_eq := rfl
  beginnings_lt := nofun
  beginnings := .nil
  answers_lt := nofun
  answers := .nil
  workers := nofun
  tellings := nofun
  sourced := ⟨nofun, nofun⟩
  sequels_lt := nofun
  sequels := fun _ => nofun

variable [DecidableEq τ]

/-- Every move keeps an engine chronicled. -/
theorem step (m : Move κ V) (h : Chronicled setup none e) (he : e.step? m = some e') :
    Chronicled setup none e' := by
  cases m with
  | start =>
    obtain rfl := Option.some.inj he
    exact h.start
  | ask effect =>
    obtain rfl := Option.some.inj he
    exact h.perform effect
  | receive => exact h.receive he
  | launch => exact h.launch he
  | attended => exact h.attended he
  | resume => exact h.resume he
  | drained => exact h.drained he
  | send n => exact h.send he
  | answer n outcome => exact h.answer he
  | act n effect => exact h.act he
  | reply n next => exact h.reply he
  | panic n => exact h.panic he
  | receiveItem k =>
    obtain ⟨-, ⟨i, rest, -, rfl⟩ | ⟨-, -, rfl⟩⟩ := receiveItem?_eq_some he
    · exact { h with sourced := { h.sourced with } }
    · exact { h with sourced := { h.sourced with } }
  | beginItem k =>
    obtain ⟨i, -, -, rfl⟩ := beginItem?_eq_some he
    refine nextStage ?_ k i _
    exact { h with sourced := { h.sourced with } }
  | actItem k effect =>
    obtain ⟨-, -, -, -, rfl⟩ := actItem?_eq_some he
    exact h.perform effect
  | judge k verdict =>
    obtain ⟨i, stage, later, -, ⟨j, rfl⟩ | rfl⟩ := judge?_eq_some he
    · exact h.nextStage k j later
    · exact h.finishItem k false
  | close => exact h.close he
  | discardRequests =>
    obtain ⟨n, -, -, rfl⟩ := discardRequests?_eq_some he
    exact { h with sourced := { h.sourced with } }
  | discardItems =>
    obtain ⟨d, n, -, -, rfl⟩ := discardItems?_eq_some he
    exact { h with sourced := { h.sourced with } }
  | closePipeline =>
    obtain ⟨i, -, rfl⟩ := closePipeline?_eq_some he
    exact { h with sourced := { h.sourced with } }

end Chronicled

/-- Every reachable engine is chronicled. -/
theorem Reachable.chronicled [DecidableEq τ] {setup : Setup τ} {seeds : List (Request κ)}
    {e : Engine κ V} (h : Reachable setup seeds e) : Chronicled setup none e :=
  h.induction (.new setup seeds) fun _ m _ hd he => hd.step m he

end WebCrawl.Engine
