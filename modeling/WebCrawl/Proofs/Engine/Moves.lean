import Mathlib.Data.List.Nodup
import Mathlib.Tactic.Common
import WebCrawl.Engine.Step

set_option autoImplicit false

/-!
# What each move of an engine does

One lemma for each part of a move says in full what the engine is after it, so that what holds of
all reachable engines is proved from these descriptions and no move is opened twice.

## Main definitions

* `WebCrawl.Engine.held` — the request that the dispatcher has taken and not given to a worker.

## Main results

* `WebCrawl.Engine.Reachable.induction` — what a new engine has and every move keeps, every
  reachable engine has.
* `WebCrawl.Engine.handIn_open`, `WebCrawl.Engine.handIn_closed` — a request handed in.
* `WebCrawl.Engine.perform_induction` — what is kept when something is handed in is kept by
  whatever a handler does.
* `WebCrawl.Engine.exists_split` — a live worker among the others, each with its own number.
-/

namespace WebCrawl.Engine

open Crawl

variable {κ τ : Type} {V : τ → Type}

/-- The request that the dispatcher has taken and not given to a worker. -/
def held (e : Engine κ V) : List (Request κ) :=
  match e.dispatcher with
  | .holding r => [r]
  | _ => []

/-! ## Runs -/

section Runs

variable [DecidableEq τ]

/-- A run can be cut anywhere. -/
lemma run?_append (e : Engine κ V) (ms ns : List (Move κ V)) :
    e.run? (ms ++ ns) = (e.run? ms).bind (·.run? ns) := by
  induction ms generalizing e with
  | nil => simp
  | cons m ms ih =>
    rw [List.cons_append, run?_cons, run?_cons]
    cases e.step? m with
    | none => rfl
    | some e' => simpa using ih e'

/-- What the moves of a run keep, the run keeps. -/
lemma run?_induction {P : Engine κ V → Prop} {Q : Move κ V → Prop}
    (step : ∀ e m e', Q m → P e → e.step? m = some e' → P e') :
    ∀ (ms : List (Move κ V)) (e e' : Engine κ V), (∀ m ∈ ms, Q m) → P e → e.run? ms = some e' →
      P e' := by
  intro ms
  induction ms with
  | nil =>
    intro e e' _ he h
    obtain rfl : e = e' := by simpa using h
    exact he
  | cons m ms ih =>
    intro e e' hQ he h
    rw [run?_cons] at h
    obtain ⟨d, hd, h⟩ := Option.bind_eq_some_iff.1 h
    have hm : Q m := hQ m (List.mem_cons_self ..)
    exact ih d e' (fun m' hm' => hQ m' (List.mem_cons_of_mem _ hm')) (step e m d hm he hd) h

/-- What a new engine has and every move keeps, every reachable engine has. -/
theorem Reachable.induction {setup : Setup τ} {seeds : List (Request κ)} {P : Engine κ V → Prop}
    (new : P (.new setup seeds)) (step : ∀ e m e', P e → e.step? m = some e' → P e')
    {e : Engine κ V} (h : Reachable setup seeds e) : P e := by
  obtain ⟨ms, h⟩ := h
  exact run?_induction (Q := fun _ => True) (fun e m e' _ => step e m e') ms _ e
    (fun _ _ => trivial) new h

end Runs

/-! ## Handing in -/

section HandIn

variable (e : Engine κ V)

/-- A request that is handed in while the queue takes requests is queued. -/
lemma handIn_open (origin : Origin) (r : Request κ) (h : e.requests.closed = false) :
    (e.handIn origin r).2 =
      { e with
        requests := ⟨e.requests.waiting ++ [r], false⟩
        activity := { e.activity with queuedRequests := e.activity.queuedRequests + 1 }
        stats := { e.stats with enqueued := e.stats.enqueued + 1 }
        journal := .enqueued origin r :: e.journal } := by
  simp only [handIn, count, Work.submit, Queue.push?, h]
  simp [log, Activity.apply, Activity.change, Activity.set, Activity.get]

/-- A request that is handed in after the queue was closed is counted as dropped. -/
lemma handIn_closed (origin : Origin) (r : Request κ) (h : e.requests.closed = true) :
    (e.handIn origin r).2 =
      { e with
        stats := { e.stats with requestsDropped := e.stats.requestsDropped + 1 }
        journal := .refused origin r :: e.journal } := by
  simp only [handIn, count, Work.submit, Work.withdraw, Queue.push?, h, ↓reduceIte]
  simp [log, Activity.apply, Activity.change, Activity.set, Activity.get]

/-- An item that is handed in while the queue takes items is queued. -/
lemma submitItem_open (i : Envelope κ V) (h : e.items.closed = false) :
    (e.submitItem i).2 =
      { e with
        items := ⟨e.items.waiting ++ [i], false⟩
        activity := { e.activity with queuedItems := e.activity.queuedItems + 1 }
        stats := { e.stats with scraped := e.stats.scraped + 1 }
        journal := .itemEnqueued i :: e.journal } := by
  simp only [submitItem, count, Work.submit, Queue.push?, h]
  simp [log, Activity.apply, Activity.change, Activity.set, Activity.get]

/-- An item that is handed in after the queue was closed is counted as dropped. -/
lemma submitItem_closed (i : Envelope κ V) (h : e.items.closed = true) :
    (e.submitItem i).2 =
      { e with
        stats := { e.stats with itemsDropped := e.stats.itemsDropped + 1 }
        journal := .itemRefused i :: e.journal } := by
  simp only [submitItem, count, Work.submit, Work.withdraw, Queue.push?, h, ↓reduceIte]
  simp [log, Activity.apply, Activity.change, Activity.set, Activity.get]

/-- A request that is handed in is taken unless the queue is closed. -/
lemma handIn_answer (origin : Origin) (r : Request κ) :
    (e.handIn origin r).1 = if e.requests.closed then .error .queueClosed else .ok () := by
  cases hc : e.requests.closed <;> simp [handIn, count, Queue.push?, hc]

/-- An item that is handed in is taken unless the queue is closed. -/
lemma submitItem_answer (i : Envelope κ V) :
    (e.submitItem i).1 = if e.items.closed then .error .queueClosed else .ok () := by
  cases hc : e.items.closed <;> simp [submitItem, count, Queue.push?, hc]

variable {e}

/-- Handing in a request leaves the setup and the workers as they are. -/
lemma handIn_frame (e : Engine κ V) (origin : Origin) (r : Request κ) :
    (e.handIn origin r).2.setup = e.setup ∧ (e.handIn origin r).2.workers = e.workers := by
  cases hc : e.requests.closed with
  | true => simp [handIn_closed e origin r hc]
  | false => simp [handIn_open e origin r hc]

/-- Handing in an item leaves the setup and the workers as they are. -/
lemma submitItem_frame (e : Engine κ V) (i : Envelope κ V) :
    (e.submitItem i).2.setup = e.setup ∧ (e.submitItem i).2.workers = e.workers := by
  cases hc : e.items.closed with
  | true => simp [submitItem_closed e i hc]
  | false => simp [submitItem_open e i hc]

/-- What is kept when something is handed in or asked is kept by whatever a handler does. -/
lemma perform_induction {P : Engine κ V → Prop} (effect : Effect κ V)
    (request : ∀ r, P (e.handIn .outside r).2) (item : ∀ i, P (e.submitItem i).2)
    (query : ∀ cache, P { e with cache := cache }) : P (e.perform effect) := by
  cases effect with
  | add c r => exact request _
  | retry c r => exact request _
  | submit r => exact request _
  | item c i => exact item _
  | query source => exact query _

/-- Whatever a handler does, the setup and the workers are as before. -/
lemma perform_frame (e : Engine κ V) (effect : Effect κ V) :
    (e.perform effect).setup = e.setup ∧ (e.perform effect).workers = e.workers :=
  perform_induction (P := fun d => d.setup = e.setup ∧ d.workers = e.workers) effect
    (handIn_frame e _) (submitItem_frame e) fun _ => ⟨rfl, rfl⟩

/-- A worker is found by what the list of the workers is. -/
lemma worker?_congr {d : Engine κ V} (h : d.workers = e.workers) (n : Nat) :
    d.worker? n = e.worker? n := by rw [worker?, h, worker?]

end HandIn

/-- Reading the counter of the waiting requests. -/
@[simp] lemma get_queuedRequests (a : Activity) : a.get (.queued .request) = a.queuedRequests := rfl

/-- Reading the counter of the waiting items. -/
@[simp] lemma get_queuedItems (a : Activity) : a.get (.queued .item) = a.queuedItems := rfl

/-! ## Workers -/

section Workers

variable {e : Engine κ V} {n : Nat} {w : Worker κ}

/-- A live worker stands among the others, which have other numbers. -/
lemma exists_split (hn : (e.workers.map (·.number)).Nodup) (h : e.worker? n = some w) :
    ∃ as bs, e.workers = as ++ w :: bs ∧ w.number = n ∧ ∀ v ∈ as ++ bs, v.number ≠ n := by
  obtain ⟨hw, as, bs, hs, -⟩ := List.find?_eq_some_iff_append.1 h
  obtain rfl : w.number = n := by simpa using hw
  refine ⟨as, bs, hs, rfl, fun v hv hvn => ?_⟩
  rw [hs, List.map_append, List.map_cons, List.nodup_middle, ← List.map_append] at hn
  exact (List.nodup_cons.1 hn).1 (hvn ▸ List.mem_map_of_mem hv)

/-- Only the worker itself is dismissed. -/
lemma dismiss_split {as bs : List (Worker κ)} (hw : w.number = n)
    (h : ∀ v ∈ as ++ bs, v.number ≠ n) : dismiss n (as ++ w :: bs) = as ++ bs := by
  have hab : ∀ v ∈ as ++ bs, (v.number != n) = true := fun v hv => by simpa using h v hv
  have hsplit : dismiss n (as ++ w :: bs) = dismiss n as ++ dismiss n bs := by
    simp [dismiss, hw]
  rw [hsplit, dismiss, dismiss, ← List.filter_append]
  exact List.filter_eq_self.2 hab

/-- The engine after the end of a live worker. -/
lemma finish_split {as bs : List (Worker κ)} (hs : e.workers = as ++ w :: bs)
    (hw : w.number = n) (h : ∀ v ∈ as ++ bs, v.number ≠ n) :
    e.finish n =
      { e with
        activity := { e.activity with activeRequests := e.activity.activeRequests - 1 }
        workers := as ++ bs
        permits := if e.isPaced then e.permits else e.permits + 1
        journal := .finished n :: e.journal } := by
  simp only [finish, log, count, Work.finish, hs, dismiss_split hw h]
  simp [Activity.apply, Activity.change, Activity.set, Activity.get]

/-- The engine after a live worker went on to another phase. -/
lemma enter_split {as bs : List (Worker κ)} (hs : e.workers = as ++ w :: bs)
    (hw : w.number = n) (h : ∀ v ∈ as ++ bs, v.number ≠ n) (phase : Phase κ) :
    e.enter n phase = { e with workers := as ++ ⟨n, phase⟩ :: bs } := by
  have hsame : ∀ vs : List (Worker κ), (∀ v ∈ vs, v.number ≠ n) →
      vs.map (fun v => if v.number = n then { v with phase := phase } else v) = vs := by
    intro vs hvs
    exact (List.map_congr_left fun v hv => if_neg (hvs v hv)).trans (List.map_id _)
  have has := hsame as fun v hv => h v (List.mem_append_left _ hv)
  have hbs := hsame bs fun v hv => h v (List.mem_append_right _ hv)
  simp only [enter, hs, List.map_append, List.map_cons, has, hbs, hw, ↓reduceIte]

end Workers

/-! ## The dispatcher -/

section Dispatcher

variable {e e' : Engine κ V}

/-- The dispatcher takes the request that waits longest, or learns that no more will come. -/
lemma receive?_eq_some (h : e.receive? = some e') :
    e.dispatcher = .idle ∧
      ((∃ r rest, e.requests.waiting = r :: rest ∧
        e' = { e with requests := ⟨rest, e.requests.closed⟩, dispatcher := .holding r }) ∨
      (e.requests.waiting = [] ∧ e.requests.closed = true ∧
        e' = { e with dispatcher := .draining })) := by
  unfold receive? at h
  split at h
  · rename_i hd
    refine ⟨hd, ?_⟩
    unfold Queue.pop? at h
    cases hw : e.requests.waiting with
    | nil =>
      simp only [hw, Option.ite_none_right_eq_some, Option.some.injEq] at h
      exact .inr ⟨rfl, h.1, h.2.symm⟩
    | cons r rest =>
      simp only [hw, Option.some.injEq] at h
      exact .inl ⟨r, rest, rfl, h.symm⟩
  · cases h

/-- A request that begins is given to a new worker. -/
lemma begin_eq (e : Engine κ V) (r : Request κ) :
    e.begin r =
      { e with
        activity := { e.activity with
          activeRequests := e.activity.activeRequests + 1
          queuedRequests := e.activity.queuedRequests - 1 }
        begun := e.begun + 1
        workers := e.workers ++ [⟨e.begun, .ready r⟩]
        journal := .began e.begun r :: e.journal } := by
  simp [begin, log, count, Work.begin, Activity.apply, Activity.change, Activity.set, Activity.get]

/-- The dispatcher gives away the request that it holds, with a pause or with a permit. -/
lemma launch?_eq_some (h : e.launch? = some e') :
    ∃ r, e.dispatcher = .holding r ∧
      ((e.isPaced = true ∧ e' = { e.begin r with dispatcher := .attending e.begun }) ∨
      (e.isPaced = false ∧ 0 < e.permits ∧
        e' = { e.begin r with dispatcher := .idle, permits := e.permits - 1 })) := by
  unfold launch? at h
  split at h
  · rename_i r hd
    refine ⟨r, hd, ?_⟩
    split at h
    · rename_i hp
      exact .inl ⟨hp, (Option.some.inj h).symm⟩
    · rename_i hp
      simp only [Option.ite_none_right_eq_some, Option.some.injEq] at h
      exact .inr ⟨by simpa using hp, h.1, h.2.symm⟩
  · cases h

/-- The dispatcher goes on when the worker for which it waits has ended. -/
lemma attended?_eq_some (h : e.attended? = some e') :
    ∃ n, e.dispatcher = .attending n ∧ e.worker? n = none ∧
      e' = { e with dispatcher := .pausing } := by
  unfold attended? at h
  split at h
  · rename_i n hd
    simp only [Option.ite_none_right_eq_some, Option.some.injEq, Option.isNone_iff_eq_none] at h
    exact ⟨n, hd, h.1, h.2.symm⟩
  · cases h

/-- The dispatcher goes on after a pause. -/
lemma resume?_eq_some (h : e.resume? = some e') :
    e.dispatcher = .pausing ∧ e' = { e with dispatcher := .idle } := by
  unfold resume? at h
  split at h
  · rename_i hd
    exact ⟨hd, (Option.some.inj h).symm⟩
  · cases h

/-- The dispatcher ends when no worker is left. -/
lemma drained?_eq_some (h : e.drained? = some e') :
    e.dispatcher = .draining ∧ e.workers = [] ∧ e' = { e with dispatcher := .ended } := by
  unfold drained? at h
  split at h
  · rename_i hd
    simp only [Option.ite_none_right_eq_some, Option.some.injEq, List.isEmpty_iff] at h
    exact ⟨hd, h.1, h.2.symm⟩
  · cases h

end Dispatcher

/-! ## The exchange of a worker -/

section Exchange

variable {e e' : Engine κ V} {n : Nat}

/-- The engine after an answer came back to a worker. -/
def hear (e : Engine κ V) (n : Nat) (a : Answer) : Engine κ V :=
  { e with
    stats := e.stats.recordAnswer a.status a.body.size, journal := .answered n a :: e.journal }

/-- How the exchange of a worker ends. Without an answer, it is told that the request has failed, or
there is another try. With one, it is told of the response, or that the redirect cannot be followed;
or the request that follows takes the place of this one, or a handler is asked about that. -/
inductive Settles (e : Engine κ V) (n : Nat) (r : Request κ) : Engine κ V → Prop where
  | failed (error : Error) : Settles e n r (e.fail n r error)
  | retried (h : r.retryTimes < e.setup.settings.maxRetryTimes) :
    Settles e n r
      (({ e with stats := { e.stats with retried := e.stats.retried + 1 } }.resubmit n
        (contextOf r) { r with retryTimes := r.retryTimes + 1 }).finish n)
  | succeeded (a : Answer) (h : a.location? = none) :
    Settles e n r ((e.hear n a).succeed n r a)
  | misled (a : Answer) (error : Error) : Settles e n r ((e.hear n a).fail n r error)
  | redirected (a : Answer) (location target : Text) (here : a.location? = some location)
    (join : Url.join r.url location = .ok target)
    (h : (r.redirected target (a.toResponse r)).redirectTimes ≤ e.setup.settings.maxRedirectTimes)
    (unjudged : e.setup.judgesRedirects = false) :
    Settles e n r
      (({ e.hear n a with
          stats := { (e.hear n a).stats with
            redirected := (e.hear n a).stats.redirected + 1 } }.resubmit n
        (contextOf r) (r.redirected target (a.toResponse r))).finish n)
  | judged (a : Answer) (target : Text) (judged : e.setup.judgesRedirects = true) :
    Settles e n r
      ({ e.hear n a with
          stats := { (e.hear n a).stats with
            redirected := (e.hear n a).stats.redirected + 1 } }.tell n
        (.redirect (a.toResponse r) (r.redirected target (a.toResponse r)) (contextOf r)) false)

/-- A failed exchange ends in another attempt or in a failure. -/
lemma settles_repeatOrFail (e : Engine κ V) (n : Nat) (r : Request κ) (error : Error) :
    Settles e n r (e.repeatOrFail n r error) := by
  unfold repeatOrFail
  split
  · rename_i hr
    simp only [repeats, Bool.and_eq_true, decide_eq_true_eq] at hr
    exact .retried hr.2
  · exact .failed error

/-- A redirect is followed, or a handler is asked, or the request has failed. -/
lemma settles_follow (e : Engine κ V) (n : Nat) (r : Request κ) (a : Answer) (location : Text)
    (here : a.location? = some location) : Settles e n r ((e.hear n a).follow n r a location) := by
  unfold follow
  split
  · exact .misled a _
  · rename_i target join
    dsimp only
    split
    · exact .misled a _
    · rename_i hmax
      split
      · rename_i hj
        exact .judged a target hj
      · rename_i hj
        exact .redirected a location target here join (Nat.le_of_not_lt hmax) (eq_false_of_ne_true hj)

/-- The exchange of a worker comes to its end. -/
lemma answer?_settles {outcome : Outcome} (h : e.answer? n outcome = some e') :
    ∃ m r wire, e.worker? n = some ⟨m, .exchanging r wire⟩ ∧ Settles e n r e' := by
  unfold answer? at h
  split at h
  · rename_i m r wire hw
    refine ⟨m, r, wire, hw, ?_⟩
    split at h
    · rename_i a
      dsimp only at h
      split at h
      · rename_i location hl
        obtain rfl := Option.some.inj h
        exact settles_follow e n r a location hl
      · rename_i hl
        obtain rfl := Option.some.inj h
        exact .succeeded a hl
    · rename_i error
      obtain rfl := Option.some.inj h
      exact settles_repeatOrFail e n r error
    · obtain rfl := Option.some.inj h
      exact settles_repeatOrFail e n r _
  · cases h

/-- A worker sends its request, or tells that it cannot. -/
lemma send?_cases (h : e.send? n = some e') :
    ∃ m r, e.worker? n = some ⟨m, .ready r⟩ ∧
      ((∃ error, e' = e.fail n r error) ∨
      ∃ wire, e' = ({ e with stats := { e.stats with sent := e.stats.sent + 1 } }.enter n
        (.exchanging r wire)).log (.sent n wire)) := by
  unfold send? at h
  split at h
  · rename_i m r hw
    refine ⟨m, r, hw, ?_⟩
    split at h
    · exact .inl ⟨_, (Option.some.inj h).symm⟩
    · exact .inr ⟨_, (Option.some.inj h).symm⟩
  · cases h

/-- How the exchange of a worker can end, whether an answer came back before or not: it is told that
the request has failed or has a response, or another request takes the place of this one, or a
handler is asked about that. -/
inductive Concludes (e : Engine κ V) (n : Nat) (r : Request κ) : Engine κ V → Prop where
  | failed (error : Error) : Concludes e n r (e.fail n r error)
  | succeeded (a : Answer) (h : a.location? = none) : Concludes e n r (e.succeed n r a)
  | retried (h : r.retryTimes < e.setup.settings.maxRetryTimes) :
    Concludes e n r
      (({ e with stats := { e.stats with retried := e.stats.retried + 1 } }.resubmit n
        (contextOf r) { r with retryTimes := r.retryTimes + 1 }).finish n)
  | redirected (a : Answer) (location target : Text) (here : a.location? = some location)
    (join : Url.join r.url location = .ok target)
    (h : (r.redirected target (a.toResponse r)).redirectTimes ≤ e.setup.settings.maxRedirectTimes)
    (unjudged : e.setup.judgesRedirects = false) :
    Concludes e n r
      (({ e with stats := { e.stats with redirected := e.stats.redirected + 1 } }.resubmit n
        (contextOf r) (r.redirected target (a.toResponse r))).finish n)
  | judged (a : Answer) (target : Text) (judged : e.setup.judgesRedirects = true) :
    Concludes e n r
      ({ e with stats := { e.stats with redirected := e.stats.redirected + 1 } }.tell n
        (.redirect (a.toResponse r) (r.redirected target (a.toResponse r)) (contextOf r)) false)

/-- An exchange ends in one of these ways, after an answer came back or not. -/
lemma Settles.concludes {r : Request κ} (h : Settles e n r e') :
    Concludes e n r e' ∨ ∃ a, Concludes (e.hear n a) n r e' := by
  cases h with
  | failed error => exact .inl (.failed error)
  | retried h => exact .inl (.retried h)
  | succeeded a h => exact .inr ⟨a, .succeeded a h⟩
  | misled a error => exact .inr ⟨a, .failed error⟩
  | redirected a location target here join h unjudged =>
    exact .inr ⟨a, .redirected a location target here join h unjudged⟩
  | judged a target judged => exact .inr ⟨a, .judged a target judged⟩

/-- A worker sends its request, or cannot. -/
lemma send?_eq_some (h : e.send? n = some e') :
    ∃ m r, e.worker? n = some ⟨m, .ready r⟩ ∧
      (Concludes e n r e' ∨
      ∃ wire, e' = ({ e with stats := { e.stats with sent := e.stats.sent + 1 } }.enter n
        (.exchanging r wire)).log (.sent n wire)) := by
  obtain ⟨m, r, hw, ⟨error, rfl⟩ | hsent⟩ := send?_cases h
  · exact ⟨m, r, hw, .inl (.failed error)⟩
  · exact ⟨m, r, hw, .inr hsent⟩

/-- The exchange of a worker comes to its end, after an answer came back or not. -/
lemma answer?_eq_some {outcome : Outcome} (h : e.answer? n outcome = some e') :
    ∃ m r wire, e.worker? n = some ⟨m, .exchanging r wire⟩ ∧
      (Concludes e n r e' ∨ ∃ a, Concludes (e.hear n a) n r e') := by
  obtain ⟨m, r, wire, hw, hsettles⟩ := answer?_settles h
  exact ⟨m, r, wire, hw, hsettles.concludes⟩

/-- A handler does something. -/
lemma act?_eq_some {effect : Effect κ V} (h : e.act? n effect = some e') :
    ∃ m notice level later isRead isRead',
      e.worker? n = some ⟨m, .telling notice level later isRead⟩ ∧
      e' = (e.perform effect).enter n (.telling notice level later isRead') := by
  unfold act? at h
  split at h
  · rename_i m notice level later isRead hw
    exact ⟨m, notice, level, later, isRead, _, hw, (Option.some.inj h).symm⟩
  · cases h

/-- A handler is done, and may have replied with the request that follows a redirect. -/
lemma reply?_cases {reply : Option (Request κ)} (h : e.reply? n reply = some e') :
    ∃ m notice level later isRead d,
      e.worker? n = some ⟨m, .telling notice level later isRead⟩ ∧
      (d = e ∨ ∃ response next c r, notice = .redirect response next c ∧ reply = some r ∧
        d = e.resubmit n c r) ∧
      e' = d.tellNext n notice isRead later := by
  unfold reply? at h
  split at h
  · rename_i m notice level later isRead hw
    refine ⟨m, notice, level, later, isRead, _, hw, ?_, (Option.some.inj h).symm⟩
    unfold pass
    split
    · exact .inr ⟨_, _, _, _, rfl, rfl, rfl⟩
    · exact .inl rfl
  · cases h

/-- A handler is done, and may have let the request that follows a redirect pass. -/
lemma reply?_eq_some {reply : Option (Request κ)} (h : e.reply? n reply = some e') :
    ∃ m notice level later isRead d,
      e.worker? n = some ⟨m, .telling notice level later isRead⟩ ∧
      (d = e ∨ ∃ response next c r, notice = .redirect response next c ∧ d = e.resubmit n c r) ∧
      e' = d.tellNext n notice isRead later := by
  obtain ⟨m, notice, level, later, isRead, d, hw, hd, he'⟩ := reply?_cases h
  refine ⟨m, notice, level, later, isRead, d, hw, ?_, he'⟩
  obtain hd | ⟨response, next, c, r, hnotice, -, hd⟩ := hd
  · exact .inl hd
  · exact .inr ⟨response, next, c, r, hnotice, hd⟩

/-- A handler breaks down. -/
lemma panic?_eq_some (h : e.panic? n = some e') :
    ∃ m notice level later isRead, e.worker? n = some ⟨m, .telling notice level later isRead⟩ ∧
      e' = e.finish n := by
  unfold panic? at h
  split at h
  · rename_i m notice level later isRead hw
    exact ⟨m, notice, level, later, isRead, hw, (Option.some.inj h).symm⟩
  · cases h

end Exchange

/-! ## Items -/

section Items

variable {e e' : Engine κ V} {k : Nat}

/-- An item worker takes the item that waits longest, or learns that no more will come. -/
lemma receiveItem?_eq_some (h : e.receiveItem? k = some e') :
    e.itemWorkers[k]? = some .idle ∧
      ((∃ i rest, e.items.waiting = i :: rest ∧
        e' = { e with
          items := ⟨rest, e.items.closed⟩, itemWorkers := e.itemWorkers.set k (.holding i) }) ∨
      (e.items.waiting = [] ∧ e.items.closed = true ∧
        e' = { e with itemWorkers := e.itemWorkers.set k .ended })) := by
  unfold receiveItem? at h
  split at h
  · rename_i hk
    refine ⟨hk, ?_⟩
    unfold Queue.pop? at h
    cases hw : e.items.waiting with
    | nil =>
      simp only [hw, Option.ite_none_right_eq_some, Option.some.injEq] at h
      exact .inr ⟨rfl, h.1, h.2.symm⟩
    | cons i rest =>
      simp only [hw, Option.some.injEq] at h
      exact .inl ⟨i, rest, rfl, h.symm⟩
  · cases h

/-- The engine after the item of a worker ended. -/
lemma finishItem_eq (e : Engine κ V) (k : Nat) (passed : Bool) :
    e.finishItem k passed =
      { e with
        activity := { e.activity with activeItems := e.activity.activeItems - 1 }
        stats := if passed then { e.stats with processed := e.stats.processed + 1 }
          else { e.stats with itemsDropped := e.stats.itemsDropped + 1 }
        itemPermits := e.itemPermits + 1
        itemWorkers := e.itemWorkers.set k .idle
        journal := .itemFinished k passed :: e.journal } := by
  simp [finishItem, log, enterItem, count, Work.finish, Activity.apply, Activity.change,
    Activity.set, Activity.get]

/-- An item goes to its next stage, or has passed the last. -/
lemma nextStage_cases (e : Engine κ V) (k : Nat) (i : Envelope κ V) (stages : List (Stage τ)) :
    e.nextStage k i stages = e.finishItem k true ∨
      ∃ stage later, e.nextStage k i stages =
        { e with
          itemWorkers := e.itemWorkers.set k (.processing i stage later)
          journal := .staged k stage i :: e.journal } := by
  cases stages with
  | nil => exact .inl rfl
  | cons stage later => exact .inr ⟨stage, later, rfl⟩

/-- A stage is done with an item, which goes on in its context or ends there. -/
lemma judge?_cases {verdict : Verdict V} (h : e.judge? k verdict = some e') :
    ∃ i stage later, e.itemWorkers[k]? = some (.processing i stage later) ∧
      ((∃ j, j.context = i.context ∧ e' = e.nextStage k j later) ∨ e' = e.finishItem k false) := by
  unfold judge? at h
  split at h
  · rename_i i stage later hk
    refine ⟨i, stage, later, hk, ?_⟩
    cases verdict with
    | keep => exact .inl ⟨i, rfl, (Option.some.inj h).symm⟩
    | replace item => exact .inl ⟨{ i with item := item }, rfl, (Option.some.inj h).symm⟩
    | drop => exact .inr (Option.some.inj h).symm
    | panic => exact .inr (Option.some.inj h).symm
  · cases h

/-- A stage is done with an item, which goes on or ends there. -/
lemma judge?_eq_some {verdict : Verdict V} (h : e.judge? k verdict = some e') :
    ∃ i stage later, e.itemWorkers[k]? = some (.processing i stage later) ∧
      ((∃ j, e' = e.nextStage k j later) ∨ e' = e.finishItem k false) := by
  obtain ⟨i, stage, later, hk, ⟨j, -, he'⟩ | he'⟩ := judge?_cases h
  · exact ⟨i, stage, later, hk, .inl ⟨j, he'⟩⟩
  · exact ⟨i, stage, later, hk, .inr he'⟩

/-- A stage does something while it has an item. -/
lemma actItem?_eq_some {effect : Effect κ V} (h : e.actItem? k effect = some e') :
    ∃ i stage later, e.itemWorkers[k]? = some (.processing i stage later) ∧
      e' = e.perform effect := by
  unfold actItem? at h
  split at h
  · rename_i i stage later hk
    exact ⟨i, stage, later, hk, (Option.some.inj h).symm⟩
  · cases h

variable [DecidableEq τ]

/-- An item worker begins with the item that it holds. -/
lemma beginItem?_eq_some (h : e.beginItem? k = some e') :
    ∃ i, e.itemWorkers[k]? = some (.holding i) ∧ 0 < e.itemPermits ∧
      e' = Engine.nextStage { e with
        activity := { e.activity with
          activeItems := e.activity.activeItems + 1, queuedItems := e.activity.queuedItems - 1 }
        itemPermits := e.itemPermits - 1
        journal := .itemBegan k i :: e.journal } k i (e.stagesOf i.item.kind) := by
  unfold beginItem? at h
  split at h
  · rename_i i hk
    simp only [Option.ite_none_right_eq_some, Option.some.injEq] at h
    exact ⟨i, hk, h.1, h.2.symm⟩
  · cases h

end Items

/-! ## Starting -/

section Starting

/-- The engine after it was set going and before the first requests are handed in. -/
def ignite (e : Engine κ V) : Engine κ V :=
  { e with
    started := true
    connectable := false
    dispatcher := .idle
    itemWorkers := List.replicate e.setup.settings.itemWorkers .idle
    seeds := [] }

/-- An engine that cannot be started only remembers the attempt. One that can is set going, and
then its first requests are handed in. -/
lemma start_cases (e : Engine κ V) :
    e.start.2 = { e with started := true } ∨
      (e.connectable = true ∧
        e.start.2 = e.seeds.foldl (fun e r => e.perform (.add .root r)) e.ignite) := by
  unfold start
  split
  · exact .inl rfl
  · rename_i hs
    simp only [Bool.or_eq_true, Bool.not_eq_true', not_or, Bool.not_eq_false] at hs
    exact .inr ⟨hs.2, rfl⟩

/-- What an engine that was set going has and keeps when it performs something, it has after it was
started. -/
lemma foldl_perform_induction {P : Engine κ V → Prop}
    (step : ∀ d effect, P d → P (d.perform effect)) :
    ∀ (seeds : List (Request κ)) (d : Engine κ V), P d →
      P (seeds.foldl (fun e r => e.perform (.add .root r)) d) := by
  intro seeds
  induction seeds with
  | nil => exact fun _ hd => hd
  | cons r seeds ih => exact fun d hd => ih _ (step d _ hd)

end Starting

/-! ## Closing -/

section Closing

variable {e e' : Engine κ V}

/-- The queue of requests is closed, and what waited there is taken out. -/
lemma close?_eq_some (h : e.close? = some e') :
    e.closing = .no ∧
      e' = { e with
        connectable := false
        requests := ⟨[], true⟩
        closing := .requests e.requests.waiting.length
        journal := .cleared e.requests.waiting :: e.journal } := by
  unfold close? at h
  split at h
  · rename_i hc
    exact ⟨hc, (Option.some.inj h).symm⟩
  · cases h

/-- When the dispatcher has ended, the requests that waited are thrown away. -/
lemma discardRequests?_eq_some (h : e.discardRequests? = some e') :
    ∃ n, e.closing = .requests n ∧ e.dispatcherHasEnded = true ∧
      e' = { e with
        activity := { e.activity with queuedRequests := 0 }
        items := ⟨[], true⟩
        closing := .items e.activity.queuedRequests e.items.waiting.length } := by
  unfold discardRequests? at h
  split at h
  · rename_i n hc
    simp only [Option.ite_none_right_eq_some, Option.some.injEq] at h
    refine ⟨n, hc, h.1, h.2.symm.trans ?_⟩
    simp [count, Work.discard, Queue.close, Activity.apply, Activity.change, Activity.set]
  · cases h

/-- When the item workers have ended, the items that waited are thrown away. -/
lemma discardItems?_eq_some (h : e.discardItems? = some e') :
    ∃ d n, e.closing = .items d n ∧ e.itemWorkersHaveEnded = true ∧
      e' = { e with
        activity := { e.activity with queuedItems := 0 }
        stats := e.stats.recordDiscarded d e.activity.queuedItems
        closing := e.closingFrom 0
        journal := .discarded d e.activity.queuedItems :: e.journal } := by
  unfold discardItems? at h
  split at h
  · rename_i d n hc
    simp only [Option.ite_none_right_eq_some, Option.some.injEq] at h
    refine ⟨d, n, hc, h.1, h.2.symm.trans ?_⟩
    simp [log, count, Work.discard, Activity.apply, Activity.change, Activity.set]
  · cases h

/-- The pipelines are closed one by one. -/
lemma closePipeline?_eq_some (h : e.closePipeline? = some e') :
    ∃ i, e.closing = .pipelines i ∧
      e' = { e with
        closing := e.closingFrom (i + 1), journal := .pipelineClosed i :: e.journal } := by
  unfold closePipeline? at h
  split at h
  · rename_i i hc
    exact ⟨i, hc, (Option.some.inj h).symm⟩
  · cases h

end Closing

end WebCrawl.Engine
