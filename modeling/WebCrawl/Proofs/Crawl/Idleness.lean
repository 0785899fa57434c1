import Mathlib.Logic.Relation
import Mathlib.Tactic.Common
import WebCrawl.Crawl.Activity

set_option autoImplicit false

/-!
# Reading the counters while work moves

The counters of a crawler are read one after the other while the work moves on. Each piece of work makes
its changes in their order, and the changes of different pieces mix in any way. Whoever reads zero
everywhere learns little: work that was there all the time can have begun between two readings, and
whatever the order of the readings is, work can hand in other work behind the reader's back.

## Main definitions

* `WebCrawl.Crawl.Job` — a piece of work and the changes that it still has to make.
* `WebCrawl.Crawl.Workload`, `WebCrawl.Crawl.Workload.Step` — the work at a moment with its counters,
  and how it moves.
* `WebCrawl.Crawl.Workload.Busy` — something is queued or in progress.
* `WebCrawl.Crawl.Workload.Counted` — the counters count the work.
* `WebCrawl.Crawl.ReadsZero` — some counters are read one after the other, all as zero.

## Main results

* `WebCrawl.Crawl.Workload.Counted.step` — the counters keep counting the work.
* `WebCrawl.Crawl.ReadsZero.began_between` — work that was there all the time began between the two
  readings of its kind.
* `WebCrawl.Crawl.busy_unseen` — the counters can all be read as zero while there is work all the time.
* `WebCrawl.Crawl.exists_busy_unseen` — so they can in whatever order they are read.
-/

namespace WebCrawl.Crawl

/-! ## Work that moves -/

/-- A piece of work and the changes that it still has to make. -/
structure Job where
  /-- What kind of work it is. -/
  work : Work
  /-- The changes to come. -/
  rest : List Change
deriving DecidableEq, Repr

/-- The changes of a piece of work after it was handed in. -/
def Work.program (w : Work) : List Change := w.begin ++ w.finish

/-- A piece of work that was just handed in. -/
def Work.job (w : Work) : Job := ⟨w, w.program⟩

/-- The work that was handed in up to a moment, with the counters as they are then. -/
structure Workload where
  /-- The counters. -/
  activity : Activity := {}
  /-- The pieces of work. -/
  jobs : List Job := []
deriving DecidableEq, Repr

namespace Workload

/-- Something is queued or in progress: some piece of work has changes to come. -/
def Busy (s : Workload) : Prop := ∃ j ∈ s.jobs, j.rest ≠ []

/-- The work after one more piece is handed in. -/
def handIn (s : Workload) (w : Work) : Workload :=
  ⟨s.activity.apply w.submit, s.jobs ++ [w.job]⟩

/-- How work moves: a piece is handed in, or one that is there makes its next change. -/
inductive Step : Workload → Workload → Prop
  | handIn (s : Workload) (w : Work) : Step s (s.handIn w)
  | advance (s : Workload) (i : Nat) (w : Work) (c : Change) (rest : List Change)
      (h : s.jobs[i]? = some ⟨w, c :: rest⟩) :
      Step s ⟨s.activity.change c, s.jobs.set i ⟨w, rest⟩⟩

/-- How work moves in the end. -/
abbrev Moves : Workload → Workload → Prop := Relation.ReflTransGen Step

/-- A move after which something is queued or in progress still. -/
def BusyStep (s t : Workload) : Prop := Step s t ∧ t.Busy

end Workload

/-- Some counters are read one after the other, and each is zero when it is read, while work moves. -/
inductive ReadsZero (step : Workload → Workload → Prop) : Workload → List Counter → Workload → Prop
  | done {s t : Workload} (h : Relation.ReflTransGen step s t) : ReadsZero step s [] t
  | read {s u t : Workload} {c : Counter} {order : List Counter}
      (h : Relation.ReflTransGen step s u) (hzero : u.activity.get c = 0)
      (hmore : ReadsZero step u order t) : ReadsZero step s (c :: order) t

/-! ## What the counters count -/

/-- Whether a piece of work is counted by a counter: it has still to take itself out, and not to put
itself in before. -/
def Job.counted (c : Counter) (j : Job) : Bool :=
  j.rest.contains (.down c) && !j.rest.contains (.up c)

/-- The counters count the work, and every piece of it goes through its changes in their order. -/
structure Workload.Counted (s : Workload) : Prop where
  /-- The changes to come are the last ones of all changes. -/
  suffix : ∀ j ∈ s.jobs, j.rest <:+ j.work.program
  /-- A counter counts the pieces of work that it should. -/
  exact : ∀ c, s.activity.get c = s.jobs.countP (Job.counted c)

/-- Where a piece of work can be: it has not begun, is beginning, has begun, or has ended. -/
lemma suffix_program_iff {w : Work} {rest : List Change} :
    rest <:+ w.program ↔ rest = w.program ∨ rest = .down (.queued w) :: w.finish ∨
      rest = w.finish ∨ rest = [] := by
  simp [Work.program, Work.begin, Work.finish, List.suffix_cons_iff]

/-- The change that a piece of work makes next, and what is left then. -/
lemma cons_suffix_program_iff {w : Work} {c : Change} {rest : List Change} :
    c :: rest <:+ w.program ↔
      (c = .up (.active w) ∧ rest = .down (.queued w) :: w.finish) ∨
      (c = .down (.queued w) ∧ rest = w.finish) ∨ (c = .down (.active w) ∧ rest = []) := by
  rw [suffix_program_iff]
  simp [Work.program, Work.begin, Work.finish]

section Stages

variable (c : Counter) (w : Work)

/-- Work that has not begun is counted as queued. -/
lemma counted_job : Job.counted c w.job = decide (c = .queued w) := by
  cases w <;> cases c with | _ v => cases v <;> rfl

/-- Work that is beginning is counted twice. -/
lemma counted_beginning :
    Job.counted c ⟨w, .down (.queued w) :: w.finish⟩ = decide (c = .queued w ∨ c = .active w) := by
  cases w <;> cases c with | _ v => cases v <;> rfl

/-- Work that has begun is counted as under way. -/
lemma counted_begun : Job.counted c ⟨w, w.finish⟩ = decide (c = .active w) := by
  cases w <;> cases c with | _ v => cases v <;> rfl

/-- Work that has ended is not counted. -/
lemma counted_ended : Job.counted c ⟨w, []⟩ = false := rfl

end Stages

namespace Workload

variable {s t : Workload}

lemma counted_empty : Counted {} where
  suffix := nofun
  exact c := by cases c with | _ w => cases w <;> rfl

namespace Counted

/-- The counters keep counting the work.

**Proof sketch.** A piece of work that is handed in is counted as queued. One that makes a change is
counted before and after it by the counters other than the one that changes. -/
theorem step (h : s.Counted) (hstep : Step s t) : t.Counted := by
  cases hstep with
  | handIn w =>
    refine ⟨fun j hj => ?_, fun c => ?_⟩
    · rcases List.mem_append.1 hj with hj | hj
      · exact h.suffix j hj
      · obtain rfl := List.mem_singleton.1 hj
        exact List.suffix_rfl
    · simp only [Workload.handIn, List.countP_append, List.countP_singleton, counted_job,
        decide_eq_true_eq, ← h.exact c, Activity.apply, Work.submit, List.foldl_cons, List.foldl_nil,
        Activity.change, Activity.get_set]
      split_ifs with hc
      · rw [hc]
      · rfl
  | advance i w c rest hi =>
    obtain ⟨hlt, hget⟩ := List.getElem?_eq_some_iff.1 hi
    have hmem : (⟨w, c :: rest⟩ : Job) ∈ s.jobs := List.mem_of_getElem? hi
    have hsuffix : c :: rest <:+ w.program := h.suffix _ hmem
    refine ⟨fun j hj => ?_, fun d => ?_⟩
    · rcases List.mem_or_eq_of_mem_set hj with hj | rfl
      · exact h.suffix j hj
      · exact (List.suffix_cons c rest).trans hsuffix
    · have hcount := List.countP_set (p := Job.counted d) (a := ⟨w, rest⟩) hlt
      have hpos : Job.counted d ⟨w, c :: rest⟩ = true → 0 < s.activity.get d := fun hd => by
        rw [h.exact d]
        exact List.countP_pos_iff.2 ⟨_, hmem, hd⟩
      rw [hget, ← h.exact d] at hcount
      rw [hcount]
      show (s.activity.change c).get d = _
      rcases cons_suffix_program_iff.1 hsuffix with ⟨rfl, rfl⟩ | ⟨rfl, rfl⟩ | ⟨rfl, rfl⟩
      · change Job.counted d w.job = true → _ at hpos
        change _ = _ - (if Job.counted d w.job = true then 1 else 0) + _
        simp only [counted_job, counted_beginning, decide_eq_true_eq, Activity.change,
          Activity.get_set] at hpos ⊢
        grind
      · simp only [counted_beginning, counted_begun, decide_eq_true_eq, Activity.change,
          Activity.get_set] at hpos ⊢
        grind
      · change Job.counted d ⟨w, w.finish⟩ = true → _ at hpos
        change _ = _ - (if Job.counted d ⟨w, w.finish⟩ = true then 1 else 0) + _
        simp only [counted_begun, counted_ended, decide_eq_true_eq, Activity.change,
          Activity.get_set] at hpos ⊢
        grind

/-- The counters count the work however it moves. -/
lemma moves (h : s.Counted) (hmoves : Moves s t) : t.Counted := by
  induction hmoves with
  | refl => exact h
  | tail _ hstep ih => exact ih.step hstep

variable {i : Nat} {w : Work} {rest : List Change}

/-- While a counter is zero there is no piece of work that it counts. -/
lemma not_counted (h : s.Counted) {c : Counter} (hzero : s.activity.get c = 0) {j : Job}
    (hj : j ∈ s.jobs) : Job.counted c j = false := by
  rw [h.exact c, List.countP_eq_zero] at hzero
  simpa using hzero j hj

/-- When nothing is under way, work that has not ended has not begun. -/
lemma eq_job (h : s.Counted) (hzero : s.activity.get (.active w) = 0)
    (hj : (⟨w, rest⟩ : Job) ∈ s.jobs) (hlive : rest ≠ []) : rest = w.program := by
  have hnot := h.not_counted hzero hj
  have hsuffix : rest <:+ w.program := h.suffix _ hj
  rcases suffix_program_iff.1 hsuffix with heq | rfl | rfl | rfl
  · exact heq
  · simp [counted_beginning] at hnot
  · simp [counted_begun] at hnot
  · exact absurd rfl hlive

/-- When nothing is queued, work that has not ended has begun. -/
lemma eq_begun (h : s.Counted) (hzero : s.activity.get (.queued w) = 0)
    (hj : (⟨w, rest⟩ : Job) ∈ s.jobs) (hlive : rest ≠ []) : rest = w.finish := by
  have hnot := h.not_counted hzero hj
  have hsuffix : rest <:+ w.program := h.suffix _ hj
  rcases suffix_program_iff.1 hsuffix with rfl | rfl | heq | rfl
  · change Job.counted _ w.job = false at hnot
    simp [counted_job] at hnot
  · simp [counted_beginning] at hnot
  · exact heq
  · exact absurd rfl hlive

/-- At any one moment the counters tell whether there is work. -/
theorem isIdle_iff (h : s.Counted) : s.activity.isIdle = true ↔ ¬s.Busy := by
  rw [Activity.isIdle_iff]
  constructor
  · rintro hzero ⟨⟨w, rest⟩, hj, hlive⟩
    have hbegun := h.eq_begun (hzero (.queued w)) hj hlive
    cases (h.eq_job (hzero (.active w)) hj hlive).symm.trans hbegun
  · intro hnone c
    rw [h.exact c, List.countP_eq_zero]
    rintro ⟨w, rest⟩ hj
    obtain rfl : rest = [] := by
      by_contra hlive
      exact hnone ⟨_, hj, hlive⟩
    simp [counted_ended]

end Counted

/-- A piece of work stays what it is, and its changes become fewer. -/
lemma Moves.getElem? (h : Moves s t) {i : Nat} {w : Work} {rest : List Change}
    (hi : s.jobs[i]? = some ⟨w, rest⟩) : ∃ rest', t.jobs[i]? = some ⟨w, rest'⟩ ∧ rest' <:+ rest := by
  induction h with
  | refl => exact ⟨rest, hi, List.suffix_rfl⟩
  | @tail u t _ hstep ih =>
    obtain ⟨left, hu, hleft⟩ := ih
    cases hstep with
    | handIn v =>
      refine ⟨left, ?_, hleft⟩
      rw [Workload.handIn, List.getElem?_append_left (List.getElem?_eq_some_iff.1 hu).1]
      exact hu
    | advance k v c more hk =>
      rcases eq_or_ne k i with rfl | hne
      · obtain ⟨rfl, rfl⟩ : v = w ∧ c :: more = left := by
          simpa using Option.some.inj (hk.symm.trans hu)
        refine ⟨more, ?_, (List.suffix_cons c more).trans hleft⟩
        rw [List.getElem?_set_self (List.getElem?_eq_some_iff.1 hu).1]
      · exact ⟨left, by rw [List.getElem?_set_ne hne, hu], hleft⟩

end Workload

open Workload

/-! ## What reading zero everywhere tells -/

section ReadsZero

variable {step : Workload → Workload → Prop} {s u t : Workload} {order : List Counter}

/-- Work can move before the first counter is read. -/
lemma ReadsZero.after (h : Relation.ReflTransGen step s u) (hreads : ReadsZero step u order t) :
    ReadsZero step s order t := by
  cases hreads with
  | done hrest => exact .done (h.trans hrest)
  | read hbefore hzero hmore => exact .read (h.trans hbefore) hzero hmore

lemma ReadsZero.reflTransGen (h : ReadsZero step s order t) : Relation.ReflTransGen step s t := by
  induction h with
  | done h => exact h
  | read h _ _ ih => exact h.trans ih

/-- Two counters that are read one right after the other are zero at two moments, one after the other.
-/
lemma ReadsZero.split {c d : Counter} {before after : List Counter}
    (h : ReadsZero step s (before ++ c :: d :: after) t) :
    ∃ u v, Relation.ReflTransGen step s u ∧ u.activity.get c = 0 ∧ Relation.ReflTransGen step u v ∧
      v.activity.get d = 0 ∧ Relation.ReflTransGen step v t := by
  induction before generalizing s with
  | nil =>
    cases h with
    | read hu hc hmore =>
      cases hmore with
      | read hv hd hrest => exact ⟨_, _, hu, hc, hv, hd, hrest.reflTransGen⟩
  | cons b before ih =>
    cases h with
    | read hb _ hmore =>
      obtain ⟨u, v, hu, hc, hv, hd, hrest⟩ := ih hmore
      exact ⟨u, v, hb.trans hu, hc, hv, hd, hrest⟩

end ReadsZero

/-- Suppose that all counters are read as zero, one after the other, while work moves. Then whatever
piece of work was there from the beginning to the end began in between: it had not begun when what is
under way of its kind was read, and it had when what is queued was read.

**Proof sketch.** The counters count the work at every moment. Work that has not ended and is not counted
as under way has not begun, and if it is not counted as queued, it has. -/
theorem ReadsZero.began_between {s t : Workload} (hs : s.Counted)
    (h : ReadsZero Step s Counter.readingOrder t) {i : Nat} {w : Work} {first last : List Change}
    (hfirst : s.jobs[i]? = some ⟨w, first⟩) (hlast : t.jobs[i]? = some ⟨w, last⟩)
    (hlive : last ≠ []) :
    ∃ u v, Moves s u ∧ u.activity.get (.active w) = 0 ∧ u.jobs[i]? = some w.job ∧
      Moves u v ∧ v.activity.get (.queued w) = 0 ∧ v.jobs[i]? = some ⟨w, w.finish⟩ ∧ Moves v t := by
  obtain ⟨before, after, horder⟩ :
      ∃ before after, Counter.readingOrder = before ++ .active w :: .queued w :: after := by
    cases w with
    | request => exact ⟨[], [.active .item, .queued .item], rfl⟩
    | item => exact ⟨[.active .request, .queued .request], [], rfl⟩
  rw [horder] at h
  obtain ⟨u, v, hu, hactive, hv, hqueued, ht⟩ := h.split
  obtain ⟨restu, hiu, -⟩ := Moves.getElem? hu hfirst
  obtain ⟨restv, hiv, hsuffixv⟩ := Moves.getElem? hv hiu
  obtain ⟨restt, hit, hsuffixt⟩ := Moves.getElem? ht hiv
  obtain rfl : restt = last := by simpa using hit.symm.trans hlast
  -- what is left at the end was left before
  have hlivev : restv ≠ [] := fun heq => hlive (List.suffix_nil.1 (heq ▸ hsuffixt))
  have hliveu : restu ≠ [] := fun heq => hlivev (List.suffix_nil.1 (heq ▸ hsuffixv))
  have hcu := hs.moves hu
  obtain rfl := hcu.eq_job hactive (List.mem_of_getElem? hiu) hliveu
  obtain rfl := (hcu.moves hv).eq_begun hqueued (List.mem_of_getElem? hiv) hlivev
  exact ⟨u, v, hu, hactive, hiu, hv, hqueued, hiv, ht⟩

/-- A request that is handed in and begins while the counters are read. -/
theorem began_between_of_one_request :
    ∃ u v, Moves (handIn {} .request) u ∧ u.activity.get (.active .request) = 0 ∧
      u.jobs[0]? = some Work.request.job ∧ Moves u v ∧ v.activity.get (.queued .request) = 0 ∧
      v.jobs[0]? = some ⟨.request, Work.request.finish⟩ ∧
      Moves v ⟨{ activeRequests := 1 }, [⟨.request, Work.request.finish⟩]⟩ := by
  have hbegins : Moves (handIn {} .request)
      ⟨{ activeRequests := 1 }, [⟨.request, Work.request.finish⟩]⟩ :=
    .head (.advance _ 0 .request _ _ rfl) (.single (.advance ⟨⟨1, 1, 0, 0⟩,
      [⟨.request, .down (.queued .request) :: Work.request.finish⟩]⟩ 0 .request _ _ rfl))
  exact ReadsZero.began_between (counted_empty.step (.handIn _ _))
    (.read .refl rfl (.read hbegins rfl (.read .refl rfl (.read .refl rfl (.done .refl)))))
    (i := 0) rfl rfl (List.cons_ne_nil _ _)

/-! ## Work that is not seen -/

section Unseen

/-- A piece of work makes its next change, wherever it stands. -/
lemma step_append (a : Activity) (before after : List Job) (w : Work) (c : Change)
    (rest : List Change) :
    Step ⟨a, before ++ ⟨w, c :: rest⟩ :: after⟩ ⟨a.change c, before ++ ⟨w, rest⟩ :: after⟩ := by
  have hstep := Step.advance ⟨a, before ++ ⟨w, c :: rest⟩ :: after⟩ before.length w c rest (by simp)
  simpa using hstep

/-- There is work where a piece of it has changes to come. -/
lemma busy_append (a : Activity) (before after : List Job) (w : Work) (c : Change)
    (rest : List Change) : Busy ⟨a, before ++ ⟨w, c :: rest⟩ :: after⟩ :=
  ⟨_, List.mem_append_right _ (List.mem_cons_self ..), List.cons_ne_nil c rest⟩

/-- Some requests that have ended, and one that waits. -/
def waiting (ended : Nat) : Workload :=
  ⟨{ queuedRequests := 1 }, List.replicate ended ⟨.request, []⟩ ++ [Work.request.job]⟩

/-- Some requests that have ended, and one that is under way. -/
def running (ended : Nat) : Workload :=
  ⟨{ activeRequests := 1 }, List.replicate ended ⟨.request, []⟩ ++ [⟨.request, Work.request.finish⟩]⟩

variable (n : Nat)

/-- The request that waits begins, and there is work all the time. -/
lemma running_of_waiting : Relation.ReflTransGen BusyStep (waiting n) (running n) :=
  .head ⟨step_append .., busy_append ..⟩ (.single ⟨step_append .., busy_append ..⟩)

/-- The request that is under way hands in another one and ends, and there is work all the time. -/
lemma waiting_of_running : Relation.ReflTransGen BusyStep (running n) (waiting (n + 1)) := by
  have hhandIn : (running n).handIn .request = ⟨{ queuedRequests := 1, activeRequests := 1 },
      List.replicate n ⟨.request, []⟩ ++ ⟨.request, Work.request.finish⟩ :: [Work.request.job]⟩ := by
    simp only [handIn, running, List.append_assoc, List.singleton_append]
    rfl
  have hwaiting : waiting (n + 1) = ⟨{ queuedRequests := 1 },
      List.replicate n ⟨.request, []⟩ ++ ⟨.request, []⟩ :: [Work.request.job]⟩ := by
    rw [waiting, List.replicate_succ', List.append_assoc]
    rfl
  refine .head ⟨.handIn _ .request, hhandIn ▸ busy_append ..⟩ (.single ⟨?_, busy_append ..⟩)
  rw [hhandIn, hwaiting]
  exact step_append ..

/-- One request is handed in and begins after what is under way was read. There is work all the time,
and yet all counters are read as zero. -/
theorem busy_unseen :
    (handIn {} .request).Busy ∧ ReadsZero BusyStep (handIn {} .request) Counter.readingOrder
      ⟨{ activeRequests := 1 }, [⟨.request, Work.request.finish⟩]⟩ :=
  ⟨⟨_, List.mem_singleton_self _, List.cons_ne_nil _ _⟩,
    .read .refl rfl (.read (running_of_waiting 0) rfl (.read .refl rfl (.read .refl rfl (.done .refl))))⟩

/-- Whatever the order in which counters are read, they can all be read as zero while there is work all
the time.

**Proof sketch.** Induction on the order. Before what is queued is read, the one request there is
begins. Before anything else is read, it hands in another request and ends. -/
theorem exists_busy_unseen (order : List Counter) :
    ∃ t, ReadsZero BusyStep (waiting n) order t := by
  induction order generalizing n with
  | nil => exact ⟨_, .done .refl⟩
  | cons c order ih =>
    by_cases hc : c = .queued .request
    · obtain ⟨t, ht⟩ := ih (n + 1)
      subst hc
      exact ⟨t, .read (running_of_waiting n) rfl (ht.after (waiting_of_running n))⟩
    · obtain ⟨t, ht⟩ := ih n
      refine ⟨t, .read .refl ?_ ht⟩
      cases c with | _ w => cases w <;> first | rfl | exact absurd rfl hc

end Unseen

end WebCrawl.Crawl
