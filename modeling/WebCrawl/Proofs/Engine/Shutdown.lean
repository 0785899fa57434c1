import Mathlib.Logic.Function.Basic
import WebCrawl.Engine.Closing
import WebCrawl.Proofs.Crawl.Idleness

set_option autoImplicit false

/-!
# Handing in work while an engine is shut down

Whoever hands in work counts it as queued, puts it into the queue, and if the queue is closed, takes
it out of the count again and counts it as dropped. A shutdown closes the queue, waits until
everything that was handed out has ended, and then sets the count to zero and takes what it held for
the number of pieces that were thrown away. The steps of all these mix in any way. A call that has
counted its work when the count is set to zero, and has not taken it out yet, takes it out of zero:
the count ends below zero, and the work is dropped twice.

## Main definitions

* `WebCrawl.Crawl.Tally` — the counters as whole numbers, and `WebCrawl.Crawl.word` — what a machine
  holds of them.
* `WebCrawl.Crawl.Traffic`, `WebCrawl.Crawl.Traffic.Step` — calls that hand in work, the work that
  was handed out, and a shutdown, and how they move.
* `WebCrawl.Crawl.Traffic.Exact`, `WebCrawl.Crawl.Traffic.Offset` — what the count holds before and
  after it is set to zero.

## Main results

* `WebCrawl.Crawl.Traffic.Exact.step`, `WebCrawl.Crawl.Traffic.Offset.step` — what every step keeps.
* `WebCrawl.Crawl.Traffic.counts_of_shutdown` — the counts after a shutdown.
* `WebCrawl.Crawl.Traffic.dropped_twice` — a call that a shutdown overtakes.
* `WebCrawl.Engine.shows_handIn`, `WebCrawl.Engine.shows_submitItem` — calls of an engine are calls
  that nothing interrupts.
* `WebCrawl.Engine.shows_close`, `WebCrawl.Engine.shows_discardRequests` — its closing is a shutdown.
-/

namespace WebCrawl.Crawl

/-! ## Counters that can be below zero -/

/-- The counters as whole numbers. -/
abbrev Tally := Counter → Int

/-- The counters after a change. -/
def Tally.change (t : Tally) : Change → Tally
  | .up c => Function.update t c (t c + 1)
  | .down c => Function.update t c (t c - 1)
  | .clear c => Function.update t c 0

/-- The counters after some changes. -/
def Tally.apply (t : Tally) (changes : List Change) : Tally := changes.foldl .change t

/-- What a word of 64 bits holds of a number. -/
def word (z : Int) : Nat := (z % (Nat.pow 2 64 : Nat)).toNat

section Changes

variable (t : Tally) (w : Work)

@[simp] lemma Tally.submit_queued : t.apply w.submit (.queued w) = t (.queued w) + 1 := by
  simp [apply, Work.submit, change]

@[simp] lemma Tally.withdraw_queued : t.apply w.withdraw (.queued w) = t (.queued w) - 1 := by
  simp [apply, Work.withdraw, change]

@[simp] lemma Tally.discard_queued : t.apply w.discard (.queued w) = 0 := by
  simp [apply, Work.discard, change]

variable (a : Activity)

@[simp] lemma Activity.submit_queued :
    (a.apply w.submit).get (.queued w) = a.get (.queued w) + 1 := by
  simp [apply, Work.submit, change]

@[simp] lemma Activity.withdraw_queued :
    (a.apply w.withdraw).get (.queued w) = a.get (.queued w) - 1 := by
  simp [apply, Work.withdraw, change]

@[simp] lemma Activity.discard_queued : (a.apply w.discard).get (.queued w) = 0 := by
  simp [apply, Work.discard, change]

end Changes

/-! ## Calls, work and a shutdown -/

namespace Traffic

/-- How far a call is that hands in work. -/
inductive Stage where
  /-- It has counted its work. -/
  | counted
  /-- The queue has taken its work, and the call has ended. -/
  | accepted
  /-- The queue has not taken its work. -/
  | refused
  /-- It has taken its work out of the count. -/
  | withdrawn
  /-- It has counted its work as dropped, and has ended. -/
  | rejected
deriving DecidableEq, Repr

/-- A call that hands in work. -/
structure Call (α : Type) where
  /-- What is handed in. -/
  value : α
  /-- How far it is. -/
  stage : Stage

/-- How far a shutdown is. -/
inductive Shutdown where
  /-- It has not begun. -/
  | before
  /-- The queue is closed. -/
  | closed
  /-- The count was set to zero and held so much. -/
  | swept (discarded : Int)
  /-- What the count held was counted as dropped. -/
  | over (discarded : Int)
deriving DecidableEq, Repr

end Traffic

/-- Work of one kind on its way through a crawler. -/
structure Traffic (α : Type) where
  /-- The counters. -/
  tally : Tally
  /-- The queue. -/
  queue : Queue α
  /-- The calls that hand in work. -/
  calls : List (Traffic.Call α)
  /-- The work that was handed out. -/
  jobs : List Job
  /-- The shutdown. -/
  shutdown : Traffic.Shutdown
  /-- How much work was counted as dropped. -/
  dropped : Int

namespace Traffic

variable {α : Type}

/-- A crawler that has no work yet. -/
def start : Traffic α := ⟨fun _ => 0, .empty, [], [], .before, 0⟩

/-- The count is set to zero. -/
def sweep (w : Work) (s : Traffic α) : Traffic α :=
  { s with tally := s.tally.apply w.discard, shutdown := .swept (s.tally (.queued w)) }

/-- How work of a kind moves. The changes of a piece of work that was handed out are those of its
beginning and its end, in their order; the shutdown waits until all of them are made. -/
inductive Step (w : Work) : Traffic α → Traffic α → Prop
  | call (s : Traffic α) (v : α) :
      Step w s { s with tally := s.tally.apply w.submit, calls := s.calls ++ [⟨v, .counted⟩] }
  | accept (s : Traffic α) (i : Nat) (v : α) (queue : Queue α)
      (h : s.calls[i]? = some ⟨v, .counted⟩) (hpush : s.queue.push? v = some queue) :
      Step w s { s with queue := queue, calls := s.calls.set i ⟨v, .accepted⟩ }
  | refuse (s : Traffic α) (i : Nat) (v : α) (h : s.calls[i]? = some ⟨v, .counted⟩)
      (hpush : s.queue.push? v = none) : Step w s { s with calls := s.calls.set i ⟨v, .refused⟩ }
  | withdraw (s : Traffic α) (i : Nat) (v : α) (h : s.calls[i]? = some ⟨v, .refused⟩) :
      Step w s
        { s with tally := s.tally.apply w.withdraw, calls := s.calls.set i ⟨v, .withdrawn⟩ }
  | reject (s : Traffic α) (i : Nat) (v : α) (h : s.calls[i]? = some ⟨v, .withdrawn⟩) :
      Step w s { s with dropped := s.dropped + 1, calls := s.calls.set i ⟨v, .rejected⟩ }
  | handOut (s : Traffic α) (v : α) (queue : Queue α) (hpop : s.queue.pop? = some (v, queue)) :
      Step w s { s with queue := queue, jobs := s.jobs ++ [w.job] }
  | advance (s : Traffic α) (i : Nat) (c : Change) (rest : List Change)
      (h : s.jobs[i]? = some ⟨w, c :: rest⟩) :
      Step w s { s with tally := s.tally.change c, jobs := s.jobs.set i ⟨w, rest⟩ }
  | close (s : Traffic α) (h : s.shutdown = .before) :
      Step w s { s with queue := s.queue.close, shutdown := .closed }
  | sweep (s : Traffic α) (h : s.shutdown = .closed) (hended : ∀ j ∈ s.jobs, j.rest = []) :
      Step w s (s.sweep w)
  | record (s : Traffic α) (n : Int) (h : s.shutdown = .swept n) :
      Step w s { s with dropped := s.dropped + n, shutdown := .over n }

/-- How work of a kind moves in the end. -/
abbrev Moves (w : Work) : Traffic α → Traffic α → Prop := Relation.ReflTransGen (Step w)

/-! ## What the counts hold -/

/-- How many calls are at a stage. -/
def callsAt (calls : List (Call α)) (stage : Stage) : Int := calls.countP fun c => c.stage = stage

/-- How many calls have counted their work, which the queue has not taken, and not taken it out yet.
-/
def pending (s : Traffic α) : Int := callsAt s.calls .counted + callsAt s.calls .refused

/-- How many pieces of work have begun, and so are not counted as queued any more. -/
def begun (w : Work) (jobs : List Job) : Int :=
  jobs.countP fun j => !j.rest.contains (.down (.queued w))

/-- How many pieces of work the queue has taken that were not handed out. -/
def kept (s : Traffic α) : Int := callsAt s.calls .accepted - s.jobs.length

/-- Before the count is set to zero it holds what waits or is on its way to the queue and back. -/
structure Exact (w : Work) (s : Traffic α) : Prop where
  /-- The shutdown is not far. -/
  early : s.shutdown = .before ∨ s.shutdown = .closed
  /-- A closed queue is empty. -/
  shut : s.shutdown = .closed → s.queue = s.queue.close
  /-- The changes to come are the last ones of all changes. -/
  suffix : ∀ j ∈ s.jobs, j.rest <:+ w.program
  /-- What waits was accepted and not handed out. -/
  waiting : s.queue.waiting.length ≤ s.kept
  /-- The count of what is queued. -/
  tally : s.tally (.queued w) = s.pending + callsAt s.calls .accepted - begun w s.jobs
  /-- The count of what is dropped. -/
  dropped : s.dropped = callsAt s.calls .rejected

/-- After the count was set to zero it is too small by what was on its way to the queue and back. -/
structure Offset (w : Work) (overtaken left : Int) (s : Traffic α) : Prop where
  /-- The queue is closed and empty. -/
  shut : s.queue = s.queue.close
  /-- All work has ended. -/
  ended : ∀ j ∈ s.jobs, j.rest = []
  /-- What was accepted and not handed out. -/
  remains : s.kept = left
  /-- The count of what is queued. -/
  tally : s.tally (.queued w) = s.pending - overtaken
  /-- The count of what is dropped. -/
  dropped : (s.shutdown = .swept (overtaken + left) ∧ s.dropped = callsAt s.calls .rejected) ∨
    (s.shutdown = .over (overtaken + left) ∧
      s.dropped = callsAt s.calls .rejected + (overtaken + left))

variable {s t : Traffic α} {w : Work}

/-- The calls at a stage after a call began. -/
lemma callsAt_append (calls : List (Call α)) (v : α) (stage : Stage) :
    callsAt (calls ++ [⟨v, .counted⟩]) stage =
      callsAt calls stage + if stage = .counted then 1 else 0 := by
  rw [callsAt, callsAt, List.countP_append, List.countP_singleton]
  cases stage <;> simp

/-- The calls at a stage after a call went from one to another. -/
lemma callsAt_set {calls : List (Call α)} {i : Nat} {v : α} {earlier : Stage}
    (h : calls[i]? = some ⟨v, earlier⟩) (later stage : Stage) :
    callsAt (calls.set i ⟨v, later⟩) stage =
      callsAt calls stage - (if earlier = stage then 1 else 0) + if later = stage then 1 else 0 := by
  obtain ⟨hlt, hget⟩ := List.getElem?_eq_some_iff.1 h
  have hpos : earlier = stage → 0 < calls.countP fun c : Call α => c.stage = stage := fun hstage =>
    List.countP_pos_iff.2 ⟨_, List.mem_of_getElem? h, by simpa using hstage⟩
  rw [callsAt, callsAt, List.countP_set hlt, hget]
  simp only [decide_eq_true_eq]
  split_ifs with hearlier <;> grind

/-- Nothing can be put into a closed queue or taken out of it. -/
lemma push?_pop?_of_close {q : Queue α} (h : q = q.close) (v : α) :
    q.push? v = none ∧ q.pop? = none := by
  rw [h]
  exact ⟨rfl, rfl⟩

/-- What a call does without the queue taking its work: it changes the counts only as it changes
what they should hold. -/
structure Balanced (w : Work) (s t : Traffic α) : Prop where
  /-- The queue stays as it is. -/
  queue : t.queue = s.queue
  /-- So does what was handed out, -/
  jobs : t.jobs = s.jobs
  /-- the shutdown, -/
  shutdown : t.shutdown = s.shutdown
  /-- and what the queue has taken. -/
  accepted : callsAt t.calls .accepted = callsAt s.calls .accepted
  /-- The count of what is queued follows the calls. -/
  tally : t.tally (.queued w) - t.pending = s.tally (.queued w) - s.pending
  /-- The count of what is dropped follows the calls. -/
  dropped : t.dropped - callsAt t.calls .rejected = s.dropped - callsAt s.calls .rejected

section Balanced

variable (s : Traffic α) (v : α)

lemma balanced_call (w : Work) :
    Balanced w s { s with tally := s.tally.apply w.submit, calls := s.calls ++ [⟨v, .counted⟩] } := by
  refine ⟨rfl, rfl, rfl, ?_, ?_, ?_⟩
  · simp [callsAt_append]
  · simp only [pending, callsAt_append, Tally.submit_queued, reduceCtorEq, if_true, if_false]
    omega
  · simp [callsAt_append]

variable {i : Nat} {v}

lemma balanced_refuse (w : Work) (h : s.calls[i]? = some ⟨v, .counted⟩) :
    Balanced w s { s with calls := s.calls.set i ⟨v, .refused⟩ } := by
  refine ⟨rfl, rfl, rfl, ?_, ?_, ?_⟩
  · simp [callsAt_set h]
  · simp only [pending, callsAt_set h, reduceCtorEq, if_true, if_false]
    omega
  · simp [callsAt_set h]

lemma balanced_withdraw (w : Work) (h : s.calls[i]? = some ⟨v, .refused⟩) :
    Balanced w s
      { s with tally := s.tally.apply w.withdraw, calls := s.calls.set i ⟨v, .withdrawn⟩ } := by
  refine ⟨rfl, rfl, rfl, ?_, ?_, ?_⟩
  · simp [callsAt_set h]
  · simp only [pending, callsAt_set h, Tally.withdraw_queued, reduceCtorEq, if_true, if_false]
    omega
  · simp [callsAt_set h]

lemma balanced_reject (w : Work) (h : s.calls[i]? = some ⟨v, .withdrawn⟩) :
    Balanced w s { s with dropped := s.dropped + 1, calls := s.calls.set i ⟨v, .rejected⟩ } := by
  refine ⟨rfl, rfl, rfl, ?_, ?_, ?_⟩
  · simp [callsAt_set h]
  · simp [pending, callsAt_set h]
  · simp only [callsAt_set h, reduceCtorEq, if_true, if_false]
    omega

end Balanced

/-- What is counted as queued no more after a piece of work made a change. -/
lemma begun_advance {jobs : List Job} {i : Nat} {c : Change} {rest : List Change}
    (h : jobs[i]? = some ⟨w, c :: rest⟩) (hsuffix : c :: rest <:+ w.program) (tally : Tally) :
    tally.change c (.queued w) + begun w (jobs.set i ⟨w, rest⟩) =
      tally (.queued w) + begun w jobs := by
  obtain ⟨hlt, hget⟩ := List.getElem?_eq_some_iff.1 h
  have hpos : (!(c :: rest).contains (.down (.queued w))) = true → 0 < jobs.countP fun j =>
      !j.rest.contains (.down (.queued w)) := fun hbegun =>
    List.countP_pos_iff.2 ⟨_, List.mem_of_getElem? h, hbegun⟩
  rw [begun, begun, List.countP_set hlt, hget]
  rcases cons_suffix_program_iff.1 hsuffix with ⟨rfl, rfl⟩ | ⟨rfl, rfl⟩ | ⟨rfl, rfl⟩
  · simp [Tally.change, Work.finish]
  · have hbefore : (Change.down (.queued w) :: w.finish).contains (.down (.queued w)) = true := by simp
    have hafter : w.finish.contains (.down (.queued w)) = false := by simp [Work.finish]
    simp only [Tally.change, Function.update_self, hbefore, hafter, Bool.not_true, Bool.not_false,
      Bool.false_eq_true, if_false, if_true]
    omega
  · have hbefore : [Change.down (.active w)].contains (.down (.queued w)) = false := by simp
    have hbegun := hpos (by rw [hbefore]; rfl)
    have hother : Counter.queued w ≠ .active w := by simp
    simp only [Tally.change, Function.update_of_ne hother, hbefore, List.contains_nil, Bool.not_false,
      if_true]
    omega

lemma exact_start (w : Work) : Exact w (start : Traffic α) where
  early := .inl rfl
  shut := nofun
  suffix := nofun
  waiting := Int.le_refl 0
  tally := rfl
  dropped := rfl

lemma Exact.balanced (h : s.Exact w) (hbalanced : Balanced w s t) : t.Exact w := by
  obtain ⟨queue, jobs, shutdown, accepted, tally, dropped⟩ := hbalanced
  refine ⟨shutdown ▸ h.early, ?_, jobs ▸ h.suffix, ?_, ?_, ?_⟩
  · rw [shutdown, queue]
    exact h.shut
  · rw [kept, queue, jobs, accepted]
    exact h.waiting
  · have heq := h.tally
    rw [jobs, accepted]
    omega
  · have heq := h.dropped
    omega

/-- A step before the count is set to zero keeps what the count holds, or it sets it to zero.

**Proof sketch.** Work that the queue takes goes from what the calls have counted to what was
accepted. Work that begins is accepted, and taken out of the count by its second change. -/
lemma Exact.step (h : s.Exact w) (hstep : Step w s t) :
    t.Exact w ∨ t = s.sweep w ∧ s.shutdown = .closed ∧ ∀ j ∈ s.jobs, j.rest = [] := by
  have hexact := h
  obtain ⟨early, shut, suffix, waiting, tally, dropped⟩ := h
  cases hstep with
  | call v => exact .inl (hexact.balanced (balanced_call s v w))
  | refuse i v h hpush => exact .inl (hexact.balanced (balanced_refuse s w h))
  | withdraw i v h => exact .inl (hexact.balanced (balanced_withdraw s w h))
  | reject i v h => exact .inl (hexact.balanced (balanced_reject s w h))
  | accept i v queue h hpush =>
    have hnot : s.shutdown ≠ .closed := fun hclosed => by
      rw [(push?_pop?_of_close (shut hclosed) v).1] at hpush
      cases hpush
    have hwaiting : queue.waiting = s.queue.waiting ++ [v] := by
      rw [Queue.push?] at hpush
      split at hpush
      · cases hpush
      · rw [← Option.some.inj hpush]
    refine .inl ⟨early, fun hclosed => absurd hclosed hnot, suffix, ?_, ?_, ?_⟩
    · simp only [kept, callsAt_set h, hwaiting, List.length_append, List.length_singleton,
        reduceCtorEq, if_true, if_false] at waiting ⊢
      omega
    · simp only [pending, callsAt_set h, reduceCtorEq, if_true, if_false] at tally ⊢
      omega
    · simpa [callsAt_set h] using dropped
  | handOut v queue hpop =>
    have hnot : s.shutdown ≠ .closed := fun hclosed => by
      rw [(push?_pop?_of_close (shut hclosed) v).2] at hpop
      cases hpop
    have hwaiting := ((s.queue.pop?_eq_some_iff queue v).1 hpop).1
    have hbegun : begun w (s.jobs ++ [w.job]) = begun w s.jobs := by
      simp [begun, Work.job, Work.program, Work.begin]
    refine .inl ⟨early, fun hclosed => absurd hclosed hnot, ?_, ?_, hbegun ▸ tally, dropped⟩
    · simpa [or_imp, forall_and, Work.job] using suffix
    · simp only [kept, hwaiting, List.length_append, List.length_cons, List.length_nil] at waiting ⊢
      omega
  | advance i c rest h =>
    have hmem := List.mem_of_getElem? h
    refine .inl ⟨early, shut, fun j hj => ?_, ?_, ?_, dropped⟩
    · rcases List.mem_or_eq_of_mem_set hj with hj | rfl
      · exact suffix j hj
      · exact (List.suffix_cons c rest).trans (suffix _ hmem)
    · simpa [kept] using waiting
    · have hbegun := begun_advance h (suffix _ hmem) s.tally
      simp only [pending] at tally ⊢
      omega
  | close h =>
    refine .inl ⟨.inr rfl, fun _ => rfl, suffix, ?_, tally, dropped⟩
    simp only [Queue.close, kept, List.length_nil] at waiting ⊢
    omega
  | sweep h hended => exact .inr ⟨rfl, h, hended⟩
  | record n h => rcases early with early | early <;> cases h.symm.trans early

/-- Before the count is set to zero it is not below zero. -/
lemma Exact.tally_nonneg (h : s.Exact w) : 0 ≤ s.tally (.queued w) := by
  have hbegun : begun w s.jobs ≤ s.jobs.length := Int.ofNat_le.2 List.countP_le_length
  have hpending : 0 ≤ s.pending := Int.add_nonneg (Int.natCast_nonneg _) (Int.natCast_nonneg _)
  have hwaiting := h.waiting
  rw [kept] at hwaiting
  rw [h.tally]
  omega

/-- When the count is set to zero it holds what is on its way to the queue and back, and what the
queue has taken and not handed out. -/
lemma Exact.sweep (h : s.Exact w) (hclosed : s.shutdown = .closed)
    (hended : ∀ j ∈ s.jobs, j.rest = []) : (s.sweep w).Offset w s.pending s.kept := by
  have hbegun : begun w s.jobs = s.jobs.length := by
    rw [begun, List.countP_eq_length.2 fun j hj => by rw [hended j hj]; rfl]
  have hheld : s.tally (.queued w) = s.pending + s.kept := by
    rw [h.tally, hbegun, kept]
    omega
  refine ⟨h.shut hclosed, hended, rfl, ?_, .inl ⟨?_, h.dropped⟩⟩
  · simp [Traffic.sweep, pending]
  · rw [← hheld]
    rfl

lemma Offset.balanced {overtaken left : Int} (h : s.Offset w overtaken left)
    (hbalanced : Balanced w s t) : t.Offset w overtaken left := by
  obtain ⟨queue, jobs, shutdown, accepted, tally, dropped⟩ := hbalanced
  refine ⟨queue ▸ h.shut, jobs ▸ h.ended, ?_, ?_, ?_⟩
  · rw [kept, jobs, accepted]
    exact h.remains
  · have heq := h.tally
    omega
  · rw [shutdown]
    exact h.dropped.imp (.imp_right fun heq => by omega) (.imp_right fun heq => by omega)

/-- A step after the count was set to zero keeps how much it is too small. -/
lemma Offset.step {overtaken left : Int} (h : s.Offset w overtaken left) (hstep : Step w s t) :
    t.Offset w overtaken left := by
  have hoffset := h
  obtain ⟨shut, ended, remains, tally, dropped⟩ := h
  have hshutdown : s.shutdown ≠ .before ∧ s.shutdown ≠ .closed := by
    rcases dropped with ⟨heq, -⟩ | ⟨heq, -⟩ <;> simp [heq]
  cases hstep with
  | call v => exact hoffset.balanced (balanced_call s v w)
  | refuse i v h hpush => exact hoffset.balanced (balanced_refuse s w h)
  | withdraw i v h => exact hoffset.balanced (balanced_withdraw s w h)
  | reject i v h => exact hoffset.balanced (balanced_reject s w h)
  | accept i v queue h hpush =>
    rw [(push?_pop?_of_close shut v).1] at hpush
    cases hpush
  | handOut v queue hpop =>
    rw [(push?_pop?_of_close shut v).2] at hpop
    cases hpop
  | advance i c rest h => cases ended _ (List.mem_of_getElem? h)
  | close h => exact absurd h hshutdown.1
  | sweep h hended => exact absurd h hshutdown.2
  | record n h =>
    rcases dropped with ⟨heq, hdropped⟩ | ⟨heq, -⟩
    · obtain rfl : n = overtaken + left := by simpa using h.symm.trans heq
      exact ⟨shut, ended, remains, tally, .inr ⟨rfl, by simp [hdropped]⟩⟩
    · cases h.symm.trans heq

lemma Offset.moves {overtaken left : Int} (h : s.Offset w overtaken left) (hmoves : Moves w s t) :
    t.Offset w overtaken left := by
  induction hmoves with
  | refl => exact h
  | tail _ hstep ih => exact ih.step hstep

/-- Whatever moves has not set the count to zero yet, or did so once. -/
lemma Exact.moves (h : s.Exact w) (hmoves : Moves w s t) :
    t.Exact w ∨ ∃ u, Moves w s u ∧ u.Exact w ∧ u.shutdown = .closed ∧ (∀ j ∈ u.jobs, j.rest = []) ∧
      Moves w (u.sweep w) t := by
  induction hmoves with
  | refl => exact .inl h
  | @tail u t hu hstep ih =>
    rcases ih with hexact | ⟨v, hv, hexact, hclosed, hended, hmore⟩
    · rcases hexact.step hstep with hexact' | ⟨rfl, hclosed, hended⟩
      · exact .inl hexact'
      · exact .inr ⟨u, hu, hexact, hclosed, hended, .refl⟩
    · exact .inr ⟨v, hv, hexact, hclosed, hended, hmore.tail hstep⟩

/-- All calls have ended. -/
def Settled (s : Traffic α) : Prop := ∀ c ∈ s.calls, c.stage = .accepted ∨ c.stage = .rejected

lemma Settled.pending_eq_zero (h : s.Settled) : s.pending = 0 := by
  have hnone : ∀ stage, stage ≠ .accepted → stage ≠ .rejected → callsAt s.calls stage = 0 := by
    intro stage haccepted hrejected
    rw [callsAt, Int.natCast_eq_zero, List.countP_eq_zero]
    intro c hc hstage
    rcases h c hc with heq | heq <;> simp_all
  rw [pending, hnone .counted (by simp) (by simp), hnone .refused (by simp) (by simp)]
  rfl

/-- Before a shutdown sets the count to zero, the count is not below zero. From then on it is
smaller than it should be by the calls that had counted their work by then and have not taken it out
again, and in the end these calls have their work counted as dropped twice. So the counts are right
in the end if and only if the shutdown has overtaken no call.

**Proof sketch.** Up to then the count is exact: it holds what calls have counted and the queue has
not taken, what waits, and what was handed out and has not begun. When all that was handed out has
ended, it holds what the calls still have to take out and what the queue has thrown away. Both are
counted as dropped, and the calls take the former out once more and count it as dropped once more.
-/
theorem counts_of_shutdown {n : Int} (hmoves : Moves w start t) (hover : t.shutdown = .over n) :
    ∃ u : Traffic α, Moves w start u ∧ u.shutdown = .closed ∧ Moves w (u.sweep w) t ∧
      (∀ v : Traffic α, Moves w start v → v.shutdown = .before ∨ v.shutdown = .closed →
        0 ≤ v.tally (.queued w)) ∧
      (∀ v, Moves w (u.sweep w) v → v.tally (.queued w) = v.pending - u.pending) ∧
      t.dropped = callsAt t.calls .rejected + t.kept + u.pending ∧
      (t.Settled → (t.tally (.queued w) = 0 ∧ t.dropped = callsAt t.calls .rejected + t.kept ↔
        u.pending = 0)) := by
  have hearly : ∀ v : Traffic α, Moves w start v → v.shutdown = .before ∨ v.shutdown = .closed →
      0 ≤ v.tally (.queued w) := by
    intro v hv hshutdown
    rcases (exact_start w).moves hv with hexact | ⟨u, -, hexact, hclosed, hended, hmore⟩
    · exact hexact.tally_nonneg
    · have hoffset := (hexact.sweep hclosed hended).moves hmore
      rcases hoffset.dropped with ⟨heq, -⟩ | ⟨heq, -⟩ <;> simp [heq] at hshutdown
  rcases (exact_start w).moves hmoves with hexact | ⟨u, hu, hexact, hclosed, hended, hmore⟩
  · rcases hexact.early with heq | heq <;> cases hover.symm.trans heq
  · have hafter := hexact.sweep hclosed hended
    have hlast := hafter.moves hmore
    have hdropped : t.dropped = callsAt t.calls .rejected + t.kept + u.pending := by
      rcases hlast.dropped with ⟨heq, -⟩ | ⟨-, hdropped⟩
      · cases hover.symm.trans heq
      · rw [hdropped, hlast.remains]
        omega
    refine ⟨u, hu, hclosed, hmore, hearly, fun v hv => (hafter.moves hv).tally, hdropped,
      fun hsettled => ?_⟩
    rw [hlast.tally, hsettled.pending_eq_zero, hdropped]
    omega

/-- A call that is rejected before the shutdown sets the count to zero, and one whose work is thrown
away with the queue: no call was overtaken. -/
theorem counts_of_shutdown_of_two_calls :
    ∃ u : Traffic Unit, Moves .request start u ∧ u.shutdown = .closed ∧ u.pending = 0 := by
  have hmoves : ∃ t : Traffic Unit, Moves .request start t ∧ t.shutdown = .over 1 ∧
      t.calls = [⟨(), .accepted⟩, ⟨(), .rejected⟩] ∧ t.jobs = [] ∧
      t.tally (.queued .request) = 0 ∧ t.dropped = 2 :=
    ⟨_, .head (.call _ ()) (.head (.accept _ 0 () _ rfl rfl) (.head (.call _ ()) (.head (.close _ rfl)
      (.head (.refuse _ 1 () rfl rfl) (.head (.withdraw _ 1 () rfl) (.head (.reject _ 1 () rfl)
        (.head (.sweep _ rfl nofun) (.single (.record _ 1 rfl))))))))),
      rfl, rfl, rfl, rfl, rfl⟩
  obtain ⟨t, hmoves, hover, hcalls, hjobs, htally, hdropped⟩ := hmoves
  obtain ⟨u, hu, hclosed, -, -, -, -, hright⟩ := counts_of_shutdown hmoves hover
  have hsettled : t.Settled := by
    rw [Settled, hcalls]
    simp
  refine ⟨u, hu, hclosed, (hright hsettled).1 ⟨htally, ?_⟩⟩
  rw [hdropped, kept, hcalls, hjobs]
  rfl

/-- A call counts its work, and the queue is closed and does not take it. The shutdown sets the
count to zero, and then the call takes its work out. One call was rejected, and its work is dropped
twice; the count is below zero, where a word holds the largest number. -/
theorem dropped_twice :
    ∃ t : Traffic Unit, Moves .request start t ∧ t.shutdown = .over 1 ∧
      t.calls = [⟨(), .rejected⟩] ∧ t.dropped = 2 ∧ t.tally (.queued .request) = -1 ∧
      word (t.tally (.queued .request)) = Nat.pow 2 64 - 1 :=
  ⟨_, .head (.call _ ()) (.head (.close _ rfl) (.head (.refuse _ 0 () rfl rfl)
    (.head (.sweep _ rfl nofun) (.head (.withdraw _ 0 () rfl) (.head (.reject _ 0 () rfl)
      (.single (.record _ 1 rfl))))))),
    rfl, rfl, rfl, rfl, rfl⟩

/-! ## Calls that nothing interrupts -/

/-- The traffic shows a count of what is queued, a queue and a count of what was dropped. -/
structure Shows (w : Work) (activity : Activity) (queue : Queue α) (dropped : Nat) (s : Traffic α) :
    Prop where
  /-- What is queued. -/
  tally : s.tally (.queued w) = activity.get (.queued w)
  /-- The queue. -/
  queue : s.queue = queue
  /-- What was dropped. -/
  dropped : s.dropped = dropped

/-- A call that nothing interrupts. -/
lemma Shows.call {activity : Activity} {queue : Queue α} {dropped : Nat}
    (h : Shows w activity queue dropped s) (v : α) :
    ∃ t, Moves w s t ∧ t.shutdown = s.shutdown ∧ match queue.push? v with
      | some queue => Shows w (activity.apply w.submit) queue dropped t
      | none => Shows w ((activity.apply w.submit).apply w.withdraw) queue (dropped + 1) t := by
  obtain ⟨tally, queue, calls, jobs, shutdown, dropped'⟩ := s
  obtain ⟨htally, rfl, rfl⟩ := h
  change tally (.queued w) = activity.get (.queued w) at htally
  have hlast : (calls ++ [⟨v, .counted⟩])[calls.length]? = some ⟨v, .counted⟩ := by simp
  cases hpush : queue.push? v with
  | some queue' =>
    refine ⟨_, .head (.call _ v) (.single (.accept _ calls.length v queue' hlast hpush)), rfl,
      ?_, rfl, rfl⟩
    simp [htally]
  | none =>
    refine ⟨_, .head (.call _ v) (.head (.refuse _ calls.length v hlast hpush)
      (.head (.withdraw _ calls.length v ?_) (.single (.reject _ calls.length v ?_)))), rfl,
      ?_, rfl, ?_⟩
    · simp
    · simp
    · simp [htally]
    · simp

end Traffic

end WebCrawl.Crawl

namespace WebCrawl.Engine

open Crawl

variable {κ τ : Type} {V : τ → Type} {e e' : Engine κ V}

/-- Handing in an item is a call that nothing interrupts. -/
theorem shows_submitItem {s : Traffic (Envelope κ V)}
    (h : Traffic.Shows .item e.activity e.items e.stats.itemsDropped s) (i : Envelope κ V) :
    ∃ t, Traffic.Moves .item s t ∧ t.shutdown = s.shutdown ∧
      Traffic.Shows .item (e.submitItem i).2.activity (e.submitItem i).2.items
        (e.submitItem i).2.stats.itemsDropped t := by
  obtain ⟨t, hmoves, hshutdown, hshows⟩ := h.call i
  have hitems : (e.count Work.item.submit).items = e.items := rfl
  refine ⟨t, hmoves, hshutdown, ?_⟩
  simp only [submitItem, hitems]
  cases hpush : e.items.push? i <;> rw [hpush] at hshows <;> exact hshows

section Requests

variable {s : Traffic (Request κ)}
  (h : Traffic.Shows .request e.activity e.requests e.stats.requestsDropped s)
include h

/-- Handing in a request is a call that nothing interrupts. -/
theorem shows_handIn (origin : Origin) (r : Request κ) :
    ∃ t, Traffic.Moves .request s t ∧ t.shutdown = s.shutdown ∧
      Traffic.Shows .request (e.handIn origin r).2.activity (e.handIn origin r).2.requests
        (e.handIn origin r).2.stats.requestsDropped t := by
  obtain ⟨t, hmoves, hshutdown, hshows⟩ := h.call r
  have hrequests : (e.count Work.request.submit).requests = e.requests := rfl
  refine ⟨t, hmoves, hshutdown, ?_⟩
  simp only [handIn, hrequests]
  cases hpush : e.requests.push? r <;> rw [hpush] at hshows <;> exact hshows

/-- Closing the queue of requests begins a shutdown. -/
theorem shows_close (hshutdown : s.shutdown = .before) (hclose : e.close? = some e') :
    ∃ t, Traffic.Moves .request s t ∧ t.shutdown = .closed ∧
      Traffic.Shows .request e'.activity e'.requests e'.stats.requestsDropped t := by
  refine ⟨_, .single (.close s hshutdown), rfl, ?_⟩
  unfold close? at hclose
  split at hclose
  · obtain rfl := Option.some.inj hclose
    exact ⟨h.tally, by rw [h.queue]; rfl, h.dropped⟩
  · cases hclose

/-- Throwing away the requests that waited sets the count to zero, when all requests have ended. -/
theorem shows_discardRequests (hshutdown : s.shutdown = .closed) (hended : ∀ j ∈ s.jobs, j.rest = [])
    (hdiscard : e.discardRequests? = some e') :
    ∃ t, Traffic.Moves .request s t ∧ t.shutdown = .swept (e.activity.get (.queued .request)) ∧
      Traffic.Shows .request e'.activity e'.requests e'.stats.requestsDropped t := by
  refine ⟨_, .single (.sweep s hshutdown hended), congrArg Traffic.Shutdown.swept h.tally, ?_⟩
  unfold discardRequests? at hdiscard
  split at hdiscard
  · split at hdiscard
    · obtain rfl := Option.some.inj hdiscard
      have hactivity := Activity.discard_queued .request e.activity
      exact ⟨(Tally.discard_queued s.tally .request).trans (congrArg Nat.cast hactivity).symm,
        h.queue, h.dropped⟩
    · cases hdiscard
  · cases hdiscard

end Requests

end WebCrawl.Engine
