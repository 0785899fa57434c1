import WebCrawl.Proofs.Engine.Updates

set_option autoImplicit false

/-!
# The order in which requests begin

Requests that are handed in and taken stand in one line, whoever handed them in. The dispatcher
takes the first of the line and gives it to a worker before it takes another. So requests begin in
the order in which they were taken, none twice, and what was taken and has not begun is still in
line, until the queue is closed and the rest of the line is taken out of it.

## Main definitions

* `WebCrawl.Engine.acceptedIn`, `WebCrawl.Engine.begunIn`, `WebCrawl.Engine.sweptIn` — the requests
  that were taken, that began and that were taken out of the queue, as a journal tells it.
* `WebCrawl.Engine.Sequenced` — the requests that have begun and those in line are the requests that
  were taken.

## Main results

* `WebCrawl.Engine.Sequenced.update` — every update keeps the requests in line.
* `WebCrawl.Engine.Reachable.begun_in_order` — requests begin in the order in which they were taken.
-/

namespace WebCrawl.Engine

open Crawl

variable {κ τ : Type} {V : τ → Type}

/-! ## What a journal tells of the line -/

/-- The requests that an event takes out of the queue that is closed. -/
def Event.swept : Event κ V → List (Request κ)
  | .cleared rs => rs
  | _ => []

/-- The requests that were handed in and taken, in their order. -/
def acceptedIn (journal : List (Event κ V)) : List (Request κ) :=
  (journal.filterMap Event.taking?).reverse.map (·.2)

/-- The requests that began, in their order. -/
def begunIn (journal : List (Event κ V)) : List (Request κ) :=
  (journal.filterMap Event.beginning?).reverse.map (·.2)

/-- The requests that were taken out of the queue when that was closed. -/
def sweptIn (journal : List (Event κ V)) : List (Request κ) := journal.reverse.flatMap Event.swept

section Journal

variable {journal : List (Event κ V)} {event : Event κ V}

lemma acceptedIn_enqueued (origin : Origin) (r : Request κ) :
    acceptedIn (.enqueued origin r :: journal) = acceptedIn journal ++ [r] := by
  simp [acceptedIn, Event.taking?]

lemma begunIn_began (n : Nat) (r : Request κ) :
    begunIn (.began n r :: journal) = begunIn journal ++ [r] := by
  simp [begunIn, Event.beginning?]

lemma sweptIn_cleared (rs : List (Request κ)) :
    sweptIn (.cleared rs :: journal) = sweptIn journal ++ rs := by
  simp [sweptIn, Event.swept]

lemma acceptedIn_cons_of_none (h : event.taking? = none) :
    acceptedIn (event :: journal) = acceptedIn journal := by
  simp [acceptedIn, h]

lemma begunIn_cons_of_none (h : event.beginning? = none) :
    begunIn (event :: journal) = begunIn journal := by
  simp [begunIn, h]

lemma sweptIn_cons_of_nil (h : event.swept = []) :
    sweptIn (event :: journal) = sweptIn journal := by
  simp [sweptIn, h]

end Journal

/-! ## The invariant -/

/-- The requests that have begun, the one that the dispatcher holds, those that wait and those that
were taken out of the queue are the requests that were taken, in their order. Workers are numbered
in the order in which their requests began. -/
structure Sequenced (e : Engine κ V) : Prop where
  line : acceptedIn e.journal =
    begunIn e.journal ++ (e.held ++ e.requests.waiting) ++ sweptIn e.journal
  open_of_swept : e.requests.closed = false → sweptIn e.journal = []
  waiting_of_closed : e.requests.closed = true → e.requests.waiting = []
  numbers : (e.journal.filterMap Event.beginning?).reverse.map (·.1) = List.range e.begun
  moments : ∀ past, past <:+ e.journal → begunIn past <+: acceptedIn past

namespace Sequenced

variable {d e e' : Engine κ V} {m : Move κ V} {k : Nat}

/-- Now, as ever, those that have begun were the first of the line. -/
lemma now (h : Sequenced e) : begunIn e.journal <+: acceptedIn e.journal :=
  h.moments e.journal (List.suffix_refl _)

/-- An event with which the line stays as it is. -/
lemma log (h : Sequenced e) (event : Event κ V) (ht : event.taking? = none)
    (hb : event.beginning? = none) (hs : event.swept = []) : Sequenced (e.log event) := by
  have hnow : begunIn (event :: e.journal) <+: acceptedIn (event :: e.journal) := by
    rw [acceptedIn_cons_of_none ht, begunIn_cons_of_none hb]
    exact h.now
  refine { h with
    line := ?_
    open_of_swept := fun ho => (sweptIn_cons_of_nil hs).trans (h.open_of_swept ho)
    numbers := ?_
    moments := forall_suffix_cons h.moments hnow }
  · rw [Engine.log, acceptedIn_cons_of_none ht, begunIn_cons_of_none hb, sweptIn_cons_of_nil hs]
    exact h.line
  · rw [Engine.log, List.filterMap_cons_none hb]
    exact h.numbers

/-- A request that is handed in stands last in line, or is not taken. -/
lemma handIn (h : Sequenced e) (origin : Origin) (r : Request κ) :
    Sequenced (e.handIn origin r).2 := by
  cases hc : e.requests.closed with
  | true =>
    rw [handIn_closed e origin r hc]
    exact { h.log (.refused origin r) rfl rfl rfl with }
  | false =>
    rw [handIn_open e origin r hc]
    have hswept : sweptIn (.enqueued origin r :: e.journal) = [] :=
      (sweptIn_cons_of_nil rfl).trans (h.open_of_swept hc)
    have hline := h.line
    rw [h.open_of_swept hc, List.append_nil] at hline
    have hnow : begunIn (.enqueued origin r :: e.journal) <+:
        acceptedIn (.enqueued origin r :: e.journal) := by
      rw [acceptedIn_enqueued]
      exact h.now.trans (List.prefix_append _ _)
    refine { h with
      line := ?_
      open_of_swept := fun _ => hswept
      waiting_of_closed := by simp
      moments := forall_suffix_cons h.moments hnow }
    dsimp only
    rw [acceptedIn_enqueued, hline, hswept]
    simp only [List.append_assoc, List.append_nil]
    rfl

lemma submitItem (h : Sequenced e) (i : Envelope κ V) : Sequenced (e.submitItem i).2 := by
  cases hc : e.items.closed with
  | true =>
    rw [submitItem_closed e i hc]
    exact { h.log (.itemRefused i) rfl rfl rfl with }
  | false =>
    rw [submitItem_open e i hc]
    exact { h.log (.itemEnqueued i) rfl rfl rfl with }

/-- The dispatcher takes the first of those that wait. -/
lemma took {r : Request κ} {rest : List (Request κ)} (h : Sequenced e) (hd : e.dispatcher = .idle)
    (hw : e.requests.waiting = r :: rest) :
    Sequenced { e with requests := ⟨rest, e.requests.closed⟩, dispatcher := .holding r } := by
  have hopen : e.requests.closed = false := by
    by_contra hc
    simp [h.waiting_of_closed (by simpa using hc)] at hw
  have hline := h.line
  refine { h with line := ?_, waiting_of_closed := by simp [hopen] }
  simpa [held, hd, hw] using hline

/-- The request that the dispatcher holds begins, and it is the next in line. -/
lemma began {r : Request κ} (h : Sequenced e) (hd : e.dispatcher = .holding r)
    (dispatcher : Dispatcher κ) (permits : Nat)
    (hafter : held { e with dispatcher := dispatcher } = []) :
    Sequenced { e.begin r with dispatcher := dispatcher, permits := permits } := by
  have hheld : e.held = [r] := by simp [held, hd]
  have hswept : sweptIn (.began e.begun r :: e.journal) = sweptIn e.journal :=
    sweptIn_cons_of_nil rfl
  have hline : acceptedIn (.began e.begun r :: e.journal) =
      begunIn (.began e.begun r :: e.journal) ++
        (held { e with dispatcher := dispatcher } ++ e.requests.waiting) ++
        sweptIn (.began e.begun r :: e.journal) := by
    rw [begunIn_began, hswept, hafter]
    refine h.line.trans ?_
    simp [hheld]
  have hmoments := forall_suffix_cons (P := fun past => begunIn past <+: acceptedIn past) h.moments
    ⟨_, (hline.trans (List.append_assoc _ _ _)).symm⟩
  rw [begin_eq]
  refine { h with
    line := hline
    open_of_swept := fun ho => hswept.trans (h.open_of_swept ho)
    numbers := ?_
    moments := hmoments }
  dsimp only
  rw [List.range_succ, ← h.numbers]
  simp [Event.beginning?]

/-- The dispatcher holds nothing before and after. -/
lemma setDispatcher (h : Sequenced e) (dispatcher : Dispatcher κ) (hbefore : e.held = [])
    (hafter : held { e with dispatcher := dispatcher } = []) :
    Sequenced { e with dispatcher := dispatcher } := by
  refine { h with line := ?_ }
  rw [hafter]
  exact hbefore ▸ h.line

/-- A worker ends. -/
lemma finish (h : Sequenced e) (n : Nat) : Sequenced (e.finish n) :=
  { h.log (.finished n) rfl rfl rfl with }

/-- An item begins, and comes to its first stage or ends at once. -/
lemma beganItem (h : Sequenced e) (activity : Activity) (permits : Nat) (i : Envelope κ V)
    (stages : List (Stage τ)) :
    Sequenced (Engine.nextStage { e with
      activity := activity, itemPermits := permits, journal := .itemBegan k i :: e.journal }
      k i stages) := by
  have hbegan := h.log (.itemBegan k i) rfl rfl rfl
  obtain hn | ⟨stage, later, hn⟩ := nextStage_cases _ k i stages <;> rw [hn]
  · rw [finishItem_eq]
    exact { hbegan.log (.itemFinished k true) rfl rfl rfl with }
  · exact { hbegan.log (.staged k stage i) rfl rfl rfl with }

/-- When the queue is closed, those that wait are taken out of it. -/
lemma cleared (h : Sequenced e) : Sequenced { e with
    connectable := false
    requests := ⟨[], true⟩
    closing := .requests e.requests.waiting.length
    journal := .cleared e.requests.waiting :: e.journal } := by
  have hline := h.line
  have hswept : e.requests.waiting ++ sweptIn e.journal =
      sweptIn e.journal ++ e.requests.waiting := by
    cases hc : e.requests.closed with
    | true => simp [h.waiting_of_closed hc]
    | false => simp [h.open_of_swept hc]
  refine { h with
    line := ?_
    open_of_swept := by simp
    waiting_of_closed := fun _ => rfl
    moments := forall_suffix_cons h.moments (by exact h.now) }
  dsimp only
  rw [sweptIn_cleared, ← hswept]
  refine hline.trans ?_
  simp only [List.append_assoc, List.append_nil]
  rfl

/-! ### Every update -/

/-- In a new engine nobody stands in line. -/
lemma new (setup : Setup τ) (seeds : List (Request κ)) :
    Sequenced (.new setup seeds : Engine κ V) where
  line := rfl
  open_of_swept := fun _ => rfl
  waiting_of_closed := fun _ => rfl
  numbers := rfl
  moments := fun past hpast => by
    obtain rfl := List.suffix_nil.1 hpast
    exact List.prefix_refl _

/-- Every update keeps the requests in line. -/
theorem update (h : Sequenced e) (he : Update d m e e') : Sequenced e' := by
  cases he with
  | aside started stats cache => exact { h with }
  | ignited off _ =>
    have hline := h.line
    exact { h with line := by simpa [held, off, ignite] using hline }
  | request _ => exact h.handIn _ _
  | item _ => exact h.submitItem _
  | took idle waiting => exact h.took idle waiting
  | drains idle => exact h.setDispatcher _ (by simp [held, idle]) rfl
  | attends holding _ => exact h.began holding _ e.permits rfl
  | admits holding _ _ => exact h.began holding _ _ rfl
  | attended attending _ => exact h.setDispatcher _ (by simp [held, attending]) rfl
  | resumed pausing => exact h.setDispatcher _ (by simp [held, pausing]) rfl
  | drained draining _ => exact h.setDispatcher _ (by simp [held, draining]) rfl
  | entered phase _ => exact { h with }
  | sent n wire => exact h.log _ rfl rfl rfl
  | answered n a => exact h.log _ rfl rfl rfl
  | noted n notice => exact h.log _ rfl rfl rfl
  | told n level _ => exact h.log _ rfl rfl rfl
  | finished _ => exact h.finish _
  | tookItem _ _ => exact { h with }
  | endedItems _ => exact { h with }
  | beganItem stages _ _ => exact h.beganItem _ _ _ stages
  | staged stage rest _ _ => exact { h.log (.staged _ stage _) rfl rfl rfl with }
  | finishedItem passed _ =>
    rw [finishItem_eq]
    exact { h.log (.itemFinished _ passed) rfl rfl rfl with }
  | cleared => exact h.cleared
  | discardedRequests => exact { h with }
  | discardedItems requests => exact { h.log (.discarded requests _) rfl rfl rfl with }
  | pipelineClosed i => exact { h.log (.pipelineClosed i) rfl rfl rfl with }

/-- The request with which a worker began stands in the place of its number among those that were
taken. -/
lemma getElem?_accepted (h : Sequenced e) {n : Nat} {r : Request κ} (hr : (n, r) ∈ e.beginnings) :
    (acceptedIn e.journal)[n]? = some r := by
  obtain ⟨i, hi⟩ := List.mem_iff_getElem?.1 (List.mem_reverse.2 hr)
  have hnumber : (List.range e.begun)[i]? = some n := by
    rw [← h.numbers, List.getElem?_map]
    exact congrArg (Option.map (·.1)) hi
  obtain ⟨hlt, hin⟩ := List.getElem?_eq_some_iff.1 hnumber
  obtain rfl : i = n := (List.getElem_range hlt).symm.trans hin
  have hbegun : (begunIn e.journal)[i]? = some r := by
    rw [begunIn, List.getElem?_map]
    exact congrArg (Option.map (·.2)) hi
  obtain ⟨rest, hrest⟩ := h.now
  rw [← hrest, List.getElem?_append_left (List.getElem?_eq_some_iff.1 hbegun).1]
  exact hbegun

end Sequenced

/-! ## Every reachable engine -/

section Reachable

/-- A request that is handed in is taken, and is then the last that was taken, unless the queue is
closed. -/
lemma handIn_accepted (e : Engine κ V) (origin : Origin) (r : Request κ) :
    (e.requests.closed = false ∧ (e.handIn origin r).1 = .ok () ∧
      acceptedIn (e.handIn origin r).2.journal = acceptedIn e.journal ++ [r]) ∨
    (e.requests.closed = true ∧ (e.handIn origin r).1 = .error .queueClosed ∧
      acceptedIn (e.handIn origin r).2.journal = acceptedIn e.journal) := by
  cases hc : e.requests.closed with
  | true =>
    refine .inr ⟨rfl, ?_, ?_⟩
    · rw [handIn_answer, if_pos hc]
    · rw [handIn_closed e origin r hc]
      exact acceptedIn_cons_of_none rfl
  | false =>
    refine .inl ⟨rfl, ?_, ?_⟩
    · rw [handIn_answer, if_neg (by simp [hc])]
    · rw [handIn_open e origin r hc]
      exact acceptedIn_enqueued origin r

variable [DecidableEq τ] {setup : Setup τ} {seeds : List (Request κ)} {e : Engine κ V}

/-- In every reachable engine requests stand in line. -/
theorem Reachable.sequenced (h : Reachable setup seeds e) : Sequenced e :=
  h.update_induction (.new setup seeds) fun _ _ _ _ _ he hd => hd.update he

/-- Requests begin in the order in which they were taken, each once, whoever handed them in:

* at every moment that the journal tells of, those that had begun were the first of those that had
  been taken;
* those that were taken are those that have begun, followed by the one that the dispatcher holds, by
  those that wait, and by those that were taken out of the queue when that was closed, of which
  there are none as long as it is open and which are all that waited then;
* workers are numbered in the order in which their requests began, so that the worker with a number
  has the request that was taken in that place;
* a request that is handed in is taken, as the last one, or refused because the queue is closed.

**Proof sketch.** Every update keeps the line: what is handed in goes to its end, what the
dispatcher takes comes from its front, and what begins is what the dispatcher holds. -/
theorem Reachable.begun_in_order (h : Reachable setup seeds e) :
    (∀ past, past <:+ e.journal → begunIn past <+: acceptedIn past) ∧
    (e.requests.closed = false →
      acceptedIn e.journal = begunIn e.journal ++ (e.held ++ e.requests.waiting)) ∧
    (e.requests.closed = true →
      acceptedIn e.journal = begunIn e.journal ++ e.held ++ sweptIn e.journal) ∧
    e.beginnings.reverse.map (·.1) = List.range e.begun ∧
    (∀ n r, (n, r) ∈ e.beginnings → (acceptedIn e.journal)[n]? = some r) ∧
    ∀ origin r,
      (e.requests.closed = false ∧ (e.handIn origin r).1 = .ok () ∧
        acceptedIn (e.handIn origin r).2.journal = acceptedIn e.journal ++ [r]) ∨
      (e.requests.closed = true ∧ (e.handIn origin r).1 = .error .queueClosed ∧
        acceptedIn (e.handIn origin r).2.journal = acceptedIn e.journal) := by
  have hs := h.sequenced
  have hline := hs.line
  refine ⟨hs.moments, fun ho => ?_, fun hc => ?_, hs.numbers, fun n r hr => hs.getElem?_accepted hr,
    handIn_accepted e⟩
  · rwa [hs.open_of_swept ho, List.append_nil] at hline
  · rwa [hs.waiting_of_closed hc, List.append_nil] at hline

/-- Two requests are handed in at the start and a third when the first has failed: the first has
begun, the dispatcher holds the second, and the third waits. -/
theorem order_after_failure :
    ∃ (setup : Setup Unit) (seeds : List (Request Unit)) (e : Engine Unit fun _ : Unit => Unit)
      (first second third : Request Unit),
      Reachable setup seeds e ∧ e.requests.closed = false ∧
      begunIn e.journal = [first] ∧ e.held = [second] ∧ e.requests.waiting = [third] ∧
      acceptedIn e.journal = [first, second, third] ∧ third.url = "c" := by
  let setup : Setup Unit := { settings := { itemWorkers := 1 }, hearsFailures := true }
  let seeds : List (Request Unit) := [.make "GET" "a" .empty, .make "GET" "b" .empty]
  let moves : List (Move Unit fun _ : Unit => Unit) :=
    [.start, .receive, .launch, .send 0, .act 0 (.submit (.make "GET" "c" .empty)), .panic 0,
      .receive]
  have hrun : ∃ (e : Engine Unit fun _ : Unit => Unit) (first second third : Request Unit),
      (new setup seeds).run? moves = some e ∧ e.requests.closed = false ∧
      begunIn e.journal = [first] ∧ e.held = [second] ∧ e.requests.waiting = [third] ∧
      third.url = "c" :=
    ⟨_, _, _, _, rfl, rfl, rfl, rfl, rfl, rfl⟩
  obtain ⟨e, first, second, third, he, hopen, hbegun, hheld, hwaiting, hurl⟩ := hrun
  have hreach : Reachable setup seeds e := ⟨moves, he⟩
  obtain ⟨-, hline, -⟩ := Reachable.begun_in_order hreach
  have haccepted := hline hopen
  rw [hbegun, hheld, hwaiting] at haccepted
  exact ⟨setup, seeds, e, first, second, third, hreach, hopen, hbegun, hheld, hwaiting, haccepted,
    hurl⟩

end Reachable

end WebCrawl.Engine
