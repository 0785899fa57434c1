import WebCrawl.Proofs.Engine.Closed
import WebCrawl.Proofs.Engine.Supervision

set_option autoImplicit false

/-!
# What is left when all calls have returned

When an engine was closed and every call that closes it has returned, its parts have ended, no count is
wrong and nothing is still to be thrown away. Nothing sets it going again: further calls find nothing,
what is handed in is refused, and an attempt to start it fails. It is otherwise if a call returns while
another one still waits, or after one was given up. Then requests can still be sent.

## Main definitions

* `WebCrawl.Act.handsRequest`, `WebCrawl.Act.handsItem` — whether someone hands something in with an
  act.
* `WebCrawl.Shared.Over` — the parts have ended, and no counter and no call holds anything.

## Main results

* `WebCrawl.Shared.Over.of_returned` — when all calls have returned, all is over.
* `WebCrawl.Shared.Over.step`, `WebCrawl.Shared.Over.run` — it stays so, whatever is tried.
* `WebCrawl.Shared.dead_after_calls` — what can be done then.
* `WebCrawl.Shared.request_sent_after_call` — one call has returned and another one waits, and a request
  is sent.
-/

namespace WebCrawl

open Crawl Engine

variable {κ τ : Type} {V : τ → Type}

/-- Whether someone hands in a request with an act. -/
def Act.handsRequest : Act κ V → Bool
  | .move m => m.handsRequest
  | _ => false

/-- Whether someone hands in an item with an act. -/
def Act.handsItem : Act κ V → Bool
  | .move m => m.handsItem
  | _ => false

/-! ## Engines whose parts have ended -/

namespace Engine.Dead

variable {e : Engine κ V}

lemma isShut (h : Dead e) (w : Work) : e.isShut w = true := by
  cases w
  · exact h.requests
  · exact h.items

lemma loopHasEnded (h : Dead e) (w : Work) : e.loopHasEnded w = true := by
  cases w
  · exact h.dispatcher
  · exact h.itemWorkers

/-- A queue in which nothing waits is closed once more. -/
lemma shut (h : Dead e) (hc : ClosedByCalls e) (w : Work) :
    Dead (e.shut w) ∧ Refuses 0 0 e (e.shut w) := by
  have ho := (h.orderly.shut hc w).1
  have hnone : e.requests.waiting = [] := h.orderly.waiting_of_closed h.requests
  have hnoItem : e.items.waiting = [] := h.orderly.items_of_closed h.items
  have hidle : (e.shut w).activity.isIdle = true := by
    rw [← h.idle, isIdle]
    cases w
    · simp [Engine.shut, Engine.log, hnone]
    · simp [Engine.shut, hnoItem]
  cases w with
  | request =>
    refine ⟨{ h with orderly := ho, requests := rfl, idle := hidle, owed := by rintro d n ⟨⟩ }, ?_⟩
    exact .event rfl (by rw [hnone]; rfl) rfl
  | item => exact ⟨{ h with orderly := ho, items := rfl, idle := hidle }, .none rfl rfl⟩

/-- A pipeline is closed. -/
lemma pipelineClosed (h : Dead e) (i : Nat) :
    Dead (e.log (.pipelineClosed i)) ∧ Refuses 0 0 e (e.log (.pipelineClosed i)) :=
  ⟨{ h with orderly := h.orderly.log _ }, .event rfl rfl rfl⟩

end Engine.Dead

namespace Shared

variable {s s' : Shared κ V}

/-! ## Nothing is left -/

/-- The parts of the engine have ended, nothing that was taken out of a queue is still to be thrown
away, no count was set to zero too early, and no call has found anything that it will count as dropped.
-/
structure Over (s : Shared κ V) : Prop where
  counted : Counted s
  dead : Dead s.engine
  cleared : ∀ w, s.cleared w = 0
  overtaken : ∀ w, s.overtaken w = 0
  owed : ∀ w waits n, .draining w waits n ∈ s.calls → n = 0

namespace Over

/-- When the engine was closed and every call has returned, nothing is left.

**Proof sketch.** The queues are closed, so the handles are taken. No call waits and none was given up,
so those for whom one could have waited have ended. -/
theorem of_returned (hc : Counted s) (hs : Supervised s) (hcalls : s.calls ≠ [])
    (hreturned : ∀ c ∈ s.calls, c = .returned) : Over s := by
  obtain ⟨c, hcall⟩ := List.exists_mem_of_ne_nil _ hcalls
  have hshut : ∀ w, s.engine.isShut w = true := fun w => hs.shut c hcall w (by rw [hreturned c hcall]; rfl)
  have hdrained : ∀ w, ¬ Drained s.calls w := by
    rintro w (⟨waits, n, hn⟩ | hgiven)
    · cases hreturned _ hn
    · cases hreturned _ hgiven
  have hended : ∀ w, s.engine.loopHasEnded w = true := fun w => by
    by_contra hgoes
    obtain hhandle | hwaits := hs.loop w (by simpa using hgoes)
    · exact absurd hhandle (by simp [hs.handle w (hshut w)])
    · exact hdrained w hwaits.drained
  refine ⟨hc, ?_, fun w => ?_, fun w => ?_, fun w waits n hn => ?_⟩
  · refine .of_ended hc.orderly (hshut .request) (hended .request) (hshut .item) (hended .item)
      hc.closing.cleared.1 hc.closing.cleared.2 ?_
    rcases hc.closing with hclosing | hclosing <;> simp [hclosing]
  · exact of_not_not fun hw => hdrained w (hs.cleared w hw)
  · exact of_not_not fun hw => hdrained w (hs.overtaken w hw).drained
  · cases hreturned _ hn

/-- Every counter is at zero. -/
lemma tally_eq_zero (h : Over s) (c : Counter) : s.tally c = 0 := by
  have hzero := (Activity.isIdle_iff s.engine.activity).1 h.dead.idle
  rcases c with w | w
  · rw [h.counted.queued w, h.cleared w, h.overtaken w, hzero]
    rfl
  · rw [h.counted.active w, hzero]
    rfl

lemma isIdle (h : Over s) : s.isIdle = true := List.all_eq_true.2 fun c _ => by simp [h.tally_eq_zero c]

/-! ### What is tried -/

/-- A queue is closed once more. -/
lemma shut (h : Over s) (w : Work) :
    Over (s.shut w) ∧ Refuses 0 0 s.engine (s.shut w).engine := by
  obtain ⟨hdead, hrefuses⟩ := h.dead.shut h.counted.closing w
  refine ⟨{ h with counted := h.counted.shut w, dead := hdead, cleared := fun v => ?_ }, hrefuses⟩
  simp only [Shared.shut, Function.update_apply, h.cleared,
    h.dead.orderly.waitingCount_of_isShut (h.dead.isShut w), ite_self]

/-- A count is set to zero once more. -/
lemma sweep (h : Over s) (w : Work) : Over (s.sweep w) := by
  refine { h with
    counted := h.counted.sweep (h.dead.isShut w), cleared := fun v => ?_, overtaken := fun v => ?_ }
  · simp only [Shared.sweep, Function.update_apply, h.cleared, ite_self]
  · simp only [Shared.sweep, Function.update_apply, h.overtaken,
      heldCount_of_ended (h.dead.loopHasEnded w), ite_self]

/-- The calls go on, and have found nothing. -/
lemma withCalls (h : Over s) {calls : List CloseCall}
    (howed : ∀ w waits n, .draining w waits n ∈ calls → n = 0) (discarded : Work → Int) :
    Over { s with calls := calls, discarded := discarded } :=
  { h with counted := { h.counted with }, owed := howed }

/-- A call goes on, and has found nothing. -/
lemma owed_set (h : Over s) {j : Nat} {c : CloseCall} (hc : ∀ w waits n, c = .draining w waits n → n = 0)
    (w : Work) (waits : Bool) (n : Int) (hn : .draining w waits n ∈ s.calls.set j c) : n = 0 := by
  rcases List.mem_or_eq_of_mem_set hn with hn | hn
  · exact h.owed w waits n hn
  · exact hc w waits n hn.symm

/-- A call that has come to a pipeline has found nothing that it will count. -/
lemma owed_callAt (s : Shared κ V) (i : Nat) (w : Work) (waits : Bool) (n : Int)
    (hn : s.callAt i = .draining w waits n) : n = 0 := by
  obtain h | h := s.callAt_cases i <;> cases h.symm.trans hn

variable [DecidableEq τ]

/-- Whatever happens then, it stays so, and nothing is done but to refuse what is handed in. -/
theorem step (h : Over s) (a : Act κ V) (he : s.step? a = some s') :
    Over s' ∧ Refuses a.handsRequest.toNat a.handsItem.toNat s.engine s'.engine ∧
      s'.discarded = s.discarded := by
  cases a with
  | move m =>
    obtain ⟨hm, e, hmove, rfl⟩ := move_eq_some he
    obtain ⟨hdead, hrefuses⟩ := h.dead.step m hmove
    exact ⟨{ h with counted := h.counted.goOn hm hmove, dead := hdead }, hrefuses, rfl⟩
  | call =>
    obtain rfl := Option.some.inj he
    obtain ⟨hover, hrefuses⟩ := h.shut .request
    refine ⟨hover.withCalls (fun w waits n hn => ?_) _, hrefuses, rfl⟩
    rcases List.mem_append.1 hn with hn | hn
    · exact h.owed w waits n hn
    · cases List.mem_singleton.1 hn
      rfl
  | throwAway j =>
    obtain ⟨waits, n, hj, -, rfl⟩ | ⟨waits, n, hj, -, rfl⟩ := throwAway?_eq_some he
    · obtain ⟨hover, hrefuses⟩ := (h.sweep .request).shut .item
      refine ⟨hover.withCalls (h.owed_set ?_) _, hrefuses, rfl⟩
      rintro w waits n ⟨⟩
      exact h.tally_eq_zero _
    · obtain rfl : n = 0 := h.owed _ _ _ (List.mem_of_getElem? hj)
      refine ⟨(h.sweep .item).withCalls (h.owed_set (owed_callAt s 0)) _, .none rfl rfl, ?_⟩
      funext w
      cases w
      · exact add_zero _
      · change s.discarded .item + s.tally (.queued .item) = _
        rw [h.tally_eq_zero, add_zero]
  | closePipeline j =>
    obtain ⟨next, hj, rfl⟩ := closePipeline?_eq_some he
    obtain ⟨hdead, hrefuses⟩ := h.dead.pipelineClosed next
    refine ⟨?_, hrefuses, rfl⟩
    have hover : Over { s with engine := s.engine.log (.pipelineClosed next) } :=
      { h with counted := { h.counted with orderly := hdead.orderly }, dead := hdead }
    exact hover.withCalls (h.owed_set (owed_callAt s _)) _
  | giveUp j =>
    obtain ⟨c, hj, rfl⟩ := giveUp?_eq_some he
    refine ⟨h.withCalls (h.owed_set ?_) _, .none rfl rfl, rfl⟩
    rintro w waits n ⟨⟩

/-- Whatever happens then, one thing after the other, it stays so. -/
theorem run (h : Over s) {acts : List (Act κ V)} (he : s.run? acts = some s') :
    Over s' ∧ Refuses (acts.countP Act.handsRequest) (acts.countP Act.handsItem) s.engine s'.engine ∧
      s'.discarded = s.discarded := by
  induction acts generalizing s with
  | nil =>
    obtain rfl : s = s' := by simpa using he
    exact ⟨h, .none rfl rfl, rfl⟩
  | cons a acts ih =>
    rw [run?_cons] at he
    obtain ⟨d, hd, he⟩ := Option.bind_eq_some_iff.1 he
    obtain ⟨hover, hfirst, hsame⟩ := h.step a hd
    obtain ⟨hover', hlater, hsame'⟩ := ih hover he
    refine ⟨hover', ?_, hsame'.trans hsame⟩
    have hcount : ∀ p : Act κ V → Bool, (a :: acts).countP p = (p a).toNat + acts.countP p := by
      intro p
      cases hp : p a <;> simp [hp, Nat.add_comm]
    rw [hcount, hcount]
    exact hfirst.trans hlater

end Over

/-! ## Every run -/

variable [DecidableEq τ] {setup : Setup τ} {seeds : List (Request κ)} {acts later : List (Act κ V)}

/-- After an engine was closed and all calls have returned, whatever came before and whatever is tried
then, in any order, further calls among it:

* there seems to be nothing to do, after every act, and every counter is at zero;
* no request begins, nothing is sent, no handler is told anything and no item comes to a stage; and
  what was done so far counts the same, but for what was dropped, which is more by as many requests and
  items as were handed in;
* an attempt to start it fails and hands in nothing, and what is handed in is refused because the
  queues are closed;
* to run it fails as well, without asking for anything outside, and to wait for it ends at once.

**Proof sketch.** No call waits for the dispatcher or the item workers, and none was given up. So they
have ended, nothing is in the engine, and no part of it can make a move any more. -/
theorem dead_after_calls (hrun : (new setup seeds).run? acts = some s) (hcalls : s.calls ≠ [])
    (hreturned : ∀ c ∈ s.calls, c = .returned) (hlater : s.run? later = some s') :
    s'.isIdle = true ∧ (∀ c, s'.tally c = 0) ∧
    Refuses (later.countP Act.handsRequest) (later.countP Act.handsItem) s.engine s'.engine ∧
    s'.dropped .request = s.dropped .request + later.countP Act.handsRequest ∧
    s'.dropped .item = s.dropped .item + later.countP Act.handsItem ∧
    s'.engine.start = (.error .alreadyStarted, { s'.engine with started := true }) ∧
    (∀ r, (s'.engine.submitRequest r).1 = .error .queueClosed) ∧
    (∀ i, (s'.engine.submitItem i).1 = .error .queueClosed) ∧
    ∀ (ω : Type) (turns : Schedule ω κ V), turns.engine = s'.engine →
      (∀ fuel, (turns.run fuel).1 = .error .alreadyStarted ∧
        (turns.run fuel).2.engine = { s'.engine with started := true } ∧
        (turns.run fuel).2.outside = turns.outside) ∧
      ∀ looks fuel, turns.wait looks fuel = turns := by
  obtain ⟨hc, hs⟩ := Shared.run hrun
  obtain ⟨hover, hrefuses, hsame⟩ := (Over.of_returned hc hs hcalls hreturned).run hlater
  refine ⟨hover.isIdle, hover.tally_eq_zero, hrefuses, ?_, ?_, hover.dead.start_eq, fun r => ?_,
    fun i => ?_, ?_⟩
  · simp only [dropped, hrefuses.stats, hsame]
    omega
  · simp only [dropped, hrefuses.stats, hsame]
    omega
  · exact (handIn_answer s'.engine .outside r).trans (if_pos hover.dead.requests)
  · exact (submitItem_answer s'.engine i).trans (if_pos hover.dead.items)
  · intro ω turns hturns
    rw [← hturns]
    have hdead : Dead turns.engine := hturns ▸ hover.dead
    exact ⟨Schedule.run_of_dead hdead, Schedule.wait_of_dead hdead⟩

/-- Two calls close an engine while a request waits in it that was never started, and both return.
Another request and an item are refused after that, and so is an attempt to start the engine. -/
theorem refusals_after_calls :
    ∃ (setup : Setup Unit) (acts later : List (Act Unit fun _ => Unit))
      (s s' : Shared Unit fun _ : Unit => Unit),
      (new setup []).run? acts = some s ∧ s.calls = [.returned, .returned] ∧
      s.dropped .request = 1 ∧ s.dropped .item = 0 ∧ s.run? later = some s' ∧ later.length = 4 ∧
      s'.isIdle = true ∧ s'.dropped .request = 2 ∧ s'.dropped .item = 1 ∧
      s'.engine.start.1 = .error .alreadyStarted := by
  let setup : Setup Unit := { settings := { itemWorkers := 1 } }
  let acts : List (Act Unit fun _ : Unit => Unit) :=
    [.move (.ask (.submit (.make "GET" "a" .empty))), .call, .call, .throwAway 1, .throwAway 0,
      .throwAway 0, .throwAway 1]
  let later : List (Act Unit fun _ : Unit => Unit) :=
    [.move (.ask (.submit (.make "GET" "b" .empty))), .move (.ask (.item .root ⟨(), ()⟩)), .call,
      .move .start]
  have hruns : ∃ s s' : Shared Unit fun _ : Unit => Unit,
      (new setup []).run? acts = some s ∧ s.calls = [.returned, .returned] ∧
        s.dropped .request = 1 ∧ s.dropped .item = 0 ∧ s.run? later = some s' :=
    ⟨_, _, rfl, rfl, rfl, rfl, rfl⟩
  obtain ⟨s, s', hs, hcalls, hrequests, hitems, hlater⟩ := hruns
  have hsome : s.calls ≠ [] := by simp [hcalls]
  have hreturned : ∀ c ∈ s.calls, c = .returned := by simp [hcalls]
  obtain ⟨hidle, -, -, hdropped, hdropped', hstart, -⟩ := dead_after_calls hs hsome hreturned hlater
  refine ⟨setup, acts, later, s, s', hs, hcalls, hrequests, hitems, hlater, rfl, hidle, ?_, ?_, ?_⟩
  · rw [hdropped, hrequests]
    rfl
  · rw [hdropped', hitems]
    rfl
  · rw [hstart]

/-- Two calls close an engine in which one request is under way and the dispatcher holds another one.
The second finds no handle and returns while the first still waits. After that the engine is not idle,
the other request begins, and it is sent. -/
theorem request_sent_after_call :
    ∃ (setup : Setup Unit) (seeds : List (Request Unit)) (acts later : List (Act Unit fun _ => Unit))
      (d s : Shared Unit fun _ : Unit => Unit),
      (new setup seeds).run? acts = some d ∧ .returned ∈ d.calls ∧ d.isIdle = false ∧
      (∀ a ∈ later, a.handsRequest = false ∧ a.handsItem = false) ∧ d.run? later = some s ∧
      s.engine.begun = d.engine.begun + 1 ∧ s.engine.stats.sent = d.engine.stats.sent + 1 := by
  let setup : Setup Unit := { settings := { itemWorkers := 1, maxConcurrentRequests := 1 } }
  let seeds : List (Request Unit) := [.make [] [] .empty, .make "GET" "http://a/" .empty]
  let acts : List (Act Unit fun _ : Unit => Unit) :=
    [.move .start, .move .receive, .move .launch, .move .receive, .call, .call, .throwAway 1,
      .move (.receiveItem 0), .throwAway 1]
  let later : List (Act Unit fun _ : Unit => Unit) :=
    [.move (.send 0), .move .launch, .move (.send 1)]
  have hfirst : ((new setup seeds : Shared Unit fun _ : Unit => Unit).run? acts).map
      (fun d => (d.calls, d.isIdle, d.engine.begun, d.engine.stats.sent)) =
        some ([.draining .request true 0, .returned], false, 1, 0) := by decide +kernel
  have hlater : ((new setup seeds : Shared Unit fun _ : Unit => Unit).run? acts).bind
      (fun d => (d.run? later).map fun s => (s.engine.begun, s.engine.stats.sent)) = some (2, 1) := by
    decide +kernel
  obtain ⟨d, hd, hparts⟩ := Option.map_eq_some_iff.1 hfirst
  obtain ⟨hcalls, hbusy, hbegun, hsent⟩ := by simpa only [Prod.mk.injEq] using hparts
  rw [hd, Option.bind_some] at hlater
  obtain ⟨s, hs, hparts⟩ := Option.map_eq_some_iff.1 hlater
  obtain ⟨hbegun', hsent'⟩ := by simpa only [Prod.mk.injEq] using hparts
  refine ⟨setup, seeds, acts, later, d, s, hd, by simp [hcalls], hbusy, ?_, hs, ?_, ?_⟩
  · simp [later, Act.handsRequest, Act.handsItem, Move.handsRequest, Move.handsItem, Move.effect?]
  · rw [hbegun', hbegun]
  · rw [hsent', hsent]

end Shared

end WebCrawl
