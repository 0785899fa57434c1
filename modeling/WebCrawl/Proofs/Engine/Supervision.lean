import WebCrawl.Proofs.Engine.Calls

set_option autoImplicit false

/-!
# Who waits when an engine is closed

The handle to wait for those who take work out of a queue is there, or with a call that waits, until
they have ended or that call is given up. So a count can be set to zero too early only while another
call waits, or after one was given up, and never if calls come one after another.

## Main definitions

* `WebCrawl.Shared.Supervised` — who waits for what.
* `WebCrawl.Shared.isSuccessive` — whether calls come one after another and none is given up.

## Main results

* `WebCrawl.Shared.step`, `WebCrawl.Shared.run` — what every act keeps, and what every run.
* `WebCrawl.Shared.counters_of_calls` — what the counters hold, however many calls there are.
* `WebCrawl.Shared.request_begins_at_zero` — two calls at once, and a count below zero.
-/

namespace WebCrawl

open Crawl Engine

namespace Shared

variable {κ τ : Type} {V : τ → Type} {s s' : Shared κ V}

/-! ## Who waits for what -/

/-- A call waits for those who take work of a kind out of its queue, or one was given up. -/
def Attended (calls : List CloseCall) (w : Work) : Prop :=
  (∃ n, .draining w true n ∈ calls) ∨ .givenUp ∈ calls

/-- A call is to throw away what waits of a kind of work, or one was given up. -/
def Drained (calls : List CloseCall) (w : Work) : Prop :=
  (∃ waits n, .draining w waits n ∈ calls) ∨ .givenUp ∈ calls

/-- The queues are closed by the calls, in their order. The handle for those who take work out of a
queue is there or with a call that waits for them, until they have ended or that call is given up; and
only so long is a count wrong, or something taken out of a queue and not thrown away. -/
structure Supervised (s : Shared κ V) : Prop where
  shut : ∀ c ∈ s.calls, ∀ w, c.hasShut w = true → s.engine.isShut w = true
  inOrder : s.engine.isShut .item = true → s.engine.isShut .request = true
  handle : ∀ w, s.engine.isShut w = true → s.handle w = false
  loop : ∀ w, s.engine.loopHasEnded w = false → s.handle w = true ∨ Attended s.calls w
  overtaken : ∀ w, s.overtaken w ≠ 0 → Attended s.calls w
  cleared : ∀ w, s.cleared w ≠ 0 → Drained s.calls w

section Calls

variable {calls : List CloseCall} {j : Nat} {c c' : CloseCall} {w : Work}

/-- What is in a list and is not the element that is replaced stays in it. -/
lemma mem_set_of_ne {x : CloseCall} (hj : calls[j]? = some c) (hx : x ∈ calls) (hne : c ≠ x) :
    x ∈ calls.set j c' := by
  obtain ⟨i, hi⟩ := List.mem_iff_getElem?.1 hx
  have hij : j ≠ i := by
    rintro rfl
    exact hne (Option.some.inj (hj.symm.trans hi))
  exact List.mem_of_getElem? ((List.getElem?_set_ne hij).trans hi)

/-- The element that replaces another one is in the list. -/
lemma mem_set_self (hj : calls[j]? = some c) : c' ∈ calls.set j c' :=
  List.mem_of_getElem? (List.getElem?_set_self (List.getElem?_eq_some_iff.1 hj).1)

/-- A call that does not wait goes on, and whoever else waits still does. -/
lemma Attended.set (h : Attended calls w) (hj : calls[j]? = some c)
    (hne : ∀ n, c ≠ .draining w true n) (hkept : c ≠ .givenUp) : Attended (calls.set j c') w :=
  h.imp (Exists.imp fun n hn => mem_set_of_ne hj hn (hne n)) fun hg => mem_set_of_ne hj hg hkept

/-- A call that has nothing to throw away goes on, and whoever else has something still does. -/
lemma Drained.set (h : Drained calls w) (hj : calls[j]? = some c)
    (hne : ∀ waits n, c ≠ .draining w waits n) (hkept : c ≠ .givenUp) : Drained (calls.set j c') w :=
  h.imp (Exists.imp fun waits => Exists.imp fun n hn => mem_set_of_ne hj hn (hne waits n))
    fun hg => mem_set_of_ne hj hg hkept

/-- A call that waits is to throw away what waits. -/
lemma Attended.drained (h : Attended calls w) : Drained calls w :=
  h.imp_left (Exists.elim · fun n hn => ⟨true, n, hn⟩)

lemma Attended.append (h : Attended calls w) (c : CloseCall) : Attended (calls ++ [c]) w :=
  h.imp (Exists.imp fun _ => List.mem_append_left _) (List.mem_append_left _)

lemma Drained.append (h : Drained calls w) (c : CloseCall) : Drained (calls ++ [c]) w :=
  h.imp (Exists.imp fun _ => Exists.imp fun _ => List.mem_append_left _) (List.mem_append_left _)

end Calls

/-- A queue that was closed, and the others. -/
lemma isShut_shut (e : Engine κ V) (w v : Work) :
    (e.shut w).isShut v = (decide (v = w) || e.isShut v) := by
  cases w <;> cases v <;> rfl

/-- To close a queue sets nothing going and ends nothing. -/
lemma loopHasEnded_shut (e : Engine κ V) (w v : Work) :
    (e.shut w).loopHasEnded v = e.loopHasEnded v := by
  cases w <;> cases v <;> rfl

namespace Supervised

lemma new (setup : Setup τ) (seeds : List (Request κ)) :
    Supervised (.new setup seeds : Shared κ V) where
  shut := nofun
  inOrder h := h
  handle _ _ := rfl
  loop w h := by cases w <;> cases h
  overtaken _ h := absurd rfl h
  cleared _ h := absurd rfl h

/-- A queue is closed only after that of the requests. -/
lemma requests_shut (h : Supervised s) {w : Work} (hs : s.engine.isShut w = true) :
    s.engine.isShut .request = true := by
  cases w
  · exact hs
  · exact h.inOrder hs

/-- Someone closes the engine. -/
lemma call (h : Supervised s) : Supervised s.call where
  shut c hc w hw := by
    change (s.engine.shut .request).isShut w = true
    rw [isShut_shut]
    rcases List.mem_append.1 hc with hc | hc
    · simp [h.shut c hc w hw]
    · obtain rfl := List.mem_singleton.1 hc
      cases w
      · rfl
      · cases hw
  inOrder _ := rfl
  handle w hw := by
    change (s.engine.shut .request).isShut w = true at hw
    change Function.update s.handle .request false w = false
    rw [isShut_shut] at hw
    cases w
    · rfl
    · exact h.handle .item hw
  loop w hw := by
    change (s.engine.shut .request).loopHasEnded w = false at hw
    rw [loopHasEnded_shut] at hw
    obtain hhandle | hattended := h.loop w hw
    · cases w
      · exact .inr (.inl ⟨0, by simp [Shared.call, hhandle]⟩)
      · exact .inl hhandle
    · exact .inr (hattended.append _)
  overtaken w hw := (h.overtaken w hw).append _
  cleared w hw := by
    cases w
    · exact .inl ⟨s.handle .request, 0, by simp [Shared.call]⟩
    · exact (h.cleared .item hw).append _

/-- A call that does not wait any more leaves it to another one to wait, if there is something to wait
for. -/
lemma attended_set (h : Supervised s) {j : Nat} {w : Work} {waits : Bool} {n : Int} (c : CloseCall)
    (hj : s.calls[j]? = some (.draining w waits n))
    (hwaits : (waits && !s.engine.loopHasEnded w) = false) (hgoes : s.engine.loopHasEnded w = false) :
    Attended (s.calls.set j c) w := by
  have hshut : s.engine.isShut w = true := h.shut _ (List.mem_of_getElem? hj) w (by cases w <;> rfl)
  obtain hhandle | hattended := h.loop w hgoes
  · exact absurd hhandle (by simp [h.handle w hshut])
  · refine hattended.set hj (fun m hm => ?_) nofun
    cases hm
    simp [hgoes] at hwaits

/-- A call throws away the requests that still count as waiting, and closes the queue of the items. -/
lemma throwAwayRequests (h : Supervised s) {j : Nat} {waits : Bool} {n m : Int}
    (hj : s.calls[j]? = some (.draining .request waits n))
    (hwaits : (waits && !s.engine.loopHasEnded .request) = false) :
    Supervised { (s.sweep .request).shut .item with
      calls := s.calls.set j (.draining .item (s.handle .item) m) } := by
  have hrequests : s.engine.isShut .request = true := h.shut _ (List.mem_of_getElem? hj) .request rfl
  have hother : ∀ {c}, Attended s.calls .item → Attended (s.calls.set j c) .item := fun hattended =>
    hattended.set hj (fun _ => nofun) nofun
  refine ⟨fun c hc w hw => ?_, fun _ => hrequests, fun w hw => ?_, fun w hw => ?_, fun w hw => ?_,
    fun w hw => ?_⟩
  · change (s.engine.shut .item).isShut w = true
    rw [isShut_shut]
    cases w
    · exact hrequests
    · rfl
  · cases w
    · exact h.handle .request hrequests
    · rfl
  · change (s.engine.shut .item).loopHasEnded w = false at hw
    rw [loopHasEnded_shut] at hw
    cases w with
    | request => exact .inr (h.attended_set _ hj hwaits hw)
    | item =>
      obtain hhandle | hattended := h.loop .item hw
      · exact .inr (.inl ⟨m, hhandle ▸ mem_set_self hj⟩)
      · exact .inr (hother hattended)
  · cases w with
    | request =>
      change Function.update s.overtaken .request (s.engine.heldCount .request) .request ≠ 0 at hw
      rw [Function.update_self] at hw
      exact h.attended_set _ hj hwaits (loopHasEnded_of_held hw)
    | item => exact hother (h.overtaken .item hw)
  · cases w with
    | request => exact absurd rfl hw
    | item => exact .inl ⟨_, _, mem_set_self hj⟩

/-- A call throws away the items that still count as waiting. -/
lemma throwAwayItems (h : Supervised s) {j : Nat} {waits : Bool} {n : Int} {discarded : Work → Int}
    (hj : s.calls[j]? = some (.draining .item waits n))
    (hwaits : (waits && !s.engine.loopHasEnded .item) = false) (i : Nat) :
    Supervised { s.sweep .item with calls := s.calls.set j (s.callAt i), discarded := discarded } := by
  have hshut : ∀ w, s.engine.isShut w = true := fun w =>
    h.shut _ (List.mem_of_getElem? hj) w (by cases w <;> rfl)
  have hother : ∀ {c}, Attended s.calls .request → Attended (s.calls.set j c) .request :=
    fun hattended => hattended.set hj (fun _ => nofun) nofun
  refine ⟨fun _ _ w _ => hshut w, h.inOrder, h.handle, fun w hw => ?_, fun w hw => ?_, fun w hw => ?_⟩
  · cases w with
    | request =>
      obtain hhandle | hattended := h.loop .request hw
      · exact .inl hhandle
      · exact .inr (hother hattended)
    | item => exact .inr (h.attended_set _ hj hwaits hw)
  · cases w with
    | request => exact hother (h.overtaken .request hw)
    | item =>
      change Function.update s.overtaken .item (s.engine.heldCount .item) .item ≠ 0 at hw
      rw [Function.update_self] at hw
      exact h.attended_set _ hj hwaits (loopHasEnded_of_held hw)
  · cases w with
    | request => exact (h.cleared .request hw).set hj (fun _ _ => nofun) nofun
    | item => exact absurd rfl hw

/-- A call closes a pipeline. -/
lemma closePipeline (h : Supervised s) {j i : Nat} (hj : s.calls[j]? = some (.pipelines i))
    (event : Event κ V) (k : Nat) :
    Supervised { s with engine := s.engine.log event, calls := s.calls.set j (s.callAt k) } := by
  have hshut : ∀ w, s.engine.isShut w = true := fun w => h.shut _ (List.mem_of_getElem? hj) w rfl
  have hsame : ∀ w, (s.engine.log event).isShut w = s.engine.isShut w ∧
      (s.engine.log event).loopHasEnded w = s.engine.loopHasEnded w := fun w => by
    cases w <;> exact ⟨rfl, rfl⟩
  have hkept : ∀ {w}, Attended s.calls w → Attended (s.calls.set j (s.callAt k)) w := fun hattended =>
    hattended.set hj (fun _ => nofun) nofun
  refine ⟨fun _ _ w _ => (hsame w).1.trans (hshut w), h.inOrder, fun w _ => h.handle w (hshut w),
    fun w hw => ?_, fun w hw => hkept (h.overtaken w hw),
    fun w hw => (h.cleared w hw).set hj (fun _ _ => nofun) nofun⟩
  rw [(hsame w).2] at hw
  exact (h.loop w hw).imp_right hkept

/-- A call is given up. -/
lemma giveUp (h : Supervised s) {j : Nat} {c : CloseCall} (hj : s.calls[j]? = some c) :
    Supervised { s with calls := s.calls.set j .givenUp } := by
  have hgiven : .givenUp ∈ s.calls.set j .givenUp := mem_set_self hj
  refine ⟨fun d hd w hw => ?_, h.inOrder, h.handle, fun _ _ => .inr (.inr hgiven),
    fun _ _ => .inr hgiven, fun _ _ => .inr hgiven⟩
  rcases List.mem_or_eq_of_mem_set hd with hd | rfl
  · exact h.shut d hd w hw
  · cases w
    · exact h.shut c (List.mem_of_getElem? hj) .request c.hasShut_request
    · cases hw

variable [DecidableEq τ]

/-- The engine makes a move. -/
lemma goOn (h : Supervised s) (hc : Counted s) {m : Move κ V} (hm : m.closes = false)
    {e : Engine κ V} (he : s.engine.step? m = some e) : Supervised (s.goOn e) := by
  have hshut : ∀ w, e.isShut w = s.engine.isShut w := isShut_step hm he
  refine ⟨fun c hcall w hw => (hshut w).trans (h.shut c hcall w hw), fun hs => ?_, fun w hw => ?_,
    fun w hw => ?_, h.overtaken, h.cleared⟩
  · exact (hshut .request).trans (h.inOrder ((hshut .item).symm.trans hs))
  · have hw' : s.engine.isShut w = true := (hshut w).symm.trans hw
    have hconnectable : s.engine.connectable = false := by
      by_contra hconnectable
      have hopen := (hc.orderly.startable (by simpa using hconnectable)).2.2
      exact absurd (hopen.symm.trans (h.requests_shut hw')) (by simp)
    simp [Shared.goOn, h.handle w hw', hconnectable]
  · cases hended : s.engine.loopHasEnded w with
    | true =>
      obtain ⟨hbefore, hafter⟩ := hc.orderly.loopHasEnded_step hm he hended hw
      exact .inl (by simp [Shared.goOn, hbefore, hafter])
    | false => exact (h.loop w hended).imp_left fun hhandle => by simp [Shared.goOn, hhandle]

end Supervised

/-! ## Acts -/

section Acts

variable {j : Nat}

/-- A call throws away what still counts as waiting: requests, or items. -/
lemma throwAway?_eq_some (h : s.throwAway? j = some s') :
    (∃ waits n, s.calls[j]? = some (.draining .request waits n) ∧
      (waits && !s.engine.loopHasEnded .request) = false ∧
      s' = { (s.sweep .request).shut .item with
        calls := s.calls.set j (.draining .item (s.handle .item) (s.tally (.queued .request))) }) ∨
    ∃ waits n, s.calls[j]? = some (.draining .item waits n) ∧
      (waits && !s.engine.loopHasEnded .item) = false ∧
      s' = { s.sweep .item with
        calls := s.calls.set j (s.callAt 0)
        discarded := fun w => s.discarded w + match w with
          | .request => n
          | .item => s.tally (.queued .item) } := by
  unfold throwAway? at h
  split at h
  · rename_i waits n hj
    split at h
    · cases h
    · rename_i hwaits
      exact .inl ⟨waits, n, hj, eq_false_of_ne_true hwaits, (Option.some.inj h).symm⟩
  · rename_i waits n hj
    split at h
    · cases h
    · rename_i hwaits
      exact .inr ⟨waits, n, hj, eq_false_of_ne_true hwaits, (Option.some.inj h).symm⟩
  · cases h

/-- A call that throws something away has not returned. -/
lemma unreturned_of_throwAway? (h : s.throwAway? j = some s') :
    ∃ c, s.calls[j]? = some c ∧ c ≠ .returned := by
  obtain ⟨waits, n, hj, -⟩ | ⟨waits, n, hj, -⟩ := throwAway?_eq_some h
  · exact ⟨_, hj, by simp⟩
  · exact ⟨_, hj, by simp⟩

lemma closePipeline?_eq_some (h : s.closePipeline? j = some s') :
    ∃ next, s.calls[j]? = some (.pipelines next) ∧
      s' = { s with
        engine := s.engine.log (.pipelineClosed next)
        calls := s.calls.set j (s.callAt (next + 1)) } := by
  unfold closePipeline? at h
  split at h
  · rename_i next hj
    exact ⟨next, hj, (Option.some.inj h).symm⟩
  · cases h

lemma giveUp?_eq_some (h : s.giveUp? j = some s') :
    ∃ c, s.calls[j]? = some c ∧ s' = { s with calls := s.calls.set j .givenUp } := by
  unfold giveUp? at h
  split at h
  · rename_i hj
    exact ⟨_, hj, (Option.some.inj h).symm⟩
  · rename_i hj
    exact ⟨_, hj, (Option.some.inj h).symm⟩
  · cases h

variable [DecidableEq τ]

lemma move_eq_some {m : Move κ V} (h : s.step? (.move m) = some s') :
    m.closes = false ∧ ∃ e, s.engine.step? m = some e ∧ s' = s.goOn e := by
  simp only [step?] at h
  split at h
  · cases h
  · rename_i hm
    obtain ⟨e, he, rfl⟩ := Option.map_eq_some_iff.1 h
    exact ⟨eq_false_of_ne_true hm, e, he, rfl⟩

/-- Whatever happens, the counters hold what there is, and somebody waits for what is not over. -/
theorem step (h : Counted s ∧ Supervised s) (a : Act κ V) (he : s.step? a = some s') :
    Counted s' ∧ Supervised s' := by
  obtain ⟨hc, hs⟩ := h
  cases a with
  | move m =>
    obtain ⟨hm, e, hmove, rfl⟩ := move_eq_some he
    exact ⟨hc.goOn hm hmove, hs.goOn hc hm hmove⟩
  | call =>
    obtain rfl := Option.some.inj he
    exact ⟨{ hc.shut .request with }, hs.call⟩
  | throwAway j =>
    obtain ⟨waits, n, hj, hwaits, rfl⟩ | ⟨waits, n, hj, hwaits, rfl⟩ := throwAway?_eq_some he
    · have hrequests : s.engine.isShut .request = true := hs.shut _ (List.mem_of_getElem? hj) _ rfl
      exact ⟨{ (hc.sweep hrequests).shut .item with }, hs.throwAwayRequests hj hwaits⟩
    · have hitems : s.engine.isShut .item = true := hs.shut _ (List.mem_of_getElem? hj) _ rfl
      exact ⟨{ hc.sweep hitems with }, hs.throwAwayItems hj hwaits 0⟩
  | closePipeline j =>
    obtain ⟨next, hj, rfl⟩ := closePipeline?_eq_some he
    exact ⟨{ hc with orderly := hc.orderly.log _ }, hs.closePipeline hj _ _⟩
  | giveUp j =>
    obtain ⟨c, hj, rfl⟩ := giveUp?_eq_some he
    exact ⟨{ hc with }, hs.giveUp hj⟩

variable {setup : Setup τ} {seeds : List (Request κ)} {acts : List (Act κ V)}

/-- The same after every run. -/
theorem run (hrun : (new setup seeds).run? acts = some s) : Counted s ∧ Supervised s :=
  run?_induction (P := fun d => Counted d ∧ Supervised d) (fun _ a _ hd he => step hd a he)
    ⟨.new setup seeds, .new setup seeds⟩ hrun

end Acts

/-! ## Calls one after another -/

/-- A call that has come to a pipeline has that to close, or has returned. -/
lemma callAt_cases (s : Shared κ V) (i : Nat) : s.callAt i = .pipelines i ∨ s.callAt i = .returned := by
  unfold callAt
  split
  · exact .inl rfl
  · exact .inr rfl

/-- Such a call was not given up. -/
lemma callAt_ne (s : Shared κ V) (i : Nat) : s.callAt i ≠ .givenUp := by
  obtain h | h := s.callAt_cases i <;> simp [h]

/-- Whether an act lets calls come one after another: a call finds that all before it have returned,
and no call is given up. -/
def keepsTurn (s : Shared κ V) : Act κ V → Bool
  | .call => s.calls.all (· == .returned)
  | .giveUp _ => false
  | _ => true

/-- Whether calls come one after another in a sequence of acts. -/
def isSuccessive [DecidableEq τ] (s : Shared κ V) : List (Act κ V) → Bool
  | [] => true
  | a :: acts => s.keepsTurn a && (s.step? a).all (isSuccessive · acts)

/-- At most one call has not returned, none was given up, and no count was set to zero too early. -/
structure Alone (s : Shared κ V) : Prop where
  single : ∀ {i j : Nat} {c d : CloseCall}, s.calls[i]? = some c → s.calls[j]? = some d →
    c ≠ .returned → d ≠ .returned → i = j
  kept : .givenUp ∉ s.calls
  exact : ∀ w, s.overtaken w = 0

namespace Alone

lemma new (setup : Setup τ) (seeds : List (Request κ)) : Alone (.new setup seeds : Shared κ V) where
  single h := by simp [Shared.new] at h
  kept := nofun
  exact _ := rfl

/-- The one call goes on. -/
lemma set (h : Alone s) {j : Nat} {c c' : CloseCall} (hj : s.calls[j]? = some c) (hc : c ≠ .returned)
    {s' : Shared κ V} (hcalls : s'.calls = s.calls.set j c') (hkept : c' ≠ .givenUp)
    (hexact : ∀ w, s'.overtaken w = 0) : Alone s' := by
  have honly : ∀ {i : Nat} {d : CloseCall}, s'.calls[i]? = some d → d ≠ .returned → i = j := by
    intro i d hi hd
    by_contra hij
    rw [hcalls, List.getElem?_set_ne (Ne.symm hij)] at hi
    exact hij (h.single hi hj hd hc)
  refine ⟨fun hi hk hc hd => (honly hi hc).trans (honly hk hd).symm, fun hg => ?_, hexact⟩
  rcases List.mem_or_eq_of_mem_set (hcalls ▸ hg) with hg | hg
  · exact h.kept hg
  · exact hkept hg.symm

/-- A count that is set to zero when nothing can be held is right. -/
lemma sweep (h : Alone s) {w : Work} (hended : s.engine.loopHasEnded w = true) (v : Work) :
    (s.sweep w).overtaken v = 0 := by
  simp only [Shared.sweep, Function.update_apply, heldCount_of_ended hended]
  split
  · rfl
  · exact h.exact v

/-- When the one call goes on, those have ended for whom it could have waited. -/
lemma loopHasEnded (h : Alone s) (hs : Supervised s) {j : Nat} {w : Work} {waits : Bool} {n : Int}
    (hj : s.calls[j]? = some (.draining w waits n))
    (hwaits : (waits && !s.engine.loopHasEnded w) = false) : s.engine.loopHasEnded w = true := by
  by_contra hended
  have hgoes : s.engine.loopHasEnded w = false := eq_false_of_ne_true hended
  have hshut : s.engine.isShut w = true := hs.shut _ (List.mem_of_getElem? hj) w (by cases w <;> rfl)
  obtain hhandle | ⟨m, hm⟩ | hgiven := hs.loop w hgoes
  · exact absurd hhandle (by simp [hs.handle w hshut])
  · obtain ⟨i, hi⟩ := List.mem_iff_getElem?.1 hm
    obtain rfl := h.single hi hj nofun nofun
    obtain rfl : waits = true := by
      cases hi.symm.trans hj
      rfl
    simp [hgoes] at hwaits
  · exact h.kept hgiven

variable [DecidableEq τ]

/-- What an act keeps. -/
lemma step (h : Alone s) (hs : Supervised s) {a : Act κ V} (hturn : s.keepsTurn a = true)
    (he : s.step? a = some s') : Alone s' := by
  cases a with
  | move m =>
    obtain ⟨-, e, -, rfl⟩ := move_eq_some he
    exact { h with }
  | call =>
    obtain rfl := Option.some.inj he
    have hall : ∀ c ∈ s.calls, c = .returned := by simpa [keepsTurn] using hturn
    have honly : ∀ {i : Nat} {c : CloseCall}, s.call.calls[i]? = some c → c ≠ .returned →
        i = s.calls.length := by
      intro i c hi hc
      rcases Nat.lt_trichotomy i s.calls.length with hlt | heq | hgt
      · rw [Shared.call, List.getElem?_append_left hlt] at hi
        exact absurd (hall c (List.mem_of_getElem? hi)) hc
      · exact heq
      · have hnone : s.call.calls[i]? = none := List.getElem?_eq_none (by simp [Shared.call]; omega)
        cases hnone.symm.trans hi
    refine ⟨fun hi hj hc hd => (honly hi hc).trans (honly hj hd).symm, fun hg => ?_, h.exact⟩
    rcases List.mem_append.1 hg with hg | hg
    · exact h.kept hg
    · cases List.mem_singleton.1 hg
  | throwAway j =>
    obtain ⟨waits, n, hj, hwaits, rfl⟩ | ⟨waits, n, hj, hwaits, rfl⟩ := throwAway?_eq_some he
    · exact h.set hj (by simp) rfl (by simp) (h.sweep (h.loopHasEnded hs hj hwaits))
    · exact h.set hj (by simp) rfl (callAt_ne s 0) (h.sweep (h.loopHasEnded hs hj hwaits))
  | closePipeline j =>
    obtain ⟨next, hj, rfl⟩ := closePipeline?_eq_some he
    exact h.set hj (by simp) rfl (callAt_ne s _) h.exact
  | giveUp j => cases hturn

end Alone

/-! ## Every run -/

/-- Nothing seems to be there exactly when nothing is, if no count is wrong. -/
lemma Counted.isIdle_iff (h : Counted s) (hexact : ∀ w, s.overtaken w = 0) :
    s.isIdle = true ↔
      s.engine.requests.waiting = [] ∧ s.engine.held = [] ∧ s.engine.workers = [] ∧
        s.engine.items.waiting = [] ∧
        (∀ w ∈ s.engine.itemWorkers, w.isHolding = false ∧ w.isProcessing = false) ∧
        s.cleared .request = 0 ∧ s.cleared .item = 0 := by
  have hqueued : ∀ w, s.tally (.queued w) =
      s.engine.waitingCount w + s.engine.heldCount w + s.cleared w := fun w => by
    rw [h.queued w, h.orderly.get_queued h.closing w, hexact w]
    push_cast
    omega
  have hactive : ∀ w, s.tally (.active w) = s.engine.busyCount w := fun w => by
    rw [h.active w, h.orderly.get_active w]
  have hzero : s.isIdle = true ↔ ∀ w, s.engine.waitingCount w = 0 ∧ s.engine.heldCount w = 0 ∧
      s.engine.busyCount w = 0 ∧ s.cleared w = 0 := by
    have hread : s.isIdle = true ↔ ∀ w, s.tally (.queued w) = 0 ∧ s.tally (.active w) = 0 := by
      simp only [isIdle, Counter.readingOrder, List.all_cons, List.all_nil, Bool.and_true,
        Bool.and_eq_true, beq_iff_eq]
      exact ⟨fun h w => by cases w <;> simp [h], fun h => by simp [h]⟩
    rw [hread]
    refine forall_congr' fun w => ?_
    rw [hqueued w, hactive w]
    omega
  have hboth : ∀ {P : Work → Prop}, (∀ w, P w) ↔ P .request ∧ P .item := fun {P} =>
    ⟨fun h => ⟨h _, h _⟩, fun h w => by cases w <;> [exact h.1; exact h.2]⟩
  rw [hzero, hboth]
  simp only [waitingCount, heldCount, busyCount, List.length_eq_zero_iff, List.countP_eq_zero,
    Bool.not_eq_true, forall_and]
  tauto

variable [DecidableEq τ] {setup : Setup τ} {seeds : List (Request κ)} {acts : List (Act κ V)}

/-- A run in which calls come one after another sets no count to zero too early. -/
theorem alone_of_isSuccessive (hrun : (new setup seeds).run? acts = some s)
    (hsuccessive : (new setup seeds : Shared κ V).isSuccessive acts = true) : Alone s := by
  have hall : ∀ {acts : List (Act κ V)} {d : Shared κ V}, Alone d → Counted d ∧ Supervised d →
      d.isSuccessive acts = true → d.run? acts = some s → Alone s := by
    intro acts
    induction acts with
    | nil =>
      intro d hd _ _ hrun
      obtain rfl : d = s := by simpa using hrun
      exact hd
    | cons a acts ih =>
      intro d hd hsound hturns hrun
      rw [run?_cons] at hrun
      obtain ⟨d', hd', hrun⟩ := Option.bind_eq_some_iff.1 hrun
      rw [isSuccessive, hd', Option.all_some, Bool.and_eq_true] at hturns
      exact ih (hd.step hsound.2 hturns.1 hd') (Shared.step hsound a hd') hturns.2 hrun
  exact hall (.new setup seeds) ⟨.new setup seeds, .new setup seeds⟩ hsuccessive hrun

/-- What the counters hold after every run, however many calls close the engine, at once or one after
another, and whichever are given up:

* the requests counted as under way are the workers, and the items counted as under way those in a
  stage;
* the requests counted as waiting are those in the queue, the one that the dispatcher holds, and those
  that were taken out of the queue when that was closed and are still to be thrown away; less what was
  held when a call last set the count to zero. The same goes for the items;
* the latter is nothing unless a call that has the handle is still waiting, or was given up;
* while it is nothing, the engine seems idle exactly when there is nothing of all that, and no change
  of a counter that the next move makes takes from a counter that is at zero;
* and it is nothing if calls come one after another and none is given up.

**Proof sketch.** The engine has a book of what there is, which is right after every move. The counters
change as the book does, but for the calls, which take out of the book what they take out of a queue and
set a counter to zero later. Who holds something has not ended, so the handle to wait for him is with a
call, as the queue is closed. -/
theorem counters_of_calls (hrun : (new setup seeds).run? acts = some s) :
    s.tally (.active .request) = s.engine.workers.length ∧
    s.tally (.active .item) = s.engine.itemWorkers.countP (·.isProcessing) ∧
    s.tally (.queued .request) = s.engine.requests.waiting.length + s.engine.held.length +
      s.cleared .request - s.overtaken .request ∧
    s.tally (.queued .item) = s.engine.items.waiting.length +
      s.engine.itemWorkers.countP (·.isHolding) + s.cleared .item - s.overtaken .item ∧
    (∀ w, s.cleared w ≠ 0 → Drained s.calls w) ∧ (∀ w, s.overtaken w ≠ 0 → Attended s.calls w) ∧
    ((∀ w, s.overtaken w = 0) →
      (s.isIdle = true ↔ s.engine.requests.waiting = [] ∧ s.engine.held = [] ∧ s.engine.workers = [] ∧
        s.engine.items.waiting = [] ∧
        (∀ w ∈ s.engine.itemWorkers, w.isHolding = false ∧ w.isProcessing = false) ∧
        s.cleared .request = 0 ∧ s.cleared .item = 0) ∧
      ∀ m s', s.step? (.move m) = some s' →
        s.tally.replay? (s.engine.changesTo s'.engine) = some s'.tally) ∧
    ((new setup seeds : Shared κ V).isSuccessive acts = true → ∀ w, s.overtaken w = 0) := by
  obtain ⟨hc, hs⟩ := run hrun
  have hqueued : ∀ w, s.tally (.queued w) =
      s.engine.waitingCount w + s.engine.heldCount w + s.cleared w - s.overtaken w := fun w => by
    rw [hc.queued w, hc.orderly.get_queued hc.closing w]
    push_cast
    rfl
  have hactive : ∀ w, s.tally (.active w) = s.engine.busyCount w := fun w => by
    rw [hc.active w, hc.orderly.get_active w]
  refine ⟨hactive .request, hactive .item, hqueued .request, hqueued .item, hs.cleared, hs.overtaken,
    fun hexact => ⟨hc.isIdle_iff hexact, fun m s' he => ?_⟩, fun h => (alone_of_isSuccessive hrun h).exact⟩
  obtain ⟨hm, e, hmove, rfl⟩ := move_eq_some he
  obtain ⟨hreplay, hclear⟩ := hc.orderly.replay?_changesTo hm hmove
  refine (Tally.apply_of_replay? hclear hreplay).2 fun c => ?_
  rcases c with w | w
  · have := hc.queued w
    have := hexact w
    omega
  · exact Int.le_of_eq (hc.active w).symm

/-- Whoever closes the engine of two requests finds one with the dispatcher, and takes the other out of
the queue. Both are counted until the one has ended and the other is thrown away. A second call comes
when the first has returned. -/
theorem counters_of_two_calls :
    ∃ (setup : Setup Unit) (seeds : List (Request Unit)) (acts later : List (Act Unit fun _ => Unit))
      (d s : Shared Unit fun _ : Unit => Unit),
      (new setup seeds).run? acts = some d ∧ d.engine.held.length = 1 ∧ d.cleared .request = 1 ∧
      d.tally (.queued .request) = 2 ∧ d.isIdle = false ∧
      (new setup seeds).run? (acts ++ later) = some s ∧ s.calls.length = 2 ∧
      (∀ w, s.overtaken w = 0) ∧ s.tally (.queued .request) = 0 ∧ s.isIdle = true ∧
      s.dropped .request = 1 := by
  let setup : Setup Unit := { settings := { itemWorkers := 1 } }
  let seeds : List (Request Unit) := [.make [] [] .empty, .make [] [] .empty]
  let acts : List (Act Unit fun _ : Unit => Unit) := [.move .start, .move .receive, .call]
  let later : List (Act Unit fun _ : Unit => Unit) :=
    [.move .launch, .move (.send 0), .move .receive, .move .drained, .throwAway 0,
      .move (.receiveItem 0), .throwAway 0, .call]
  have hfirst : ∃ d : Shared Unit fun _ : Unit => Unit,
      (new setup seeds).run? acts = some d ∧ d.engine.requests.waiting = [] ∧
        d.engine.held.length = 1 ∧ d.cleared .request = 1 ∧ d.isIdle = false :=
    ⟨_, rfl, rfl, rfl, rfl, rfl⟩
  have hlater : ((new setup seeds : Shared Unit fun _ : Unit => Unit).run? (acts ++ later)).map
      (fun s => ((s.calls.length, s.engine.requests.waiting.length, s.engine.held.length),
        s.cleared .request, s.isIdle, s.dropped .request)) = some ((2, 0, 0), 0, true, 1) := by
    decide +kernel
  obtain ⟨d, hd, hwaiting, hheld, hcleared, hbusy⟩ := hfirst
  obtain ⟨s, hs, hparts⟩ := Option.map_eq_some_iff.1 hlater
  obtain ⟨⟨hcalls, hwaiting', hheld'⟩, hcleared', hidle, hdropped⟩ := by
    simpa only [Prod.mk.injEq] using hparts
  obtain ⟨-, -, hcount, -, -, -, -, hexact⟩ := counters_of_calls hd
  obtain ⟨-, -, hcount', -, -, -, -, hexact'⟩ := counters_of_calls hs
  have hsuccessive : (new setup seeds : Shared Unit fun _ : Unit => Unit).isSuccessive
      (acts ++ later) = true := by decide +kernel
  rw [hexact rfl, hwaiting, hheld, hcleared] at hcount
  rw [hexact' hsuccessive, hwaiting', hheld', hcleared'] at hcount'
  exact ⟨setup, seeds, acts, later, d, s, hd, hheld, hcleared, hcount, hbusy, hs, hcalls,
    hexact' hsuccessive, hcount', hidle, hdropped⟩

/-- Two calls close an engine in which one request is under way and the dispatcher holds another one.
The first has the handle and waits. The second finds none, sets the count to zero and goes on. Then the
engine seems idle while it holds a request, and when that begins the count is taken from at zero. -/
theorem request_begins_at_zero :
    ∃ (setup : Setup Unit) (seeds : List (Request Unit)) (acts : List (Act Unit fun _ => Unit))
      (d s : Shared Unit fun _ : Unit => Unit),
      (new setup seeds).run? acts = some d ∧ d.isIdle = true ∧ d.engine.held.length = 1 ∧
      d.step? (.move .launch) = some s ∧
      d.tally.replay? (d.engine.changesTo s.engine) = none ∧
      s.engine.requests.waiting = [] ∧ s.engine.held = [] ∧ s.cleared .request = 0 ∧
      s.tally (.queued .request) = -1 ∧ word (s.tally (.queued .request)) = 2 ^ 64 - 1 :=
  ⟨{ settings := { itemWorkers := 1, maxConcurrentRequests := 1 } },
    [.make [] [] .empty, .make [] [] .empty],
    [.move .start, .move .receive, .move .launch, .move .receive, .call, .call, .throwAway 1,
      .move (.send 0)],
    _, _, rfl, rfl, rfl, rfl, rfl, rfl, rfl, rfl, rfl, rfl⟩

end Shared

end WebCrawl
