import WebCrawl.Proofs.Engine.Books
import WebCrawl.Proofs.Engine.Supervision

set_option autoImplicit false

/-!
# The closing of an engine is one call after another

The closing that an engine has of its own is what comes of calls that close it, if each is made when all
before it have returned and none is given up. Every run of an engine is such a run of calls, every such
run of calls is a run of an engine, and the counters hold the same in both.

## Main definitions

* `WebCrawl.Shared.InTurn` — the closing of an engine is the one call that has not returned.
* `WebCrawl.Shared.Agrees` — what an engine and an engine with calls have in common after such runs.

## Main results

* `WebCrawl.Shared.InTurn.step` — every move of the engine is an act that leaves calls in turn.
* `WebCrawl.Shared.InTurn.step_of_keepsTurn` — every act that leaves calls in turn is a move.
* `WebCrawl.Engine.Reachable.exists_calls` — every run of an engine is a run of calls in turn.
* `WebCrawl.Shared.exists_engine` — every run of calls in turn is a run of an engine.
-/

namespace WebCrawl

open Crawl Engine

namespace Shared

variable {κ τ : Type} {V : τ → Type} {e e' : Engine κ V} {s s' : Shared κ V}

/-! ## The one call that has not returned -/

/-- The calls that have not returned, as the closing of an engine tells of them. -/
inductive Current : Closing → List CloseCall → Prop where
  | no : Current .no []
  | requests (cleared : Nat) (waits : Bool) :
    Current (.requests cleared) [.draining .request waits 0]
  | items (discarded cleared : Nat) (waits : Bool) :
    Current (.items discarded cleared) [.draining .item waits discarded]
  | pipelines (next : Nat) : Current (.pipelines next) [.pipelines next]

/-- The engines are alike but for what is written down, the closing of the one is the one call of the
other that has not returned, and both count the same as dropped. -/
structure InTurn (e : Engine κ V) (s : Shared κ V) : Prop where
  alike : ∃ requests items : Nat, Rebooked e.closing requests items s.engine e ∧
    s.discarded .request = requests ∧ s.discarded .item = items
  cleared : s.cleared .request = e.closing.clearedRequests ∧ s.cleared .item = e.closing.clearedItems
  calls : ∃ k current, s.calls = List.replicate k .returned ++ current ∧ Current e.closing current

/-- The call that is the last one. -/
lemma getElem?_last (k : Nat) (c : CloseCall) :
    (List.replicate k .returned ++ [c])[k]? = some c := by simp

/-- The last call goes on. -/
lemma set_last (k : Nat) (c c' : CloseCall) :
    (List.replicate k CloseCall.returned ++ [c]).set k c' = List.replicate k .returned ++ [c'] := by
  simp

/-- A call that comes to a pipeline, or returns. -/
lemma exists_current (k i : Nat) (h : s.engine.setup = e.setup) :
    ∃ l current, List.replicate k .returned ++ [s.callAt i] = List.replicate l .returned ++ current ∧
      Current (e.closingFrom i) current := by
  unfold callAt closingFrom
  rw [h]
  split
  · exact ⟨k, _, rfl, .pipelines i⟩
  · exact ⟨k + 1, [], by rw [List.append_nil, List.replicate_succ'], .no⟩

namespace InTurn

lemma new (setup : Setup τ) (seeds : List (Request κ)) :
    InTurn (.new setup seeds : Engine κ V) (.new setup seeds) where
  alike := ⟨0, 0, ⟨_, _, rfl⟩, rfl, rfl⟩
  cleared := ⟨rfl, rfl⟩
  calls := ⟨0, [], rfl, .no⟩

/-- The counters hold the same. -/
lemma tally_eq (h : InTurn e s) (ho : Orderly e) (hc : Counted s) (hexact : ∀ w, s.overtaken w = 0)
    (c : Counter) : s.tally c = e.activity.get c := by
  obtain ⟨requests, items, ⟨activity, journal, hbooks⟩, -, -⟩ := h.alike
  have hparts : ∀ w, e.waitingCount w = s.engine.waitingCount w ∧ e.heldCount w = s.engine.heldCount w ∧
      e.busyCount w = s.engine.busyCount w := fun w => by
    rw [hbooks]
    cases w <;> exact ⟨rfl, rfl, rfl⟩
  rcases c with w | w
  · rw [hc.queued w, hexact w, hc.orderly.get_queued hc.closing w, ← (hparts w).1, ← (hparts w).2.1]
    cases w with
    | request =>
      change _ = (e.activity.queuedRequests : Int)
      rw [ho.queued, h.cleared.1]
      simp [waitingCount, heldCount]
    | item =>
      change _ = (e.activity.queuedItems : Int)
      rw [ho.queuedItems, h.cleared.2]
      simp [waitingCount, heldCount]
  · rw [hc.active w, hc.orderly.get_active w, ← (hparts w).2.2, ho.get_active w]

/-- What the engine throws away is counted as dropped by both. -/
lemma dropped_eq (h : InTurn e s) : s.dropped .request = e.stats.requestsDropped ∧
    s.dropped .item = e.stats.itemsDropped := by
  obtain ⟨requests, items, ⟨activity, journal, hbooks⟩, hrequests, hitems⟩ := h.alike
  rw [hbooks, dropped, dropped, hrequests, hitems]
  exact ⟨rfl, rfl⟩

/-- There seems to be nothing to do with both, or with none. -/
lemma isIdle_eq (h : InTurn e s) (ho : Orderly e) (hc : Counted s) (hexact : ∀ w, s.overtaken w = 0) :
    s.isIdle = e.isIdle := by
  unfold isIdle Engine.isIdle Activity.isIdle
  refine congrArg (List.all _) (funext fun c => ?_)
  rw [h.tally_eq ho hc hexact c]
  simp

/-! ### Moves of a closing -/

/-- The queue of the requests is closed when someone closes the engine. -/
lemma close (h : InTurn e s) (he : e.close? = some e') :
    s.keepsTurn .call = true ∧ InTurn e' s.call := by
  obtain ⟨requests, items, hbooks, hrequests, hitems⟩ := h.alike
  obtain ⟨k, current, hcalls, hcurrent⟩ := h.calls
  have hcleared := h.cleared
  obtain ⟨hclosing, rfl⟩ := close?_eq_some he
  rw [hclosing] at hbooks hcurrent hcleared
  cases hcurrent
  have hwaiting : s.engine.waitingCount .request = e.requests.waiting.length := by
    rw [hbooks.queues.1]
    rfl
  refine ⟨by simp [keepsTurn, hcalls], ?_, ⟨?_, hcleared.2⟩, k, _, ?_,
    .requests _ (s.handle .request)⟩
  · obtain ⟨activity, journal, rfl⟩ := hbooks
    exact ⟨requests, items, ⟨activity, _, rfl⟩, hrequests, hitems⟩
  · change Function.update s.cleared .request (s.cleared .request + _) .request = _
    rw [Function.update_self, hcleared.1, hwaiting]
    exact Nat.zero_add _
  · rw [call, hcalls, List.append_nil]

/-- The requests that waited are thrown away by the one call. -/
lemma discardRequests (h : InTurn e s) (htally : ∀ c, s.tally c = e.activity.get c)
    (he : e.discardRequests? = some e') : ∃ j s', s.throwAway? j = some s' ∧ InTurn e' s' := by
  obtain ⟨requests, items, hbooks, hrequests, hitems⟩ := h.alike
  obtain ⟨k, current, hcalls, hcurrent⟩ := h.calls
  have hcleared := h.cleared
  obtain ⟨n, hclosing, hended, rfl⟩ := discardRequests?_eq_some he
  rw [hclosing] at hbooks hcurrent hcleared
  cases hcurrent with | requests _ waits =>
  have hlast : s.calls[k]? = some (.draining .request waits 0) := hcalls ▸ getElem?_last k _
  have hloop : s.engine.loopHasEnded .request = true := by
    obtain ⟨activity, journal, rfl⟩ := hbooks
    exact hended
  have hwaiting : s.engine.waitingCount .item = e.items.waiting.length := by
    rw [hbooks.queues.2]
    rfl
  refine ⟨k, _, by simp only [throwAway?, hlast, hloop, Bool.not_true, Bool.and_false]; rfl, ?_,
    ⟨rfl, ?_⟩, k, _, ?_, .items _ _ (s.handle .item)⟩
  · obtain ⟨activity, journal, rfl⟩ := hbooks
    exact ⟨requests, items, ⟨_, _, rfl⟩, hrequests, hitems⟩
  · change Function.update (Function.update s.cleared .request 0) .item
      (s.cleared .item + s.engine.waitingCount .item) .item = _
    rw [Function.update_self, hcleared.2, hwaiting]
    exact Nat.zero_add _
  · change s.calls.set k _ = _
    rw [hcalls, set_last, htally]
    rfl

/-- The items that waited are thrown away by the one call. -/
lemma discardItems (h : InTurn e s) (htally : ∀ c, s.tally c = e.activity.get c)
    (he : e.discardItems? = some e') : ∃ j s', s.throwAway? j = some s' ∧ InTurn e' s' := by
  obtain ⟨requests, items, hbooks, hrequests, hitems⟩ := h.alike
  obtain ⟨k, current, hcalls, hcurrent⟩ := h.calls
  have hcleared := h.cleared
  obtain ⟨d, n, hclosing, hended, rfl⟩ := discardItems?_eq_some he
  rw [hclosing] at hbooks hcurrent hcleared
  cases hcurrent with | items _ _ waits =>
  have hlast : s.calls[k]? = some (.draining .item waits d) := hcalls ▸ getElem?_last k _
  have hloop : s.engine.loopHasEnded .item = true := by
    obtain ⟨activity, journal, rfl⟩ := hbooks
    exact hended
  obtain ⟨l, current, hcalls', hcurrent⟩ := exists_current (s := s) k 0 hbooks.setup.symm
  have hnone : (e.closingFrom 0).clearedRequests = 0 ∧ (e.closingFrom 0).clearedItems = 0 := by
    obtain hno | hno := Orderly.closingFrom_cases e 0 <;> rw [hno] <;> exact ⟨rfl, rfl⟩
  refine ⟨k, _, by simp only [throwAway?, hlast, hloop, Bool.not_true, Bool.and_false]; rfl,
    ⟨requests + d, items + e.activity.queuedItems, ?_, ?_, ?_⟩, ⟨?_, ?_⟩, l, current, ?_, hcurrent⟩
  · obtain ⟨activity, journal, rfl⟩ := hbooks
    exact ⟨{ activity with queuedItems := 0 }, .discarded d activity.queuedItems :: journal,
      by simp only [Stats.recordDiscarded, Nat.add_assoc]; rfl⟩
  · exact congrArg (· + (d : Int)) hrequests
  · change s.discarded .item + s.tally (.queued .item) = _
    rw [hitems, htally]
    rfl
  · exact hcleared.1.trans hnone.1.symm
  · exact hnone.2.symm
  · change s.calls.set k _ = _
    rw [hcalls, set_last, hcalls']

/-- A pipeline is closed by the one call. -/
lemma closePipeline (h : InTurn e s) (he : e.closePipeline? = some e') :
    ∃ j s', s.closePipeline? j = some s' ∧ InTurn e' s' := by
  obtain ⟨requests, items, hbooks, hrequests, hitems⟩ := h.alike
  obtain ⟨k, current, hcalls, hcurrent⟩ := h.calls
  have hcleared := h.cleared
  obtain ⟨i, hclosing, rfl⟩ := Engine.closePipeline?_eq_some he
  rw [hclosing] at hbooks hcurrent hcleared
  cases hcurrent with | pipelines =>
  have hlast : s.calls[k]? = some (.pipelines i) := hcalls ▸ getElem?_last k _
  obtain ⟨l, current, hcalls', hcurrent⟩ := exists_current (s := s) k (i + 1) hbooks.setup.symm
  have hnone : (e.closingFrom (i + 1)).clearedRequests = 0 ∧
      (e.closingFrom (i + 1)).clearedItems = 0 := by
    obtain hno | hno := Orderly.closingFrom_cases e (i + 1) <;> rw [hno] <;> exact ⟨rfl, rfl⟩
  refine ⟨k, _, by simp only [Shared.closePipeline?, hlast]; rfl, ?_, ⟨?_, ?_⟩, l, current, ?_, hcurrent⟩
  · obtain ⟨activity, journal, rfl⟩ := hbooks
    exact ⟨requests, items, ⟨_, _, rfl⟩, hrequests, hitems⟩
  · exact hcleared.1.trans hnone.1.symm
  · exact hcleared.2.trans hnone.2.symm
  · change s.calls.set k _ = _
    rw [hcalls, set_last, hcalls']

/-- The one call that has not returned. -/
lemma current (h : InTurn e s) {j : Nat} {c : CloseCall} (hj : s.calls[j]? = some c)
    (hc : c ≠ .returned) : Current e.closing [c] := by
  obtain ⟨k, current, hcalls, hcurrent⟩ := h.calls
  have hmem : c ∈ current := by
    rcases List.mem_append.1 (hcalls ▸ List.mem_of_getElem? hj) with hmem | hmem
    · exact absurd (List.eq_of_mem_replicate hmem) hc
    · exact hmem
  have hone : current = [c] := by
    generalize e.closing = closing at hcurrent
    cases hcurrent <;> simp_all
  exact hone ▸ hcurrent

/-- The engine is being closed exactly when there is a call that has not returned. -/
lemma closing_eq_no_iff (h : InTurn e s) : e.closing = .no ↔ ∀ c ∈ s.calls, c = .returned := by
  obtain ⟨k, current, hcalls, hcurrent⟩ := h.calls
  rw [hcalls]
  generalize e.closing = closing at hcurrent
  cases hcurrent <;> simp

variable [DecidableEq τ]

/-- A move that is not of a closing is made by both engines, or by none. -/
lemma move (h : InTurn e s) {m : Move κ V} (hm : m.closes = false) :
    Option.Rel (fun d e' => InTurn e' (s.goOn d)) (s.engine.step? m) (e.step? m) := by
  obtain ⟨requests, items, hbooks, hdiscarded⟩ := h.alike
  have hrel := hbooks.step? hm
  generalize s.engine.step? m = d?, e.step? m = e? at hrel
  cases hrel with
  | none => exact .none
  | some hbooks' =>
    refine .some ⟨?_, ?_, ?_⟩
    · exact hbooks'.closing_eq ▸ ⟨requests, items, hbooks', hdiscarded⟩
    · exact hbooks'.closing_eq ▸ h.cleared
    · exact hbooks'.closing_eq ▸ h.calls

/-- Every move of the engine is an act that leaves calls in turn. -/
theorem step (h : InTurn e s) (ho : Orderly e) (hc : Counted s) (hexact : ∀ w, s.overtaken w = 0)
    {m : Move κ V} (he : e.step? m = some e') :
    ∃ a s', s.step? a = some s' ∧ s.keepsTurn a = true ∧ InTurn e' s' := by
  have htally := h.tally_eq ho hc hexact
  cases hm : m.closes with
  | false =>
    have hrel := h.move hm
    rw [he] at hrel
    generalize hd : s.engine.step? m = d? at hrel
    cases hrel with
    | @some d _ hturn => exact ⟨.move m, s.goOn d, by simp [step?, hm, hd], rfl, hturn⟩
  | true =>
    cases m with
    | close => exact ⟨.call, s.call, rfl, h.close he⟩
    | discardRequests =>
      obtain ⟨j, s', hs', hturn⟩ := h.discardRequests htally he
      exact ⟨.throwAway j, s', hs', rfl, hturn⟩
    | discardItems =>
      obtain ⟨j, s', hs', hturn⟩ := h.discardItems htally he
      exact ⟨.throwAway j, s', hs', rfl, hturn⟩
    | closePipeline =>
      obtain ⟨j, s', hs', hturn⟩ := h.closePipeline he
      exact ⟨.closePipeline j, s', hs', rfl, hturn⟩
    | _ => cases hm

/-- What a call throws away is thrown away by the engine, if there is no other call that could. -/
lemma throwAway_move (h : InTurn e s) (htally : ∀ c, s.tally c = e.activity.get c) (hs : Supervised s)
    (halone : Alone s) {j : Nat} (he : s.throwAway? j = some s') :
    ∃ m e', e.step? m = some e' ∧ InTurn e' s' := by
  obtain ⟨requests, items, ⟨activity, journal, hbooks⟩, -⟩ := h.alike
  have hended : ∀ w, e.loopHasEnded w = s.engine.loopHasEnded w := fun w => by
    rw [hbooks]
    cases w <;> rfl
  have hsame : ∀ {i : Nat} {d : Shared κ V}, s.throwAway? i = some d → d = s' := by
    intro i d hi
    obtain ⟨b, hb, hneb⟩ := unreturned_of_throwAway? hi
    obtain ⟨c, hc, hnec⟩ := unreturned_of_throwAway? he
    obtain rfl := halone.single hb hc hneb hnec
    exact Option.some.inj (hi.symm.trans he)
  obtain ⟨waits, n, hj, hwaits, -⟩ | ⟨waits, n, hj, hwaits, -⟩ := throwAway?_eq_some he
  · have hrequests : e.dispatcherHasEnded = true :=
      (hended .request).trans (halone.loopHasEnded hs hj hwaits)
    have hmove : ∃ e', e.discardRequests? = some e' := by
      generalize hclosing : e.closing = closing at *
      cases hclosing ▸ h.current hj (by simp) with
      | requests => simp [discardRequests?, hclosing, hrequests]
    obtain ⟨e', he'⟩ := hmove
    obtain ⟨i, d, hd, hturn⟩ := h.discardRequests htally he'
    exact ⟨.discardRequests, e', he', hsame hd ▸ hturn⟩
  · have hitems : e.itemWorkersHaveEnded = true :=
      (hended .item).trans (halone.loopHasEnded hs hj hwaits)
    have hmove : ∃ e', e.discardItems? = some e' := by
      generalize hclosing : e.closing = closing at *
      cases hclosing ▸ h.current hj (by simp) with
      | items => simp [discardItems?, hclosing, hitems]
    obtain ⟨e', he'⟩ := hmove
    obtain ⟨i, d, hd, hturn⟩ := h.discardItems htally he'
    exact ⟨.discardItems, e', he', hsame hd ▸ hturn⟩

/-- Every act that leaves calls in turn is a move of the engine. -/
theorem step_of_keepsTurn (h : InTurn e s) (ho : Orderly e) (hsound : Counted s ∧ Supervised s)
    (halone : Alone s) {a : Act κ V} (hturn : s.keepsTurn a = true) (he : s.step? a = some s') :
    ∃ m e', e.step? m = some e' ∧ InTurn e' s' := by
  cases a with
  | move m =>
    obtain ⟨hm, d, hd, rfl⟩ := move_eq_some he
    have hrel := h.move hm
    rw [hd] at hrel
    generalize he' : e.step? m = e? at hrel
    cases hrel with
    | @some _ e' hturn' => exact ⟨m, e', he', hturn'⟩
  | call =>
    obtain rfl := Option.some.inj he
    have hno : e.closing = .no := h.closing_eq_no_iff.2 (by simpa [keepsTurn] using hturn)
    obtain ⟨e', he'⟩ : ∃ e', e.close? = some e' := by simp [close?, hno]
    exact ⟨.close, e', he', (h.close he').2⟩
  | throwAway j => exact h.throwAway_move (h.tally_eq ho hsound.1 halone.exact) hsound.2 halone he
  | closePipeline j =>
    obtain ⟨i, hj, -⟩ := Shared.closePipeline?_eq_some he
    obtain ⟨e', he'⟩ : ∃ e', e.closePipeline? = some e' := by
      generalize hclosing : e.closing = closing at *
      cases hclosing ▸ h.current hj (by simp) with
      | pipelines => simp [Engine.closePipeline?, hclosing]
    obtain ⟨k, d, hd, hturn'⟩ := h.closePipeline he'
    obtain ⟨l, hk, -⟩ := Shared.closePipeline?_eq_some hd
    obtain rfl := halone.single hk hj (by simp) (by simp)
    exact ⟨.closePipeline, e', he', Option.some.inj (hd.symm.trans he) ▸ hturn'⟩
  | giveUp j => cases hturn

end InTurn

/-! ## Every run -/

/-- An engine and one that is closed by calls are alike but for what is written down, their counters hold
the same, and they have dropped as much. The one is being closed exactly when there is a call that has
not returned. -/
structure Agrees (e : Engine κ V) (s : Shared κ V) : Prop where
  alike : ∃ requests items : Nat, Rebooked e.closing requests items s.engine e
  tally : ∀ c, s.tally c = e.activity.get c
  isIdle : s.isIdle = e.isIdle
  dropped : s.dropped .request = e.stats.requestsDropped ∧ s.dropped .item = e.stats.itemsDropped
  closing : e.closing = .no ↔ ∀ c ∈ s.calls, c = .returned

/-- An engine and one that is closed by calls have come from the same seeds, move by act. -/
structure Abreast (e : Engine κ V) (s : Shared κ V) : Prop where
  inTurn : InTurn e s
  orderly : Orderly e
  sound : Counted s ∧ Supervised s
  alone : Alone s

namespace Abreast

lemma new (setup : Setup τ) (seeds : List (Request κ)) :
    Abreast (.new setup seeds : Engine κ V) (.new setup seeds) where
  inTurn := .new setup seeds
  orderly := .new setup seeds
  sound := ⟨.new setup seeds, .new setup seeds⟩
  alone := .new setup seeds

lemma agrees (h : Abreast e s) : Agrees e s where
  alike := by
    obtain ⟨requests, items, hbooks, -⟩ := h.inTurn.alike
    exact ⟨requests, items, hbooks⟩
  tally := h.inTurn.tally_eq h.orderly h.sound.1 h.alone.exact
  isIdle := h.inTurn.isIdle_eq h.orderly h.sound.1 h.alone.exact
  dropped := h.inTurn.dropped_eq
  closing := h.inTurn.closing_eq_no_iff

variable [DecidableEq τ]

/-- The engine moves, and there is an act that does the same. -/
lemma step (h : Abreast e s) {m : Move κ V} (he : e.step? m = some e') :
    ∃ a s', s.step? a = some s' ∧ s.keepsTurn a = true ∧ Abreast e' s' := by
  obtain ⟨a, s', hs, hkeeps, hturn⟩ := h.inTurn.step h.orderly h.sound.1 h.alone.exact he
  exact ⟨a, s', hs, hkeeps, hturn, h.orderly.step m he, Shared.step h.sound a hs,
    h.alone.step h.sound.2 hkeeps hs⟩

/-- There is an act, and the engine has a move that does the same. -/
lemma act (h : Abreast e s) {a : Act κ V} (hkeeps : s.keepsTurn a = true) (hs : s.step? a = some s') :
    ∃ m e', e.step? m = some e' ∧ Abreast e' s' := by
  obtain ⟨m, e', he, hturn⟩ := h.inTurn.step_of_keepsTurn h.orderly h.sound h.alone hkeeps hs
  exact ⟨m, e', he, hturn, h.orderly.step m he, Shared.step h.sound a hs,
    h.alone.step h.sound.2 hkeeps hs⟩

/-- The same of a run of the engine. -/
lemma run {moves : List (Move κ V)} (h : Abreast e s) (hrun : e.run? moves = some e') :
    ∃ acts s', s.run? acts = some s' ∧ s.isSuccessive acts = true ∧ Abreast e' s' := by
  induction moves generalizing e s with
  | nil =>
    obtain rfl : e = e' := by simpa using hrun
    exact ⟨[], s, rfl, rfl, h⟩
  | cons m moves ih =>
    rw [Engine.run?_cons] at hrun
    obtain ⟨d, hd, hrun⟩ := Option.bind_eq_some_iff.1 hrun
    obtain ⟨a, u, hu, hkeeps, h'⟩ := h.step hd
    obtain ⟨acts, s', hs', hsuccessive, hlast⟩ := ih h' hrun
    refine ⟨a :: acts, s', ?_, ?_, hlast⟩
    · rw [run?_cons, hu]
      exact hs'
    · rw [isSuccessive, hkeeps, hu]
      exact hsuccessive

/-- The same of a run of calls in turn. -/
lemma acts {acts : List (Act κ V)} (h : Abreast e s) (hsuccessive : s.isSuccessive acts = true)
    (hrun : s.run? acts = some s') : ∃ moves e', e.run? moves = some e' ∧ Abreast e' s' := by
  induction acts generalizing e s with
  | nil =>
    obtain rfl : s = s' := by simpa using hrun
    exact ⟨[], e, rfl, h⟩
  | cons a acts ih =>
    rw [run?_cons] at hrun
    obtain ⟨u, hu, hrun⟩ := Option.bind_eq_some_iff.1 hrun
    rw [isSuccessive, hu, Option.all_some, Bool.and_eq_true] at hsuccessive
    obtain ⟨m, d, hd, h'⟩ := h.act hsuccessive.1 hu
    obtain ⟨moves, e', he', hlast⟩ := ih h' hsuccessive.2 hrun
    refine ⟨m :: moves, e', ?_, hlast⟩
    rw [Engine.run?_cons, hd]
    exact he'

end Abreast

variable [DecidableEq τ] {setup : Setup τ} {seeds : List (Request κ)}

/-- Every run of calls that close an engine one after another, none of which is given up, comes of an
engine with the closing of its own. -/
theorem exists_engine {acts : List (Act κ V)} (hrun : (new setup seeds).run? acts = some s)
    (hsuccessive : (new setup seeds : Shared κ V).isSuccessive acts = true) :
    ∃ e : Engine κ V, Engine.Reachable setup seeds e ∧ Agrees e s := by
  obtain ⟨moves, e, he, habreast⟩ := (Abreast.new setup seeds).acts hsuccessive hrun
  exact ⟨e, ⟨moves, he⟩, habreast.agrees⟩

end Shared

/-- Every run of an engine comes of calls that close it one after another, none of which is given up.

**Proof sketch.** Every move is an act: a move that is not of a closing does not look at what is written
down, and a move of a closing is the next step of the one call that has not returned. -/
theorem Engine.Reachable.exists_calls {κ τ : Type} {V : τ → Type} [DecidableEq τ] {setup : Setup τ}
    {seeds : List (Request κ)} {e : Engine κ V} (h : Engine.Reachable setup seeds e) :
    ∃ (acts : List (Act κ V)) (s : Shared κ V),
      (Shared.new setup seeds).run? acts = some s ∧
      (Shared.new setup seeds : Shared κ V).isSuccessive acts = true ∧ Shared.Agrees e s := by
  obtain ⟨moves, hrun⟩ := h
  obtain ⟨acts, s, hs, hsuccessive, habreast⟩ := (Shared.Abreast.new setup seeds).run hrun
  exact ⟨acts, s, hs, hsuccessive, habreast.agrees⟩

end WebCrawl
