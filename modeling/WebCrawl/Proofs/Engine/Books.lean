import WebCrawl.Proofs.Engine.Pipelines

set_option autoImplicit false

/-!
# What an engine only writes down

The counters of the work, what counts as dropped, the journal and how far the closing has come are
written and not read by the moves that are not of a closing. So two engines that are alike but for these
can make the same moves, and are alike after them.

## Main definitions

* `WebCrawl.Engine.Rebooked` — an engine is another one but for what is written down.

## Main results

* `WebCrawl.Engine.Rebooked.step` — the two make the same moves.
-/

namespace WebCrawl.Engine

open Crawl

variable {κ τ : Type} {V : τ → Type}

/-- An engine is another one but for the counters of its work and its journal; its closing has come so
far, and so many requests and items more count as dropped. -/
def Rebooked (closing : Closing) (requests items : Nat) (d e : Engine κ V) : Prop :=
  ∃ activity journal, e =
    { d with
      activity := activity
      journal := journal
      closing := closing
      stats := { d.stats with
        requestsDropped := d.stats.requestsDropped + requests
        itemsDropped := d.stats.itemsDropped + items } }

namespace Rebooked

variable {closing : Closing} {requests items : Nat} {d e : Engine κ V}

/-- What is not written down is the same. -/
lemma setup (h : Rebooked closing requests items d e) : e.setup = d.setup := by
  obtain ⟨activity, journal, rfl⟩ := h
  rfl

lemma queues (h : Rebooked closing requests items d e) :
    e.requests = d.requests ∧ e.items = d.items := by
  obtain ⟨activity, journal, rfl⟩ := h
  exact ⟨rfl, rfl⟩

lemma closing_eq (h : Rebooked closing requests items d e) : e.closing = closing := by
  obtain ⟨activity, journal, rfl⟩ := h
  rfl

/-! ## What is done -/

lemma handIn (h : Rebooked closing requests items d e) (origin : Origin) (r : Request κ) :
    Rebooked closing requests items (d.handIn origin r).2 (e.handIn origin r).2 := by
  cases hc : d.requests.closed with
  | true =>
    rw [handIn_closed d origin r hc, handIn_closed e origin r (h.queues.1 ▸ hc)]
    obtain ⟨activity, journal, rfl⟩ := h
    exact ⟨activity, .refused origin r :: journal, by simp only [Nat.add_right_comm _ requests 1]⟩
  | false =>
    rw [handIn_open d origin r hc, handIn_open e origin r (h.queues.1 ▸ hc)]
    obtain ⟨activity, journal, rfl⟩ := h
    exact ⟨_, _, rfl⟩

lemma submitItem (h : Rebooked closing requests items d e) (i : Envelope κ V) :
    Rebooked closing requests items (d.submitItem i).2 (e.submitItem i).2 := by
  cases hc : d.items.closed with
  | true =>
    rw [submitItem_closed d i hc, submitItem_closed e i (h.queues.2 ▸ hc)]
    obtain ⟨activity, journal, rfl⟩ := h
    exact ⟨activity, .itemRefused i :: journal, by simp only [Nat.add_right_comm _ items 1]⟩
  | false =>
    rw [submitItem_open d i hc, submitItem_open e i (h.queues.2 ▸ hc)]
    obtain ⟨activity, journal, rfl⟩ := h
    exact ⟨_, _, rfl⟩

lemma perform (h : Rebooked closing requests items d e) (effect : Effect κ V) :
    Rebooked closing requests items (d.perform effect) (e.perform effect) := by
  cases effect with
  | add c r => exact h.handIn _ _
  | retry c r => exact h.handIn _ _
  | submit r => exact h.handIn _ _
  | item c i => exact h.submitItem _
  | query source =>
    obtain ⟨activity, journal, rfl⟩ := h
    exact ⟨_, _, rfl⟩

/-- The first requests are handed in. -/
lemma seeds (h : Rebooked closing requests items d e) (rs : List (Request κ)) :
    Rebooked closing requests items (rs.foldl (fun e r => e.perform (.add .root r)) d)
      (rs.foldl (fun e r => e.perform (.add .root r)) e) := by
  induction rs generalizing d e with
  | nil => exact h
  | cons r rs ih => exact ih (h.perform _)

lemma start (h : Rebooked closing requests items d e) :
    Rebooked closing requests items d.start.2 e.start.2 := by
  obtain ⟨activity, journal, rfl⟩ := h
  unfold Engine.start
  dsimp only
  cases d.started || !d.connectable
  · exact seeds ⟨_, _, rfl⟩ _
  · exact ⟨_, _, rfl⟩

/-! ## Requests under way -/

lemma finish (h : Rebooked closing requests items d e) (n : Nat) :
    Rebooked closing requests items (d.finish n) (e.finish n) := by
  obtain ⟨activity, journal, rfl⟩ := h
  exact ⟨_, _, rfl⟩

lemma enter (h : Rebooked closing requests items d e) (n : Nat) (phase : Phase κ) :
    Rebooked closing requests items (d.enter n phase) (e.enter n phase) := by
  obtain ⟨activity, journal, rfl⟩ := h
  exact ⟨_, _, rfl⟩

lemma tellNext (h : Rebooked closing requests items d e) (n : Nat) (notice : Notice κ) (isRead : Bool)
    (levels : List (Level κ)) :
    Rebooked closing requests items (d.tellNext n notice isRead levels)
      (e.tellNext n notice isRead levels) := by
  cases levels with
  | nil => exact h.finish n
  | cons level later =>
    obtain ⟨activity, journal, rfl⟩ := h
    exact ⟨_, _, rfl⟩

lemma tell (h : Rebooked closing requests items d e) (n : Nat) (notice : Notice κ) (isRead : Bool) :
    Rebooked closing requests items (d.tell n notice isRead) (e.tell n notice isRead) := by
  have hnoted : Rebooked closing requests items (d.log (.noted n notice)) (e.log (.noted n notice)) := by
    obtain ⟨activity, journal, rfl⟩ := h
    exact ⟨_, _, rfl⟩
  rw [Engine.tell, Engine.tell, h.setup]
  exact hnoted.tellNext n notice isRead _

lemma fail (h : Rebooked closing requests items d e) (n : Nat) (r : Request κ) (error : Error) :
    Rebooked closing requests items (d.fail n r error) (e.fail n r error) := by
  refine tell ?_ n _ _
  obtain ⟨activity, journal, rfl⟩ := h
  exact ⟨_, _, rfl⟩

/-- The worker hands in another request in place of its own and ends. -/
lemma replace (h : Rebooked closing requests items d e) (n : Nat) (c : Context κ) (r : Request κ) :
    Rebooked closing requests items ((d.resubmit n c r).finish n) ((e.resubmit n c r).finish n) :=
  (h.handIn _ _).finish n

lemma follow (h : Rebooked closing requests items d e) (n : Nat) (r : Request κ) (a : Answer)
    (location : Text) :
    Rebooked closing requests items (d.follow n r a location) (e.follow n r a location) := by
  obtain ⟨activity, journal, rfl⟩ := h
  unfold Engine.follow
  dsimp only
  split
  · exact fail ⟨_, _, rfl⟩ n r _
  · split
    · exact fail ⟨_, _, rfl⟩ n r _
    · split
      · exact tell ⟨_, _, rfl⟩ n _ _
      · exact replace ⟨_, _, rfl⟩ n _ _

lemma succeed (h : Rebooked closing requests items d e) (n : Nat) (r : Request κ) (a : Answer) :
    Rebooked closing requests items (d.succeed n r a) (e.succeed n r a) := by
  obtain ⟨activity, journal, rfl⟩ := h
  exact tell ⟨_, _, rfl⟩ n _ _

lemma repeatOrFail (h : Rebooked closing requests items d e) (n : Nat) (r : Request κ) (error : Error) :
    Rebooked closing requests items (d.repeatOrFail n r error) (e.repeatOrFail n r error) := by
  have hrepeats : e.repeats r error = d.repeats r error := by
    obtain ⟨activity, journal, rfl⟩ := h
    rfl
  unfold Engine.repeatOrFail
  rw [hrepeats]
  split
  · refine replace ?_ n _ _
    obtain ⟨activity, journal, rfl⟩ := h
    exact ⟨_, _, rfl⟩
  · exact h.fail n r error

lemma pass (h : Rebooked closing requests items d e) (n : Nat) (notice : Notice κ)
    (next : Option (Request κ)) :
    Rebooked closing requests items (d.pass n notice next) (e.pass n notice next) := by
  unfold Engine.pass
  split
  · exact h.handIn _ _
  · exact h

/-! ## Items under way -/

lemma finishItem (h : Rebooked closing requests items d e) (k : Nat) (passed : Bool) :
    Rebooked closing requests items (d.finishItem k passed) (e.finishItem k passed) := by
  obtain ⟨activity, journal, rfl⟩ := h
  cases passed with
  | true => exact ⟨_, _, rfl⟩
  | false =>
    exact ⟨_, _, by simp only [Engine.finishItem, Nat.add_right_comm _ items 1]; rfl⟩

lemma nextStage (h : Rebooked closing requests items d e) (k : Nat) (i : Envelope κ V)
    (stages : List (Stage τ)) :
    Rebooked closing requests items (d.nextStage k i stages) (e.nextStage k i stages) := by
  cases stages with
  | nil => exact h.finishItem k true
  | cons stage later =>
    obtain ⟨activity, journal, rfl⟩ := h
    exact ⟨_, _, rfl⟩

/-! ## Moves -/

lemma receive? (h : Rebooked closing requests items d e) :
    Option.Rel (Rebooked closing requests items) d.receive? e.receive? := by
  obtain ⟨activity, journal, rfl⟩ := h
  unfold Engine.receive?
  dsimp only
  split
  · split
    · exact .some ⟨_, _, rfl⟩
    · split
      · exact .some ⟨_, _, rfl⟩
      · exact .none
  · exact .none

lemma launch? (h : Rebooked closing requests items d e) :
    Option.Rel (Rebooked closing requests items) d.launch? e.launch? := by
  have hpaced : e.isPaced = d.isPaced := by rw [isPaced, isPaced, h.setup]
  obtain ⟨activity, journal, rfl⟩ := h
  unfold Engine.launch?
  dsimp only
  split
  · rw [hpaced]
    split
    · exact .some ⟨_, _, rfl⟩
    · split
      · exact .some ⟨_, _, rfl⟩
      · exact .none
  · exact .none

lemma attended? (h : Rebooked closing requests items d e) :
    Option.Rel (Rebooked closing requests items) d.attended? e.attended? := by
  obtain ⟨activity, journal, rfl⟩ := h
  unfold Engine.attended? worker?
  dsimp only
  split
  · split
    · exact .some ⟨_, _, rfl⟩
    · exact .none
  · exact .none

lemma resume? (h : Rebooked closing requests items d e) :
    Option.Rel (Rebooked closing requests items) d.resume? e.resume? := by
  obtain ⟨activity, journal, rfl⟩ := h
  unfold Engine.resume?
  dsimp only
  split
  · exact .some ⟨_, _, rfl⟩
  · exact .none

lemma drained? (h : Rebooked closing requests items d e) :
    Option.Rel (Rebooked closing requests items) d.drained? e.drained? := by
  obtain ⟨activity, journal, rfl⟩ := h
  unfold Engine.drained?
  dsimp only
  split
  · split
    · exact .some ⟨_, _, rfl⟩
    · exact .none
  · exact .none

lemma worker? (h : Rebooked closing requests items d e) (n : Nat) : e.worker? n = d.worker? n := by
  obtain ⟨activity, journal, rfl⟩ := h
  rfl

lemma send? (h : Rebooked closing requests items d e) (n : Nat) :
    Option.Rel (Rebooked closing requests items) (d.send? n) (e.send? n) := by
  unfold Engine.send?
  rw [h.worker? n, h.setup]
  split
  · split
    · exact .some (h.fail n _ _)
    · obtain ⟨activity, journal, rfl⟩ := h
      exact .some ⟨_, _, rfl⟩
  · exact .none

lemma answer? (h : Rebooked closing requests items d e) (n : Nat) (outcome : Outcome) :
    Option.Rel (Rebooked closing requests items) (d.answer? n outcome) (e.answer? n outcome) := by
  unfold Engine.answer?
  rw [h.worker? n]
  split
  · split
    · rename_i a
      have hheard : Rebooked closing requests items (d.hear n a) (e.hear n a) := by
        obtain ⟨activity, journal, rfl⟩ := h
        exact ⟨_, _, rfl⟩
      dsimp only
      split
      · exact .some (hheard.follow n _ a _)
      · exact .some (hheard.succeed n _ a)
    · exact .some (h.repeatOrFail n _ _)
    · exact .some (h.repeatOrFail n _ _)
  · exact .none

lemma act? (h : Rebooked closing requests items d e) (n : Nat) (effect : Effect κ V) :
    Option.Rel (Rebooked closing requests items) (d.act? n effect) (e.act? n effect) := by
  unfold Engine.act?
  rw [h.worker? n]
  split
  · exact .some ((h.perform effect).enter n _)
  · exact .none

lemma reply? (h : Rebooked closing requests items d e) (n : Nat) (next : Option (Request κ)) :
    Option.Rel (Rebooked closing requests items) (d.reply? n next) (e.reply? n next) := by
  unfold Engine.reply?
  rw [h.worker? n]
  split
  · exact .some ((h.pass n _ next).tellNext n _ _ _)
  · exact .none

lemma panic? (h : Rebooked closing requests items d e) (n : Nat) :
    Option.Rel (Rebooked closing requests items) (d.panic? n) (e.panic? n) := by
  unfold Engine.panic?
  rw [h.worker? n]
  split
  · exact .some (h.finish n)
  · exact .none

lemma receiveItem? (h : Rebooked closing requests items d e) (k : Nat) :
    Option.Rel (Rebooked closing requests items) (d.receiveItem? k) (e.receiveItem? k) := by
  obtain ⟨activity, journal, rfl⟩ := h
  unfold Engine.receiveItem?
  dsimp only
  split
  · split
    · exact .some ⟨_, _, rfl⟩
    · split
      · exact .some ⟨_, _, rfl⟩
      · exact .none
  · exact .none

lemma actItem? (h : Rebooked closing requests items d e) (k : Nat) (effect : Effect κ V) :
    Option.Rel (Rebooked closing requests items) (d.actItem? k effect) (e.actItem? k effect) := by
  have hworkers : e.itemWorkers = d.itemWorkers := by
    obtain ⟨activity, journal, rfl⟩ := h
    rfl
  unfold Engine.actItem?
  rw [hworkers]
  split
  · exact .some (h.perform effect)
  · exact .none

lemma judge? (h : Rebooked closing requests items d e) (k : Nat) (verdict : Verdict V) :
    Option.Rel (Rebooked closing requests items) (d.judge? k verdict) (e.judge? k verdict) := by
  have hworkers : e.itemWorkers = d.itemWorkers := by
    obtain ⟨activity, journal, rfl⟩ := h
    rfl
  unfold Engine.judge?
  rw [hworkers]
  split
  · cases verdict with
    | keep => exact .some (h.nextStage k _ _)
    | replace item => exact .some (h.nextStage k _ _)
    | drop => exact .some (h.finishItem k false)
    | panic => exact .some (h.finishItem k false)
  · exact .none

variable [DecidableEq τ]

lemma beginItem? (h : Rebooked closing requests items d e) (k : Nat) :
    Option.Rel (Rebooked closing requests items) (d.beginItem? k) (e.beginItem? k) := by
  have hstages : ∀ kind, e.stagesOf kind = d.stagesOf kind := fun kind => by
    rw [stagesOf, stagesOf, h.setup]
  unfold Engine.beginItem?
  simp only [hstages]
  obtain ⟨activity, journal, rfl⟩ := h
  dsimp only
  split
  · split
    · exact .some (nextStage ⟨_, _, rfl⟩ k _ _)
    · exact .none
  · exact .none

/-- Engines that are alike but for what is written down make the same moves, and are alike after them.
-/
theorem step? (h : Rebooked closing requests items d e) {m : Move κ V} (hm : m.closes = false) :
    Option.Rel (Rebooked closing requests items) (d.step? m) (e.step? m) := by
  cases m with
  | close | discardRequests | discardItems | closePipeline => cases hm
  | start => exact .some h.start
  | ask effect => exact .some (h.perform effect)
  | receive => exact h.receive?
  | launch => exact h.launch?
  | attended => exact h.attended?
  | resume => exact h.resume?
  | drained => exact h.drained?
  | send n => exact h.send? n
  | answer n outcome => exact h.answer? n outcome
  | act n effect => exact h.act? n effect
  | reply n next => exact h.reply? n next
  | panic n => exact h.panic? n
  | receiveItem k => exact h.receiveItem? k
  | beginItem k => exact h.beginItem? k
  | actItem k effect => exact h.actItem? k effect
  | judge k verdict => exact h.judge? k verdict

end Rebooked

end WebCrawl.Engine
