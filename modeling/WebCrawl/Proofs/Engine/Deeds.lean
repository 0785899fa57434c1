import Mathlib.Logic.Relation
import WebCrawl.Proofs.Engine.Moves

set_option autoImplicit false

/-!
# The deeds of which most moves consist

Most moves of an engine are made by its dispatcher, by a worker, or by a handler or a stage or someone
outside who does something. Such a move is a short sequence of deeds: something is handed in, or
something happens with a request that is under way. The item workers and the closing are as they
were, and so are the counters of what was lost, except that what is handed in may be refused.

## Main definitions

* `WebCrawl.Engine.Background` — what is not of the dispatcher and the workers.
* `WebCrawl.Engine.Deed` — the deeds.

## Main results

* `WebCrawl.Engine.deeds_step` — a move that is not of the item workers or of the closing is a
  sequence of deeds.
-/

namespace WebCrawl.Engine

open Crawl Relation

variable {κ τ : Type} {V : τ → Type}

/-! ## Deeds -/

/-- Whether something happens with a worker with an event. -/
def Event.isOfWorker : Event κ V → Bool
  | .began _ _ => true
  | .sent _ _ => true
  | .answered _ _ => true
  | .noted _ _ => true
  | .told _ _ _ => true
  | .finished _ => true
  | _ => false

/-- Whether a move is made by the dispatcher or by a worker, or is one in which something is done
from outside, by a handler or by a stage. -/
def Move.isOfDeeds : Move κ V → Bool
  | .start => false
  | .receiveItem _ => false
  | .beginItem _ => false
  | .judge _ _ => false
  | .close => false
  | .discardRequests => false
  | .discardItems => false
  | .closePipeline => false
  | _ => true

/-- What is not of the dispatcher and the workers. -/
structure Background (κ : Type) {τ : Type} (V : τ → Type) where
  setup : Setup τ
  isRequestsClosed : Bool
  items : Queue (Envelope κ V)
  itemWorkers : List (ItemWorker κ V)
  closing : Closing
  requestsDropped : Nat
  itemsDropped : Nat
  processed : Nat

/-- What an engine has that is not of its dispatcher and its workers. -/
def background (e : Engine κ V) : Background κ V :=
  { setup := e.setup
    isRequestsClosed := e.requests.closed
    items := e.items
    itemWorkers := e.itemWorkers
    closing := e.closing
    requestsDropped := e.stats.requestsDropped
    itemsDropped := e.stats.itemsDropped
    processed := e.stats.processed }

/-- A request or an item is handed in, or something happens with the dispatcher or a worker. -/
inductive Deed (e : Engine κ V) : Engine κ V → Prop where
  | request (origin : Origin) (r : Request κ) : Deed e (e.handIn origin r).2
  | item (i : Envelope κ V) : Deed e (e.submitItem i).2
  | other {e' : Engine κ V} (events : List (Event κ V))
    (ofWorkers : ∀ event ∈ events, event.isOfWorker = true)
    (same : e'.background = e.background) (journal : e'.journal = events ++ e.journal) : Deed e e'

/-- Some deeds after one another. -/
abbrev Deeds : Engine κ V → Engine κ V → Prop := ReflTransGen Deed

section Parts

variable {e e' : Engine κ V} {n : Nat}

/-- Nothing happens that is written down. -/
lemma Deeds.quiet (same : e'.background = e.background) (journal : e'.journal = e.journal) :
    Deeds e e' := .single (.other [] (List.forall_mem_nil _) same journal)

/-- One thing happens with a worker. -/
lemma Deeds.event (event : Event κ V) (ofWorker : event.isOfWorker = true)
    (same : e'.background = e.background) (journal : e'.journal = event :: e.journal) :
    Deeds e e' := .single (.other [event] (List.forall_mem_singleton.2 ofWorker) same journal)

/-! ### What is done -/

lemma deeds_perform (e : Engine κ V) (effect : Effect κ V) : Deeds e (e.perform effect) :=
  perform_induction effect (fun r => .single (.request _ r)) (fun i => .single (.item i)) fun _ =>
    .quiet rfl rfl

/-- The first requests are handed in. -/
lemma deeds_seeds (seeds : List (Request κ)) (e : Engine κ V) :
    Deeds e (seeds.foldl (fun e r => e.perform (.add .root r)) e) :=
  foldl_perform_induction (fun d effect hd => hd.trans (deeds_perform d effect)) _ _ .refl

/-! ### Requests under way -/

lemma deeds_finish (e : Engine κ V) (n : Nat) : Deeds e (e.finish n) :=
  .event (.finished n) rfl rfl rfl

lemma deeds_tellNext (e : Engine κ V) (n : Nat) (notice : Notice κ) (isRead : Bool)
    (levels : List (Level κ)) : Deeds e (e.tellNext n notice isRead levels) := by
  cases levels with
  | nil => exact deeds_finish e n
  | cons level later => exact .event (.told n level notice) rfl rfl rfl

lemma deeds_tell (e : Engine κ V) (n : Nat) (notice : Notice κ) (isRead : Bool) :
    Deeds e (e.tell n notice isRead) := by
  have hnoted : Deeds e (e.log (.noted n notice)) := .event (.noted n notice) rfl rfl rfl
  exact hnoted.trans (deeds_tellNext _ n notice isRead _)

/-- However an exchange ends, it is counted first. -/
lemma deeds_concludes {r : Request κ} (he : Concludes e n r e') : Deeds e e' := by
  have hagain : ∀ (d : Engine κ V) c q, Deeds d ((d.resubmit n c q).finish n) := fun d c q =>
    .head (.request _ _) (deeds_finish _ n)
  cases he with
  | failed error => exact (Deeds.quiet (by rfl) (by rfl)).trans (deeds_tell _ n _ _)
  | succeeded a _ => exact (Deeds.quiet (by rfl) (by rfl)).trans (deeds_tell _ n _ _)
  | judged a target _ => exact (Deeds.quiet (by rfl) (by rfl)).trans (deeds_tell _ n _ _)
  | retried _ => exact (Deeds.quiet (by rfl) (by rfl)).trans (hagain _ _ _)
  | redirected a location target _ _ _ _ =>
    exact (Deeds.quiet (by rfl) (by rfl)).trans (hagain _ _ _)

lemma deeds_hear (e : Engine κ V) (n : Nat) (a : Answer) : Deeds e (e.hear n a) :=
  .event (.answered n a) rfl rfl rfl

end Parts

/-! ## Moves -/

/-- A move that is not of the item workers or of the closing is a sequence of deeds. -/
theorem deeds_step [DecidableEq τ] {e e' : Engine κ V} (m : Move κ V) (hm : m.isOfDeeds = true)
    (he : e.step? m = some e') : Deeds e e' := by
  cases m with
  | start | receiveItem | beginItem | judge => cases hm
  | close | discardRequests | discardItems | closePipeline => cases hm
  | ask effect =>
    obtain rfl := Option.some.inj he
    exact deeds_perform e effect
  | receive =>
    obtain ⟨-, ⟨r, rest, -, rfl⟩ | ⟨-, -, rfl⟩⟩ := receive?_eq_some he
    · exact .quiet rfl rfl
    · exact .quiet rfl rfl
  | launch =>
    obtain ⟨r, -, ⟨-, rfl⟩ | ⟨-, -, rfl⟩⟩ := launch?_eq_some he
    · exact .event (.began e.begun r) rfl rfl rfl
    · exact .event (.began e.begun r) rfl rfl rfl
  | attended =>
    obtain ⟨n, -, -, rfl⟩ := attended?_eq_some he
    exact .quiet rfl rfl
  | resume =>
    obtain ⟨-, rfl⟩ := resume?_eq_some he
    exact .quiet rfl rfl
  | drained =>
    obtain ⟨-, -, rfl⟩ := drained?_eq_some he
    exact .quiet rfl rfl
  | send n =>
    obtain ⟨m, r, -, hc | ⟨wire, rfl⟩⟩ := send?_eq_some he
    · exact deeds_concludes hc
    · exact .event (.sent n wire) rfl rfl rfl
  | answer n outcome =>
    obtain ⟨m, r, wire, -, hc | ⟨a, hc⟩⟩ := answer?_eq_some he
    · exact deeds_concludes hc
    · exact (deeds_hear e n a).trans (deeds_concludes hc)
  | act n effect =>
    obtain ⟨m, notice, level, later, _, _, -, rfl⟩ := act?_eq_some he
    exact (deeds_perform e effect).trans (Deeds.quiet rfl rfl)
  | reply n next =>
    obtain ⟨m, notice, level, later, isRead, d, -, rfl | ⟨_, _, c, r, -, rfl⟩, rfl⟩ :=
      reply?_eq_some he
    · exact deeds_tellNext _ n _ _ _
    · exact .head (.request _ _) (deeds_tellNext _ n _ _ _)
  | panic n =>
    obtain ⟨m, notice, level, later, isRead, -, rfl⟩ := panic?_eq_some he
    exact deeds_finish e n
  | actItem k effect =>
    obtain ⟨-, -, -, -, rfl⟩ := actItem?_eq_some he
    exact deeds_perform e effect

end WebCrawl.Engine
