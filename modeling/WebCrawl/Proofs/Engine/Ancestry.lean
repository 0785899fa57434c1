import WebCrawl.Proofs.Engine.Lineage
import WebCrawl.Proofs.Engine.Sequence

set_option autoImplicit false

/-!
# Where requests come from

Every request that has begun goes back to one that was handed in from outside the engine. In between
there are only requests that the engine derived, each from the one before it: because that was tried
again, or redirected, or because a handler let the request that follows a redirect pass. These keep
their place in the crawl. So the place of a request that has begun is the one with which it was
handed in: one step further than a context, if that context was asked for it; the place that it had
before; or the start.

## Main definitions

* `WebCrawl.Crawl.Context.Adopted` — what becomes of a request when a context is asked for it.
* `WebCrawl.Engine.Continues`, `WebCrawl.Engine.Succeeds` — how the engine derives a request.
* `WebCrawl.Engine.Submits` — how a request is handed in from outside, and its place in the crawl.
* `WebCrawl.Engine.TakenAt` — the move of a run by which a request was put into the queue.

## Main results

* `WebCrawl.Crawl.Context.adopted_adopt` — a request that a context is asked for names where it came
  from.
* `WebCrawl.Engine.exists_takenAt` — every request in the queue was handed in by a move of the run.
* `WebCrawl.Engine.exists_ancestor` — every request that has begun goes back to one from outside.
-/

/-! ## Asking a context for a request -/

namespace WebCrawl.Http.Headers

variable {h : Headers} {name : Text}

/-- A name without a value is not among the headers. -/
lemma contains_eq_false_iff : h.contains name = false ↔ h.getAll name = [] := by
  simp [contains, get?, getAll, List.filter_eq_nil_iff]

/-- A value that is given to a name without one is added after all others. -/
lemma set_eq_append (hnone : h.getAll name = []) (value : Text) :
    h.set name value = h.append name value := by
  have hall : ∀ e ∈ h.entries, (!named name e) = true := by
    simpa [getAll, List.filter_eq_nil_iff] using hnone
  rw [set, remove, List.filter_eq_self.2 hall]

/-- A value that is added comes after the others of its name. -/
lemma getAll_append (value : Text) :
    (h.append name value).getAll name = h.getAll name ++ [value] := by
  have hsame : named name (name, value) = true := by simp [named, Text.sameLetters]
  simp [getAll, append, hsame]

end WebCrawl.Http.Headers

namespace WebCrawl.Crawl.Context

open Http

variable {κ : Type}

/-- What becomes of a request `q` when a context is asked for it: it lies one step further from the
start than the context, by a count of 32 bits, and nothing else changes but that it names the last
response of the context as where it came from, if there is one and the request named nothing, in
letters of either case. -/
structure Adopted (c : Context κ) (q r : Request κ) : Prop where
  context : r.context = some { c with depth := (c.depth + 1) % 2 ^ 32 }
  rest : { r with headers := q.headers, context := q.context } = q
  kept : q.headers.getAll "Referer" ≠ [] → r.headers = q.headers
  named : q.headers.getAll "Referer" = [] → ∀ last, c.lastResponse = some last →
    r.headers = q.headers.append "Referer" last.url ∧ r.headers.getAll "Referer" = [last.url]
  unnamed : c.lastResponse = none → r.headers = q.headers

/-- A request that names where it came from is left as it is. -/
lemma refer_of_getAll_ne_nil (c : Context κ) {q : Request κ}
    (h : q.headers.getAll "Referer" ≠ []) : c.refer q = q := by
  have hcontains : q.headers.contains "Referer" = true := by
    by_contra hc
    exact h (Headers.contains_eq_false_iff.1 (eq_false_of_ne_true hc))
  unfold refer
  split
  · exact if_pos hcontains
  · rfl

/-- A request that names nothing is given the address of the last response. -/
lemma refer_of_getAll_eq_nil {c : Context κ} {q : Request κ} {last : Response κ}
    (h : q.headers.getAll "Referer" = []) (hl : c.lastResponse = some last) :
    c.refer q = { q with headers := q.headers.append "Referer" last.url } := by
  have hcontains := Headers.contains_eq_false_iff.2 h
  unfold refer
  rw [hl]
  dsimp only
  rw [hcontains, Headers.set_eq_append h]
  rfl

/-- A context without a last response leaves a request as it is. -/
lemma refer_of_none {c : Context κ} (q : Request κ) (hl : c.lastResponse = none) :
    c.refer q = q := by
  unfold refer
  rw [hl]

/-- A request that has a place keeps it. -/
lemma keep_of_some {c c' : Context κ} {r : Request κ} (h : r.context = some c') : c.keep r = r := by
  cases r
  subst h
  rfl

/-- A request that a context is asked for. -/
theorem adopted_adopt (c : Context κ) (q : Request κ) : Adopted c q (c.adopt q) := by
  have hheaders : (c.adopt q).headers = (c.refer q).headers := rfl
  refine ⟨rfl, ?_, fun h => ?_, fun h last hl => ?_, fun hl => ?_⟩
  · unfold adopt refer
    cases q
    split
    · split <;> rfl
    · rfl
  · rw [hheaders, refer_of_getAll_ne_nil c h]
  · rw [hheaders, refer_of_getAll_eq_nil h hl]
    exact ⟨rfl, by rw [Headers.getAll_append, h, List.nil_append]⟩
  · rw [hheaders, refer_of_none q hl]

end WebCrawl.Crawl.Context

namespace WebCrawl.Engine

open Crawl Relation

variable {κ τ : Type} {V : τ → Type}

/-! ## Requests that the engine derives -/

/-- How the engine derives a request from one that has begun: it is the same with one try more; or
it is redirected; or a handler that was asked about a redirect replied with it, and it has no place
in the crawl of its own. It has the place of the one before it. -/
inductive Continues (q : Request κ) : Request κ → Prop where
  | retried :
    Continues q { q with retryTimes := q.retryTimes + 1, context := some (contextOf q) }
  | redirected (target : Text) (response : Response κ) :
    Continues q { q.redirected target response with context := some (contextOf q) }
  | replied (next : Request κ) (same : next.context.getD (contextOf q) = contextOf q) :
    Continues q { next with context := some (contextOf q) }

/-- A request that the engine derives keeps its place in the crawl. -/
lemma Continues.contextOf_eq {q r : Request κ} (h : Continues q r) : contextOf r = contextOf q := by
  cases h <;> rfl

/-- The worker `n` handed in, in place of its own request, the one that was taken in place `n'`. -/
def Succeeds (e : Engine κ V) (n n' : Nat) : Prop :=
  ∃ q r, (n, q) ∈ e.beginnings ∧ e.takings.reverse[n']? = some (.worker n, r) ∧ Continues q r

/-! ## Requests from outside -/

/-- How a request is handed in from outside by a move of an engine `d`, and what is then its place
in the crawl: it is one of the first requests, or a context is asked for it, and lies one step
further; or it is to be tried again and keeps its place, or takes that of a context if it has none;
or it is handed in as it is, in its place or else at the start; or a handler replies to a redirect
with a request that has another place than the redirected one. -/
inductive Submits (d : Engine κ V) : Move κ V → Request κ → Context κ → Prop where
  | seed {q r : Request κ} (mem : q ∈ d.seeds) (adopted : Context.root.Adopted q r) :
    Submits d .start r { Context.root with depth := 1 }
  | added {m : Move κ V} {c : Context κ} {q r : Request κ} (h : m.effect? = some (.add c q))
    (adopted : c.Adopted q r) : Submits d m r { c with depth := (c.depth + 1) % 2 ^ 32 }
  | retried {m : Move κ V} {c : Context κ} {q : Request κ} (h : m.effect? = some (.retry c q)) :
    Submits d m { q with context := some (q.context.getD c) } (q.context.getD c)
  | placed {m : Move κ V} {c : Context κ} {q : Request κ} (h : m.effect? = some (.submit q))
    (context : q.context = some c) : Submits d m q c
  | bare {m : Move κ V} {q : Request κ} (h : m.effect? = some (.submit q))
    (context : q.context = none) : Submits d m q .root
  | replied {n : Nat} {q next : Request κ} {c : Context κ} (began : (n, q) ∈ d.beginnings)
    (context : next.context = some c) (other : c ≠ contextOf q) :
    Submits d (.reply n (some next)) next c

/-- A redirect leaves the context as it is. -/
lemma redirected_context (r : Request κ) (target : Text) (response : Response κ) :
    (r.redirected target response).context = r.context := by
  unfold Request.redirected
  split <;> rfl

/-- What is handed in comes from outside, or the engine derives it from a request that has begun. -/
lemma HandsIn.cases {d : Engine κ V} {m : Move κ V} {origin : Origin} {r : Request κ}
    (h : HandsIn d m origin r) :
    Submits d m r (contextOf r) ∨
      ∃ n q, origin = .worker n ∧ (n, q) ∈ d.beginnings ∧ Continues q r := by
  cases h with
  | seed mem => exact .inl (.seed mem (Context.adopted_adopt _ _))
  | added h => exact .inl (.added h (Context.adopted_adopt _ _))
  | kept h => exact .inl (.retried h)
  | submitted h =>
    cases hc : r.context with
    | none =>
      rw [contextOf, hc]
      exact .inl (.bare h hc)
    | some c =>
      rw [contextOf, hc]
      exact .inl (.placed h hc)
  | @retried n _ q began =>
    refine .inr ⟨n, q, rfl, began, ?_⟩
    simp only [Context.keep, getD_contextOf]
    exact .retried
  | @redirected n _ q target response began =>
    refine .inr ⟨n, q, rfl, began, ?_⟩
    have hkeep : (contextOf q).keep (q.redirected target response) =
        { q.redirected target response with context := some (contextOf q) } := by
      rw [Context.keep, redirected_context, getD_contextOf]
    rw [hkeep]
    exact .redirected target response
  | @replied n q next began =>
    by_cases hsame : next.context.getD (contextOf q) = contextOf q
    · refine .inr ⟨n, q, rfl, began, ?_⟩
      rw [Context.keep, hsame]
      exact .replied next hsame
    · cases hc : next.context with
      | none => exact absurd (by rw [hc]; rfl) hsame
      | some c =>
        have hplace : contextOf ((contextOf q).keep next) = c := by
          rw [Context.keep, hc]
          rfl
        rw [hplace, Context.keep_of_some hc]
        rw [hc] at hsame
        exact .inl (.replied began hc hsame)

/-! ## Requests of a run -/

section Run

variable [DecidableEq τ] {setup : Setup τ} {seeds : List (Request κ)}

/-- The move `m`, which a run makes when it has come to the engine `d`, puts the request into the
queue that is taken in place `i`. -/
def TakenAt (setup : Setup τ) (seeds : List (Request κ)) (moves : List (Move κ V)) (i : Nat)
    (d : Engine κ V) (m : Move κ V) : Prop :=
  ∃ before after d', moves = before ++ m :: after ∧ (new setup seeds).run? before = some d ∧
    d.step? m = some d' ∧ d.takings.length ≤ i ∧ i < d'.takings.length

variable {moves : List (Move κ V)} {d e : Engine κ V} {m : Move κ V} {i n : Nat}

/-- What a run has done it still has when it goes on. -/
lemma TakenAt.append (h : TakenAt setup seeds moves i d m) (later : List (Move κ V)) :
    TakenAt setup seeds (moves ++ later) i d m := by
  obtain ⟨before, after, d', rfl, hrest⟩ := h
  exact ⟨before, after ++ later, d', by simp, hrest⟩

/-- Every request in the queue was handed in by a move of the run.

**Proof sketch.** Induction along the run. The requests that the last move puts into the queue come
after all those before, and each was handed in by one of the updates of which the move consists. -/
theorem exists_takenAt : ∀ {moves : List (Move κ V)} {e : Engine κ V},
    (new setup seeds).run? moves = some e → ∀ {i : Nat} {p : Origin × Request κ},
      e.takings.reverse[i]? = some p →
      ∃ d m, TakenAt setup seeds moves i d m ∧ HandsIn d m p.1 p.2 := by
  intro moves
  induction moves using List.reverseRecOn with
  | nil =>
    intro e hrun i p hp
    obtain rfl : new setup seeds = e := by simpa using hrun
    simp [takings, new] at hp
  | append_singleton moves m ih =>
    intro e hrun i p hp
    rw [run?_append] at hrun
    obtain ⟨d, hd, hstep⟩ := Option.bind_eq_some_iff.1 hrun
    have hstep : d.step? m = some e := by simpa using hstep
    have hreach : Reachable setup seeds d := ⟨moves, hd⟩
    obtain ⟨new, htakings, hnew⟩ := (hreach.updates m hstep).takings
    rw [htakings, List.reverse_append] at hp
    by_cases hi : i < d.takings.length
    · rw [List.getElem?_append_left (by simpa using hi)] at hp
      obtain ⟨d', m', htaken, hhands⟩ := ih hd hp
      exact ⟨d', m', htaken.append _, hhands⟩
    · rw [List.getElem?_append_right (by simpa using hi)] at hp
      have hmem : p ∈ new := List.mem_reverse.1 (List.mem_of_getElem? hp)
      have hlt : i < e.takings.length := by
        have hlen := (List.getElem?_eq_some_iff.1 hp).1
        simp only [List.length_reverse] at hlen
        rw [htakings, List.length_append]
        omega
      exact ⟨d, m, ⟨moves, [], e, rfl, hd, hstep, Nat.le_of_not_lt hi, hlt⟩, hnew p hmem⟩

/-- Before the move fewer requests were taken. -/
lemma TakenAt.length_le (h : TakenAt setup seeds moves i d m) : d.takings.length ≤ i := by
  obtain ⟨-, -, -, -, -, -, hle, -⟩ := h
  exact hle

/-- What a run has come to is reachable. -/
lemma TakenAt.reachable (h : TakenAt setup seeds moves i d m) : Reachable setup seeds d := by
  obtain ⟨before, -, -, -, hd, -⟩ := h
  exact ⟨before, hd⟩

/-- The journal of a run holds those of all that the run has come to. -/
lemma TakenAt.journal_suffix (h : TakenAt setup seeds moves i d m)
    (hrun : (new setup seeds).run? moves = some e) : d.journal <:+ e.journal := by
  obtain ⟨before, after, d', rfl, hd, -⟩ := h
  rw [run?_append, hd] at hrun
  have hreach : Reachable setup seeds d := ⟨before, hd⟩
  refine (run?_induction (P := fun x => Reachable setup seeds x ∧ d.journal <:+ x.journal)
    (Q := fun _ => True) ?_ (m :: after) d e (fun _ _ => trivial) ⟨hreach, List.suffix_refl _⟩
    hrun).2
  rintro x m y - ⟨hx, hsuffix⟩ hy
  refine ⟨hx.step m hy, (hx.updates m hy).keep (P := fun z => d.journal <:+ z.journal) ?_ hsuffix⟩
  exact fun _ _ hz hsuffix => hsuffix.trans hz.journal_suffix

/-- The request with which a worker began was taken in the place of its number. -/
lemma exists_taking_of_began (h : Reachable setup seeds e) {r : Request κ}
    (hr : (n, r) ∈ e.beginnings) : ∃ origin, e.takings.reverse[n]? = some (origin, r) := by
  have haccepted := h.sequenced.getElem?_accepted hr
  rw [acceptedIn, List.getElem?_map, Option.map_eq_some_iff] at haccepted
  obtain ⟨⟨origin, r'⟩, hp, rfl⟩ := haccepted
  exact ⟨origin, hp⟩

/-- Every request that has begun goes back to one that was handed in from outside, in the same place
in the crawl, over requests that the engine derived from one another.

**Proof sketch.** By induction on the number of the worker. Its request was put into the queue by a
move of the run. If the engine derived it then, that was from a request with which a worker had
begun before, and workers begin with the requests of the queue in their order, so that this one has
a smaller number. -/
theorem exists_ancestor (hrun : (new setup seeds).run? moves = some e) :
    ∀ (n : Nat) (r : Request κ), (n, r) ∈ e.beginnings → ∃ n₀ r₀ d m,
      ReflTransGen e.Succeeds n₀ n ∧ (acceptedIn e.journal)[n₀]? = some r₀ ∧
      TakenAt setup seeds moves n₀ d m ∧ Submits d m r₀ (contextOf r) := by
  have hreach : Reachable setup seeds e := ⟨moves, hrun⟩
  intro n
  induction n using Nat.strong_induction_on with
  | _ n ih =>
    intro r hr
    obtain ⟨origin, htaking⟩ := exists_taking_of_began hreach hr
    obtain ⟨d, m, htaken, hhands⟩ := exists_takenAt hrun htaking
    obtain hsubmits | ⟨n', q, horigin, hq, hcontinues⟩ := hhands.cases
    · exact ⟨n, r, d, m, .refl, hreach.sequenced.getElem?_accepted hr, htaken, hsubmits⟩
    · have hbefore : n' < d.takings.length := by
        have haccepted := htaken.reachable.sequenced.getElem?_accepted hq
        simpa [acceptedIn, takings] using (List.getElem?_eq_some_iff.1 haccepted).1
      have hsub : d.beginnings.Sublist e.beginnings :=
        (htaken.journal_suffix hrun).sublist.filterMap _
      obtain ⟨n₀, r₀, d₀, m₀, hchain, hplace, htaken₀, hsubmits⟩ :=
        ih n' (Nat.lt_of_lt_of_le hbefore htaken.length_le) q (hsub.subset hq)
      subst horigin
      refine ⟨n₀, r₀, d₀, m₀, hchain.tail ⟨q, r, hsub.subset hq, htaking, hcontinues⟩, hplace,
        htaken₀, ?_⟩
      rwa [hcontinues.contextOf_eq]

end Run

end WebCrawl.Engine
