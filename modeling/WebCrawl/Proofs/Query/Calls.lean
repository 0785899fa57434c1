import WebCrawl.Proofs.Query.Cache

set_option autoImplicit false

/-!
# Sequences of calls

A cache is seen through the answers to the calls made on it, one after the other. Whatever its
capacity, each call is answered with what its source is compiled to, and the queries that are handed
out tell their sources apart. So what is found in a document does not depend on the cache.

## Main definitions

* `WebCrawl.Query.Cache.answers`, `WebCrawl.Query.Cache.after` — the answers to a sequence of calls,
  and the cache after them.
* `WebCrawl.Query.Cache.find?`, `WebCrawl.Query.Cache.keep` — the two looks into the cache that a call
  takes.
* `WebCrawl.Query.Question` — a selector or an expression put to a location of a document.

## Main results

* `WebCrawl.Query.Cache.request_eq_find_keep` — a call looks into the cache before its source is
  compiled and again before the query is kept.
* `WebCrawl.Query.Cache.calls_transparent` — the answers to calls and to questions do not depend on
  the cache.
-/

namespace WebCrawl.Query

open Html

namespace Cache

/-! ## Calls one after the other -/

/-- The answers to calls made one after the other. -/
def answers (c : Cache) : List Source → List (Except Error Issued)
  | [] => []
  | source :: later => (c.request source).1 :: (c.request source).2.answers later

/-- The cache after calls made one after the other. -/
def after (c : Cache) (calls : List Source) : Cache :=
  calls.foldl (fun c source => (c.request source).2) c

@[simp] lemma after_nil (c : Cache) : c.after [] = c := rfl

@[simp] lemma after_cons (c : Cache) (source : Source) (calls : List Source) :
    c.after (source :: calls) = (c.request source).2.after calls := rfl

lemma after_append (c : Cache) (calls later : List Source) :
    c.after (calls ++ later) = (c.after calls).after later := List.foldl_append

lemma after_concat (c : Cache) (calls : List Source) (source : Source) :
    c.after (calls ++ [source]) = ((c.after calls).request source).2 := c.after_append calls [source]

/-- Calls leave a faithful cache faithful. -/
lemma Faithful.after {c : Cache} (h : c.Faithful) (calls : List Source) :
    (c.after calls).Faithful := by
  induction calls generalizing c with
  | nil => exact h
  | cons source calls ih => exact ih (h.request source)

/-- A cache that calls have filled is faithful. -/
lemma faithful_after (capacity : Nat) (calls : List Source) :
    ((empty capacity).after calls).Faithful := (faithful_empty capacity).after calls

/-! ## The two looks of a call -/

/-- The query that is kept for a source, which is then the one asked for last. -/
def find? (c : Cache) (source : Source) : Option (Issued × Cache) :=
  match c.entries.lookup source with
  | some found => some (found, { c with entries := (source, found) :: others source c.entries })
  | none => none

/-- A query that was compiled is kept, unless there is one for its source by now. -/
def keep (c : Cache) (source : Source) (issued : Issued) : Issued × Cache :=
  match c.find? source with
  | some found => found
  | none => (issued, { c with entries := ((source, issued) :: c.entries).take c.capacity })

/-- A call looks for its source, compiles it if nothing is found, and looks again before the query is
kept. If nobody else has called meanwhile, the second look finds nothing either. -/
theorem request_eq_find_keep (c : Cache) (source : Source) :
    c.request source =
      match c.find? source with
      | some (found, c) => (.ok found, c)
      | none =>
        match compile source with
        | .error e => (.error e, c)
        | .ok query =>
          let kept := { c with compilations := c.compilations + 1 }.keep source
            ⟨c.compilations, query⟩
          (.ok kept.1, kept.2) := by
  cases hfound : c.entries.lookup source with
  | some found => simp only [request, find?, hfound]
  | none => cases hcompile : compile source <;> simp only [request, find?, keep, hfound, hcompile]

/-! ## Queries that are handed out -/

/-- The register of all compilations fits the cache: it has an entry for each compilation so far, and
the queries that are kept were compiled for the sources that it names. -/
structure Registered (c : Cache) (register : List Source) : Prop where
  length : register.length = c.compilations
  kept : ∀ source issued, (source, issued) ∈ c.entries → register[issued.serial]? = some source

lemma registered_empty (capacity : Nat) : Registered (empty capacity) [] := ⟨rfl, nofun⟩

/-- What a list has, every longer list has at the same place. -/
lemma getElem?_of_prefix {α : Type} {l l' : List α} {k : Nat} {x : α} (h : l <+: l')
    (hx : l[k]? = some x) : l'[k]? = some x := by
  obtain ⟨later, rfl⟩ := h
  have hk : k < l.length := (List.getElem?_eq_some_iff.1 hx).1
  rw [List.getElem?_append_left hk, hx]

/-- A call adds to the register if its source is compiled, and the query that it is answered with is
there under its source. -/
lemma Registered.request {c : Cache} {register : List Source} (h : Registered c register)
    (source : Source) :
    ∃ register', register <+: register' ∧ Registered (c.request source).2 register' ∧
      ∀ issued, (c.request source).1 = .ok issued → register'[issued.serial]? = some source := by
  unfold Cache.request
  cases hfound : c.entries.lookup source with
  | some found =>
    have hmem := mem_of_lookup hfound
    refine ⟨register, List.prefix_refl _, ⟨h.length, fun source' issued' hmem' => ?_⟩, ?_⟩
    · rcases List.mem_cons.1 hmem' with heq | hmem'
      · cases heq
        exact h.kept source found hmem
      · exact h.kept source' issued' (List.mem_filter.1 hmem').1
    · rintro issued ⟨⟩
      exact h.kept source found hmem
  | none =>
    cases compile source with
    | error e => exact ⟨register, List.prefix_refl _, h, nofun⟩
    | ok query =>
      have hnew : (register ++ [source])[c.compilations]? = some source := by
        rw [← h.length, List.getElem?_concat_length]
      refine ⟨register ++ [source], List.prefix_append .., ⟨?_, fun source' issued' hmem' => ?_⟩, ?_⟩
      · simp [h.length]
      · rcases List.mem_cons.1 (List.mem_of_mem_take hmem') with heq | hmem'
        · cases heq
          exact hnew
        · exact getElem?_of_prefix (List.prefix_append ..) (h.kept source' issued' hmem')
      · rintro issued ⟨⟩
        exact hnew

/-- After all calls there is one register in which each query that was handed out stands under the
source for which it was asked. -/
lemma Registered.answers {c : Cache} {register : List Source} (h : Registered c register)
    (calls : List Source) :
    ∃ register', register <+: register' ∧ ∀ (i : Nat) (issued : Issued),
      (c.answers calls)[i]? = some (.ok issued) → register'[issued.serial]? = calls[i]? := by
  induction calls generalizing c register with
  | nil => exact ⟨register, List.prefix_refl _, fun i issued hi => by simp [Cache.answers] at hi⟩
  | cons source calls ih =>
    obtain ⟨register₁, hprefix₁, h₁, hanswer⟩ := h.request source
    obtain ⟨register₂, hprefix₂, hanswers⟩ := ih h₁
    refine ⟨register₂, hprefix₁.trans hprefix₂, fun i issued hi => ?_⟩
    cases i with
    | zero =>
      have hi : (c.request source).1 = .ok issued := by simpa [Cache.answers] using hi
      exact getElem?_of_prefix hprefix₂ (hanswer issued hi)
    | succ i => exact hanswers i issued (by simpa [Cache.answers] using hi)

/-- Each call is answered with what its source is compiled to. -/
lemma Faithful.answers_eq {c : Cache} (h : c.Faithful) (calls : List Source) :
    (c.answers calls).map (·.map Issued.query) = calls.map compile := by
  induction calls generalizing c with
  | nil => rfl
  | cons source calls ih =>
    rw [answers, List.map_cons, List.map_cons, h.request_eq, ih (h.request source)]

end Cache

/-! ## Questions to documents -/

/-- A selector or an expression put to a location of a document. -/
inductive Question where
  /-- A selector. -/
  | css (document : Document) (selector : Text) (start : Location)
  /-- An expression. -/
  | xpath (document : Document) (expression : Text) (start : Location)

namespace Question

/-- What is found through a cache, and the cache afterwards. -/
def ask (cache : Cache) : Question → Except Error (List Location) × Cache
  | .css d selector start => d.css selector start cache
  | .xpath d expression start => d.xpath expression start cache

/-- What is found when the query is compiled for this question. -/
def finding : Question → Except Error (List Location)
  | .css d selector start =>
    (compile (.css selector (Document.scopeAt start))).map fun q => q.select d.arena start
  | .xpath d expression start => (compile (.xpath expression)).map fun q => q.select d.arena start

/-- What is found when questions are asked one after the other through one cache. -/
def findings (cache : Cache) : List Question → List (Except Error (List Location))
  | [] => []
  | q :: later => (q.ask cache).1 :: findings (q.ask cache).2 later

end Question

/-- What the query of a source finds does not depend on a cache that is faithful. -/
lemma Document.select_eq {cache : Cache} (hc : cache.Faithful) (d : Document) (source : Source)
    (start : Location) :
    (d.select source start cache).1 = (compile source).map (fun q => q.select d.arena start) ∧
      (d.select source start cache).2 = (cache.request source).2 := by
  unfold Document.select
  rw [← hc.request_eq]
  split <;> rename_i heq <;> rw [heq] <;> exact ⟨rfl, rfl⟩

namespace Question

variable {cache : Cache}

/-- A question is answered with what its own query finds, and leaves the cache faithful. -/
lemma ask_eq (hc : cache.Faithful) (q : Question) :
    (q.ask cache).1 = q.finding ∧ (q.ask cache).2.Faithful := by
  have hselect := fun (d : Document) source start => d.select_eq hc source start
  cases q with
  | css d selector start =>
    have h := hselect d (.css selector (Document.scopeAt start)) start
    exact ⟨h.1, h.2 ▸ hc.request _⟩
  | xpath d expression start =>
    have h := hselect d (.xpath expression) start
    exact ⟨h.1, h.2 ▸ hc.request _⟩

/-- Questions are answered with what their own queries find. -/
lemma findings_eq (hc : cache.Faithful) (questions : List Question) :
    findings cache questions = questions.map finding := by
  induction questions generalizing cache with
  | nil => rfl
  | cons q questions ih =>
    obtain ⟨hfirst, hcache⟩ := q.ask_eq hc
    rw [findings, List.map_cons, hfirst, ih hcache]

end Question

/-- Through a cache of any capacity, calls are answered with what their sources are compiled to, be
that a query or an error, whatever was called before. Calls that are answered with one compilation
have one source, so a selector matched in the whole document, the same below a location and the same
text as an expression never answer for each other. Questions to documents are answered as if there
were no cache.

**Proof sketch.** The cache holds what its sources are compiled to, which every call keeps. A query
has the number of its compilation, and the register of all compilations names its source; calls only
add to the register. -/
theorem Cache.calls_transparent (capacity : Nat) (calls : List Source) :
    ((empty capacity).answers calls).map (·.map Issued.query) = calls.map compile ∧
    (∀ (i j : Nat) (issued issued' : Issued),
      ((empty capacity).answers calls)[i]? = some (.ok issued) →
      ((empty capacity).answers calls)[j]? = some (.ok issued') →
      issued.serial = issued'.serial → calls[i]? = calls[j]?) ∧
    ∀ questions : List Question,
      Question.findings ((empty capacity).after calls) questions =
        questions.map Question.finding := by
  refine ⟨(faithful_empty capacity).answers_eq calls, fun i j issued issued' hi hj heq => ?_,
    Question.findings_eq (faithful_after capacity calls)⟩
  obtain ⟨register, -, hregister⟩ := (registered_empty capacity).answers calls
  rw [← hregister i issued hi, heq, hregister j issued' hj]

end WebCrawl.Query
