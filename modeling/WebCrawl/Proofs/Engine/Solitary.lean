import WebCrawl.Proofs.Engine.Lineage

set_option autoImplicit false

/-!
# One request at a time

As long as one request waits and nothing is under way, what an engine does next is known: the request
begins, is sent and ends, and the request that came of it waits in its place. So an engine can be led
through rounds without end, each a short run of its own.

## Main definitions

* `WebCrawl.Engine.Solitary` — one request waits and nothing is under way.
* `WebCrawl.Engine.Engaged` — one request is under way and nothing else.

## Main results

* `WebCrawl.Engine.Solitary.launched` — the request that waits begins.
* `WebCrawl.Engine.Solitary.followed` — a round in which a redirect is followed.
* `WebCrawl.Engine.Solitary.asked` — a round in which a request cannot be sent, and the handler that is
  told asks for another one.
-/

namespace WebCrawl.Engine

open Crawl

variable {κ τ : Type} {V : τ → Type}

/-- One request waits and nothing is under way. -/
structure Solitary (e : Engine κ V) (r : Request κ) : Prop where
  dispatcher : e.dispatcher = .idle
  requests : e.requests = ⟨[r], false⟩
  workers : e.workers = []
  permits : 0 < e.permits
  unpaced : e.isPaced = false

/-- One worker has a request, and the dispatcher waits. -/
structure Engaged (e : Engine κ V) (n : Nat) (phase : Phase κ) (waiting : List (Request κ)) : Prop where
  dispatcher : e.dispatcher = .idle
  requests : e.requests = ⟨waiting, false⟩
  workers : e.workers = [⟨n, phase⟩]
  unpaced : e.isPaced = false

/-! ## The worker that has the request -/

namespace Engaged

variable {e : Engine κ V} {n : Nat} {phase : Phase κ} {waiting : List (Request κ)} {r : Request κ}

/-- The worker is found by its number. -/
lemma worker?_eq (h : Engaged e n phase waiting) : e.worker? n = some ⟨n, phase⟩ := by
  simp [worker?, h.workers]

/-- The worker goes on to another phase. -/
lemma enter (h : Engaged e n phase waiting) (phase' : Phase κ) :
    Engaged (e.enter n phase') n phase' waiting :=
  ⟨h.dispatcher, h.requests, by simp [Engine.enter, h.workers], h.unpaced⟩

/-- A request is handed in and waits behind the others. -/
lemma handIn (h : Engaged e n phase waiting) (origin : Origin) :
    Engaged (e.handIn origin r).2 n phase (waiting ++ [r]) := by
  rw [handIn_open e origin r (by rw [h.requests])]
  exact ⟨h.dispatcher, by rw [h.requests], h.workers, h.unpaced⟩

/-- The worker ends, and the request that came of its own is left. -/
lemma finish (h : Engaged e n phase [r]) : Solitary (e.finish n) r := by
  have hpermits : (e.finish n).permits = e.permits + 1 := if_neg (by rw [h.unpaced]; decide)
  refine ⟨h.dispatcher, h.requests, ?_, by omega, h.unpaced⟩
  simp [Engine.finish, Engine.log, dismiss, h.workers]

/-- The worker sends its request. -/
lemma sent (h : Engaged e n (.ready r) waiting) {wire : Wire}
    (hwire : Wire.ofRequest r e.setup.settings = .ok wire) :
    ∃ d, e.send? n = some d ∧ Engaged d n (.exchanging r wire) waiting ∧ d.setup = e.setup ∧
      d.journal = .sent n wire :: e.journal := by
  have hsend : e.send? n =
      some (({ e with stats := { e.stats with sent := e.stats.sent + 1 } }.enter n
        (.exchanging r wire)).log (.sent n wire)) := by
    simp only [send?, h.worker?_eq, hwire]
  exact ⟨_, hsend, { h.enter (.exchanging r wire) with }, rfl, rfl⟩

/-- The redirect with which the request of the worker is answered is followed. -/
lemma redirected {wire : Wire} {a : Answer} {location target : Text}
    (h : Engaged e n (.exchanging r wire) []) (here : a.location? = some location)
    (join : Url.join r.url location = .ok target)
    (within : (r.redirected target (a.toResponse r)).redirectTimes ≤
      e.setup.settings.maxRedirectTimes) (unjudged : e.setup.judgesRedirects = false) :
    ∃ d, e.answer? n (.answered a) = some d ∧
      Solitary d ((contextOf r).keep (r.redirected target (a.toResponse r))) ∧
      d.setup = e.setup ∧ d.journal = .finished n :: .enqueued (.worker n)
        ((contextOf r).keep (r.redirected target (a.toResponse r))) :: .answered n a :: e.journal := by
  set next := (contextOf r).keep (r.redirected target (a.toResponse r))
  set heard : Engine κ V := { e.hear n a with
    stats := { (e.hear n a).stats with redirected := (e.hear n a).stats.redirected + 1 } }
  have hanswer : e.answer? n (.answered a) = some ((heard.handIn (.worker n) next).2.finish n) := by
    have hfollow : (e.hear n a).follow n r a location =
        (heard.handIn (.worker n) next).2.finish n := by
      have hsetup : (e.hear n a).setup = e.setup := rfl
      simp only [follow, join, hsetup, Nat.not_lt.2 within, unjudged, ↓reduceIte, Bool.false_eq_true]
      rfl
    simp only [answer?, h.worker?_eq, here]
    exact congrArg some hfollow
  have hheard : Engaged heard n (.exchanging r wire) [] := { h with }
  refine ⟨_, hanswer, (hheard.handIn _).finish, ?_⟩
  have hopen : heard.requests.closed = false := by rw [hheard.requests]
  rw [handIn_open heard _ next hopen]
  exact ⟨rfl, rfl⟩

/-- The request of the worker cannot be sent, and the handler of the crawler is told. -/
lemma failed (h : Engaged e n (.ready r) waiting) {error : Error}
    (hwire : Wire.ofRequest r e.setup.settings = .error error)
    (hears : e.setup.hearsFailures = true) (quiet : r.onError = none) :
    ∃ d, e.send? n = some d ∧
      Engaged d n (.telling (.failure r error (contextOf r)) .crawler [] false) waiting ∧
      d.setup = e.setup ∧ d.journal = .told n .crawler (.failure r error (contextOf r)) ::
        .noted n (.failure r error (contextOf r)) :: e.journal := by
  have hsend : e.send? n = some (e.fail n r error) := by
    simp only [send?, h.worker?_eq, hwire]
  have haudience : e.setup.audience (.failure r error (contextOf r)) = [.crawler] := by
    simp [Setup.audience, hears, quiet]
  have hfail : e.fail n r error =
      (({ e with stats := { e.stats with failed := e.stats.failed + 1 } }.log
        (.noted n (.failure r error (contextOf r)))).enter n
          (.telling (.failure r error (contextOf r)) .crawler [] false)).log
          (.told n .crawler (.failure r error (contextOf r))) := by
    simp only [fail, tell, haudience, tellNext]
  rw [hfail] at hsend
  exact ⟨_, hsend, { h.enter _ with }, rfl, rfl⟩

/-- The handler that the worker tells of a failure asks a context for a request. -/
lemma adds {error : Error} {c : Context κ}
    (h : Engaged e n (.telling (.failure r error c) .crawler [] false) []) (c' : Context κ)
    (q : Request κ) : ∃ d, e.act? n (.add c' q) = some d ∧
      Engaged d n (.telling (.failure r error c) .crawler [] false) [c'.adopt q] ∧
      d.setup = e.setup ∧ d.journal = .enqueued .outside (c'.adopt q) :: e.journal := by
  have hact : e.act? n (.add c' q) = some ((e.handIn .outside (c'.adopt q)).2.enter n
      (.telling (.failure r error c) .crawler [] false)) := by
    simp only [act?, h.worker?_eq]
    rfl
  refine ⟨_, hact, (h.handIn .outside).enter _, ?_⟩
  rw [handIn_open e _ (c'.adopt q) (by rw [h.requests])]
  exact ⟨rfl, rfl⟩

/-- The handler that was told last is done, and the request that it asked for is left. -/
lemma replies {error : Error} {c : Context κ} {next : Request κ}
    (h : Engaged e n (.telling (.failure r error c) .crawler [] false) [next]) :
    ∃ d, e.reply? n none = some d ∧ Solitary d next ∧ d.setup = e.setup ∧
      d.journal = .finished n :: e.journal := by
  have hreply : e.reply? n none = some (e.finish n) := by
    simp only [reply?, h.worker?_eq]
    rfl
  exact ⟨_, hreply, h.finish, rfl, rfl⟩

end Engaged

/-! ## Rounds -/

/-- A new engine that was handed in one request, and was started then. -/
lemma solitary_of_started [DecidableEq τ] {setup : Setup τ} (first : Request κ)
    (hpermits : 0 < setup.settings.maxConcurrentRequests)
    (hunpaced : setup.settings.requestDelay.nanoseconds = 0) :
    ∃ e : Engine κ V, (new setup []).run? [.ask (.submit first), .start] = some e ∧
      Solitary e first ∧ e.setup = setup ∧ e.journal = [.enqueued .outside first] := by
  set d : Engine κ V := (new setup []).perform (.submit first)
  have hd : d = { (new setup [] : Engine κ V) with
      requests := ⟨[first], false⟩
      activity := { queuedRequests := 1 }
      stats := { enqueued := 1 }
      journal := [.enqueued .outside first] } := handIn_open (new setup []) .outside first rfl
  have hstart : d.start.2 = { d with
      started := true
      connectable := false
      dispatcher := .idle
      itemWorkers := List.replicate setup.settings.itemWorkers .idle
      seeds := [] } := by
    rw [hd]
    rfl
  refine ⟨d.start.2, ?_, ?_, ?_, ?_⟩
  · simp only [run?_cons, step?, Option.bind_some, run?_nil, d]
  · rw [hstart, hd]
    exact ⟨rfl, rfl, rfl, hpermits, by simp [isPaced, new, hunpaced]⟩
  · rw [hstart, hd]
    rfl
  · rw [hstart, hd]

namespace Solitary

variable [DecidableEq τ] {e : Engine κ V} {r : Request κ}

/-- The request that waits begins. -/
lemma launched (h : Solitary e r) :
    ∃ d, e.run? [.receive, .launch] = some d ∧ Engaged d e.begun (.ready r) [] ∧
      d.setup = e.setup ∧ d.begun = e.begun + 1 ∧ d.journal = .began e.begun r :: e.journal := by
  set d : Engine κ V := { e with requests := ⟨[], false⟩, dispatcher := .holding r }
  have hreceive : e.receive? = some d := by
    simp only [receive?, h.dispatcher, h.requests, Queue.pop?]
    rfl
  have hlaunch : d.launch? =
      some { d.begin r with dispatcher := .idle, permits := e.permits - 1 } := by
    have hunpaced : d.isPaced = false := h.unpaced
    have hpermits : 0 < d.permits := h.permits
    simp only [launch?, hunpaced, hpermits, ↓reduceIte]
    rfl
  have hworkers : e.workers ++ [⟨e.begun, .ready r⟩] = [⟨e.begun, .ready r⟩] := by
    rw [h.workers, List.nil_append]
  refine ⟨{ d.begin r with dispatcher := .idle, permits := e.permits - 1 }, ?_,
    ⟨rfl, rfl, hworkers, h.unpaced⟩, rfl, rfl, rfl⟩
  simp only [run?_cons, step?, hreceive, hlaunch, Option.bind_some, run?_nil]

/-- A round in which a redirect is followed: the request that follows it waits next. -/
lemma followed (h : Solitary e r) {a : Answer} {wire : Wire} {location target : Text}
    (hwire : Wire.ofRequest r e.setup.settings = .ok wire) (here : a.location? = some location)
    (join : Url.join r.url location = .ok target)
    (within : (r.redirected target (a.toResponse r)).redirectTimes ≤ e.setup.settings.maxRedirectTimes)
    (unjudged : e.setup.judgesRedirects = false) :
    ∃ (moves : List (Move κ V)) (e' : Engine κ V), e.run? moves = some e' ∧
      Solitary e' ((contextOf r).keep (r.redirected target (a.toResponse r))) ∧
      e'.setup = e.setup ∧ e'.submitted = e.submitted := by
  obtain ⟨d, hbegun, hready, hd, -, hjournal⟩ := h.launched
  obtain ⟨d₁, hsend, hexchanging, hd₁, hjournal₁⟩ := hready.sent (hd ▸ hwire)
  have hsetup : d₁.setup = e.setup := hd₁.trans hd
  obtain ⟨e', hanswer, halone, he', hjournal'⟩ :=
    hexchanging.redirected here join (hsetup ▸ within) (hsetup ▸ unjudged)
  refine ⟨[.receive, .launch] ++ [.send e.begun, .answer e.begun (.answered a)], e', ?_, halone,
    he'.trans hsetup, ?_⟩
  · rw [run?_append, hbegun]
    simp only [Option.bind_some, run?_cons, step?, hsend, hanswer, run?_nil]
  · rw [submitted, hjournal', hjournal₁, hjournal]
    rfl

/-- A round in which the request cannot be sent, and the handler that is told of this asks the context
that it is given for another one, which waits next. -/
lemma asked (h : Solitary e r) {error : Error}
    (hwire : Wire.ofRequest r e.setup.settings = .error error)
    (hears : e.setup.hearsFailures = true) (quiet : r.onError = none) (q : Request κ) :
    ∃ (d e' : Engine κ V), e.run? [.receive, .launch, .send e.begun] = some d ∧
      .told e.begun .crawler (.failure r error (contextOf r)) ∈ d.journal ∧
      d.run? [.act e.begun (.add (contextOf r) q), .reply e.begun none] = some e' ∧
      Solitary e' ((contextOf r).adopt q) ∧ e'.setup = e.setup ∧
      .enqueued .outside ((contextOf r).adopt q) ∈ e'.journal ∧ e.journal <:+ e'.journal := by
  obtain ⟨d₁, hbegun, hready, hd₁, -, hjournal₁⟩ := h.launched
  obtain ⟨d, hsend, htelling, hd, hjournal⟩ := hready.failed (hd₁ ▸ hwire) (hd₁ ▸ hears) quiet
  obtain ⟨d₂, hact, hasked, hd₂, hjournal₂⟩ := htelling.adds (contextOf r) q
  obtain ⟨e', hreply, halone, he', hjournal'⟩ := hasked.replies
  refine ⟨d, e', ?_, ?_, ?_, halone, he'.trans (hd₂.trans (hd.trans hd₁)), ?_, ?_⟩
  · have hcut := run?_append e [.receive, .launch] [.send e.begun]
    rw [hbegun, Option.bind_some, run?_cons, step?, hsend, Option.bind_some, run?_nil] at hcut
    exact hcut
  · rw [hjournal]
    exact List.mem_cons_self ..
  · simp only [run?_cons, step?, hact, hreply, Option.bind_some, run?_nil]
  · simp [hjournal', hjournal₂]
  · rw [hjournal', hjournal₂, hjournal, hjournal₁]
    exact List.suffix_append [_, _, _, _, _] e.journal

end Solitary

end WebCrawl.Engine
