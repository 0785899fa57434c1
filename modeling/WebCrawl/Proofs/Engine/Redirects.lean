import Mathlib.Data.List.Nodup
import WebCrawl.Proofs.Engine.Exchanges
import WebCrawl.Proofs.Engine.Lineage
import WebCrawl.Proofs.Engine.Solitary

set_option autoImplicit false

/-!
# Histories of redirects

Every request in an engine goes back to one that was handed in from outside, by tries without an
answer and by redirects that were followed. If that one had no history, the history of the request
is the list of those redirects in their order, whatever else was under way, and each response in it
has the history up to itself.

## Main definitions

* `WebCrawl.Engine.Descends` — how a request goes back to one from outside, as the journal tells it.
* `WebCrawl.Engine.EntryFor` — what an entry of a history holds.
* `WebCrawl.Engine.Records` — the history of a request records the redirects that led to it.

## Main results

* `WebCrawl.Engine.Chronicled.exists_descent` — every request goes back to one from outside.
* `WebCrawl.Engine.Reachable.history_records_redirects` — the history of a request records the
  redirects that led to it, and every response that is told has the history of its request.
* `WebCrawl.Engine.history_outgrows_count` — a history that is longer than the count of its redirects.
-/

namespace WebCrawl.Engine

open Crawl

variable {κ τ : Type} {V : τ → Type}

/-! ## What a redirect changes -/

section Redirected

variable (r : Request κ) (target : Text) (response : Response κ)

/-- A redirect adds itself to the history, with the request that it answered. -/
lemma redirected_history :
    (r.redirected target response).history =
      r.history ++ [⟨{ r.detached with history := [] }, response⟩] := by
  unfold Request.redirected
  split <;> rfl

lemma redirected_url : (r.redirected target response).url = target := by
  unfold Request.redirected
  split <;> rfl

lemma redirected_originUrl : (r.redirected target response).originUrl = r.originUrl := by
  unfold Request.redirected
  split <;> rfl

lemma redirected_redirectTimes :
    (r.redirected target response).redirectTimes = countUp r.redirectTimes := by
  unfold Request.redirected
  split <;> rfl

end Redirected

/-- An answer with a location has the status of a redirect. -/
lemma location?_eq_some {a : Answer} {location : Text} (h : a.location? = some location) :
    a.status ∈ [301, 302, 303, 307] ∧ a.headers.get? "Location" = some location := by
  unfold Answer.location? at h
  split at h
  · rename_i hs
    exact ⟨by simpa [Http.isRedirect] using hs, h⟩
  · cases h

/-! ## Descent -/

/-- How a request goes back to one that was handed in from outside. A worker that began with a
request in between handed in the next one: for another try if no answer came back, and else for the
redirect that the answer was. The redirects are listed in their order, each as the request that was
sent and the answer to it. -/
inductive Descends (e : Engine κ V) (first : Request κ) :
    Request κ → List (Request κ × Answer) → Prop where
  | submitted (mem : first ∈ e.submitted) : Descends e first first []
  | retried {n : Nat} {r r' : Request κ} {followed : List (Request κ × Answer)}
    (before : Descends e first r followed) (began : (n, r) ∈ e.beginnings)
    (unanswered : ∀ a, (n, a) ∉ e.answers) (sequel : (n, r') ∈ e.sequels) :
    Descends e first r' followed
  | redirected {n : Nat} {r r' : Request κ} {a : Answer} {followed : List (Request κ × Answer)}
    (before : Descends e first r followed) (began : (n, r) ∈ e.beginnings)
    (answered : (n, a) ∈ e.answers) (sequel : (n, r') ∈ e.sequels) :
    Descends e first r' (followed ++ [(r, a)])

/-- The request to which one goes back was handed in from outside. -/
lemma Descends.mem_submitted {e : Engine κ V} {first r : Request κ}
    {followed : List (Request κ × Answer)} (h : e.Descends first r followed) :
    first ∈ e.submitted := by
  induction h with
  | submitted mem => exact mem
  | retried _ _ _ _ ih => exact ih
  | redirected _ _ _ _ ih => exact ih

/-- A request that was taken from outside was handed in from there. -/
lemma mem_submitted_of_taking {e : Engine κ V} {r : Request κ}
    (h : (Origin.outside, r) ∈ e.takings) : r ∈ e.submitted := by
  obtain ⟨event, hevent, htaking⟩ := List.mem_filterMap.1 h
  refine List.mem_filterMap.2 ⟨event, hevent, ?_⟩
  cases event with
  | enqueued origin r' =>
    obtain ⟨rfl, rfl⟩ := Prod.mk.inj (Option.some.inj htaking)
    rfl
  | _ => cases htaking

namespace Chronicled

variable {setup : Setup τ} {e : Engine κ V} {busy : Option Nat}

/-- A worker began with one request. -/
lemma beginning_unique (h : Chronicled setup busy e) {n : Nat} {r r' : Request κ}
    (hr : (n, r) ∈ e.beginnings) (hr' : (n, r') ∈ e.beginnings) : r = r' :=
  (Prod.mk.inj (List.inj_on_of_nodup_map h.beginnings hr hr' rfl)).2

/-- A worker had one answer at most. -/
lemma answer_unique (h : Chronicled setup busy e) {n : Nat} {a a' : Answer}
    (ha : (n, a) ∈ e.answers) (ha' : (n, a') ∈ e.answers) : a = a' :=
  (Prod.mk.inj (List.inj_on_of_nodup_map h.answers ha ha' rfl)).2

/-- How a request that a worker handed in follows from the one that it began with. -/
lemma sequel (h : Chronicled setup busy e) (hj : setup.judgesRedirects = false) {n : Nat}
    {r r' : Request κ} (hr : (n, r) ∈ e.beginnings) (hr' : (n, r') ∈ e.sequels) :
    Sequel setup e.answers n r r' := by
  obtain ⟨-, q, hq, hsequel⟩ := h.sequels hj _ hr'
  obtain rfl := h.beginning_unique hr hq
  exact hsequel

/-- Every request that was put into the queue goes back to one from outside.

**Proof sketch.** A request that a worker put there follows from the one with which the worker
began. That was put into the queue before, by a worker with a smaller number if by a worker, so the
induction is on the number. -/
lemma exists_descent_of_taking (h : Chronicled setup busy e) (hj : setup.judgesRedirects = false)
    {origin : Origin} {r : Request κ} (hr : (origin, r) ∈ e.takings) :
    ∃ first followed, e.Descends first r followed := by
  cases origin with
  | outside => exact ⟨r, [], .submitted (mem_submitted_of_taking hr)⟩
  | worker n =>
    induction n using Nat.strong_induction_on generalizing r with
    | _ n ih =>
      have hr' := mem_sequels_of_taking hr
      obtain ⟨-, q, hq, hsequel⟩ := h.sequels hj _ hr'
      obtain ⟨origin, horigin, hlt⟩ := h.sourced.begun _ hq
      have hbefore : ∃ first followed, e.Descends first q followed := by
        cases origin with
        | outside => exact ⟨q, [], .submitted (mem_submitted_of_taking horigin)⟩
        | worker m => exact ih m (hlt m rfl) horigin
      obtain ⟨first, followed, hbefore⟩ := hbefore
      cases hsequel with
      | retry unanswered => exact ⟨first, followed, hbefore.retried hq unanswered hr'⟩
      | redirect a location target answered =>
        exact ⟨first, followed ++ [(q, a)], hbefore.redirected hq answered hr'⟩

/-- Every request that waits or has begun goes back to one from outside. -/
lemma exists_descent (h : Chronicled setup busy e) (hj : setup.judgesRedirects = false)
    {r : Request κ} (hr : r ∈ e.held ++ e.requests.waiting ∨ ∃ n, (n, r) ∈ e.beginnings) :
    ∃ first followed, e.Descends first r followed := by
  obtain hr | ⟨n, hr⟩ := hr
  · obtain ⟨origin, horigin⟩ := h.sourced.waiting r hr
    exact h.exists_descent_of_taking hj horigin
  · obtain ⟨origin, horigin, -⟩ := h.sourced.begun _ hr
    exact h.exists_descent_of_taking hj horigin

end Chronicled

/-! ## What a history records -/

/-- What an entry of a history holds, if the request `q` was answered by the redirect `a`, and `before`
are the entries before it: the request as it was sent, but without a context and with an emptied history
of its own; and the response, with the entries before it as its history. -/
structure EntryFor (hop : Hop κ) (before : List (Hop κ)) (q : Request κ) (a : Answer) : Prop where
  request : hop.request = { q with context := none, history := [] }
  response : hop.response =
    { url := q.url, status := a.status, headers := a.headers, cookies := a.cookies, body := a.body
      request := { q with context := none }, metadata := q.metadata, history := before
      certificates := a.certificates }

/-- The addresses on the way to a request, the last being its own. -/
def addresses (followed : List (Request κ × Answer)) (r : Request κ) : List Text :=
  followed.map (·.1.url) ++ [r.url]

/-- The history of a request that goes back to another one records the redirects in between. -/
structure Records (e : Engine κ V) (first r : Request κ) (followed : List (Request κ × Answer)) :
    Prop where
  /-- The requests were sent and answered so. -/
  exchanged : ∀ p ∈ followed, ∃ n, (n, p.1) ∈ e.beginnings ∧ (n, p.2) ∈ e.answers
  /-- There are as many entries as redirects. -/
  length : r.history.length = followed.length
  /-- The entries hold the redirects in their order. -/
  entries : ∀ k p, followed[k]? = some p →
    ∃ hop, r.history[k]? = some hop ∧ EntryFor hop (r.history.take k) p.1 p.2
  /-- Each answer is a redirect to the address that comes next. -/
  redirects : ∀ k p, followed[k]? = some p → p.2.status ∈ [301, 302, 303, 307] ∧
    ∃ location target, p.2.headers.get? "Location" = some location ∧
      Url.join p.1.url location = .ok target ∧ (addresses followed r)[k + 1]? = some target
  /-- The way begins at the address of the first request. -/
  start : (addresses followed r)[0]? = some first.url
  /-- The address before any redirect is kept. -/
  originUrl : r.originUrl = first.originUrl
  /-- The redirects are counted, with 32 bits. -/
  redirectTimes : r.redirectTimes = r.history.length % 2 ^ 32
  /-- There are no more of them than are allowed, unless the count starts again before that. -/
  le_max : e.setup.settings.maxRedirectTimes < 2 ^ 32 - 1 →
    r.history.length ≤ e.setup.settings.maxRedirectTimes

/-- An entry of a list with one more is one of before, or the last. -/
lemma getElem?_concat_cases {α : Type} {l : List α} {x y : α} {k : Nat}
    (h : (l ++ [x])[k]? = some y) :
    (k < l.length ∧ l[k]? = some y) ∨ (k = l.length ∧ y = x) := by
  rcases Nat.lt_or_ge k l.length with hk | hk
  · exact .inl ⟨hk, List.getElem?_append_left hk ▸ h⟩
  · rw [List.getElem?_append_right hk, List.getElem?_singleton] at h
    split at h
    · exact .inr ⟨by omega, (Option.some.inj h).symm⟩
    · cases h

namespace Records

variable {e : Engine κ V} {first r : Request κ} {followed : List (Request κ × Answer)}

/-- A request without a history. -/
lemma nil (hhistory : first.history = []) (htimes : first.redirectTimes = 0) :
    Records e first first [] where
  exchanged := nofun
  length := by rw [hhistory]; rfl
  entries := by simp
  redirects := by simp
  start := rfl
  originUrl := rfl
  redirectTimes := by rw [hhistory, htimes]; rfl
  le_max := fun _ => by rw [hhistory]; exact Nat.zero_le _

/-- Another try changes no record. -/
lemma retried (h : Records e first r followed) :
    Records e first ((contextOf r).keep { r with retryTimes := r.retryTimes + 1 }) followed :=
  { h with }

/-- A redirect adds one entry to the record.

**Proof sketch.** The history of the response that is added is that of the request, so it is all of
the history before. The other entries and their places stay, and the address after the last is the
target. -/
lemma redirected {n : Nat} {a : Answer} {location target : Text}
    (h : Records e first r followed) (hr : (n, r) ∈ e.beginnings) (ha : (n, a) ∈ e.answers)
    (here : a.location? = some location) (join : Url.join r.url location = .ok target)
    (le : (r.redirected target (a.toResponse r)).redirectTimes ≤
      e.setup.settings.maxRedirectTimes) :
    Records e first ((contextOf r).keep (r.redirected target (a.toResponse r)))
      (followed ++ [(r, a)]) := by
  set r' := (contextOf r).keep (r.redirected target (a.toResponse r))
  set hop : Hop κ := ⟨{ r.detached with history := [] }, a.toResponse r⟩
  have hhistory : r'.history = r.history ++ [hop] := redirected_history r target _
  have hlength : r.history.length = followed.length := h.length
  have hlength' : r'.history.length = r.history.length + 1 := by simp [hhistory]
  have hurl : r'.url = target := redirected_url r target _
  have htimes : r'.redirectTimes = countUp r.redirectTimes :=
    redirected_redirectTimes r target _
  have haddresses : addresses (followed ++ [(r, a)]) r' = addresses followed r ++ [target] := by
    simp [addresses, hurl]
  have hwithin : (addresses followed r).length = followed.length + 1 := by simp [addresses]
  refine {
    exchanged := ?_, length := ?_, entries := ?_, redirects := ?_, start := ?_
    originUrl := ?_, redirectTimes := ?_, le_max := ?_ }
  · intro p hp
    rcases List.mem_append.1 hp with hp | hp
    · exact h.exchanged p hp
    · obtain rfl := List.mem_singleton.1 hp
      exact ⟨n, hr, ha⟩
  · rw [hlength', hlength, List.length_append, List.length_singleton]
  · intro k p hp
    rw [hhistory]
    obtain ⟨hk, hp⟩ | ⟨rfl, rfl⟩ := getElem?_concat_cases hp
    · obtain ⟨entry, hentry, hfor⟩ := h.entries k p hp
      rw [List.getElem?_append_left (by omega), List.take_append_of_le_length (by omega)]
      exact ⟨entry, hentry, hfor⟩
    · rw [← hlength, List.getElem?_concat_length, List.take_left]
      exact ⟨hop, rfl, rfl, rfl⟩
  · intro k p hp
    rw [haddresses]
    obtain ⟨hk, hp⟩ | ⟨rfl, rfl⟩ := getElem?_concat_cases hp
    · obtain ⟨hstatus, location, there, hlocation, hjoin, hnext⟩ := h.redirects k p hp
      refine ⟨hstatus, location, there, hlocation, hjoin, ?_⟩
      rw [List.getElem?_append_left (by omega), hnext]
    · obtain ⟨hstatus, hlocation⟩ := location?_eq_some here
      refine ⟨hstatus, location, target, hlocation, join, ?_⟩
      rw [← hwithin, List.getElem?_concat_length]
  · rw [haddresses, List.getElem?_append_left (by omega), h.start]
  · exact (redirected_originUrl r target _).trans h.originUrl
  · rw [htimes, h.redirectTimes, hlength', countUp, Nat.pow_eq, Nat.mod_add_mod]
  · intro hmax
    have hle := h.le_max hmax
    have hcount := h.redirectTimes
    have htimes' : (r.redirected target (a.toResponse r)).redirectTimes =
        (r.redirectTimes + 1) % 2 ^ 32 := htimes
    omega

/-- If the count does not start again, it is the length of the history. -/
lemma redirectTimes_eq (h : Records e first r followed)
    (hm : e.setup.settings.maxRedirectTimes < 2 ^ 32 - 1) :
    r.redirectTimes = r.history.length := by
  have hle := h.le_max hm
  rw [h.redirectTimes]
  exact Nat.mod_eq_of_lt (by omega)

end Records

/-! ## A history of any length -/

section Rounds

variable [DecidableEq τ] {setup : Setup τ}

/-- The request that follows a redirect is sent as the redirected one was, if that goes to the same
address and does not say "see other". -/
lemma ofRequest_redirected {r : Request κ} {response : Response κ} (hstatus : response.status ≠ 303)
    (s : Settings) :
    Wire.ofRequest ((contextOf r).keep (r.redirected r.url response)) s = Wire.ofRequest r s := by
  unfold Request.redirected
  rw [if_neg hstatus]
  rfl

/-- A run in which any number of redirects to the address of the request itself are followed, if the
greatest number that can be counted is allowed.

**Proof sketch.** Induction on the number. Each round begins and ends with one request that waits, and
that of the next has one entry more in its history. -/
lemma exists_history {first : Request κ} {wire : Wire} {a : Answer} {location : Text}
    (hwire : Wire.ofRequest first setup.settings = .ok wire) (hstatus : a.status ≠ 303)
    (here : a.location? = some location) (join : Url.join first.url location = .ok first.url)
    (hmax : setup.settings.maxRedirectTimes = 2 ^ 32 - 1) (unjudged : setup.judgesRedirects = false)
    (hpermits : 0 < setup.settings.maxConcurrentRequests)
    (hunpaced : setup.settings.requestDelay.nanoseconds = 0) (k : Nat) :
    ∃ (e : Engine κ V) (r : Request κ), Reachable setup [] e ∧ Solitary e r ∧ e.setup = setup ∧
      e.submitted = [first] ∧ r.url = first.url ∧ Wire.ofRequest r setup.settings = .ok wire ∧
      r.history.length = first.history.length + k := by
  induction k with
  | zero =>
    obtain ⟨e, hrun, halone, hsetup, hjournal⟩ :=
      solitary_of_started (κ := κ) (V := V) first hpermits hunpaced
    exact ⟨e, first, ⟨_, hrun⟩, halone, hsetup, by rw [submitted, hjournal]; rfl, rfl, hwire, rfl⟩
  | succ k ih =>
    obtain ⟨e, r, ⟨moves, hrun⟩, halone, hsetup, hsubmitted, hurl, hwire, hlength⟩ := ih
    have hcount : (r.redirected r.url (a.toResponse r)).redirectTimes ≤ 2 ^ 32 - 1 := by
      rw [redirected_redirectTimes]
      exact Nat.le_of_lt_succ (Nat.mod_lt _ (by decide))
    have join' : Url.join r.url location = .ok r.url := by rw [hurl, join]
    obtain ⟨round, e', hround, halone', hsetup', hsubmitted'⟩ := halone.followed (hsetup ▸ hwire) here
      join' (by rw [hsetup, hmax]; exact hcount) (hsetup ▸ unjudged)
    refine ⟨e', _, ⟨moves ++ round, ?_⟩, halone', hsetup'.trans hsetup, hsubmitted'.trans hsubmitted,
      ?_, ?_, ?_⟩
    · rw [run?_append, hrun, Option.bind_some, hround]
    · exact (redirected_url r r.url _).trans hurl
    · rw [ofRequest_redirected hstatus, hwire]
    · have hhistory := redirected_history r r.url (a.toResponse r)
      rw [Context.keep, hhistory, List.length_append, hlength]
      rfl

end Rounds

/-! ## Every reachable engine -/

/-- The response that a handler is told of. -/
def Notice.response? : Notice κ → Option (Response κ)
  | .response told _ => some told
  | .failure _ _ _ => none
  | .redirect told _ _ => some told

/-- The request that has begun and has not ended with an answer or a failure. -/
def Phase.request? : Phase κ → Option (Request κ)
  | .ready r => some r
  | .exchanging r _ => some r
  | .telling _ _ _ _ => none

namespace Chronicled

variable {setup : Setup τ} {e : Engine κ V}

/-- A response that a handler is told of is the answer to the request that the worker began with. -/
lemma response_of_telling (h : Chronicled setup none e) {n : Nat} {notice : Notice κ}
    {response : Response κ} (hn : (n, notice) ∈ e.tellings) (hr : notice.response? = some response) :
    ∃ r a, (n, r) ∈ e.beginnings ∧ (n, a) ∈ e.answers ∧ response = a.toResponse r := by
  have hreports := h.tellings _ hn
  cases notice with
  | response response' c =>
    obtain rfl := Option.some.inj hr
    obtain ⟨r, a, hr, ha, hresponse, -⟩ := hreports
    exact ⟨r, a, hr, ha, hresponse⟩
  | failure r error c => cases hr
  | redirect response' next c =>
    obtain rfl := Option.some.inj hr
    obtain ⟨-, r, a, -, hr, ha, hresponse, -⟩ := hreports
    exact ⟨r, a, hr, ha, hresponse⟩

/-- A request that is under way has begun. -/
lemma began_of_request? (h : Chronicled setup none e) {w : Worker κ} (hw : w ∈ e.workers)
    {r : Request κ} (hr : w.phase.request? = some r) : (w.number, r) ∈ e.beginnings := by
  have hknows := h.workers w hw nofun
  unfold Knows at hknows
  split at hknows <;> rename_i hphase <;> rw [hphase] at hr
  · obtain rfl := Option.some.inj hr
    exact hknows.1
  · obtain rfl := Option.some.inj hr
    exact hknows.1
  · cases hr

/-- What a worker without an answer hands in is its request again. -/
lemma eq_of_unanswered (h : Chronicled setup none e) (hj : setup.judgesRedirects = false) {n : Nat}
    {r r' : Request κ} (hr : (n, r) ∈ e.beginnings) (hr' : (n, r') ∈ e.sequels)
    (unanswered : ∀ a, (n, a) ∉ e.answers) :
    r' = (contextOf r).keep { r with retryTimes := r.retryTimes + 1 } := by
  obtain _ | ⟨a, -, -, answered⟩ := h.sequel hj hr hr'
  · rfl
  · exact absurd answered (unanswered a)

/-- The history of a request that goes back to one without a history records the redirects in
between. -/
lemma records (h : Chronicled setup none e) (hj : setup.judgesRedirects = false)
    {first r : Request κ} {followed : List (Request κ × Answer)}
    (hd : e.Descends first r followed) (hhistory : first.history = [])
    (htimes : first.redirectTimes = 0) : Records e first r followed := by
  induction hd with
  | submitted => exact .nil hhistory htimes
  | retried before began unanswered sequel ih =>
    rw [h.eq_of_unanswered hj began sequel unanswered]
    exact ih.retried
  | redirected before began answered sequel ih =>
    cases h.sequel hj began sequel with
    | retry unanswered => exact absurd answered (unanswered _)
    | redirect a location target answered' here join le =>
      obtain rfl := h.answer_unique answered answered'
      rw [← h.setup_eq] at le
      exact ih.redirected began answered here join le

end Chronicled

section Reachable

variable [DecidableEq τ] {setup : Setup τ} {seeds : List (Request κ)} {e : Engine κ V}

/-- Every response that a handler is told of is the answer to the request that its worker began with,
and has the notes and the history of that. If nobody decides about redirects, every request that has
begun, is under way, is held or waits goes back to one from outside. Another try changes nothing but
the count of tries and leaves the history as it is. If the request from outside had no history, the
history records the redirects in between. These are counted with 32 bits, and the address before any
redirect is that which the request from outside names. So the count is the length of the history unless
more redirects are allowed than can be counted, and the address is that of the request from outside
unless that names another one.

**Proof sketch.** What workers do is known from the journal: each began with one request and had one
answer at most. A request that a worker handed in follows from these, so the record grows with the
steps of the descent. -/
theorem Reachable.history_records_redirects (h : Reachable setup seeds e) :
    (∀ n notice response, (n, notice) ∈ e.tellings → notice.response? = some response →
      ∃ r a, (n, r) ∈ e.beginnings ∧ (n, a) ∈ e.answers ∧ response = a.toResponse r ∧
        response.metadata = r.metadata ∧ response.history = r.history) ∧
    (∀ w ∈ e.workers, ∀ r, w.phase.request? = some r → (w.number, r) ∈ e.beginnings) ∧
    (setup.judgesRedirects = false →
      (∀ r, (r ∈ e.held ++ e.requests.waiting ∨ ∃ n, (n, r) ∈ e.beginnings) →
        ∃ first followed, e.Descends first r followed) ∧
      (∀ n r r', (n, r) ∈ e.beginnings → (n, r') ∈ e.sequels → (∀ a, (n, a) ∉ e.answers) →
        r' = (contextOf r).keep { r with retryTimes := r.retryTimes + 1 }) ∧
      ∀ first r followed, e.Descends first r followed →
        first.history = [] → first.redirectTimes = 0 →
        e.Records first r followed ∧ r.redirectTimes = r.history.length % 2 ^ 32 ∧
        r.originUrl = first.originUrl ∧
        (setup.settings.maxRedirectTimes < 2 ^ 32 - 1 → r.redirectTimes = r.history.length) ∧
        (first.originUrl = first.url → r.originUrl = first.url)) := by
  have hc := h.chronicled
  refine ⟨fun n notice response hn hresponse => ?_, fun w hw r hr => hc.began_of_request? hw hr,
    fun hj => ⟨fun r hr => hc.exists_descent hj hr,
      fun n r r' hr hr' unanswered => hc.eq_of_unanswered hj hr hr' unanswered,
      fun first r followed hd hhistory htimes => ?_⟩⟩
  · obtain ⟨r, a, hr, ha, rfl⟩ := hc.response_of_telling hn hresponse
    exact ⟨r, a, hr, ha, rfl, rfl, rfl⟩
  · have hrecords := hc.records hj hd hhistory htimes
    refine ⟨hrecords, hrecords.redirectTimes, hrecords.originUrl,
      fun hm => hrecords.redirectTimes_eq ?_, fun horigin => ?_⟩
    · rwa [hc.setup_eq]
    · exact hrecords.originUrl.trans horigin

/-- A request that waits after its first redirect, with that in its history. -/
theorem history_of_one_redirect :
    ∃ (setup : Setup Unit) (seeds : List (Request Unit)) (e : Engine Unit fun _ : Unit => Unit)
      (first r : Request Unit) (followed : List (Request Unit × Answer)),
      Reachable setup seeds e ∧ setup.judgesRedirects = false ∧
      setup.settings.maxRedirectTimes < 2 ^ 32 - 1 ∧ r ∈ e.requests.waiting ∧
      e.Descends first r followed ∧ first.history = [] ∧ first.redirectTimes = 0 ∧
      first.originUrl = first.url ∧ e.Records first r followed ∧
      r.redirectTimes = r.history.length ∧ r.originUrl = first.url ∧ r.url = "http://a/b" ∧
      r.history.length = 1 := by
  let setup : Setup Unit := { settings := {} }
  let seeds : List (Request Unit) := [.get "http://a/"]
  let found : Answer := { status := 302, headers := .ofList [("Location", "/b")] }
  let moves : List (Move Unit fun _ : Unit => Unit) :=
    [.start, .receive, .launch, .send 0, .answer 0 (.answered found)]
  have hrun : ((new setup seeds).run? moves).isSome = true := by decide +kernel
  obtain ⟨e, he⟩ := Option.isSome_iff_exists.1 hrun
  have hreach : Reachable setup seeds e := ⟨moves, he⟩
  obtain ⟨r, hr, hurl, hlength⟩ : ∃ r ∈ e.requests.waiting,
      r.url = "http://a/b" ∧ r.history.length = 1 := by
    have hany : ((new setup seeds).run? moves).any (fun e => e.requests.waiting.any fun r =>
        r.url == "http://a/b" && r.history.length == 1) = true := by decide +kernel
    rw [he] at hany
    simpa using hany
  have hsubmitted : ∀ r ∈ e.submitted, r.history.length = 0 ∧ r.redirectTimes = 0 ∧
      r.originUrl = r.url := by
    have hall : ((new setup seeds).run? moves).all (fun e => e.submitted.all fun r =>
        r.history.length == 0 && r.redirectTimes == 0 && r.originUrl == r.url) = true := by
      decide +kernel
    rw [he] at hall
    simpa [and_assoc] using hall
  have hm : setup.settings.maxRedirectTimes < 2 ^ 32 - 1 := by decide
  obtain ⟨-, -, hunjudged⟩ := Reachable.history_records_redirects hreach
  obtain ⟨hdescends, -, hrecords⟩ := hunjudged rfl
  obtain ⟨first, followed, hd⟩ := hdescends r (.inl (List.mem_append_right _ hr))
  obtain ⟨hhistory, htimes, horigin⟩ := hsubmitted first hd.mem_submitted
  have hempty : first.history = [] := List.length_eq_zero_iff.1 hhistory
  obtain ⟨hrecord, -, -, hcount, hstart⟩ := hrecords first r followed hd hempty htimes
  exact ⟨setup, seeds, e, first, r, followed, hreach, rfl, hm, hr, hd, hempty, htimes, horigin,
    hrecord, hcount hm, hstart horigin, hurl, hlength⟩

/-- A request that names another address as that before any redirect goes back to its own address
`2 ^ 32` times. Then its history is that long while the count starts again, and the address before any
redirect is still not the one that was handed in. -/
theorem history_outgrows_count :
    ∃ (setup : Setup Unit) (e : Engine Unit fun _ : Unit => Unit) (first r : Request Unit)
      (followed : List (Request Unit × Answer)),
      Reachable setup [] e ∧ setup.judgesRedirects = false ∧ r ∈ e.requests.waiting ∧
      e.Descends first r followed ∧ first.history = [] ∧ first.redirectTimes = 0 ∧
      first.retryTimes = 0 ∧ r.history.length = 2 ^ 32 ∧ r.redirectTimes = 0 ∧
      first.url = "http://a/" ∧ r.originUrl = "http://b/" := by
  let setup : Setup Unit := { settings := { maxRedirectTimes := 2 ^ 32 - 1 } }
  let first : Request Unit := { (.get "http://a/" : Request Unit) with originUrl := "http://b/" }
  let found : Answer := { status := 302, headers := .ofList [("Location", "http://a/")] }
  have hsendable : (Wire.ofRequest first setup.settings).isOk = true := by decide +kernel
  obtain ⟨wire, hwire⟩ : ∃ wire, Wire.ofRequest first setup.settings = .ok wire := by
    cases h : Wire.ofRequest first setup.settings with
    | ok wire => exact ⟨wire, rfl⟩
    | error error => rw [h] at hsendable; cases hsendable
  have here : found.location? = some "http://a/" := by decide +kernel
  have join : Url.join first.url "http://a/" = .ok first.url := by
    with_unfolding_all rfl
  obtain ⟨e, r, hreach, halone, hsetup, hsubmitted, -, -, hlength⟩ :=
    exists_history (κ := Unit) (V := fun _ : Unit => Unit) hwire (by decide) here join rfl rfl
      (by decide) rfl (2 ^ 32)
  have hwaits : r ∈ e.requests.waiting := by simp [halone.requests]
  have hc := hreach.chronicled
  obtain ⟨origin, followed, hd⟩ := hc.exists_descent rfl (.inl (List.mem_append_right _ hwaits))
  obtain rfl : origin = first := by simpa [hsubmitted] using hd.mem_submitted
  have hrecords := hc.records rfl hd rfl rfl
  have hlength' : r.history.length = 2 ^ 32 := hlength.trans (Nat.zero_add _)
  have htimes : r.redirectTimes = 0 := by rw [hrecords.redirectTimes, hlength']; rfl
  exact ⟨setup, e, first, r, followed, hreach, rfl, hwaits, hd, rfl, rfl, rfl, hlength', htimes, rfl,
    hrecords.originUrl⟩

end Reachable

end WebCrawl.Engine
