import WebCrawl.Duration
import WebCrawl.Json.Reading

/-!
# Settings

What a crawler can be told. Settings are read from JSON, either an object of some of the fields or
an array of the first ones; what is not given has its default.

## Main definitions

* `WebCrawl.Crawl.Settings` — the settings with their defaults.
* `WebCrawl.Crawl.Settings.fault?` — why a crawler cannot run with them.
* `WebCrawl.Crawl.Settings.ofJson?`, `WebCrawl.Crawl.Settings.toJson` — settings as JSON.
-/

set_option autoImplicit false

namespace WebCrawl.Crawl

/-- What a crawler can be told. -/
structure Settings where
  /-- How many requests may be under way at once. -/
  maxConcurrentRequests : Nat := 100
  /-- The pause between requests; with one, requests go one by one. -/
  requestDelay : Duration := .ofMilliseconds 0
  /-- How long an exchange may take unless its request says otherwise. -/
  requestTimeout : Duration := .ofMilliseconds 20000
  /-- How many workers take items from their queue. -/
  itemWorkers : Nat := 6
  /-- How many items may be processed at once. -/
  maxConcurrentItems : Nat := 6
  /-- How often a request is repeated after a failure of the transport. -/
  maxRetryTimes : Nat := 3
  /-- How many redirects of one request are followed. -/
  maxRedirectTimes : Nat := 10
  /-- Whether documents are read as soon as their response is there. -/
  autoParseHtml : Bool := true
  /-- Whether certificates that cannot be verified are accepted. -/
  skipTlsVerify : Bool := false
  /-- How many compiled queries are kept. -/
  selectorCacheCapacity : Nat := 100
  /-- Whether no compiled queries are kept, whatever the capacity. -/
  disableSelectorCache : Bool := false
  /-- How often it is looked whether the crawler is idle. -/
  pollInterval : Duration := .ofMilliseconds 200
  /-- The user agent of requests that name none. -/
  userAgent : Option Text := none
deriving DecidableEq, Repr

namespace Settings

instance : Inhabited Settings := ⟨{}⟩

/-- Why a crawler cannot run with the settings. -/
def fault? (s : Settings) : Option Text :=
  if s.maxConcurrentRequests = 0 then some "max_concurrent_requests must be greater than 0."
  else if s.itemWorkers = 0 then some "item_workers must be greater than 0."
  else if s.maxConcurrentItems = 0 then some "max_concurrent_process_items must be greater than 0."
  else if s.pollInterval.nanoseconds = 0 then some "poll_interval must be greater than 0."
  else none

/-- Whether compiled queries are kept. -/
def keepsQueries (s : Settings) : Bool := !s.disableSelectorCache && s.selectorCacheCapacity != 0

/-- How many compiled queries are kept. -/
def cacheCapacity (s : Settings) : Nat := if s.keepsQueries then s.selectorCacheCapacity else 0

/-! ## JSON -/

/-- A natural number below a bound. -/
def below? (bound : Nat) : Json → Option Nat
  | .integer n => if 0 ≤ n ∧ n < bound then some n.toNat else none
  | _ => none

/-- A number of 64 bits. -/
def word? (v : Json) : Option Nat := below? (Nat.pow 2 64) v

/-- A number of 32 bits. -/
def shortWord? (v : Json) : Option Nat := below? (Nat.pow 2 32) v

/-- A duration in milliseconds. -/
def duration? (v : Json) : Option Duration := (word? v).map .ofMilliseconds

/-- A truth value. -/
def truth? : Json → Option Bool
  | .bool b => some b
  | _ => none

/-- A text that may be missing. -/
def optionalText? : Json → Option (Option Text)
  | .null => some none
  | .string s => some (some s)
  | _ => none

/-- How a field is set. -/
abbrev Setter := Settings → Json → Option Settings

/-- The fields in their order, each with its name and how it is set. -/
def setters : List (Text × Setter) :=
  [("max_concurrent_requests".toList, fun s v => do
      return { s with maxConcurrentRequests := ← word? v }),
   ("request_delay".toList, fun s v => do return { s with requestDelay := ← duration? v }),
   ("request_timeout".toList, fun s v => do return { s with requestTimeout := ← duration? v }),
   ("item_workers".toList, fun s v => do return { s with itemWorkers := ← word? v }),
   ("max_concurrent_process_items".toList, fun s v => do
      return { s with maxConcurrentItems := ← word? v }),
   ("max_retry_times".toList, fun s v => do return { s with maxRetryTimes := ← shortWord? v }),
   ("max_redirect_times".toList, fun s v => do
      return { s with maxRedirectTimes := ← shortWord? v }),
   ("auto_parse_html".toList, fun s v => do return { s with autoParseHtml := ← truth? v }),
   ("skip_tls_verify".toList, fun s v => do return { s with skipTlsVerify := ← truth? v }),
   ("selector_cache_capacity".toList, fun s v => do
      return { s with selectorCacheCapacity := ← word? v }),
   ("disable_selector_cache".toList, fun s v => do
      return { s with disableSelectorCache := ← truth? v }),
   ("poll_interval".toList, fun s v => do return { s with pollInterval := ← duration? v }),
   ("user_agent".toList, fun s v => do return { s with userAgent := ← optionalText? v })]

/-- One field of an object. A field that is not known has no effect. -/
def setField (s : Settings) (field : Text × Json) : Option Settings :=
  match setters.lookup field.1 with
  | some setter => setter s field.2
  | none => some s

/-- Whether a known field is given twice. -/
def repeats (names : List Text) : Bool :=
  let known := names.filter fun name => (setters.lookup name).isSome
  known.eraseDups.length != known.length

/-- The settings that a value stands for. -/
def ofJson? : Json → Option Settings
  | .object fields =>
    if repeats (fields.map (·.1)) then none else fields.foldlM setField {}
  | .array items =>
    if setters.length < items.length then none
    else (setters.zip items).foldlM (fun s (field, v) => field.2 s v) {}
  | _ => none

/-- The settings as an object of all fields. -/
def toJson (s : Settings) : Json :=
  .object
    [("max_concurrent_requests".toList, .integer s.maxConcurrentRequests),
     ("request_delay".toList, .integer s.requestDelay.milliseconds),
     ("request_timeout".toList, .integer s.requestTimeout.milliseconds),
     ("item_workers".toList, .integer s.itemWorkers),
     ("max_concurrent_process_items".toList, .integer s.maxConcurrentItems),
     ("max_retry_times".toList, .integer s.maxRetryTimes),
     ("max_redirect_times".toList, .integer s.maxRedirectTimes),
     ("auto_parse_html".toList, .bool s.autoParseHtml),
     ("skip_tls_verify".toList, .bool s.skipTlsVerify),
     ("selector_cache_capacity".toList, .integer s.selectorCacheCapacity),
     ("disable_selector_cache".toList, .bool s.disableSelectorCache),
     ("poll_interval".toList, .integer s.pollInterval.milliseconds),
     ("user_agent".toList, s.userAgent.elim .null .string)]

end Settings

end WebCrawl.Crawl
