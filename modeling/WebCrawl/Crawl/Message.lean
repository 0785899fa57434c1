import WebCrawl.Duration
import WebCrawl.Http.Headers
import WebCrawl.Json.Basic

/-!
# Messages of a crawl

A request says what is to be fetched and where it came from: the redirects that led to it and the
exchange after which it was asked for. A response holds the request that it answers. The type of the
handlers that a request may bring with it is a parameter.

## Main definitions

* `WebCrawl.Crawl.Request`, `WebCrawl.Crawl.Response` — what is sent and what comes back.
* `WebCrawl.Crawl.Hop` — one redirect that was followed.
* `WebCrawl.Crawl.Context` — the place of a request in the crawl.
* `WebCrawl.Crawl.countUp` — how redirects and steps are counted.
-/

set_option autoImplicit false

namespace WebCrawl.Crawl

mutual

/-- What is to be fetched, and the place of that in the crawl. -/
structure Request (κ : Type) where
  /-- The method in capital letters. -/
  method : Text
  /-- The address. -/
  url : Text
  /-- What is sent along. -/
  body : ByteArray
  /-- The headers that the caller set. -/
  headers : Http.Headers
  /-- The cookies by name, in the order of the names. -/
  cookies : List (Text × Text)
  /-- How long the exchange may take, if that differs from the settings. -/
  timeout : Option Duration
  /-- What the caller noted down, by name. -/
  metadata : List (Text × Json)
  /-- The address before any redirect. -/
  originUrl : Text
  /-- The host that the request names instead of that of its address. -/
  host : Option Text
  /-- The redirects that led here. -/
  history : List (Hop κ)
  /-- How often the request was repeated. -/
  retryTimes : Nat
  /-- How often the request was redirected, counted with 32 bits. -/
  redirectTimes : Nat
  /-- Who is told of the response before all others. -/
  onResponse : Option κ
  /-- Who is told of a failure before all others. -/
  onError : Option κ
  /-- The place of the request in the crawl, once it was handed in there. -/
  context : Option (Context κ)

/-- What came back for a request. -/
structure Response (κ : Type) where
  /-- The address of the request. -/
  url : Text
  /-- The status code. -/
  status : Nat
  /-- The headers. -/
  headers : Http.Headers
  /-- The cookies in the order in which they were sent. -/
  cookies : List (Text × Text)
  /-- The content. -/
  body : ByteArray
  /-- The request, without its context. -/
  request : Request κ
  /-- What the caller noted down with the request. -/
  metadata : List (Text × Json)
  /-- The redirects that led to the request. -/
  history : List (Hop κ)
  /-- The certificates of the other side. -/
  certificates : List ByteArray

/-- One redirect that was followed. -/
structure Hop (κ : Type) where
  /-- The request that was answered by the redirect. -/
  request : Request κ
  /-- The redirect. -/
  response : Response κ

/-- The place of a request in the crawl. -/
structure Context (κ : Type) where
  /-- How many steps it lies from the start, counted with 32 bits. -/
  depth : Nat
  /-- The request of the exchange after which this one was asked for. -/
  lastRequest : Option (Request κ)
  /-- The response of that exchange. -/
  lastResponse : Option (Response κ)

end

/-- The place from which a crawl starts. -/
def Context.root {κ : Type} : Context κ := ⟨0, none, none⟩

/-- The count after one more. The redirects of a request and the steps to it are counted with 32 bits.
-/
def countUp (n : Nat) : Nat := (n + 1) % Nat.pow 2 32

end WebCrawl.Crawl
