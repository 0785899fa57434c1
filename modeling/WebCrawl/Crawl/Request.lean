import WebCrawl.Crawl.Message
import WebCrawl.Text.Utf8
import WebCrawl.Url.Percent

/-!
# Requests

## Main definitions

* `WebCrawl.Crawl.Request.make` — a request for a method, an address and a body, with the short
  forms `get`, `getWithArguments`, `post` and `form`.
* `WebCrawl.Crawl.Request.redirected` — the request that follows a redirect.
-/

set_option autoImplicit false

namespace WebCrawl.Crawl.Request

variable {κ : Type}

/-! ## Making requests -/

/-- A request for a method, an address and a body. -/
def make (method url : Text) (body : ByteArray) : Request κ where
  method := method.upper
  url := url
  body := body
  headers := .empty
  cookies := []
  timeout := none
  metadata := []
  originUrl := url
  host := none
  history := []
  retryTimes := 0
  redirectTimes := 0
  onResponse := none
  onError := none
  context := none

/-- A request that fetches an address. -/
def get (url : Text) : Request κ := make "GET" url .empty

/-- An address with a query added to its end. -/
def addQuery (url query : Text) : Text :=
  if query.isEmpty then url else url ++ (if '?' ∈ url then '&' else '?') :: query

/-- A request that fetches an address with arguments in its query. -/
def getWithArguments (url : Text) (arguments : List (Text × Text)) : Request κ :=
  get (addQuery url (Url.formEncode arguments))

/-- A request that sends a body to an address. -/
def post (url : Text) (body : ByteArray) : Request κ := make "POST" url body

/-- Requests that fetch each of a list of addresses. -/
def getAll (urls : List Text) : List (Request κ) := urls.map get

/-! ## Filling them in -/

/-- The request with a header in place of all others of that name. -/
def withHeader (r : Request κ) (name value : Text) : Request κ :=
  { r with headers := r.headers.set name value }

/-- The request with each of a list of headers in place of the others of its name. -/
def withHeaders (r : Request κ) (headers : List (Text × Text)) : Request κ :=
  { r with headers := r.headers.setAll headers }

/-- The request with the type of its content. -/
def withContentType (r : Request κ) (type : Text) : Request κ := r.withHeader "Content-Type" type

/-- A request that sends the fields of a form to an address. -/
def form (url : Text) (fields : List (Text × Text)) : Request κ :=
  (post url ⟨(Text.encode (Url.formEncode fields)).toArray⟩).withContentType
    "application/x-www-form-urlencoded"

/-- The request with a limit of time of its own. -/
def withTimeout (r : Request κ) (limit : Duration) : Request κ := { r with timeout := some limit }

/-- A list of pairs in which a name has the value and no other. -/
def assign {α : Type} (pairs : List (Text × α)) (name : Text) (value : α) : List (Text × α) :=
  pairs.filter (·.1 ≠ name) ++ [(name, value)]

/-- The request with a note. -/
def withNote (r : Request κ) (name : Text) (value : Json) : Request κ :=
  { r with metadata := assign r.metadata name value }

/-- The name of the note that holds the address of the proxy. -/
def proxyNote : Text := "proxy_url"

/-- The request sent through a proxy. -/
def withProxy (r : Request κ) (url : Text) : Request κ := r.withNote proxyNote (.string url)

/-- The address of the proxy, if the request goes through one. -/
def proxy? (r : Request κ) : Option Text :=
  match r.metadata.lookup proxyNote with
  | some (.string url) => some url
  | _ => none

/-- The order of names by their bytes, which is that of their characters. -/
def comesBefore : Text → Text → Bool
  | [], [] => false
  | [], _ :: _ => true
  | _ :: _, [] => false
  | a :: s, b :: t => if a = b then comesBefore s t else a.toNat < b.toNat

/-- A list in the order of its names in which a name has the value and no other. -/
def assignSorted (pairs : List (Text × Text)) (name value : Text) : List (Text × Text) :=
  pairs.filter (fun p => comesBefore p.1 name) ++ (name, value) ::
    pairs.filter (fun p => comesBefore name p.1)

/-- The request with a cookie. -/
def withCookie (r : Request κ) (name value : Text) : Request κ :=
  { r with cookies := assignSorted r.cookies name value }

/-- The request with each of a list of cookies. -/
def withCookies (r : Request κ) (cookies : List (Text × Text)) : Request κ :=
  cookies.foldl (fun r (name, value) => r.withCookie name value) r

/-- The request naming a host. -/
def withHost (r : Request κ) (host : Text) : Request κ := { r with host := some host }

/-! ## Redirects -/

/-- The request without its context. -/
def detached (r : Request κ) : Request κ := { r with context := none }

/-- The request that fetches without a body what another one would have sent for. -/
def asGet (r : Request κ) : Request κ :=
  { r with method := "GET", body := .empty, headers := r.headers.remove "Content-Type" }

/-- The request that follows a redirect to a location. After a redirect that says "see other" it only
fetches. -/
def redirected (r : Request κ) (location : Text) (response : Response κ) : Request κ :=
  let hop : Hop κ := ⟨{ r.detached with history := [] }, response⟩
  let next :=
    { r with
      history := r.history ++ [hop], url := location, redirectTimes := countUp r.redirectTimes }
  if response.status = 303 then next.asGet else next

end WebCrawl.Crawl.Request
