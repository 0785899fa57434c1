import WebCrawl.Crawl.Request
import WebCrawl.Http.Status
import WebCrawl.Json.Reading
import WebCrawl.Query.Document

/-!
# Responses

## Main definitions

* `WebCrawl.Crawl.Answer` — what comes back from an exchange.
* `WebCrawl.Crawl.Answer.toResponse` — the response that it is for a request.
* `WebCrawl.Crawl.Response.document` — the document in a response.
-/

set_option autoImplicit false

namespace WebCrawl.Crawl

/-- What comes back from an exchange. -/
structure Answer where
  /-- The status code. -/
  status : Nat
  /-- The headers. -/
  headers : Http.Headers := .empty
  /-- The cookies in the order in which they were sent. -/
  cookies : List (Text × Text) := []
  /-- The content. -/
  body : ByteArray := .empty
  /-- The certificates of the other side. -/
  certificates : List ByteArray := []

variable {κ : Type}

/-- The answer to a request as a response. -/
def Answer.toResponse (a : Answer) (r : Request κ) : Response κ where
  url := r.url
  status := a.status
  headers := a.headers
  cookies := a.cookies
  body := a.body
  request := r.detached
  metadata := r.metadata
  history := r.history
  certificates := a.certificates

/-- Where the answer sends the client, if it is a redirect. -/
def Answer.location? (a : Answer) : Option Text :=
  if Http.isRedirect a.status then a.headers.get? "Location" else none

namespace Response

/-- The words that go with the status. -/
def reason (r : Response κ) : Text := Http.reasonPhrase r.status

/-- The first value of a header. -/
def header? (r : Response κ) (name : Text) : Option Text := r.headers.get? name

/-- The first value of a cookie. -/
def cookie? (r : Response κ) (name : Text) : Option Text := r.cookies.lookup name

/-- The content as a text; bytes that are no text are replaced. -/
def text (r : Response κ) : Text := Text.decodeLossy r.body.data.toList

/-- The content as JSON. -/
def json? (r : Response κ) : Option Json := Json.parseBytes? r.body.data.toList

/-- The document in the content. -/
def document (r : Response κ) : Query.Document := .parse r.text

end Response

end WebCrawl.Crawl
