import WebCrawl.Duration
import WebCrawl.Query.Error

/-!
# Errors of a crawl

## Main definitions

* `WebCrawl.Crawl.Error` — what can go wrong with a request or with the crawler.
* `WebCrawl.Crawl.Error.isRetryable` — the errors after which a request is repeated.
* `WebCrawl.Crawl.PipelineError` — what can go wrong in a pipeline.
-/

set_option autoImplicit false

namespace WebCrawl.Crawl

/-- What can go wrong with a request or with the crawler. -/
inductive Error where
  /-- The request cannot be sent as it is. -/
  | build (method url reason : Text)
  /-- The exchange failed. -/
  | transport (url reason : Text)
  /-- The exchange took too long. -/
  | timeout (url : Text) (limit : Duration)
  /-- The request was redirected more often than is allowed. -/
  | tooManyRedirects (url : Text) (times : Nat)
  /-- The location of a redirect is no URL. -/
  | invalidRedirect (url location reason : Text)
  /-- The settings cannot be used. -/
  | configuration (reason : Text)
  /-- The crawler was started before. -/
  | alreadyStarted
  /-- The crawler takes nothing more. -/
  | queueClosed
  /-- A query cannot be compiled. -/
  | query (error : Query.Error)
deriving DecidableEq, Repr

/-- The wording of an error. -/
def Error.message : Error → Text
  | .build method url reason =>
    "failed to build request " ++ method ++ " " ++ url ++ ": " ++ reason
  | .transport url reason => "transport error for " ++ url ++ ": " ++ reason
  | .timeout url limit => "request to " ++ url ++ " timed out after " ++ limit.toText
  | .tooManyRedirects url times =>
    "redirected too many times (" ++ Text.ofNat times ++ ") while fetching " ++ url
  | .invalidRedirect url location reason =>
    "invalid redirect location " ++ Text.quoted location ++ " from " ++ url ++ ": " ++ reason
  | .configuration reason => "configuration error: " ++ reason
  | .alreadyStarted => "crawl engine already started"
  | .queueClosed => "crawl engine queue is closed"
  | .query error => error.message

/-- Whether a request that failed so may succeed when it is repeated. -/
def Error.isRetryable : Error → Bool
  | .transport _ _ => true
  | .timeout _ _ => true
  | _ => false

/-- What can go wrong in a pipeline. -/
inductive PipelineError where
  /-- The pipeline does not take the item. -/
  | rejected (pipeline reason : Text)
  /-- Reading or writing failed. -/
  | io (reason : Text)
  /-- A value cannot be written as JSON, or read as such. -/
  | serialization (reason : Text)
  /-- Anything else. -/
  | other (reason : Text)
deriving DecidableEq, Repr

/-- The wording of a pipeline error. -/
def PipelineError.message : PipelineError → Text
  | .rejected pipeline reason => "pipeline " ++ pipeline ++ " rejected item: " ++ reason
  | .io reason => "pipeline i/o error: " ++ reason
  | .serialization reason => "pipeline serialization error: " ++ reason
  | .other reason => reason

end WebCrawl.Crawl
