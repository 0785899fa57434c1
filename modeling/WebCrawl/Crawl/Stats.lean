import WebCrawl.Double.Decimal
import WebCrawl.Json.Basic

/-!
# Statistics

What a crawl has done so far, in numbers. The numbers have no bound here: that a counter of 64 bits
starts again from zero is left out.

## Main definitions

* `WebCrawl.Crawl.Stats` — the counts.
* `WebCrawl.Crawl.Stats.recordAnswer` — one more response with its status and its size.
* `WebCrawl.Crawl.Stats.summary`, `WebCrawl.Crawl.Stats.markdown`, `WebCrawl.Crawl.Stats.toJson` —
  the counts in writing.
-/

set_option autoImplicit false

namespace WebCrawl.Crawl

/-- What a crawl has done so far. -/
structure Stats where
  /-- Requests that the queue took. -/
  enqueued : Nat := 0
  /-- Requests that were sent. -/
  sent : Nat := 0
  /-- Requests that ended with a response. -/
  succeeded : Nat := 0
  /-- Requests that ended with an error. -/
  failed : Nat := 0
  /-- Requests that were repeated after an error. -/
  retried : Nat := 0
  /-- Requests whose redirect was followed. -/
  redirected : Nat := 0
  /-- Requests that the queue did not take, or that were thrown away in the end. -/
  requestsDropped : Nat := 0
  /-- Responses that came back. -/
  received : Nat := 0
  /-- The bytes in those responses. -/
  bytes : Nat := 0
  /-- Items that the queue took. -/
  scraped : Nat := 0
  /-- Items that passed all stages. -/
  processed : Nat := 0
  /-- Items that the queue or a stage did not take, or that were thrown away in the end. -/
  itemsDropped : Nat := 0
  /-- How many responses had each status, in the order of the codes. -/
  statuses : List (Nat × Nat) := []
deriving DecidableEq, Repr

namespace Stats

/-- One more of a number in a list that is in the order of the numbers. -/
def increment : List (Nat × Nat) → Nat → List (Nat × Nat)
  | [], n => [(n, 1)]
  | (m, count) :: rest, n =>
    if n < m then (n, 1) :: (m, count) :: rest
    else if n = m then (m, count + 1) :: rest
    else (m, count) :: increment rest n

/-- How many responses had a status. -/
def statusCount (s : Stats) (status : Nat) : Nat := (s.statuses.lookup status).getD 0

/-- One more response. -/
def recordAnswer (s : Stats) (status size : Nat) : Stats :=
  { s with
    received := s.received + 1, bytes := s.bytes + size, statuses := increment s.statuses status }

/-- Requests and items that were thrown away. -/
def recordDiscarded (s : Stats) (requests items : Nat) : Stats :=
  { s with
    requestsDropped := s.requestsDropped + requests, itemsDropped := s.itemsDropped + items }

/-! ## In writing -/

/-- An amount of bytes in a unit of `2 ^ power` bytes, with two decimals. -/
def inUnit (bytes power : Nat) (unit : Text) : Text :=
  Double.fixed 2 (mkRat bytes (Nat.pow 2 power)) ++ ' ' :: unit

/-- An amount of bytes in the largest unit that it holds. -/
def bytesText (n : Nat) : Text :=
  if Nat.pow 2 30 ≤ n then inUnit n 30 "GB"
  else if Nat.pow 2 20 ≤ n then inUnit n 20 "MB"
  else if Nat.pow 2 10 ≤ n then inUnit n 10 "KB"
  else Text.ofNat n ++ " B"

/-- Counts with their labels in one line. -/
def labelled (counts : List (String × Text)) : Text :=
  Text.join ", " (counts.map fun (label, count) => label.toList ++ ": " ++ count)

/-- The counts of the status codes as a list, each written by a function, or what stands for none. -/
def statusList (s : Stats) (separator : Text) (write : Nat → Nat → Text) (none : Text) : Text :=
  if s.statuses.isEmpty then none
  else Text.join separator (s.statuses.map fun (status, count) => write status count)

/-- The lines of the summary. -/
def summaryLines (s : Stats) : List Text :=
  ["",
   "Crawl Statistics",
   "----------------",
   "  requests : " ++ labelled
     [("enqueued", Text.ofNat s.enqueued), ("sent", Text.ofNat s.sent),
      ("ok", Text.ofNat s.succeeded), ("fail", Text.ofNat s.failed),
      ("retry", Text.ofNat s.retried), ("redirect", Text.ofNat s.redirected),
      ("drop", Text.ofNat s.requestsDropped)],
   "  response : " ++ labelled
     [("received", Text.ofNat s.received), ("downloaded", bytesText s.bytes)],
   "  items    : " ++ labelled
     [("scraped", Text.ofNat s.scraped), ("processed", Text.ofNat s.processed),
      ("dropped", Text.ofNat s.itemsDropped)],
   "  status   : " ++ s.statusList ", " (fun status count =>
     Text.ofNat status ++ ": " ++ Text.ofNat count) "none",
   ""]

/-- The counts as a plain text. -/
def summary (s : Stats) : Text := Text.join "\n" s.summaryLines

/-- A row of a table of counts, the label filled up to ten characters. -/
def tableRow (row : String × Text) : Text :=
  let label := row.1.toList
  "| ".toList ++ label ++ List.replicate (10 - label.length) ' ' ++ " | ".toList ++ row.2 ++ " |".toList

/-- A table of counts under a heading, with an empty line before it. -/
def table (heading : Text) (rows : List (String × Text)) : List Text :=
  (["", "## ".toList ++ heading, "| Metric     | Count |", "|------------|-------|"] : List Text) ++
    rows.map tableRow

/-- The lines of the counts in Markdown. -/
def markdownLines (s : Stats) : List Text :=
  (["# Crawl Statistics Report", ""] : List Text) ++
  table "Requests"
    [("Enqueued", Text.ofNat s.enqueued), ("Sent", Text.ofNat s.sent),
     ("Succeeded", Text.ofNat s.succeeded), ("Failed", Text.ofNat s.failed),
     ("Retried", Text.ofNat s.retried), ("Redirected", Text.ofNat s.redirected),
     ("Dropped", Text.ofNat s.requestsDropped)] ++
  table "Responses" [("Received", Text.ofNat s.received), ("Downloaded", bytesText s.bytes)] ++
  table "Items"
    [("Scraped", Text.ofNat s.scraped), ("Processed", Text.ofNat s.processed),
     ("Dropped", Text.ofNat s.itemsDropped)] ++
  (["", "## Status Codes",
   s.statusList "\n" (fun status count =>
     "- **" ++ Text.ofNat status ++ "**: " ++ Text.ofNat count) "N/A"] : List Text)

/-- The counts in Markdown. -/
def markdown (s : Stats) : Text := Text.join "\n" s.markdownLines

/-- The counts as JSON. -/
def toJson (s : Stats) : Json :=
  .object
    [("requests_enqueued".toList, .integer s.enqueued),
     ("requests_sent".toList, .integer s.sent),
     ("requests_succeeded".toList, .integer s.succeeded),
     ("requests_failed".toList, .integer s.failed),
     ("requests_retried".toList, .integer s.retried),
     ("requests_redirected".toList, .integer s.redirected),
     ("requests_dropped".toList, .integer s.requestsDropped),
     ("responses_received".toList, .integer s.received),
     ("total_bytes_downloaded".toList, .integer s.bytes),
     ("items_scraped".toList, .integer s.scraped),
     ("items_processed".toList, .integer s.processed),
     ("items_dropped".toList, .integer s.itemsDropped),
     ("response_status_counts".toList,
       .object (s.statuses.map fun (status, count) => (Text.ofNat status, .integer count)))]

end Stats

end WebCrawl.Crawl
