/-!
# Activity

How much work a crawler has: what waits in its queues and what is under way. Work that begins is
counted as under way before it stops being counted as waiting, so that it is never missed in between.
The counters have no bound here: that a counter of 64 bits starts again is left out, from zero after its
greatest value and from that below zero.

## Main definitions

* `WebCrawl.Crawl.Activity` — the counters.
* `WebCrawl.Crawl.Change` — a change of one counter, the smallest step that can be observed.
* `WebCrawl.Crawl.Work.submit`, `WebCrawl.Crawl.Work.begin`, `WebCrawl.Crawl.Work.finish` — the
  changes in their order that go with a piece of work.
* `WebCrawl.Crawl.Activity.isIdle` — whether there is no work.
-/

set_option autoImplicit false

namespace WebCrawl.Crawl

/-- The kinds of work. -/
inductive Work where
  /-- A request to be sent. -/
  | request
  /-- An item to be processed. -/
  | item
deriving DecidableEq, Repr

/-- What is counted of each kind of work. -/
inductive Counter where
  /-- What was handed in and has not begun. -/
  | queued (work : Work)
  /-- What has begun and has not finished. -/
  | active (work : Work)
deriving DecidableEq, Repr

/-- The counters of a crawler. -/
structure Activity where
  /-- Requests that have not begun. -/
  queuedRequests : Nat := 0
  /-- Requests under way. -/
  activeRequests : Nat := 0
  /-- Items that have not begun. -/
  queuedItems : Nat := 0
  /-- Items under way. -/
  activeItems : Nat := 0
deriving DecidableEq, Repr

namespace Activity

/-- The value of a counter. -/
def get (a : Activity) : Counter → Nat
  | .queued .request => a.queuedRequests
  | .active .request => a.activeRequests
  | .queued .item => a.queuedItems
  | .active .item => a.activeItems

/-- A counter set to a value. -/
def set (a : Activity) (value : Nat) : Counter → Activity
  | .queued .request => { a with queuedRequests := value }
  | .active .request => { a with activeRequests := value }
  | .queued .item => { a with queuedItems := value }
  | .active .item => { a with activeItems := value }

@[simp] theorem get_set (a : Activity) (value : Nat) (c d : Counter) :
    (a.set value c).get d = if d = c then value else a.get d := by
  cases c with | _ w => cases w <;> (cases d with | _ v => cases v <;> simp [set, get])

end Activity

/-! ## Changes -/

/-- A change of one counter. -/
inductive Change where
  /-- One more. -/
  | up (counter : Counter)
  /-- One less. -/
  | down (counter : Counter)
  /-- None any more. -/
  | clear (counter : Counter)
deriving DecidableEq, Repr

/-- The counters after a change. One less than zero is zero, where a counter of 64 bits would have its
greatest value. -/
def Activity.change (a : Activity) : Change → Activity
  | .up c => a.set (a.get c + 1) c
  | .down c => a.set (a.get c - 1) c
  | .clear c => a.set 0 c

/-- The counters after some changes. -/
def Activity.apply (a : Activity) (changes : List Change) : Activity := changes.foldl .change a

namespace Work

/-- The changes when work is handed in. -/
def submit (w : Work) : List Change := [.up (.queued w)]

/-- The changes when work that was handed in is not taken after all. -/
def withdraw (w : Work) : List Change := [.down (.queued w)]

/-- The changes when work begins. -/
def begin (w : Work) : List Change := [.up (.active w), .down (.queued w)]

/-- The changes when work ends. -/
def finish (w : Work) : List Change := [.down (.active w)]

/-- The changes when all work that waits is thrown away. -/
def discard (w : Work) : List Change := [.clear (.queued w)]

end Work

/-! ## Idleness -/

/-- The order in which the counters are read to see whether there is no work. -/
def Counter.readingOrder : List Counter :=
  [.active .request, .queued .request, .active .item, .queued .item]

/-- Whether there is no work. -/
def Activity.isIdle (a : Activity) : Bool := Counter.readingOrder.all fun c => a.get c == 0

theorem Activity.isIdle_iff (a : Activity) : a.isIdle = true ↔ ∀ c, a.get c = 0 := by
  simp only [isIdle, Counter.readingOrder, List.all_cons, List.all_nil, Bool.and_true,
    Bool.and_eq_true, beq_iff_eq]
  constructor
  · intro h c
    cases c with | _ w => cases w <;> simp [h]
  · intro h
    simp [h]

end WebCrawl.Crawl
