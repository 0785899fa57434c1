/-!
# Queues

A queue hands out what it took in the order in which it took it. A closed queue takes nothing more
and has nothing to hand out.

## Main definitions

* `WebCrawl.Crawl.Queue` — what waits and whether the queue is closed.
* `WebCrawl.Crawl.Queue.push?`, `WebCrawl.Crawl.Queue.pop?`, `WebCrawl.Crawl.Queue.close`.
-/

set_option autoImplicit false

namespace WebCrawl.Crawl

/-- What waits, the first to be handed out first. -/
structure Queue (α : Type) where
  /-- What waits. -/
  waiting : List α
  /-- Whether the queue takes nothing more. -/
  closed : Bool

namespace Queue

variable {α : Type}

/-- A queue in which nothing waits. -/
def empty : Queue α := ⟨[], false⟩

/-- The queue after it took a value, unless it is closed. -/
def push? (q : Queue α) (a : α) : Option (Queue α) :=
  if q.closed then none else some { q with waiting := q.waiting ++ [a] }

/-- The value that is handed out next, and the queue after that. -/
def pop? (q : Queue α) : Option (α × Queue α) :=
  match q.waiting with
  | [] => none
  | a :: rest => some (a, { q with waiting := rest })

/-- The queue after it was closed. -/
def close (_ : Queue α) : Queue α := ⟨[], true⟩

theorem push?_eq_none_iff (q : Queue α) (a : α) : q.push? a = none ↔ q.closed = true := by
  simp [push?]

theorem pop?_eq_some_iff (q r : Queue α) (a : α) :
    q.pop? = some (a, r) ↔ q.waiting = a :: r.waiting ∧ q.closed = r.closed := by
  obtain ⟨waiting, closed⟩ := q
  obtain ⟨rest, closed'⟩ := r
  cases waiting with
  | nil => simp [pop?]
  | cons b bs => simp [pop?]; grind

end Queue

end WebCrawl.Crawl
