/-!
# Readers

A reader takes a value off the front of a list of symbols. When it fails it says why and what was
left to read at that point, so that a position can be computed from the length of the rest.

## Main definitions

* `WebCrawl.Reader` — readers of values from a list of symbols.
* `WebCrawl.Reader.many` — reads values until there is none.
-/

set_option autoImplicit false

namespace WebCrawl

/-- Takes a value of type `α` off the front of a list of symbols, or fails with a cause and the
list left at that point. -/
def Reader (σ ε α : Type) := List σ → Except (ε × List σ) (α × List σ)

namespace Reader

variable {σ ε α β : Type}

instance : Monad (Reader σ ε) where
  pure a := fun s => .ok (a, s)
  bind p f := fun s =>
    match p s with
    | .error e => .error e
    | .ok (a, r) => f a r

/-- Fails at the present position. -/
def fail (cause : ε) : Reader σ ε α := fun s => .error (cause, s)

/-- What is left to read. -/
def rest : Reader σ ε (List σ) := fun s => .ok (s, s)

/-- Passes over the first `n` symbols. -/
def skip (n : Nat) : Reader σ ε Unit := fun s => .ok ((), s.drop n)

/-- The value of an option, or failure where there is none. -/
def require (cause : ε) : Option α → Reader σ ε α
  | some a => pure a
  | none => fail cause

/-- Reads at most `n` values, until there is none. -/
def manyUpTo (p : Reader σ ε (Option α)) : Nat → Reader σ ε (List α)
  | 0 => pure []
  | n + 1 => do
    match ← p with
    | none => pure []
    | some a => return a :: (← manyUpTo p n)

/-- Reads values until there is none. Every value takes up at least one symbol, so there are no
more values than symbols. -/
def many (p : Reader σ ε (Option α)) : Reader σ ε (List α) := fun s => manyUpTo p (s.length + 1) s

/-! ## Equations -/

@[simp] theorem pure_apply (a : α) (s : List σ) : (pure a : Reader σ ε α) s = .ok (a, s) := rfl

@[simp] theorem fail_apply (e : ε) (s : List σ) : (fail e : Reader σ ε α) s = .error (e, s) := rfl

@[simp] theorem rest_apply (s : List σ) : (rest : Reader σ ε (List σ)) s = .ok (s, s) := rfl

@[simp] theorem skip_apply (n : Nat) (s : List σ) :
    (skip n : Reader σ ε Unit) s = .ok ((), s.drop n) := rfl

/-- A sequence succeeds exactly when both of its parts do, one after the other. -/
theorem bind_eq_ok_iff {p : Reader σ ε α} {f : α → Reader σ ε β} {s r : List σ} {b : β} :
    (p >>= f) s = .ok (b, r) ↔ ∃ a t, p s = .ok (a, t) ∧ f a t = .ok (b, r) := by
  show (match p s with | Except.error e => Except.error e | Except.ok (a, r) => f a r) = _ ↔ _
  cases h : p s with
  | error e => simp
  | ok x =>
    obtain ⟨a, t⟩ := x
    simp only [Except.ok.injEq, Prod.mk.injEq]
    exact ⟨fun h => ⟨a, t, ⟨rfl, rfl⟩, h⟩, fun ⟨_, _, ⟨ha, ht⟩, h⟩ => ha ▸ ht ▸ h⟩

/-- A sequence fails exactly when its first part does, or the second does on what the first left. -/
theorem bind_eq_error_iff {p : Reader σ ε α} {f : α → Reader σ ε β} {s : List σ}
    {e : ε × List σ} :
    (p >>= f) s = .error e ↔ p s = .error e ∨ ∃ a t, p s = .ok (a, t) ∧ f a t = .error e := by
  show (match p s with | Except.error e => Except.error e | Except.ok (a, r) => f a r) = _ ↔ _
  cases h : p s with
  | error e => simp
  | ok x =>
    obtain ⟨a, t⟩ := x
    simp only [reduceCtorEq, Except.ok.injEq, Prod.mk.injEq, false_or]
    exact ⟨fun h => ⟨a, t, ⟨rfl, rfl⟩, h⟩, fun ⟨_, _, ⟨ha, ht⟩, h⟩ => ha ▸ ht ▸ h⟩

end Reader

end WebCrawl
