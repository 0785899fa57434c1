import Mathlib.Tactic.Common
import WebCrawl.Reader

set_option autoImplicit false

/-!
# Reading many values

A reader that is repeated until it reads nothing more reads a sequence of values, each taking up at
least one symbol. The bound on the number of values never matters.

## Main definitions

* `WebCrawl.Reader.Repeats` — a sequence of values read one after the other.
* `WebCrawl.Reader.Keeps` — a property of what is left to read that a reader keeps, also where it
  fails.

## Main results

* `WebCrawl.Reader.many_induction` — what holds of all values that are read.
* `WebCrawl.Reader.many_of_repeats` — what can be read one after the other is read.
* `WebCrawl.Reader.repeats_of_many` — what is read was read one after the other.
* `WebCrawl.Reader.Keeps.bind`, `WebCrawl.Reader.Keeps.many` — what the parts keep the whole keeps.
-/

namespace WebCrawl.Reader

variable {σ ε α β : Type} {p : Reader σ ε (Option α)} {s t r : List σ} {a : α} {as bs : List α}

/-! ## Sequences -/

/-- What comes after a part that succeeded. -/
lemma bind_of_ok {q : Reader σ ε α} {f : α → Reader σ ε β} (h : q s = .ok (a, t)) :
    (q >>= f) s = f a t := by
  simp only [Bind.bind, h]

/-- A value that has to be there is the one that is there. -/
lemma require_eq_ok_iff {cause : ε} {o : Option α} :
    require cause o s = .ok (a, r) ↔ o = some a ∧ s = r := by
  cases o with
  | none => simp [require]
  | some b => simp [require]

@[simp] lemma require_some (cause : ε) (a : α) (s : List σ) :
    require cause (some a) s = .ok (a, s) := rfl

/-! ## Repetition -/

/-- What holds of no values, and goes on to hold with one more, holds of all values that are read. -/
lemma many_induction {R : List α → List σ → List σ → Prop} (nil : ∀ s, R [] s s)
    (none : ∀ s r, p s = .ok (none, r) → R [] s r)
    (cons : ∀ a as s t r, p s = .ok (some a, t) → R as t r → R (a :: as) s r)
    (h : many p s = .ok (as, r)) : R as s r := by
  have hall : ∀ n as s r, manyUpTo p n s = .ok (as, r) → R as s r := by
    intro n
    induction n with
    | zero =>
      intro as s r h
      obtain ⟨rfl, rfl⟩ : [] = as ∧ s = r := by simpa [manyUpTo] using h
      exact nil s
    | succ n ih =>
      intro as s r h
      rw [manyUpTo, bind_eq_ok_iff] at h
      obtain ⟨o, t, ho, h⟩ := h
      cases o with
      | none =>
        obtain ⟨rfl, rfl⟩ : [] = as ∧ t = r := by simpa using h
        exact none s t ho
      | some a =>
        simp only [bind_eq_ok_iff, pure_apply, Except.ok.injEq, Prod.mk.injEq] at h
        obtain ⟨as', u, has', rfl, rfl⟩ := h
        exact cons a as' s t u ho (ih as' t u has')
  exact hall _ as s r h

/-- Values that are read one after the other, each taking up at least one symbol. -/
inductive Repeats (p : Reader σ ε (Option α)) : List σ → List α → List σ → Prop where
  | stop {s : List σ} : Repeats p s [] s
  | next {s t r : List σ} {a : α} {as : List α} (head : p s = .ok (some a, t))
    (shorter : t.length < s.length) (tail : Repeats p t as r) : Repeats p s (a :: as) r

namespace Repeats

lemma append (h : Repeats p s as t) (h' : Repeats p t bs r) : Repeats p s (as ++ bs) r := by
  induction h with
  | stop => exact h'
  | next head shorter tail ih => exact .next head shorter (ih h')

lemma length_le (h : Repeats p s as r) : r.length ≤ s.length := by
  induction h with
  | stop => exact Nat.le_refl _
  | next head shorter tail ih => omega

/-- Values are read by each reader that reads every one of them. -/
lemma of_imp {q : Reader σ ε (Option α)}
    (hq : ∀ a ∈ as, ∀ s t, p s = .ok (some a, t) → q s = .ok (some a, t)) (h : Repeats p s as r) :
    Repeats q s as r := by
  induction h with
  | stop => exact .stop
  | next head shorter tail ih =>
    exact .next (hq _ (List.mem_cons_self ..) _ _ head) shorter
      (ih fun a ha => hq a (List.mem_cons_of_mem _ ha))

/-- There are no more values than symbols. -/
lemma manyUpTo_eq (h : Repeats p s as t) (hn : p t = .ok (none, r)) :
    ∀ n, s.length < n → manyUpTo p n s = .ok (as, r) := by
  induction h with
  | @stop s =>
    intro n hlt
    cases n with
    | zero => omega
    | succ n => rw [manyUpTo, bind_of_ok hn]; rfl
  | @next s u t a as head shorter tail ih =>
    intro n hlt
    cases n with
    | zero => omega
    | succ n =>
      rw [manyUpTo, bind_of_ok head]
      exact bind_of_ok (ih hn n (by omega))

end Repeats

/-- What can be read one after the other, until nothing more can be, is read. -/
lemma many_of_repeats (h : Repeats p s as t) (hn : p t = .ok (none, r)) :
    many p s = .ok (as, r) := h.manyUpTo_eq hn _ (Nat.lt_succ_self _)

/-- What is read was read one after the other, until nothing more could be; each value takes up at
least one symbol as long as an invariant of what is left to read holds. -/
lemma repeats_of_many_of_invariant {I : List σ → Prop}
    (progress : ∀ s a t, I s → p s = .ok (some a, t) → t.length < s.length ∧ I t) (hs : I s)
    (h : many p s = .ok (as, r)) : ∃ t, Repeats p s as t ∧ I t ∧ p t = .ok (none, r) := by
  have hall : ∀ n s as, I s → s.length < n → manyUpTo p n s = .ok (as, r) →
      ∃ t, Repeats p s as t ∧ I t ∧ p t = .ok (none, r) := by
    intro n
    induction n with
    | zero => intro s as _ hlt; omega
    | succ n ih =>
      intro s as hs hlt h
      rw [manyUpTo, bind_eq_ok_iff] at h
      obtain ⟨o, t, ho, h⟩ := h
      cases o with
      | none =>
        obtain ⟨rfl, rfl⟩ : [] = as ∧ t = r := by simpa using h
        exact ⟨s, .stop, hs, ho⟩
      | some a =>
        simp only [bind_eq_ok_iff, pure_apply, Except.ok.injEq, Prod.mk.injEq] at h
        obtain ⟨as', u, has', rfl, rfl⟩ := h
        obtain ⟨hshorter, ht⟩ := progress s a t hs ho
        obtain ⟨v, hv, hinv, hn⟩ := ih t as' ht (by omega) has'
        exact ⟨v, .next ho hshorter hv, hinv, hn⟩
  exact hall _ s as hs (Nat.lt_succ_self _) h

/-- What is read was read one after the other, until nothing more could be. -/
lemma repeats_of_many (progress : ∀ s a t, p s = .ok (some a, t) → t.length < s.length)
    (h : many p s = .ok (as, r)) : ∃ t, Repeats p s as t ∧ p t = .ok (none, r) := by
  obtain ⟨t, hrepeats, -, hnone⟩ := repeats_of_many_of_invariant (I := fun _ => True)
    (fun s a t _ h => ⟨progress s a t h, trivial⟩) trivial h
  exact ⟨t, hrepeats, hnone⟩

/-! ## What is left to read -/

/-- What is left to read when the reader is done, or when it fails, has the property if what there
was to read has it. -/
def Keeps (I : List σ → Prop) (p : Reader σ ε α) : Prop :=
  ∀ ⦃s⦄, I s → (∀ a r, p s = .ok (a, r) → I r) ∧ ∀ cause r, p s = .error (cause, r) → I r

namespace Keeps

variable {I : List σ → Prop} {q : Reader σ ε β}

lemma of_ok {p : Reader σ ε α} (h : Keeps I p) (hs : I s) (hp : p s = .ok (a, r)) : I r :=
  (h hs).1 a r hp

lemma of_error {p : Reader σ ε α} {cause : ε} (h : Keeps I p) (hs : I s)
    (hp : p s = .error (cause, r)) : I r := (h hs).2 cause r hp

protected lemma pure (a : α) : Keeps I (pure a : Reader σ ε α) := fun s hs =>
  ⟨by rintro _ _ ⟨⟩; exact hs, nofun⟩

protected lemma fail (cause : ε) : Keeps I (fail cause : Reader σ ε α) := fun s hs =>
  ⟨nofun, by rintro _ _ ⟨⟩; exact hs⟩

protected lemma rest : Keeps I (rest : Reader σ ε (List σ)) := fun s hs =>
  ⟨by rintro _ _ ⟨⟩; exact hs, nofun⟩

protected lemma require (cause : ε) (o : Option α) : Keeps I (require cause o) := by
  cases o with
  | none => exact .fail cause
  | some a => exact .pure a

protected lemma bind {p : Reader σ ε α} {f : α → Reader σ ε β} (h : Keeps I p)
    (hf : ∀ a, Keeps I (f a)) : Keeps I (p >>= f) := by
  intro s hs
  refine ⟨fun b r hb => ?_, fun cause r he => ?_⟩
  · obtain ⟨a, t, ha, hb⟩ := bind_eq_ok_iff.1 hb
    exact (hf a).of_ok (h.of_ok hs ha) hb
  · obtain he | ⟨a, t, ha, he⟩ := bind_eq_error_iff.1 he
    · exact h.of_error hs he
    · exact (hf a).of_error (h.of_ok hs ha) he

protected lemma discard {p : Reader σ ε α} (h : Keeps I p) : Keeps I (discard p) :=
  h.bind fun _ => .pure _

protected lemma ite {c : Prop} [Decidable c] {p p' : Reader σ ε α} (h : Keeps I p)
    (h' : Keeps I p') : Keeps I (if c then p else p') := by
  split
  · exact h
  · exact h'

protected lemma many {p : Reader σ ε (Option α)} (h : Keeps I p) : Keeps I (many p) := by
  have hall : ∀ n, Keeps I (manyUpTo p n) := by
    intro n
    induction n with
    | zero => exact .pure []
    | succ n ih =>
      refine h.bind fun o => ?_
      cases o with
      | none => exact .pure []
      | some a => exact ih.bind fun as => .pure _
  exact fun s hs => hall _ hs

end Keeps

end WebCrawl.Reader
