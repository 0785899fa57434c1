import Mathlib.Data.List.Sort
import Mathlib.Tactic.Common
import WebCrawl.Html.Location

set_option autoImplicit false

/-!
# Locations in document order

Document order is a strict total order of the locations, so that locations in document order, each
once, are known when it is known which they are.

## Main definitions

* `WebCrawl.Html.Location.Arranged` — locations stand in document order, each once.

## Main results

* `WebCrawl.Html.Location.arranged_arrange`, `WebCrawl.Html.Location.mem_arrange` — what arranging
  does.
* `WebCrawl.Html.Location.Arranged.arrange_eq`, `WebCrawl.Html.Location.arrange_congr` — only the
  members matter.
-/

namespace WebCrawl.Html.Location

/-! ## Document order -/

section Order

variable {x y z : Location}

lemma before_iff :
    before x y = true ↔ x.owner < y.owner ∨ x.owner = y.owner ∧ x.rank < y.rank := by
  simp [before]

/-- A location is known by its owner and its place there. -/
lemma eq_of_owner_rank (ho : x.owner = y.owner) (hr : x.rank = y.rank) : x = y := by
  cases x <;> cases y <;> simp_all [owner, rank]

lemma before_irrefl (x : Location) : before x x = false := by
  simp [before]

lemma before_trans (hxy : before x y = true) (hyz : before y z = true) : before x z = true := by
  rw [before_iff] at *
  omega

/-- Of two locations one is before the other, or they are the same. -/
lemma before_total (x y : Location) : before x y = true ∨ x = y ∨ before y x = true := by
  by_cases h : x = y
  · exact .inr (.inl h)
  · have hne : x.owner = y.owner → x.rank ≠ y.rank := fun ho hr => h (eq_of_owner_rank ho hr)
    simp only [before_iff]
    omega

instance : Std.Irrefl fun x y : Location => before x y = true :=
  ⟨fun x => by simp [before_irrefl]⟩

instance : Std.Antisymm fun x y : Location => before x y = true :=
  ⟨fun x y hxy hyx => absurd (before_trans hxy hyx) (by simp [before_irrefl])⟩

lemma upTo_iff : upTo x y = true ↔ before x y = true ∨ x = y := by
  have hirr := before_irrefl
  simp only [upTo, Bool.not_eq_true']
  constructor
  · intro h
    rcases before_total x y with hxy | hxy | hyx
    · exact .inl hxy
    · exact .inr hxy
    · cases h.symm.trans hyx
  · rintro (hxy | rfl)
    · by_contra hyx
      exact absurd (before_trans hxy (by simpa using hyx)) (by simp [hirr])
    · exact hirr x

end Order

/-! ## Arranging -/

/-- The locations stand in document order, each once. -/
def Arranged (xs : List Location) : Prop := xs.Pairwise fun x y => before x y = true

lemma mem_distinct {x : Location} (xs : List Location) : x ∈ distinct xs ↔ x ∈ xs := by
  fun_induction distinct xs with
  | case1 y more ih => simp [ih]
  | case2 y z more hne ih => simp [ih]
  | case3 => rfl

/-- A list in document order in which runs of equal neighbours are cut to one has each location
once. -/
lemma arranged_distinct {xs : List Location} (h : xs.Pairwise fun x y => upTo x y = true) :
    Arranged (distinct xs) := by
  fun_induction distinct xs with
  | case1 y more ih => exact ih h.of_cons
  | case2 y z more hne ih =>
    have hz := ih h.of_cons
    refine List.pairwise_cons.2 ⟨fun w hw => ?_, hz⟩
    have hyz : before y z = true :=
      (upTo_iff.1 (List.rel_of_pairwise_cons h (List.mem_cons_self ..))).resolve_right hne
    rw [mem_distinct] at hw
    rcases List.mem_cons.1 hw with rfl | hw
    · exact hyz
    · rcases upTo_iff.1 (List.rel_of_pairwise_cons h.of_cons hw) with hzw | rfl
      · exact before_trans hyz hzw
      · exact hyz
  | case3 xs hne =>
    cases xs with
    | nil => exact .nil
    | cons x xs =>
      cases xs with
      | nil => exact List.pairwise_singleton ..
      | cons y xs => exact absurd rfl (hne x y xs)

/-- Arranging puts locations in document order, each once. -/
theorem arranged_arrange (xs : List Location) : Arranged (arrange xs) := by
  refine arranged_distinct (List.pairwise_mergeSort (fun x y z hxy hyz => ?_) (fun x y => ?_) xs)
  · rw [upTo_iff] at *
    rcases hxy with hxy | rfl
    · rcases hyz with hyz | rfl
      · exact .inl (before_trans hxy hyz)
      · exact .inl hxy
    · exact hyz
  · rw [Bool.or_eq_true, upTo_iff, upTo_iff]
    rcases before_total x y with h | h | h
    · exact .inl (.inl h)
    · exact .inl (.inr h)
    · exact .inr (.inl h)

/-- Arranging neither adds nor removes a location. -/
@[simp] theorem mem_arrange {x : Location} {xs : List Location} : x ∈ arrange xs ↔ x ∈ xs := by
  rw [arrange, mem_distinct, List.mem_mergeSort]

/-- Arranged locations are what arranging makes of any list of the same locations. -/
theorem Arranged.arrange_eq {xs ys : List Location} (h : Arranged ys) (hmem : ∀ x, x ∈ xs ↔ x ∈ ys) :
    arrange xs = ys :=
  (arranged_arrange xs).eq_of_mem_iff h fun x => mem_arrange.trans (hmem x)

/-- Lists of the same locations are arranged in the same way. -/
lemma arrange_congr {xs ys : List Location} (hmem : ∀ x, x ∈ xs ↔ x ∈ ys) :
    arrange xs = arrange ys :=
  (arranged_arrange ys).arrange_eq fun x => (hmem x).trans mem_arrange.symm

end WebCrawl.Html.Location
