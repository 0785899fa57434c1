import Mathlib.Tactic.Common
import WebCrawl.XPath.Value

set_option autoImplicit false

/-!
# Comparison from either side

What a comparison says of two values it says of them in the other order too, once the operator is
turned around. Each kind of value has a way of its own to be compared with each other kind, and the
two sides of a comparison are treated apart; so the claim is about all pairs of kinds.

## Main definitions

* `WebCrawl.XPath.Comparison.mirrored` — the operator that says the same from the other side.
* `WebCrawl.XPath.Value.IsSingle` — the value is no set of locations.

## Main results

* `WebCrawl.XPath.Atom.compare_mirrored` — single values from the other side.
* `WebCrawl.XPath.compare_mirrored` — all values from the other side.
* `WebCrawl.XPath.compare_from_other_side` — that for each operator, and when two values are unequal.
-/

namespace WebCrawl

/-- Equality of numbers does not depend on the side. -/
lemma Double.eq_swap (x y : Double) : x.eq y = y.eq x := by
  unfold Double.eq
  cases x with
  | nan => cases y <;> rfl
  | infinity s =>
    cases y with
    | nan => rfl
    | infinity t => exact Bool.beq_comm
    | finite t n => rfl
  | finite s m =>
    cases y with
    | nan => rfl
    | infinity t => rfl
    | finite t n => exact BEq.comm

namespace XPath

open Html

/-! ## Single values -/

/-- The operator that says the same of two values in the other order. -/
def Comparison.mirrored : Comparison → Comparison
  | equal => equal
  | unequal => unequal
  | less => greater
  | lessEqual => greaterEqual
  | greater => less
  | greaterEqual => lessEqual

namespace Atom

/-- Equality of single values does not depend on the side: a truth value on either side makes it that
of truth values, else a number on either side makes it that of numbers. -/
lemma equal_swap (x y : Atom) : equal x y = equal y x := by
  unfold equal
  cases x with
  | text s =>
    cases y with
    | text t => exact BEq.comm
    | number v => exact Double.eq_swap _ _
    | truth b => exact Bool.beq_comm
  | number v =>
    cases y with
    | text t => exact Double.eq_swap _ _
    | number w => exact Double.eq_swap _ _
    | truth b => exact Bool.beq_comm
  | truth b =>
    cases y with
    | text t => exact Bool.beq_comm
    | number w => exact Bool.beq_comm
    | truth c => exact Bool.beq_comm

/-- Single values are compared alike from either side. -/
theorem compare_mirrored (c : Comparison) (x y : Atom) :
    Atom.compare c.mirrored y x = Atom.compare c x y := by
  cases c with
  | equal => exact equal_swap y x
  | unequal => exact congrArg (!·) (equal_swap y x)
  | less => rfl
  | lessEqual => rfl
  | greater => rfl
  | greaterEqual => rfl

end Atom

/-! ## All values -/

/-- The value is no set of locations. -/
def Value.IsSingle : Value → Prop
  | nodes _ => False
  | _ => True

/-- Values that are no sets are compared as single ones. -/
lemma compare_of_isSingle (a : Arena) (c : Comparison) {v w : Value} (hv : v.IsSingle)
    (hw : w.IsSingle) : XPath.compare a c v w = Atom.compare c v.atom w.atom := by
  cases v with
  | nodes xs => exact hv.elim
  | _ =>
    cases w with
    | nodes ys => exact hw.elim
    | _ => rfl

/-- It does not matter in which order two lists are searched for a pair. -/
lemma any_any_swap {α β : Type} (xs : List α) (ys : List β) (p : α → β → Bool) :
    (xs.any fun x => ys.any fun y => p x y) = ys.any fun y => xs.any fun x => p x y := by
  rw [Bool.eq_iff_iff]
  simp only [List.any_eq_true]
  constructor
  · rintro ⟨x, hx, y, hy, h⟩
    exact ⟨y, hy, x, hx, h⟩
  · rintro ⟨y, hy, x, hx, h⟩
    exact ⟨x, hx, y, hy, h⟩

/-- Values are compared alike from either side.

**Proof sketch.** A pair of kinds is treated as the pair in the other order, by the comparison of the
same single values; only where both are sets a pair is searched for in the other order. -/
theorem compare_mirrored (a : Arena) (c : Comparison) (v w : Value) :
    XPath.compare a c.mirrored w v = XPath.compare a c v w := by
  cases v with
  | nodes xs =>
    cases w with
    | nodes ys =>
      simp only [XPath.compare, Atom.compare_mirrored]
      exact any_any_swap _ _ _
    | string t => simp only [XPath.compare, Atom.compare_mirrored]
    | number y => simp only [XPath.compare, Atom.compare_mirrored]
    | boolean b => simp only [XPath.compare, Atom.compare_mirrored]
  | string s => cases w <;> simp only [XPath.compare, Atom.compare_mirrored]
  | number x => cases w <;> simp only [XPath.compare, Atom.compare_mirrored]
  | boolean b => cases w <;> simp only [XPath.compare, Atom.compare_mirrored]

/-- **No comparison depends on the side.** Of any two values, sets of locations included, equality and
inequality say the same in either order, "less" says what "greater" says in the other order, and so
with "or equal"; and two values neither of which is a set are unequal exactly if they are not equal. -/
theorem compare_from_other_side (a : Arena) (v w : Value) :
    XPath.compare a .equal v w = XPath.compare a .equal w v ∧
      XPath.compare a .unequal v w = XPath.compare a .unequal w v ∧
      XPath.compare a .less v w = XPath.compare a .greater w v ∧
      XPath.compare a .lessEqual v w = XPath.compare a .greaterEqual w v ∧
      (v.IsSingle → w.IsSingle →
        XPath.compare a .unequal v w = !XPath.compare a .equal v w) := by
  refine ⟨compare_mirrored a .equal w v, compare_mirrored a .unequal w v,
    compare_mirrored a .greater w v, compare_mirrored a .greaterEqual w v, fun hv hw => ?_⟩
  rw [compare_of_isSingle a _ hv hw, compare_of_isSingle a _ hv hw]
  rfl

/-- The numeral `2.0` and the number two are single values, and they are not unequal. -/
theorem compare_of_numeral :
    (Value.string "2.0").IsSingle ∧ (Value.number 2).IsSingle ∧
      XPath.compare (.ofForest []) .unequal (.string "2.0") (.number 2) = false := by
  have hsides := compare_from_other_side (.ofForest []) (.string "2.0") (.number 2)
  refine ⟨trivial, trivial, ?_⟩
  rw [hsides.2.2.2.2 trivial trivial]
  decide +kernel

end XPath

end WebCrawl
