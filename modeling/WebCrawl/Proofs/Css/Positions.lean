import Mathlib.Tactic.Common
import WebCrawl.Proofs.Css.Matching
import WebCrawl.Proofs.Double.Integers
import WebCrawl.Proofs.XPath.Axes

set_option autoImplicit false

/-!
# Places as positions

The conjuncts of a place compare the position and the number of nodes that a predicate sees. As long
as the numbers have 52 bits these comparisons are exact, so that the conjuncts are true just where
the place is held. A compound that counts no places among siblings of one type has a single
predicate, which sees all elements that its combinator leads to from a node.

## Main definitions

* `WebCrawl.Css.Gives` — the value of an expression is an integer.
* `WebCrawl.Css.AllTrue` — some expressions are true at a focus.
* `WebCrawl.Css.Place.Small` — the numbers of a place have 52 bits.
* `WebCrawl.Css.focusAmong` — a node as a predicate sees it among others.
* `WebCrawl.Css.Combinator.candidates`, `WebCrawl.Css.Complex.Approaches` — where a compound is
  looked for.

## Main results

* `WebCrawl.Css.Place.allTrue_iff` — the conjuncts of a place are true where it is held.
* `WebCrawl.Css.Complex.mem_reach_concat_iff` — what the last compound of a chain finds.
* `WebCrawl.Css.Complex.mem_reach_concat_iff_allTrue` — and by what conjuncts, if it counts no
  places among siblings of one type.
-/

namespace WebCrawl.Css

open Html Location XPath

variable {a : Arena}

/-! ## Integers -/

/-- The value of the expression at the focus is the integer. -/
def Gives (a : Arena) (f : Focus) (e : Expr) (z : Int) : Prop :=
  ∃ x, e.value a f = .number x ∧ x.Is z

section Integers

variable {f : Focus} {e e' : Expr} {z w b : Int}

lemma gives_position (hf : f.position < 2 ^ 53) : Gives a f positionExpr f.position :=
  ⟨_, rfl, Double.is_ofNat hf⟩

lemma gives_last (hf : f.size < 2 ^ 53) : Gives a f lastExpr f.size :=
  ⟨_, rfl, Double.is_ofNat hf⟩

lemma gives_integer (hb : b.natAbs < 2 ^ 53) : Gives a f (integerExpr b) b := by
  cases b with
  | ofNat n => exact ⟨_, rfl, Double.is_ofNumeral hb⟩
  | negSucc n => exact ⟨_, rfl, (Double.is_ofNumeral (n := n + 1) hb).neg⟩

lemma gives_number {n : Nat} (hn : n < 2 ^ 53) : Gives a f (numberExpr n) n := gives_integer hn

lemma Gives.sub (h : Gives a f e z) (h' : Gives a f e' w) (hzw : (z - w).natAbs < 2 ^ 53) :
    Gives a f (.arithmetic .sub e e') (z - w) := by
  obtain ⟨x, hx, hz⟩ := h
  obtain ⟨y, hy, hw⟩ := h'
  exact ⟨x - y, by rw [Expr.value, hx, hy]; rfl, hz.sub hw hzw⟩

lemma Gives.add (h : Gives a f e z) (h' : Gives a f e' w) (hzw : (z + w).natAbs < 2 ^ 53) :
    Gives a f (.arithmetic .add e e') (z + w) := by
  obtain ⟨x, hx, hz⟩ := h
  obtain ⟨y, hy, hw⟩ := h'
  exact ⟨x + y, by rw [Expr.value, hx, hy]; rfl, hz.add hw hzw⟩

/-- The distance of the position is an exact difference. -/
lemma gives_distance (hf : f.position < 2 ^ 52) (hb : b.natAbs < 2 ^ 52) :
    Gives a f (distanceExpr b) (f.position - b) := by
  have hposition : Gives a f positionExpr f.position := gives_position (by omega)
  unfold distanceExpr
  split_ifs with hzero hpos
  · rwa [hzero, sub_zero]
  · exact hposition.sub (gives_integer (by omega)) (by omega)
  · rw [sub_eq_add_neg]
    exact hposition.add (gives_integer (by omega)) (by omega)

section Comparison

variable (h : Gives a f e z) (h' : Gives a f e' w)
include h h'

lemma Gives.equal_iff : ((Expr.compare .equal e e').value a f).toBool = true ↔ z = w := by
  obtain ⟨x, hx, hz⟩ := h
  obtain ⟨y, hy, hw⟩ := h'
  rw [Expr.value, hx, hy]
  exact hz.eq_iff hw

lemma Gives.lessEqual_iff : ((Expr.compare .lessEqual e e').value a f).toBool = true ↔ z ≤ w := by
  obtain ⟨x, hx, hz⟩ := h
  obtain ⟨y, hy, hw⟩ := h'
  rw [Expr.value, hx, hy]
  exact hz.le_iff hw

lemma Gives.greaterEqual_iff :
    ((Expr.compare .greaterEqual e e').value a f).toBool = true ↔ w ≤ z := by
  obtain ⟨x, hx, hz⟩ := h
  obtain ⟨y, hy, hw⟩ := h'
  rw [Expr.value, hx, hy]
  exact hw.le_iff hz

lemma Gives.remainderIs_iff (hne : w ≠ 0) {n : Nat} (hn : n < 2 ^ 53) :
    ((remainderIs e e' n).value a f).toBool = true ↔ z.tmod w = n := by
  refine Gives.equal_iff ?_ (gives_number hn)
  obtain ⟨x, hx, hz⟩ := h
  obtain ⟨y, hy, hw⟩ := h'
  exact ⟨x.remainder y, by rw [Expr.value, hx, hy]; rfl, hz.remainder hw hne⟩

end Comparison

end Integers

/-! ## Places -/

/-- All of the expressions are true at the focus. -/
def AllTrue (a : Arena) (f : Focus) (es : List Expr) : Prop := ∀ e ∈ es, (e.value a f).toBool = true

@[simp] lemma allTrue_nil (f : Focus) : AllTrue a f [] := nofun

@[simp] lemma allTrue_cons {f : Focus} {e : Expr} {es : List Expr} :
    AllTrue a f (e :: es) ↔ (e.value a f).toBool = true ∧ AllTrue a f es := List.forall_mem_cons

@[simp] lemma allTrue_append {f : Focus} {es es' : List Expr} :
    AllTrue a f (es ++ es') ↔ AllTrue a f es ∧ AllTrue a f es' := List.forall_mem_append

/-- The numbers of the argument have 52 bits at most. -/
def Nth.Small : Nth → Prop
  | .progression step first => step.natAbs < 2 ^ 52 ∧ first.natAbs < 2 ^ 52
  | .only first => first.natAbs < 2 ^ 52
  | .even | .odd => True

/-- The numbers of the place have 52 bits at most. -/
def Place.Small : Place → Prop
  | .nth argument => argument.Small
  | _ => True

/-- A number that is not negative leaves no remainder just if it is a natural multiple. -/
lemma tmod_eq_zero_iff {z w : Int} (hw : 0 < w) (hz : 0 ≤ z) :
    z.tmod w = ((0 : Nat) : Int) ↔ ∃ k : Nat, z = w * k := by
  rw [Nat.cast_zero, ← Int.dvd_iff_tmod_eq_zero]
  constructor
  · rintro ⟨k, rfl⟩
    have hk : 0 ≤ k := nonneg_of_mul_nonneg_right hz hw
    exact ⟨k.toNat, by rw [Int.toNat_of_nonneg hk]⟩
  · rintro ⟨k, rfl⟩
    exact Int.dvd_mul_right w k

section Places

variable {f : Focus} (hpos : 0 < f.position) (hposition : f.position < 2 ^ 52)
include hpos hposition

/-- The conjuncts of a progression are true at its indices.

**Proof sketch.** The distance from the first index is exact, and it leaves no remainder if it is a
multiple of the step. That the multiple is a natural one is said by the comparison of the position
with the first index; where this is left out, no position is less than the first index. -/
lemma allTrue_progressionConjuncts {step first : Int} (hstep : step.natAbs < 2 ^ 52)
    (hfirst : first.natAbs < 2 ^ 52) :
    AllTrue a f (progressionConjuncts step first) ↔ (Nth.progression step first).Holds f.position := by
  have hindex : Gives a f positionExpr f.position := gives_position (by omega)
  have hb : Gives a f (integerExpr first) first := gives_integer (by omega)
  have hdistance : Gives a f (distanceExpr first) (f.position - first) :=
    gives_distance hposition hfirst
  unfold progressionConjuncts Nth.Holds
  split_ifs with hzero hup hlate
  · simp [positionIs, hindex.equal_iff hb, hzero]
  · have hmod := hdistance.remainderIs_iff (gives_integer (b := step) (by omega)) hzero
      (n := 0) (by omega)
    simp only [allTrue_cons, allTrue_nil, and_true, positionIs, hindex.greaterEqual_iff hb, hmod]
    constructor
    · rintro ⟨hle, hmultiple⟩
      obtain ⟨k, hk⟩ := (tmod_eq_zero_iff hup (by omega)).1 hmultiple
      exact ⟨k, by omega⟩
    · rintro ⟨k, hk⟩
      have hnonneg : 0 ≤ step * k := Int.mul_nonneg hup.le (Int.natCast_nonneg k)
      exact ⟨by omega, (tmod_eq_zero_iff hup (by omega)).2 ⟨k, by omega⟩⟩
  · have hmod := hdistance.remainderIs_iff (gives_integer (b := step) (by omega)) hzero
      (n := 0) (by omega)
    simp only [allTrue_cons, allTrue_nil, and_true, hmod, tmod_eq_zero_iff hup (by omega :
      (0 : Int) ≤ f.position - first)]
    exact exists_congr fun k => by omega
  · have hdown : 0 < -step := by omega
    have hmod := (hb.sub hindex (by omega)).remainderIs_iff (gives_integer (b := -step) (by omega))
      hdown.ne' (n := 0) (by omega)
    simp only [allTrue_cons, allTrue_nil, and_true, positionIs, hindex.lessEqual_iff hb, hmod]
    have hneg : ∀ k : Nat, -step * (k : Int) = -(step * k) := fun k => neg_mul _ _
    constructor
    · rintro ⟨hle, hmultiple⟩
      obtain ⟨k, hk⟩ := (tmod_eq_zero_iff hdown (by omega)).1 hmultiple
      exact ⟨k, by rw [hneg] at hk; omega⟩
    · rintro ⟨k, hk⟩
      have hnonneg : 0 ≤ -step * k := Int.mul_nonneg hdown.le (Int.natCast_nonneg k)
      have hstepk := hneg k
      exact ⟨by omega, (tmod_eq_zero_iff hdown (by omega)).2 ⟨k, by omega⟩⟩

/-- The conjuncts of an argument are true at its indices. -/
lemma Nth.allTrue_iff {argument : Nth} (hsmall : argument.Small) :
    AllTrue a f argument.conjuncts ↔ argument.Holds f.position := by
  have hindex : Gives a f positionExpr f.position := gives_position (by omega)
  have htwo : Gives a f (numberExpr 2) ((2 : Nat) : Int) := gives_number (by omega)
  have hparity : ∀ n : Nat, n < 2 → (((remainderIs positionExpr (numberExpr 2) n).value a f).toBool =
      true ↔ f.position % 2 = n) := fun n hn => by
    rw [hindex.remainderIs_iff htwo (by decide) (by omega),
      Int.tmod_eq_emod_of_nonneg (Int.natCast_nonneg _)]
    omega
  cases argument with
  | even => simp [conjuncts, Holds, hparity]
  | odd => simp [conjuncts, Holds, hparity]
  | progression step first =>
    exact allTrue_progressionConjuncts hpos hposition hsmall.1 hsmall.2
  | only first =>
    have hfirst : Gives a f (integerExpr first) first :=
      gives_integer (Nat.lt_trans hsmall (by norm_num))
    simp [conjuncts, Holds, positionIs, hindex.equal_iff hfirst]

/-- The conjuncts of a place are true where it is held. -/
theorem Place.allTrue_iff {place : Place} (hsmall : place.Small) (hsize : f.size < 2 ^ 52) :
    AllTrue a f place.conjuncts ↔ place.Holds f.position f.size := by
  have hindex : Gives a f positionExpr f.position := gives_position (by omega)
  have hcount : Gives a f lastExpr f.size := gives_last (by omega)
  have hone : Gives a f (numberExpr 1) ((1 : Nat) : Int) := gives_number (by omega)
  cases place with
  | first => simp [conjuncts, Holds, positionIs, hindex.equal_iff hone]
  | last => simp [conjuncts, Holds, positionIs, hindex.equal_iff hcount]
  | sole =>
    simp only [conjuncts, Holds, positionIs, allTrue_cons, allTrue_nil, and_true,
      hindex.equal_iff hone, hindex.equal_iff hcount]
    omega
  | nth argument => exact argument.allTrue_iff hpos hposition hsmall

end Places

/-! ## Qualifiers -/

section Qualifiers

variable {e : Expr} {q : Qualifier}

/-- The conjuncts of a place are comparisons. -/
lemma Place.exists_compare {place : Place} (he : e ∈ place.conjuncts) :
    ∃ c l r, e = .compare c l r := by
  cases place with
  | nth argument =>
    cases argument <;> grind [conjuncts, Nth.conjuncts, progressionConjuncts, positionIs, remainderIs]
  | _ => grind [conjuncts, positionIs]

/-- The condition that a test makes on an attribute is no number. -/
lemma AttributeTest.ne_number (name : Text) (test : AttributeTest) (f : Focus) (z : Double) :
    (test.expr name).value a f ≠ .number z := by
  cases test <;> exact nofun

/-- A conjunct of a qualifier is no number. -/
lemma Qualifier.ne_number (he : e ∈ q.conjuncts) (f : Focus) (z : Double) :
    e.value a f ≠ .number z := by
  cases q with
  | place peers place =>
    obtain ⟨c, l, r, rfl⟩ := place.exists_compare he
    exact nofun
  | attr name test =>
    obtain rfl := List.mem_singleton.1 he
    exact test.ne_number name f z
  | className | identifier | negation =>
    obtain rfl := List.mem_singleton.1 he
    exact nofun

/-- The condition on a type is no number. -/
lemma ne_number_of_mem_typeConjuncts {type : Option Text} (he : e ∈ typeConjuncts type) (f : Focus)
    (z : Double) : e.value a f ≠ .number z := by
  obtain ⟨name, -, rfl⟩ := List.mem_map.1 he
  exact nofun

/-- The conjuncts of qualifiers are true if those of each of them are. -/
lemma allTrue_conjunctsOf {f : Focus} {qs : List Qualifier} :
    AllTrue a f (conjunctsOf qs) ↔ ∀ q ∈ qs, AllTrue a f q.conjuncts := by
  rw [conjunctsOf_eq]
  exact List.forall_mem_flatMap

/-- The negation of a place is true where the conjuncts of the place are not all true. -/
lemma allTrue_not_place {f : Focus} (peers : Peers) (place : Place) :
    AllTrue a f (Qualifier.negation none [.place peers place]).conjuncts ↔
      ¬AllTrue a f place.conjuncts := by
  have hinner : typeConjuncts none ++ conjunctsOf [.place peers place] = place.conjuncts := by
    simp [typeConjuncts, conjunctsOf, Qualifier.conjuncts]
  have hplace : ((conjunction place.conjuncts).value a f).toBool = true ↔
      AllTrue a f place.conjuncts :=
    (conjunction_spec (fun e he z => (Qualifier.place peers place).ne_number he f z)
      place.conjoins.ne_nil).2
  rw [← hplace, Qualifier.conjuncts, hinner]
  simp [Expr.value, argumentValues, Function.apply, truthArgument, Value.toBool]

/-- The qualifier is no pseudo-class. -/
def Qualifier.isSimple : Qualifier → Bool
  | .className _ | .identifier _ | .attr _ _ => true
  | .place _ _ | .negation _ _ => false

lemma Qualifier.isTypeRelative_of_isSimple (h : q.isSimple = true) : q.isTypeRelative = false := by
  cases q <;> first | rfl | cases h

section Positions

variable (x : Location) (i j m n : Nat)

/-- The condition that a test makes on an attribute does not depend on positions. -/
lemma AttributeTest.value_expr_eq (name : Text) (test : AttributeTest) :
    (test.expr name).value a ⟨x, i, m⟩ = (test.expr name).value a ⟨x, j, n⟩ := by
  cases test <;> simp only [expr, attributeExpr, paddedExpr, Expr.value, argumentValues,
    value_literalExpr, numberExpr, integerExpr, Function.apply, textArgument, numberArgument]

/-- A qualifier that is no pseudo-class does not depend on positions. -/
lemma Qualifier.allTrue_iff_of_isSimple (h : q.isSimple = true) :
    AllTrue a ⟨x, i, m⟩ q.conjuncts ↔ AllTrue a ⟨x, j, n⟩ q.conjuncts := by
  cases q with
  | attr name test =>
    simp only [conjuncts, allTrue_cons, allTrue_nil, test.value_expr_eq x i j m n name]
  | className name =>
    simp only [conjuncts, allTrue_cons, allTrue_nil, classExpr, paddedExpr, attributeExpr,
      Expr.value, argumentValues, Function.apply, textArgument]
  | identifier name =>
    simp only [conjuncts, allTrue_cons, allTrue_nil, attributeExpr, Expr.value, value_literalExpr]
  | place | negation => cases h

/-- Nor does the condition on a type. -/
lemma allTrue_typeConjuncts_iff (type : Option Text) :
    AllTrue a ⟨x, i, m⟩ (typeConjuncts type) ↔ AllTrue a ⟨x, j, n⟩ (typeConjuncts type) := by
  cases type with
  | none => simp [typeConjuncts]
  | some t => simp [typeConjuncts, typeExpr, Expr.value]

end Positions

end Qualifiers

/-! ## Compounds -/

/-- The condition that a combinator makes of its own. -/
def Combinator.conjuncts (k : Combinator) : List Expr := k.parts.flatMap (·.2)

/-- A compound that counts no places among siblings of one type has a single predicate. -/
lemma Compound.predicates_eq {c : Compound} (hc : c.type ≠ none ∨ c.qualifiers ≠ [])
    (hrelative : ∀ q ∈ c.qualifiers, q.isTypeRelative = false) (k : Combinator) :
    c.predicates k =
      [conjunction (k.conjuncts ++ (typeConjuncts c.type ++ conjunctsOf c.qualifiers))] := by
  have hne : k.parts ++ typeParts c.type ++ c.qualifiers.map Qualifier.part ≠ [] := by
    rcases hc with h | h
    · obtain ⟨t, ht⟩ := Option.ne_none_iff_exists'.1 h
      simp [ht, typeParts]
    · simp [h]
  have hopens : ∀ part ∈ k.parts ++ typeParts c.type ++ c.qualifiers.map Qualifier.part,
      part.1 = false := by
    simp only [List.mem_append, List.mem_map]
    rintro part ((hpart | hpart) | ⟨q, hq, rfl⟩)
    · cases k <;> simp_all [Combinator.parts]
    · obtain ⟨t, -, rfl⟩ := List.mem_map.1 hpart
      rfl
    · exact hrelative q hq
  rw [predicates, predicatesOf_eq_conjunction hne hopens, List.append_assoc, List.flatMap_append,
    flatMap_parts]
  rfl

/-- The conjuncts of a compound are no numbers. -/
lemma Compound.ne_number {type : Option Text} {qs : List Qualifier} {k : Combinator} {e : Expr}
    (he : e ∈ k.conjuncts ++ (typeConjuncts type ++ conjunctsOf qs)) (f : Focus) (z : Double) :
    e.value a f ≠ .number z := by
  simp only [List.mem_append, conjunctsOf_eq, List.mem_flatMap] at he
  rcases he with he | he | ⟨q, -, he⟩
  · obtain ⟨c, l, r, rfl⟩ : ∃ c l r, e = .compare c l r := by
      cases k <;> simp_all [Combinator.conjuncts, Combinator.parts, positionIs]
    rintro ⟨⟩
  · exact ne_number_of_mem_typeConjuncts he f z
  · exact q.ne_number he f z

/-! ## Predicates -/

/-- A node as a predicate sees it among some nodes. -/
def focusAmong (ids : List Nat) (x : Nat) : Focus := ⟨.node x, ids.idxOf x + 1, ids.length⟩

/-- The conjuncts of a place are true of a node among others if it has the place among them. -/
lemma Place.allTrue_focusAmong_iff (place : Place) {ids : List Nat} {x : Nat} (hx : x ∈ ids)
    (hsize : ids.length < 2 ^ 52) (hsmall : place.Small) :
    AllTrue a (focusAmong ids x) place.conjuncts ↔ place.Holds (ids.idxOf x + 1) ids.length :=
  place.allTrue_iff (Nat.succ_pos _)
    (Nat.lt_of_le_of_lt (List.idxOf_lt_length_of_mem hx) hsize) hsmall hsize

/-- In a list of distinct elements, the number of an element is one more than its index. -/
lemma mem_zipIdx_iff_idxOf {ids : List Nat} (h : ids.Nodup) {x i : Nat} :
    (x, i) ∈ ids.zipIdx 1 ↔ x ∈ ids ∧ i = ids.idxOf x + 1 := by
  rw [List.mk_mem_zipIdx_iff_le_and_getElem?_sub]
  constructor
  · rintro ⟨hi, hx⟩
    obtain ⟨hlt, rfl⟩ := List.getElem?_eq_some_iff.1 hx
    have hindex := h.idxOf_getElem (i - 1) hlt
    exact ⟨List.getElem_mem hlt, by omega⟩
  · rintro ⟨hx, rfl⟩
    exact ⟨Nat.le_add_left .., List.getElem?_idxOf hx⟩

/-- A conjunction keeps a location where all of its conjuncts are true. -/
lemma keeps_conjunction_iff {es : List Expr} (hnumber : ∀ e ∈ es, ∀ f z, e.value a f ≠ .number z)
    (hne : es ≠ []) (f : Focus) (i : Nat) :
    keeps i ((conjunction es).value a f) = true ↔ AllTrue a f es := by
  obtain ⟨hnot, htrue⟩ := conjunction_spec (fun e he => hnumber e he f) hne
  rw [keeps_eq_toBool hnot, htrue]
  rfl

/-- A conjunction keeps the nodes that, as it sees them, it is true of. -/
lemma mem_keep_conjunction_iff {ids : List Nat} (h : ids.Nodup) {es : List Expr}
    (hnumber : ∀ e ∈ es, ∀ f z, e.value a f ≠ .number z) (hne : es ≠ []) {y : Location} :
    y ∈ keep (fun f => (conjunction es).value a f) (ids.map .node) ↔
      ∃ x ∈ ids, y = .node x ∧ AllTrue a (focusAmong ids x) es := by
  have hzip : ∀ {y : Location} {i : Nat}, (y, i) ∈ (ids.map Location.node).zipIdx 1 ↔
      ∃ x, (x ∈ ids ∧ i = ids.idxOf x + 1) ∧ y = .node x := by
    intro y i
    simp only [← mem_zipIdx_iff_idxOf h, List.mk_mem_zipIdx_iff_le_and_getElem?_sub,
      List.getElem?_map, Option.map_eq_some_iff, eq_comm (a := y), and_assoc, exists_and_left]
  simp only [keep, List.mem_map, List.mem_filter, Prod.exists, hzip,
    keeps_conjunction_iff hnumber hne, List.length_map]
  constructor
  · rintro ⟨_, i, ⟨⟨x, ⟨hx, rfl⟩, rfl⟩, htrue⟩, rfl⟩
    exact ⟨x, hx, rfl, htrue⟩
  · rintro ⟨x, hx, rfl, htrue⟩
    exact ⟨.node x, _, ⟨⟨x, ⟨hx, rfl⟩, rfl⟩, htrue⟩, rfl⟩

/-! ## The end of a chain -/

/-- The steps of a combinator before the one to the compound. -/
def Combinator.approach : Combinator → List Step
  | .descendant => [.mk .descendantOrSelf .anyName []]
  | .child | .adjacent | .sibling => []

/-- The axis of the step to the compound. -/
def Combinator.lastAxis : Combinator → Axis
  | .descendant | .child => .child
  | .adjacent | .sibling => .followingSibling

/-- The elements among which a compound is looked for from a node, in document order. -/
def Combinator.candidates (a : Arena) (k : Combinator) (x : Nat) : List Nat :=
  (k.lastAxis.ofNode a x).filter fun y => (a.elementName? y).isSome

/-- The alternative leads from a node to one from which the combinator goes on to a compound. -/
def Complex.Approaches (a : Arena) (c : Complex) (k : Combinator) (x w : Nat) : Prop :=
  .node w ∈ walk a (Complex.steps c ++ k.approach) [.node x]

lemma Combinator.steps_eq (k : Combinator) (ps : List Expr) :
    k.steps ps = k.approach ++ [.mk k.lastAxis .anyName ps] := by
  cases k <;> rfl

lemma Combinator.nodup_candidates (h : a.WellFormed) (k : Combinator) (x : Nat) :
    (k.candidates a x).Nodup := by
  have hlocations : k.lastAxis.locations a (.node x) = (k.lastAxis.ofNode a x).map .node := by
    cases k <;> rfl
  have hnodup := k.lastAxis.nodup_locations h (.node x)
  rw [hlocations] at hnodup
  exact (List.Nodup.of_map _ hnodup).filter _

/-- Steps to compounds go along axes of nodes. -/
lemma walk_nodes {ss : List Step} (hss : ∀ s ∈ ss, ∃ axis ps, s = .mk axis .anyName ps ∧
      axis ≠ .attributes) {xs : List Location} (hxs : ∀ y ∈ xs, ∃ x, y = .node x) :
    ∀ y ∈ walk a ss xs, ∃ x, y = .node x := by
  induction ss generalizing xs with
  | nil => exact hxs
  | cons s ss ih =>
    obtain ⟨⟨axis, ps, rfl, haxis⟩, hrest⟩ := List.forall_mem_cons.1 hss
    refine ih hrest fun y hy => ?_
    obtain ⟨z, hz, hy⟩ := List.mem_flatMap.1 (mem_arrange.1 hy)
    obtain ⟨x, rfl⟩ := hxs z hz
    have hlocations : axis.locations a (.node x) = (axis.ofNode a x).map .node := by
      cases axis <;> first | rfl | exact absurd rfl haxis
    have hmem := (List.mem_filter.1 ((keepAll_sublist ps _).subset hy)).1
    rw [hlocations] at hmem
    obtain ⟨id, -, rfl⟩ := List.mem_map.1 hmem
    exact ⟨id, rfl⟩

lemma Complex.steps_concat (c : Complex) (k : Combinator) (p : Compound) :
    Complex.steps (c ++ [(k, p)]) = Complex.steps c ++ k.steps (p.predicates k) := by
  rw [steps, List.flatMap_append, List.flatMap_singleton]
  rfl

lemma Complex.steps_singleton (k : Combinator) (p : Compound) :
    Complex.steps [(k, p)] = k.approach ++ [.mk k.lastAxis .anyName (p.predicates k)] :=
  (Complex.steps_concat [] k p).trans (k.steps_eq _)

/-- What the last compound of a chain finds: what its predicates keep of the elements among which it
is looked for. -/
theorem Complex.mem_reach_concat_iff {c : Complex} {k : Combinator} {p : Compound} {x : Nat}
    {y : Location} : y ∈ Complex.reach a (c ++ [(k, p)]) (.node x) ↔
      ∃ w, Complex.Approaches a c k x w ∧
        y ∈ keepAll a (p.predicates k) ((k.candidates a w).map .node) := by
  have hsteps : Complex.steps (c ++ [(k, p)]) = Complex.steps c ++ k.approach ++
      [.mk k.lastAxis .anyName (p.predicates k)] := by
    rw [Complex.steps_concat, k.steps_eq, List.append_assoc]
  have haxes : ∀ s ∈ Complex.steps c ++ k.approach, ∃ axis ps, s = .mk axis .anyName ps ∧
      axis ≠ .attributes := by
    have happroach : ∀ (k : Combinator), ∀ s ∈ k.approach, ∃ axis ps, s = .mk axis .anyName ps ∧
        axis ≠ .attributes := by
      intro k s hs
      cases k <;> simp_all [Combinator.approach]
    intro s hs
    rcases List.mem_append.1 hs with hs | hs
    · obtain ⟨⟨k', p'⟩, -, hs⟩ := List.mem_flatMap.1 hs
      change s ∈ k'.steps (p'.predicates k') at hs
      rw [k'.steps_eq, List.mem_append] at hs
      rcases hs with hs | hs
      · exact happroach k' s hs
      · exact ⟨k'.lastAxis, _, List.mem_singleton.1 hs, by cases k' <;> decide⟩
    · exact happroach k s hs
  have hnodes : ∀ z ∈ walk a (Complex.steps c ++ k.approach) [.node x], ∃ w, z = .node w :=
    walk_nodes haxes (by simp)
  have hlast : k.lastAxis ≠ .attributes := by cases k <;> decide
  rw [reach, hsteps, mem_walk_append_iff]
  constructor
  · rintro ⟨z, hz, hy⟩
    obtain ⟨w, rfl⟩ := hnodes z hz
    exact ⟨w, hz, (mem_walk_step_iff hlast).1 hy⟩
  · rintro ⟨w, hw, hy⟩
    exact ⟨.node w, hw, (mem_walk_step_iff hlast).2 hy⟩

/-- What the last compound of a chain finds if it counts no places among siblings of one type: the
elements of which, as they are seen among those where it is looked for, its conjuncts are true. -/
theorem Complex.mem_reach_concat_iff_allTrue (h : a.WellFormed) {c : Complex} {k : Combinator}
    {p : Compound} (hp : p.type ≠ none ∨ p.qualifiers ≠ [])
    (hrelative : ∀ q ∈ p.qualifiers, q.isTypeRelative = false) {x : Nat} {y : Location} :
    y ∈ Complex.reach a (c ++ [(k, p)]) (.node x) ↔
      ∃ w z, Complex.Approaches a c k x w ∧ z ∈ k.candidates a w ∧ y = .node z ∧
        AllTrue a (focusAmong (k.candidates a w) z) k.conjuncts ∧
        AllTrue a (focusAmong (k.candidates a w) z) (typeConjuncts p.type) ∧
        ∀ q ∈ p.qualifiers, AllTrue a (focusAmong (k.candidates a w) z) q.conjuncts := by
  have hne : k.conjuncts ++ (typeConjuncts p.type ++ conjunctsOf p.qualifiers) ≠ [] :=
    List.append_ne_nil_of_right_ne_nil _ (compoundConjuncts_ne_nil hp)
  simp only [mem_reach_concat_iff, Compound.predicates_eq hp hrelative, keepAll,
    mem_keep_conjunction_iff (k.nodup_candidates h _) (fun e he => Compound.ne_number he) hne,
    allTrue_append, allTrue_conjunctsOf, exists_and_left]

/-- An element is found by its type where it is looked for. -/
lemma Complex.mem_reach_of_type (h : a.WellFormed) {c : Complex} {k : Combinator} {t : Text}
    {n w x : Nat} (hk : k ≠ .adjacent) (hw : Complex.Approaches a c k n w) (hx : x ∈ k.candidates a w)
    (htype : OfType a t x) : .node x ∈ Complex.reach a (c ++ [(k, ⟨some t, []⟩)]) (.node n) := by
  have hconjuncts : k.conjuncts = [] := by cases k <;> first | rfl | exact absurd rfl hk
  have hdecides := decides_type (a := a) (some t) (f := focusAmong (k.candidates a w) x) rfl
    (List.mem_filter.1 hx).2
  refine (mem_reach_concat_iff_allTrue h (.inl (by simp)) (by simp)).2
    ⟨w, x, hw, hx, rfl, ?_, ?_, by simp⟩
  · rw [hconjuncts]
    exact allTrue_nil _
  · exact hdecides.2.2 fun t' ht' => by
      obtain rfl := Option.some.inj ht'
      exact htype

end WebCrawl.Css
