import WebCrawl.Proofs.Html.Arena
import WebCrawl.Proofs.Html.Location
import WebCrawl.XPath.Evaluation

set_option autoImplicit false

/-!
# Values that are sets of locations

Every axis leads from a location of an arena to locations of that arena, and predicates only leave
some of them out. So a value that is a set of locations holds locations of the arena only, in
document order and each once.

## Main definitions

* `WebCrawl.XPath.Value.IsSound` — a value that is a set of locations is a set of this kind.

## Main results

* `WebCrawl.XPath.Axis.holds_of_mem` — axes stay in the arena.
* `WebCrawl.XPath.walk_holds`, `WebCrawl.XPath.walk_arranged` — so do paths, which end in document
  order.
* `WebCrawl.XPath.walk_eq_arrange` — a path from several locations is the path from each of them.
* `WebCrawl.XPath.mem_walk_append_iff` — a path of two parts is one part after the other.
* `WebCrawl.XPath.Expr.isSound_value` — the value of every expression is sound.
-/

namespace WebCrawl.XPath

open Html Location

variable {a : Arena}

/-! ## Axes -/

/-- A location of the arena is at a node of it. -/
lemma owner_lt_size {x : Location} (hx : a.holds x = true) : x.owner < a.size := by
  cases x with
  | node id => simpa [Arena.holds, owner] using hx
  | attr owner index =>
    have hi : index < (a.attributes owner).length := by simpa [Arena.holds] using hx
    by_contra hle
    have hnone : a.nodes[owner]? = none := Array.getElem?_eq_none (Nat.not_lt.1 hle)
    simp [Arena.attributes, Arena.data?, hnone] at hi

section Axes

variable (h : a.WellFormed)
include h

/-- A node above a node of the arena is in it too. -/
lemma ancestor_lt_size {x y : Nat} (hy : y < a.size) (hx : x ∈ a.ancestors y) : x < a.size :=
  Nat.lt_trans (h.lt_of_isAncestor (h.mem_ancestors_iff.1 hx)) hy

/-- An axis leads from a node to nodes of the arena. -/
lemma Axis.lt_size_of_mem_ofNode {axis : Axis} {x y : Nat} (hx : x < a.size)
    (hy : y ∈ axis.ofNode a x) : y < a.size := by
  have hlast := h.last x (Nat.zero_le _) hx
  cases axis with
  | child => exact (h.mem_children_iff.1 hy).lt_size
  | descendant => exact Arena.WellFormed.lt_size_of_isAncestor (h.mem_descendants_iff.1 hy)
  | descendantOrSelf => exact Nat.lt_of_le_of_lt (Arena.mem_range.1 hy).2 hlast.2
  | self => exact List.mem_singleton.1 hy ▸ hx
  | parent =>
    have hp : a.IsParent y x := Option.mem_toList.1 hy
    exact Nat.lt_trans (h.lt_of_isParent hp) hx
  | ancestor => exact ancestor_lt_size h hx hy
  | ancestorOrSelf =>
    rcases List.mem_cons.1 hy with rfl | hy
    · exact hx
    · exact ancestor_lt_size h hx hy
  | followingSibling =>
    obtain ⟨-, p, -, hp⟩ := h.mem_followingSiblings_iff.1 hy
    exact hp.lt_size
  | precedingSibling =>
    obtain ⟨-, p, hp, -⟩ := h.mem_precedingSiblings_iff.1 (List.mem_reverse.1 hy)
    exact hp.lt_size
  | following =>
    have := List.mem_range'_1.1 hy
    omega
  | preceding =>
    have := List.mem_range.1 (List.mem_reverse.1 (List.mem_filter.1 hy).1)
    omega
  | attributes => cases hy

/-- An axis leads from an attribute to nodes of the arena. -/
lemma Axis.lt_size_of_mem_ofAttribute {axis : Axis} {x y : Nat} (hx : x < a.size)
    (hy : y ∈ axis.ofAttribute a x) : y < a.size := by
  have habove : y ∈ x :: a.ancestors x → y < a.size := fun hy => by
    rcases List.mem_cons.1 hy with rfl | hy
    · exact hx
    · exact ancestor_lt_size h hx hy
  cases axis with
  | parent => exact List.mem_singleton.1 hy ▸ hx
  | ancestor => exact habove hy
  | ancestorOrSelf => exact habove hy
  | following =>
    have := List.mem_range'_1.1 hy
    omega
  | preceding =>
    have := List.mem_range.1 (List.mem_reverse.1 (List.mem_filter.1 hy).1)
    omega
  | _ => cases hy

/-- An axis leads from a location of the arena to locations of the arena. -/
theorem Axis.holds_of_mem {axis : Axis} {x y : Location} (hx : a.holds x = true)
    (hy : y ∈ axis.locations a x) : a.holds y = true := by
  have hsize := owner_lt_size hx
  have hnode : ∀ ids : List Nat, (∀ i ∈ ids, i < a.size) → y ∈ ids.map Location.node →
      a.holds y = true := by
    rintro ids hids hy
    obtain ⟨i, hi, rfl⟩ := List.mem_map.1 hy
    simpa [Arena.holds] using hids i hi
  have ofAttribute_lt : ∀ {axis : Axis} {i : Nat}, i ∈ axis.ofAttribute a x.owner → i < a.size :=
    lt_size_of_mem_ofAttribute h hsize
  cases x with
  | node id =>
    cases axis with
    | attributes =>
      obtain ⟨i, hi, rfl⟩ := List.mem_map.1 hy
      simpa [Arena.holds] using hi
    | _ => exact hnode _ (fun i hi => lt_size_of_mem_ofNode h hsize hi) hy
  | attr owner index =>
    cases axis with
    | self => exact List.mem_singleton.1 hy ▸ hx
    | ancestorOrSelf =>
      rcases List.mem_cons.1 hy with rfl | hy
      · exact hx
      · exact hnode _ (fun i hi => ofAttribute_lt hi) hy
    | _ => exact hnode _ (fun i hi => ofAttribute_lt hi) hy

end Axes

/-! ## Predicates -/

/-- A predicate leaves some locations out. -/
lemma keep_sublist (predicate : Focus → Value) (xs : List Location) :
    (keep predicate xs).Sublist xs := by
  have hfst : (xs.zipIdx 1).map Prod.fst = xs := List.zipIdx_map_fst 1 xs
  conv_rhs => rw [← hfst]
  exact List.filter_sublist.map _

lemma keepAll_sublist (ps : List Expr) (xs : List Location) : (keepAll a ps xs).Sublist xs := by
  induction ps generalizing xs with
  | nil => exact .refl _
  | cons p ps ih => exact (ih _).trans (keep_sublist _ xs)

/-- A value that is no number keeps a location, wherever it stands, if it is true. -/
lemma keeps_eq_toBool {v : Value} (h : ∀ x, v ≠ .number x) (i : Nat) : keeps i v = v.toBool := by
  cases v with
  | number x => exact absurd rfl (h x)
  | _ => rfl

/-- A predicate that does not depend on positions keeps the locations at which it holds. -/
lemma mem_keep_iff {predicate : Focus → Value} {xs : List Location} {P : Location → Prop}
    (h : ∀ x ∈ xs, ∀ i n, (keeps i (predicate ⟨x, i, n⟩) = true ↔ P x)) {y : Location} :
    y ∈ keep predicate xs ↔ y ∈ xs ∧ P y := by
  simp only [keep, List.mem_map, List.mem_filter, Prod.exists]
  constructor
  · rintro ⟨y, i, ⟨hmem, hkept⟩, rfl⟩
    have hy : y ∈ xs := List.fst_mem_of_mem_zipIdx hmem
    exact ⟨hy, (h y hy i _).1 hkept⟩
  · rintro ⟨hy, hp⟩
    obtain ⟨i, hi⟩ := List.getElem?_of_mem hy
    exact ⟨y, 1 + i, ⟨List.mk_add_mem_zipIdx_iff_getElem?.2 hi, (h y hy ..).2 hp⟩, rfl⟩

/-! ## Paths -/

section Paths

variable (h : a.WellFormed)
include h

/-- A step leads from a location of the arena to locations of the arena. -/
lemma Step.holds_of_mem_reach {s : Step} {x y : Location} (hx : a.holds x = true)
    (hy : y ∈ s.reach a x) : a.holds y = true := by
  cases s with
  | mk axis test ps =>
    have hy' := (keepAll_sublist ps _).subset hy
    exact axis.holds_of_mem h hx (List.mem_filter.1 hy').1

/-- A path leads from locations of the arena to locations of the arena. -/
theorem walk_holds (steps : List Step) {xs : List Location} (hxs : ∀ x ∈ xs, a.holds x = true) :
    ∀ y ∈ walk a steps xs, a.holds y = true := by
  induction steps generalizing xs with
  | nil => exact hxs
  | cons s ss ih =>
    refine ih fun y hy => ?_
    obtain ⟨x, hx, hy⟩ := List.mem_flatMap.1 (mem_arrange.1 hy)
    exact s.holds_of_mem_reach h (hxs x hx) hy

end Paths

/-- A path leads from locations in document order to such. -/
theorem walk_arranged (steps : List Step) {xs : List Location} (hxs : Arranged xs) :
    Arranged (walk a steps xs) := by
  induction steps generalizing xs with
  | nil => exact hxs
  | cons s ss ih => exact ih (arranged_arrange _)

/-- The steps of a path one part after the other. -/
lemma walk_append (ss ss' : List Step) (xs : List Location) :
    walk a (ss ++ ss') xs = walk a ss' (walk a ss xs) := by
  induction ss generalizing xs with
  | nil => rfl
  | cons s ss ih => exact ih _

/-- A step that stays where it is. -/
lemma walk_here (ss : List Step) (x : Location) : walk a (.here :: ss) [x] = walk a ss [x] := by
  have hreach : Step.here.reach a x = [x] := by cases x <;> rfl
  have harrange : arrange [x] = [x] :=
    Arranged.arrange_eq (List.pairwise_singleton ..) fun _ => Iff.rfl
  simp only [walk, List.flatMap_cons, List.flatMap_nil, List.append_nil, hreach, harrange]

/-- A path leads from locations in document order to where it leads from each of them. -/
theorem walk_eq_arrange (ss : List Step) {xs : List Location} (hxs : Arranged xs) :
    walk a ss xs = arrange (xs.flatMap fun x => walk a ss [x]) := by
  induction ss generalizing xs with
  | nil => exact (hxs.arrange_eq fun x => by simp [walk]).symm
  | cons s ss ih =>
    have hstep : ∀ x, walk a (s :: ss) [x] =
        arrange ((arrange (s.reach a x)).flatMap fun y => walk a ss [y]) := fun x => by
      rw [← ih (arranged_arrange _), walk, List.flatMap_singleton]
    rw [walk, ih (arranged_arrange _)]
    refine arrange_congr fun y => ?_
    simp only [hstep, mem_arrange, List.mem_flatMap]
    constructor
    · rintro ⟨z, ⟨x, hx, hz⟩, hy⟩
      exact ⟨x, hx, z, hz, hy⟩
    · rintro ⟨x, hx, z, hz, hy⟩
      exact ⟨z, ⟨x, hx, hz⟩, hy⟩

/-- A path of two parts leads to where its second part leads from where its first part leads. -/
lemma mem_walk_append_iff (ss ss' : List Step) {x y : Location} :
    y ∈ walk a (ss ++ ss') [x] ↔ ∃ z ∈ walk a ss [x], y ∈ walk a ss' [z] := by
  have harranged : Arranged (walk a ss [x]) := walk_arranged ss (List.pairwise_singleton ..)
  rw [walk_append, walk_eq_arrange ss' harranged, mem_arrange, List.mem_flatMap]

/-! ## Values -/

/-- If the value is a set of locations, these are locations of the arena in document order, each
once. -/
def Value.IsSound (a : Arena) (v : Value) : Prop :=
  ∀ xs, v = .nodes xs → Arranged xs ∧ ∀ x ∈ xs, a.holds x = true

/-- The locations of a sound value. -/
lemma Value.IsSound.locations {v : Value} (hv : v.IsSound a) :
    Arranged v.locations ∧ ∀ x ∈ v.locations, a.holds x = true := by
  cases v with
  | nodes xs => exact hv xs rfl
  | _ => exact ⟨.nil, nofun⟩

/-- A function does not give a set of locations. -/
lemma Function.isSound_apply (function : Function) (f : Focus) (arguments : List Value) :
    (function.apply a f arguments).IsSound a := by
  cases function <;> nofun

/-- Where a path starts is in the arena. -/
lemma holds_start {x : Location} (hx : a.holds x = true) (absolute : Bool) :
    a.holds (if absolute then .node Arena.root else x) = true := by
  cases absolute with
  | false => exact hx
  | true =>
    have hpos : 0 < a.size := Nat.lt_of_le_of_lt (Nat.zero_le _) (owner_lt_size hx)
    simpa [Arena.holds, Arena.root] using hpos

/-- The value of every expression at a location of the arena is sound. -/
theorem Expr.isSound_value (h : a.WellFormed) :
    ∀ (e : Expr) (f : Focus), a.holds f.location = true → (e.value a f).IsSound a
  | .union l r, f, hf => by
    rintro xs ⟨rfl⟩
    refine ⟨arranged_arrange _, fun x hx => ?_⟩
    rcases List.mem_append.1 (mem_arrange.1 hx) with hx | hx
    · exact (l.isSound_value h f hf).locations.2 x hx
    · exact (r.isSound_value h f hf).locations.2 x hx
  | .path absolute steps, f, hf => by
    rintro xs ⟨rfl⟩
    refine ⟨walk_arranged steps (List.pairwise_singleton ..), walk_holds h steps ?_⟩
    rintro x hx
    obtain rfl := List.mem_singleton.1 hx
    exact holds_start hf absolute
  | .filter primary ps steps, f, hf => by
    rintro xs ⟨rfl⟩
    have hsub := keepAll_sublist (a := a) ps (primary.value a f).locations
    obtain ⟨harranged, hholds⟩ := (primary.isSound_value h f hf).locations
    exact ⟨walk_arranged steps (harranged.sublist hsub),
      walk_holds h steps fun x hx => hholds x (hsub.subset hx)⟩
  | .call function arguments, f, _ => function.isSound_apply f _
  | .or _ _, _, _ => nofun
  | .and _ _, _, _ => nofun
  | .compare _ _ _, _, _ => nofun
  | .arithmetic _ _ _, _, _ => nofun
  | .negate _, _, _ => nofun
  | .literal _, _, _ => nofun
  | .number _, _, _ => nofun

end WebCrawl.XPath
