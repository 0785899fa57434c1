import WebCrawl.Proofs.Css.Translation
import WebCrawl.Proofs.XPath.NodeSets

set_option autoImplicit false

/-!
# Attributes of a name

The path to an attribute leads to all attributes of an element whose name has the same letters. There
may be several of them in an arena that was not read from a document. Taken as a text the path
is the first of their values, compared with a text it is any of them.

## Main definitions

* `WebCrawl.Html.Arena.attributeValues` — the values of the attributes of a name.

## Main results

* `WebCrawl.Css.exists_value_attributeExpr` — the path to an attribute has these values.
* `WebCrawl.Css.toText_attributeExpr`, `WebCrawl.Css.toBool_attributeExpr`,
  `WebCrawl.Css.compare_attributeExpr` — what becomes of them.
-/

namespace WebCrawl.Html.Arena

open Text

variable {a : Arena} {x : Nat} {name v : Text}

/-- The values of the attributes of a name, in letters of either case. -/
def attributeValues (a : Arena) (x : Nat) (name : Text) : List Text :=
  ((a.attributes x).filter fun pair => sameLetters pair.1 name).map (·.2)

lemma mem_attributeValues_iff : v ∈ a.attributeValues x name ↔
    ∃ pair ∈ a.attributes x, sameLetters pair.1 name = true ∧ pair.2 = v := by
  simp only [attributeValues, List.mem_map, List.mem_filter, and_assoc]

/-- The attribute of a name is the first that has it. -/
lemma head?_attributeValues (a : Arena) (x : Nat) (name : Text) :
    (a.attributeValues x name).head? = a.attribute? x name := by
  rw [attributeValues, List.head?_map, List.head?_filter]
  rfl

/-- Where names are distinct there is no other. -/
lemma DistinctNames.mem_attributeValues_iff (h : a.DistinctNames) :
    v ∈ a.attributeValues x name ↔ a.attribute? x name = some v := by
  constructor
  · rw [Arena.mem_attributeValues_iff]
    rintro ⟨pair, hpair, hsame, rfl⟩
    obtain ⟨first, hfirst⟩ : ∃ first, ((a.attributes x).find? fun pair =>
        sameLetters pair.1 name) = some first :=
      Option.isSome_iff_exists.1 (List.find?_isSome.2 ⟨pair, hpair, hsame⟩)
    obtain ⟨i, hi⟩ := List.getElem?_of_mem hpair
    obtain ⟨j, hj⟩ := List.getElem?_of_mem (List.mem_of_find?_eq_some hfirst)
    have hkeys : sameLetters pair.1 first.1 = true := by
      have := List.find?_some hfirst
      simp_all [sameLetters]
    obtain rfl := h.index_eq hi hj hkeys
    obtain rfl := Option.some.inj (hi.symm.trans hj)
    exact congrArg (Option.map (·.2)) hfirst
  · intro hv
    rw [← head?_attributeValues] at hv
    exact List.mem_of_head? hv

end WebCrawl.Html.Arena

namespace WebCrawl.Css

open Html Location XPath

variable {a : Arena} {f : Focus} {x : Nat}

/-- The members of a list that pass a test, by their indices. -/
lemma map_filter_range {α β : Type} (xs : List α) (p : α → Bool) (g : α → β) (default : β) :
    ((List.range xs.length).filter fun i => xs[i]?.any p).map (fun i => (xs[i]?.map g).getD default) =
      (xs.filter p).map g := by
  induction xs using List.reverseRecOn with
  | nil => rfl
  | append_singleton xs y ih =>
    have hearlier : ∀ i ∈ List.range xs.length, (xs ++ [y])[i]? = xs[i]? := fun i hi =>
      List.getElem?_append_left (List.mem_range.1 hi)
    have hlast : (xs ++ [y])[xs.length]? = some y := by simp
    have hfilter : ((List.range xs.length).filter fun i => (xs ++ [y])[i]?.any p) =
        (List.range xs.length).filter fun i => xs[i]?.any p :=
      List.filter_congr fun i hi => by rw [hearlier i hi]
    have hmap : ((List.range xs.length).filter fun i => xs[i]?.any p).map
        (fun i => ((xs ++ [y])[i]?.map g).getD default) = (xs.filter p).map g := by
      rw [← ih]
      exact List.map_congr_left fun i hi => by rw [hearlier i (List.mem_filter.1 hi).1]
    rw [List.length_append, List.length_singleton, List.range_succ, List.filter_append, hfilter,
      List.map_append, hmap, List.filter_append, List.map_append, List.filter_singleton, hlast]
    cases hp : p y <;> simp [hp]

/-- The attributes of an element are in document order. -/
lemma arranged_attributes (id n : Nat) : Arranged ((List.range n).map (Location.attr id ·)) := by
  refine List.pairwise_map.2 (List.pairwise_lt_range.imp fun h => before_iff.2 ?_)
  exact .inr ⟨rfl, Nat.succ_lt_succ h⟩

/-- The path to an attribute leads to the attributes of its name. -/
lemma exists_value_attributeExpr (hf : f.location = .node x) (name : Text) :
    ∃ ys, (attributeExpr name).value a f = .nodes ys ∧
      ys.map a.textAt = a.attributeValues x name := by
  let found := ((List.range (a.attributes x).length).map (Location.attr x ·)).filter
    ((NodeTest.name name).passes a)
  have harranged : Arranged found := (arranged_attributes ..).filter _
  refine ⟨found, ?_, ?_⟩
  · rw [attributeExpr, Expr.value, hf]
    simp only [walk, Step.reach, keepAll, Axis.locations, List.flatMap_singleton,
      Bool.false_eq_true, if_false]
    rw [harranged.arrange_eq fun _ => Iff.rfl]
  · simp only [found, List.filter_map, List.map_map]
    exact map_filter_range ..

section Values

variable (hf : f.location = .node x)
include hf

/-- As a text the path is the first value. An attribute that is not there counts as an empty text. -/
lemma toText_attributeExpr (name : Text) :
    ((attributeExpr name).value a f).toText a = (a.attribute? x name).getD [] := by
  obtain ⟨ys, hvalue, hys⟩ := exists_value_attributeExpr (a := a) hf name
  rw [hvalue, ← Arena.head?_attributeValues, ← hys, List.head?_map]
  cases ys <;> rfl

/-- The path is true if there is an attribute. -/
lemma toBool_attributeExpr (name : Text) :
    ((attributeExpr name).value a f).toBool = true ↔ ∃ value, a.attribute? x name = some value := by
  obtain ⟨ys, hvalue, hys⟩ := exists_value_attributeExpr (a := a) hf name
  rw [hvalue, ← Arena.head?_attributeValues, ← hys, List.head?_map]
  cases ys <;> simp [Value.toBool]

/-- The path equals a text that is one of the values. -/
lemma compare_attributeExpr (name v : Text) :
    XPath.compare a .equal ((attributeExpr name).value a f) (.string v) = true ↔
      v ∈ a.attributeValues x name := by
  obtain ⟨ys, hvalue, hys⟩ := exists_value_attributeExpr (a := a) hf name
  rw [hvalue, ← hys]
  simp [XPath.compare, Value.atom, Atom.compare, Atom.equal]

end Values

end WebCrawl.Css
