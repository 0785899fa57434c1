import Mathlib.Data.List.Nodup
import Mathlib.Tactic.Common
import WebCrawl.Http.Fields

set_option autoImplicit false

/-!
# Fields as a multimap

What becomes of the values of a name when a value of the same or of another name is added, and what
is sent of them line by line.

## Main definitions

* `WebCrawl.Http.Fields.Distinct` — each name has one place.
* `WebCrawl.Http.Fields.sent` — the values with which a name is sent, line by line.

## Main results

* `WebCrawl.Http.Fields.getAll_append`, `WebCrawl.Http.Fields.getAll_insert` — the values of all
  names after one more value, or one value in place of others.
* `WebCrawl.Http.Fields.sent_eq_getAll` — each value of a name is sent once, in order.
-/

namespace WebCrawl.Http.Fields

variable {f : Fields} {name other : Text}

/-! ## Values of a name -/

/-- Values that are changed are those of one name. -/
lemma lookup_map_groups (groups : List (Text × List (List UInt8))) (name other : Text)
    (values : List (List UInt8) → List (List UInt8)) :
    (groups.map fun (n, vs) => if n = name then (n, values vs) else (n, vs)).lookup other =
      if other = name then (groups.lookup name).map values else groups.lookup other := by
  induction groups with
  | nil => simp
  | cons group groups ih =>
    obtain ⟨n, vs⟩ := group
    rw [List.map_cons]
    by_cases hn : n = name
    · subst hn
      by_cases ho : other = n
      · subst ho
        simp
      · have hne : (other == n) = false := by simpa using ho
        rw [if_neg ho] at ih
        simp only [if_true, List.lookup_cons, hne, if_neg ho, ih]
    · by_cases ho : other = n
      · subst ho
        simp [hn]
      · have hne : (other == n) = false := by simpa using ho
        have hne' : (name == n) = false := by simpa using Ne.symm hn
        simp only [if_neg hn, List.lookup_cons, hne, hne', ih]

/-- Values that are changed are those of one name, whether it had some before or not. -/
lemma getAll_change (values : List (List UInt8) → List (List UInt8)) :
    (f.change name values).getAll other =
      if other = name then values (f.getAll name) else f.getAll other := by
  unfold change contains getAll
  cases hname : f.groups.lookup name with
  | some vs =>
    rw [if_pos (show (some vs).isSome = true from rfl), lookup_map_groups, hname]
    split_ifs <;> rfl
  | none =>
    rw [if_neg (by simp), List.lookup_append]
    by_cases ho : other = name
    · subst ho
      simp [hname]
    · have hne : (other == name) = false := by simpa using ho
      simp [ho, List.lookup_cons, hne]

/-- One more value of a name. -/
lemma getAll_append (value : List UInt8) :
    (f.append name value).getAll other =
      if other = name then f.getAll name ++ [value] else f.getAll other :=
  getAll_change _

/-- A value in place of all the values of a name. -/
lemma getAll_insert (value : List UInt8) :
    (f.insert name value).getAll other = if other = name then [value] else f.getAll other :=
  getAll_change _

/-! ## Names -/

/-- Each name has one place. -/
def Distinct (f : Fields) : Prop := (f.groups.map (·.1)).Nodup

lemma distinct_empty : Distinct empty := List.nodup_nil

/-- A name that is new comes last, and no other gets a second place. -/
lemma Distinct.change (h : f.Distinct) (values : List (List UInt8) → List (List UInt8)) :
    (f.change name values).Distinct := by
  unfold Fields.change Distinct
  split
  · have hnames : (f.groups.map fun (n, vs) => if n = name then (n, values vs) else (n, vs)).map
        (·.1) = f.groups.map (·.1) := by
      rw [List.map_map]
      refine List.map_congr_left fun group _ => ?_
      dsimp only [Function.comp_apply]
      split <;> rfl
    rw [hnames]
    exact h
  · rename_i hnone
    have hnew : name ∉ f.groups.map (·.1) := by
      simpa [contains, List.lookup_eq_none_iff] using hnone
    rw [List.map_append, List.nodup_append]
    refine ⟨h, by simp, ?_⟩
    rintro n hn m hm rfl
    obtain rfl : n = name := by simpa using hm
    exact hnew hn

lemma Distinct.append (h : f.Distinct) (value : List UInt8) : (f.append name value).Distinct :=
  h.change _

lemma Distinct.insert (h : f.Distinct) (value : List UInt8) : (f.insert name value).Distinct :=
  h.change _

/-! ## Lines -/

/-- The values with which a name is sent, line by line. -/
def sent (f : Fields) (name : Text) : List (List UInt8) :=
  (f.toList.filter (·.1 = name)).map (·.2)

/-- Each value of a name is sent once, in order. -/
theorem sent_eq_getAll (h : f.Distinct) (name : Text) : f.sent name = f.getAll name := by
  obtain ⟨groups⟩ := f
  unfold Distinct at h
  unfold sent getAll toList
  dsimp only at h ⊢
  induction groups with
  | nil => rfl
  | cons group groups ih =>
    obtain ⟨n, vs⟩ := group
    obtain ⟨hnew, hrest⟩ := List.nodup_cons.1 h
    have hrest := ih hrest
    rw [List.flatMap_cons, List.filter_append, List.map_append, hrest]
    by_cases hn : n = name
    · subst hn
      have hnone : groups.lookup n = none := by
        rw [List.lookup_eq_none_iff]
        rintro ⟨m, ws⟩ hm
        have hne : n ≠ m := fun heq => hnew (List.mem_map.2 ⟨(m, ws), hm, heq.symm⟩)
        simpa using hne
      simp [hnone, List.filter_map, Function.comp_def]
    · have hne : (name == n) = false := by simpa using Ne.symm hn
      simp [hn, List.lookup_cons, hne, List.filter_map, Function.comp_def]

end WebCrawl.Http.Fields
