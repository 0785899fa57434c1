import WebCrawl.Proofs.Css.Positions
import WebCrawl.Proofs.Css.Spelling
import WebCrawl.Proofs.Html.Drafts

set_option autoImplicit false

/-!
# Places among siblings

A compound that is reached from above is looked for among all element children of a node, so that a
place among siblings is the place that a predicate sees. A compound that is reached from a sibling
is looked for among the siblings after that one, and there its places are counted.

## Main definitions

* `WebCrawl.Css.elementsAfter` — the elements after a node among its siblings.

## Main results

* `WebCrawl.Css.Complex.mem_reach_insert_iff`, `WebCrawl.Css.Complex.mem_reach_insert_iff_of_sibling`
  — what a further qualifier keeps.
* `WebCrawl.Query.Document.css_place` — a place keeps the elements that have it, and its negation
  the others.
* `WebCrawl.Query.Document.css_place_of_sibling` — a place keeps the elements that have it among
  those after a sibling.
* `WebCrawl.Query.Document.css_first_child_after_heading` — a second child that is found as a first
  one.
-/

namespace WebCrawl.Css

open Html Location XPath

variable {a : Arena}

/-! ## Written alternatives -/

/-- What an alternative finds that is written as a selector that makes a query. -/
lemma Complex.Written.css_spec {c : Complex} {s : Text} (hs : Complex.Written c s)
    {d : Query.Document} {cache : Query.Cache} (hc : cache.Faithful) {start : Location}
    {ys : List Location} (hys : (d.css s start cache).1 = .ok ys) :
    Named (Complex.attributeNames c) ∧ ∀ y, y ∈ ys ↔ y ∈ Complex.reach d.arena c start := by
  have hnames : Named (Group.attributeNames [c]) := by
    rw [Query.Document.css_eq hc] at hys
    cases hcompile : Query.compile (.css s (Query.Document.scopeAt start)) with
    | error e =>
      rw [hcompile] at hys
      cases hys
    | ok q => exact ((compile_eq_ok_iff hs.parse_eq).1 hcompile).1
  obtain ⟨zs, hzs, -, hmem⟩ := Query.Document.exists_css_eq_ok hc hs.parse_eq hnames d start
  obtain rfl := Except.ok.inj (hys.symm.trans hzs)
  exact ⟨by simpa [Group.attributeNames] using hnames, fun y => by simpa using hmem y⟩

/-- An alternative that asks for attributes of single names makes a query. -/
lemma Complex.Written.exists_css_eq_ok {c : Complex} {s : Text} (hs : Complex.Written c s)
    (hnames : Named (Complex.attributeNames c)) {cache : Query.Cache} (hc : cache.Faithful)
    (d : Query.Document) (start : Location) :
    ∃ ys, (d.css s start cache).1 = .ok ys ∧ Arranged ys ∧
      ∀ y, y ∈ ys ↔ y ∈ Complex.reach d.arena c start := by
  have hgroup : Named (Group.attributeNames [c]) := by simpa [Group.attributeNames] using hnames
  obtain ⟨ys, hys, harranged, hmem⟩ :=
    Query.Document.exists_css_eq_ok hc hs.parse_eq hgroup d start
  exact ⟨ys, hys, harranged, fun y => by simpa using hmem y⟩

/-- The last compound of a written alternative has a part. -/
lemma Complex.Written.hasPart {c : Complex} {k : Combinator} {p : Compound} {s : Text}
    (hs : Complex.Written (c ++ [(k, p)]) s) : p.type ≠ none ∨ p.qualifiers ≠ [] := by
  have hread := (wellFormed_of_parse hs.parse_eq).2 _ (List.mem_singleton_self _)
  exact (hread.2 (k, p) (by simp)).some

/-- The attributes that the qualifiers of the last compound ask for are among those of the
alternative. -/
lemma Complex.named_concat_iff {c : Complex} {k : Combinator} {type : Option Text}
    {qs : List Qualifier} : Named (Complex.attributeNames (c ++ [(k, ⟨type, qs⟩)])) ↔
      Named (Complex.attributeNames c) ∧ ∀ q ∈ qs, Named q.attributeNames := by
  have hnames : Complex.attributeNames (c ++ [(k, ⟨type, qs⟩)]) =
      Complex.attributeNames c ++ attributeNamesOf qs := by
    rw [attributeNames, List.flatMap_append, List.flatMap_singleton]
    rfl
  rw [hnames]
  simp only [Named, List.forall_mem_append, mem_attributeNamesOf]
  refine and_congr_right fun _ => ⟨fun h q hq name hname => h name ⟨q, hq, hname⟩, ?_⟩
  rintro h name ⟨q, hq, hname⟩
  exact h q hq name hname

/-- What all qualifiers have with a further one among them. -/
lemma forall_mem_insert_iff {P : Qualifier → Prop} {qs qs' : List Qualifier} {q : Qualifier} :
    (∀ r ∈ qs ++ q :: qs', P r) ↔ (∀ r ∈ qs ++ qs', P r) ∧ P q := by
  simp only [List.forall_mem_append, List.forall_mem_cons]
  tauto

/-- A further qualifier that asks for no attribute in brackets leaves the names as they are. -/
lemma Complex.named_insert {c : Complex} {k : Combinator} {type : Option Text}
    {qs qs' : List Qualifier} {q : Qualifier} (hq : q.attributeNames = [])
    (h : Named (Complex.attributeNames (c ++ [(k, ⟨type, qs ++ qs'⟩)]))) :
    Named (Complex.attributeNames (c ++ [(k, ⟨type, qs ++ q :: qs'⟩)])) := by
  rw [Complex.named_concat_iff] at h ⊢
  exact ⟨h.1, forall_mem_insert_iff.2 ⟨h.2, by rw [hq]; exact nofun⟩⟩

/-- There are no more siblings than nodes. -/
lemma length_peers_le (h : a.WellFormed) (x : Nat) : (Peers.all.of a x).length ≤ a.size := by
  refine Nat.le_trans (List.length_filter_le ..) ?_
  cases a.parent x with
  | none => exact Nat.zero_le _
  | some p =>
    have hnodup : (a.children p).Nodup := (h.sorted_children p).imp Nat.ne_of_lt
    have hsub : a.children p ⊆ List.range a.size := fun y hy =>
      List.mem_range.2 (h.mem_children_iff.1 hy).lt_size
    simpa using (hnodup.subperm hsub).length_le

/-! ## From above -/

section Above

variable (h : a.WellFormed) {k : Combinator} (hk : k = .descendant ∨ k = .child)
include h hk

/-- A compound that is reached from above is looked for among siblings and all of them. -/
lemma Combinator.peers_eq_candidates {w x : Nat} (hx : x ∈ k.candidates a w) :
    Peers.all.of a x = k.candidates a w := by
  have hcandidates : k.candidates a w = (a.children w).filter fun y => (a.elementName? y).isSome := by
    rcases hk with rfl | rfl <;> rfl
  rw [hcandidates, List.mem_filter, h.mem_children_iff] at hx
  have hparent : a.parent x = some w := hx.1
  rw [hcandidates, Peers.of, hparent]
  rfl

variable {c : Complex}

/-- What is found has its place among its siblings. -/
lemma Complex.mem_peers_of_mem_reach {p : Compound} {n x : Nat}
    (hx : .node x ∈ Complex.reach a (c ++ [(k, p)]) (.node n)) : x ∈ Peers.all.of a x := by
  obtain ⟨w, -, hkept⟩ := mem_reach_concat_iff.1 hx
  obtain ⟨z, hz, heq⟩ := List.mem_map.1 ((keepAll_sublist ..).subset hkept)
  obtain rfl := Location.node.inj heq
  rw [k.peers_eq_candidates h hk hz]
  exact hz

variable {type : Option Text} {qs qs' : List Qualifier} (hpart : type ≠ none ∨ qs ++ qs' ≠ [])
  (hrelative : ∀ q ∈ qs ++ qs', q.isTypeRelative = false)
include hpart hrelative

/-- A further qualifier keeps the elements at whose place among all siblings its conjuncts are true.
-/
lemma Complex.mem_reach_insert_iff {q : Qualifier} (hq : q.isTypeRelative = false) {n : Nat}
    {y : Location} :
    y ∈ Complex.reach a (c ++ [(k, ⟨type, qs ++ q :: qs'⟩)]) (.node n) ↔
      y ∈ Complex.reach a (c ++ [(k, ⟨type, qs ++ qs'⟩)]) (.node n) ∧
        ∃ x, y = .node x ∧ AllTrue a (focusAmong (Peers.all.of a x) x) q.conjuncts := by
  have hpart' : type ≠ none ∨ qs ++ q :: qs' ≠ [] := .inr (by simp)
  have hrelative' := forall_mem_insert_iff.2 ⟨hrelative, hq⟩
  rw [mem_reach_concat_iff_allTrue h hpart' hrelative', mem_reach_concat_iff_allTrue h hpart hrelative]
  simp only [forall_mem_insert_iff]
  constructor
  · rintro ⟨w, x, hw, hx, rfl, hcombinator, htype, hqs, hqx⟩
    rw [← k.peers_eq_candidates h hk hx] at hqx
    exact ⟨⟨w, x, hw, hx, rfl, hcombinator, htype, hqs⟩, x, rfl, hqx⟩
  · rintro ⟨⟨w, x, hw, hx, rfl, hcombinator, htype, hqs⟩, x', heq, hqx⟩
    obtain rfl := Location.node.inj heq
    rw [k.peers_eq_candidates h hk hx] at hqx
    exact ⟨w, x, hw, hx, rfl, hcombinator, htype, hqs, hqx⟩

end Above

/-! ## From a sibling -/

/-- The elements after a node among its siblings, in document order. -/
def elementsAfter (a : Arena) (w : Nat) : List Nat :=
  (a.followingSiblings w).filter fun x => (a.elementName? x).isSome

/-- The siblings of an element, up to a node before it and after that node. -/
lemma exists_peers_eq_append (h : a.WellFormed) {w x : Nat} (hx : x ∈ elementsAfter a w) :
    ∃ earlier, Peers.all.of a x = earlier ++ elementsAfter a w ∧ x ∉ earlier := by
  have hmem := List.mem_filter.1 hx
  have hsiblings : ∃ p, a.parent w = some p ∧
      a.followingSiblings w = (a.children p).drop (a.siblingIndex w + 1) := by
    rw [Arena.followingSiblings] at hmem ⊢
    cases hp : a.parent w with
    | none => simp [hp] at hmem
    | some p => exact ⟨p, rfl, rfl⟩
  obtain ⟨p, -, hdrop⟩ := hsiblings
  rw [hdrop] at hmem
  have hparent : a.parent x = some p := h.mem_children_iff.1 (List.mem_of_mem_drop hmem.1)
  have hpeers : Peers.all.of a x = ((a.children p).filter fun y => (a.elementName? y).isSome) := by
    rw [Peers.of, hparent]
    rfl
  have hsplit : Peers.all.of a x = (((a.children p).take (a.siblingIndex w + 1)).filter
      fun y => (a.elementName? y).isSome) ++ elementsAfter a w := by
    rw [hpeers, elementsAfter, hdrop, ← List.filter_append, List.take_append_drop]
  refine ⟨_, hsplit, fun hearlier => ?_⟩
  have hnodup : (Peers.all.of a x).Nodup := by
    rw [hpeers]
    exact ((h.sorted_children p).imp Nat.ne_of_lt).filter _
  rw [hsplit] at hnodup
  exact List.disjoint_of_nodup_append hnodup hearlier hx

/-- The last of all siblings is the last of those after a node. -/
lemma last_holds_elementsAfter_iff (h : a.WellFormed) {w x : Nat} (hx : x ∈ elementsAfter a w) :
    Place.last.Holds ((elementsAfter a w).idxOf x + 1) (elementsAfter a w).length ↔
      Place.last.Holds ((Peers.all.of a x).idxOf x + 1) (Peers.all.of a x).length := by
  obtain ⟨earlier, hpeers, hearlier⟩ := exists_peers_eq_append h hx
  rw [hpeers, List.idxOf_append_of_notMem hearlier, List.length_append]
  simp only [Place.Holds]
  omega

/-- Where places and combinators are held among the elements after a node. -/
lemma allTrue_elementsAfter_iff (h : a.WellFormed)
    (hcount : ∀ x, (Peers.all.of a x).length < 2 ^ 52) {w x : Nat} (hx : x ∈ elementsAfter a w) :
    (∀ k : Combinator, AllTrue a (focusAmong (elementsAfter a w) x) k.conjuncts ↔
      (k = .adjacent → (elementsAfter a w).idxOf x = 0)) ∧
    ∀ place : Place, place.Small → (AllTrue a (focusAmong (elementsAfter a w) x) place.conjuncts ↔
      place.Holds ((elementsAfter a w).idxOf x + 1) (elementsAfter a w).length) := by
  have hsize : (elementsAfter a w).length < 2 ^ 52 := by
    obtain ⟨earlier, hpeers, -⟩ := exists_peers_eq_append h hx
    have hlength := hcount x
    rw [hpeers, List.length_append] at hlength
    omega
  have hplace : ∀ place : Place, place.Small →
      (AllTrue a (focusAmong (elementsAfter a w) x) place.conjuncts ↔
        place.Holds ((elementsAfter a w).idxOf x + 1) (elementsAfter a w).length) :=
    fun place hsmall => place.allTrue_focusAmong_iff hx hsize hsmall
  refine ⟨fun k => ?_, hplace⟩
  cases k with
  | adjacent =>
    have hfirst : Combinator.adjacent.conjuncts = Place.first.conjuncts := rfl
    rw [hfirst, hplace .first trivial]
    simp [Place.Holds]
  | _ => simp [Combinator.conjuncts, Combinator.parts]

section Sibling

variable (h : a.WellFormed) {c : Complex} {k : Combinator} (hk : k = .adjacent ∨ k = .sibling)
include hk

/-- From a sibling a combinator goes on from where the alternative leads. -/
lemma Complex.approaches_iff_of_sibling {n w : Nat} :
    Complex.Approaches a c k n w ↔ .node w ∈ Complex.reach a c (.node n) := by
  have happroach : k.approach = [] := by rcases hk with rfl | rfl <;> rfl
  rw [Approaches, happroach, List.append_nil]
  rfl

lemma Combinator.candidates_eq_elementsAfter (w : Nat) : k.candidates a w = elementsAfter a w := by
  rcases hk with rfl | rfl <;> rfl

variable {type : Option Text} {qs qs' : List Qualifier} (hpart : type ≠ none ∨ qs ++ qs' ≠ [])
  (hsimple : ∀ q ∈ qs ++ qs', q.isSimple = true)
include h hpart hsimple

/-- A further qualifier keeps the elements at whose place among those after a sibling its conjuncts
are true. The other qualifiers do not care where an element is seen. -/
lemma Complex.mem_reach_insert_iff_of_sibling {q : Qualifier} (hq : q.isTypeRelative = false)
    {n : Nat} {y : Location} :
    y ∈ Complex.reach a (c ++ [(k, ⟨type, qs ++ q :: qs'⟩)]) (.node n) ↔
      y ∈ Complex.reach a (c ++ [(k, ⟨type, qs ++ qs'⟩)]) (.node n) ∧
        ∃ w x, y = .node x ∧ .node w ∈ Complex.reach a c (.node n) ∧ x ∈ elementsAfter a w ∧
          AllTrue a (focusAmong (elementsAfter a w) x) k.conjuncts ∧
          AllTrue a (focusAmong (elementsAfter a w) x) q.conjuncts := by
  have hpart' : type ≠ none ∨ qs ++ q :: qs' ≠ [] := .inr (by simp)
  have hrelative : ∀ r ∈ qs ++ qs', r.isTypeRelative = false := fun r hr =>
    r.isTypeRelative_of_isSimple (hsimple r hr)
  have hrelative' := forall_mem_insert_iff.2 ⟨hrelative, hq⟩
  rw [mem_reach_concat_iff_allTrue h hpart' hrelative', mem_reach_concat_iff_allTrue h hpart hrelative]
  simp only [forall_mem_insert_iff, approaches_iff_of_sibling hk, k.candidates_eq_elementsAfter hk]
  constructor
  · rintro ⟨w, x, hw, hx, rfl, hcombinator, htype, hqs, hqx⟩
    exact ⟨⟨w, x, hw, hx, rfl, hcombinator, htype, hqs⟩, w, x, rfl, hw, hx, hcombinator, hqx⟩
  · rintro ⟨⟨v, x, -, -, rfl, -, htype, hqs⟩, w, x', heq, hw, hx, hcombinator, hqx⟩
    obtain rfl := Location.node.inj heq
    refine ⟨w, x, hw, hx, rfl, hcombinator, ?_, fun r hr => ?_, hqx⟩
    · exact (allTrue_typeConjuncts_iff (.node x) _ _ _ _ type).1 htype
    · exact (r.allTrue_iff_of_isSimple (.node x) _ _ _ _ (hsimple r hr)).1 (hqs r hr)

end Sibling

end WebCrawl.Css

namespace WebCrawl.Query.Document

open Html Location Css

/-- A place among siblings, in a compound that is reached from above and counts no places among
siblings of one type. In every document, from every node, such a place at any position in the
compound keeps just the elements whose index among the element children of their parent it holds of,
and its negation keeps just the others. The numbers have to have 52 bits at most.

**Proof sketch.** The compound has a single predicate, which sees each element among the element
children of its parent, and is true where all of its conjuncts are. So the conjuncts of the place are
one more thing that it asks, and they compare the index exactly. -/
theorem css_place {d : Document} (hwf : d.arena.WellFormed) (n : Nat)
    (hcount : ∀ x, (Peers.all.of d.arena x).length < 2 ^ 52) {c : Css.Complex} {k : Combinator}
    (hk : k = .descendant ∨ k = .child) {type : Option Text} {qs qs' : List Qualifier}
    (hrelative : ∀ q ∈ qs ++ qs', q.isTypeRelative = false)
    {place : Place} (hsmall : place.Small) {s t u : Text}
    (hs : Complex.Written (c ++ [(k, ⟨type, qs ++ qs'⟩)]) s)
    (ht : Complex.Written (c ++ [(k, ⟨type, qs ++ .place .all place :: qs'⟩)]) t)
    (hu : Complex.Written (c ++ [(k, ⟨type, qs ++ .negation none [.place .all place] :: qs'⟩)]) u)
    {cache₁ cache₂ cache₃ : Cache} (h₁ : cache₁.Faithful) (h₂ : cache₂.Faithful)
    (h₃ : cache₃.Faithful) {xs : List Location} (hxs : (d.css s (.node n) cache₁).1 = .ok xs) :
    ∃ ys zs, (d.css t (.node n) cache₂).1 = .ok ys ∧ (d.css u (.node n) cache₃).1 = .ok zs ∧
      ys.Pairwise (fun x y => x.before y = true) ∧ zs.Pairwise (fun x y => x.before y = true) ∧
      (∀ y, y ∈ ys ↔ y ∈ xs ∧ ∃ x, y = .node x ∧
        place.Holds ((Peers.all.of d.arena x).idxOf x + 1) (Peers.all.of d.arena x).length) ∧
      ∀ y, y ∈ zs ↔ y ∈ xs ∧ ∃ x, y = .node x ∧
        ¬place.Holds ((Peers.all.of d.arena x).idxOf x + 1) (Peers.all.of d.arena x).length := by
  obtain ⟨hnames, hmem⟩ := hs.css_spec h₁ hxs
  have hpart := hs.hasPart
  -- at an element that is found, the focus of its predicate is its place among all siblings
  have hplace : ∀ {x}, .node x ∈ xs →
      (AllTrue d.arena (focusAmong (Peers.all.of d.arena x) x) place.conjuncts ↔
        place.Holds ((Peers.all.of d.arena x).idxOf x + 1) (Peers.all.of d.arena x).length) :=
      fun {x} hx => by
    exact place.allTrue_focusAmong_iff (Complex.mem_peers_of_mem_reach hwf hk ((hmem _).1 hx))
      (hcount x) hsmall
  obtain ⟨ys, hys, harranged, hmemt⟩ :=
    ht.exists_css_eq_ok (Complex.named_insert rfl hnames) h₂ _ (.node n)
  obtain ⟨zs, hzs, harranged', hmemu⟩ :=
    hu.exists_css_eq_ok (Complex.named_insert rfl hnames) h₃ _ (.node n)
  refine ⟨ys, zs, hys, hzs, harranged, harranged', fun y => ?_, fun y => ?_⟩
  · rw [hmemt, Complex.mem_reach_insert_iff hwf hk hpart hrelative rfl, ← hmem]
    refine and_congr_right fun hy => exists_congr fun x => and_congr_right ?_
    rintro rfl
    exact hplace hy
  · rw [hmemu, Complex.mem_reach_insert_iff hwf hk hpart hrelative rfl, ← hmem]
    refine and_congr_right fun hy => exists_congr fun x => and_congr_right ?_
    rintro rfl
    rw [allTrue_not_place, hplace hy]

/-- The second of three paragraphs, and the other two. -/
theorem css_place_of_paragraphs :
    let d : Document := .parse "<p>a</p><p>b</p><p>c</p>"
    ∃ ys zs, (d.css "p:nth-child(2n)" root (.empty 0)).1 = .ok ys ∧
      (d.css "p:not(:nth-child(2n))" root (.empty 0)).1 = .ok zs ∧
      .node 6 ∈ ys ∧ .node 6 ∉ zs ∧ .node 8 ∉ ys ∧ .node 8 ∈ zs := by
  intro d
  obtain ⟨hwf, -, -⟩ := arena_parse "<p>a</p><p>b</p><p>c</p>"
  have hs : Complex.Written ([] ++ [(.descendant, ⟨some "p", [] ++ []⟩)]) "p" :=
    parse_eq_ok_iff_spelled.1 rfl
  have ht : Complex.Written ([] ++ [(.descendant,
      ⟨some "p", [] ++ [.place .all (.nth (.progression 2 0))]⟩)]) "p:nth-child(2n)" :=
    parse_eq_ok_iff_spelled.1 rfl
  have hu : Complex.Written ([] ++ [(.descendant,
      ⟨some "p", [] ++ [.negation none [.place .all (.nth (.progression 2 0))]]⟩)])
      "p:not(:nth-child(2n))" := parse_eq_ok_iff_spelled.1 rfl
  have hempty := Cache.faithful_empty 0
  have hsize : d.arena.size = 10 := by decide +kernel
  have hplaces : Peers.all.of d.arena 6 = [4, 6, 8] ∧ Peers.all.of d.arena 8 = [4, 6, 8] := by
    decide +kernel
  have hbody : Complex.Approaches d.arena [] .descendant Arena.root 3 :=
    (mem_walk_step_iff (by decide)).2 (by decide +kernel)
  have hchildren : Combinator.candidates d.arena .descendant 3 = [4, 6, 8] ∧
    ∀ x ∈ [6, 8], d.arena.elementName? x = some "p".toList := by decide +kernel
  have hfound : ∀ x ∈ [6, 8], .node x ∈ Complex.reach d.arena [(.descendant, ⟨some "p", []⟩)] root := by
    intro x hx
    have hmem : x ∈ Combinator.candidates d.arena .descendant 3 := by
      rw [hchildren.1]
      exact List.mem_cons_of_mem 4 hx
    exact Complex.mem_reach_of_type hwf (by decide) hbody hmem ⟨"p", hchildren.2 x hx, .inr rfl⟩
  obtain ⟨xs, hxs, -, hmem⟩ := hs.exists_css_eq_ok nofun hempty d root
  obtain ⟨ys, zs, hys, hzs, -, -, hkept, hothers⟩ := css_place (d := d) hwf Arena.root
    (fun x => Nat.lt_of_le_of_lt (length_peers_le hwf x) (hsize ▸ by norm_num)) (.inl rfl) (by simp)
    (by simp [Place.Small, Nth.Small]) hs ht hu hempty hempty hempty hxs
  have hsecond : (Place.nth (.progression 2 0)).Holds ((Peers.all.of d.arena 6).idxOf 6 + 1)
      (Peers.all.of d.arena 6).length := by
    rw [hplaces.1]
    exact ⟨1, by decide⟩
  have hthird : ¬(Place.nth (.progression 2 0)).Holds ((Peers.all.of d.arena 8).idxOf 8 + 1)
      (Peers.all.of d.arena 8).length := by
    rw [hplaces.2]
    rintro ⟨k, hk⟩
    have hindex : [4, 6, 8].idxOf 8 = 2 := rfl
    omega
  refine ⟨ys, zs, hys, hzs, (hkept _).2 ⟨(hmem _).2 (hfound 6 (by simp)), 6, rfl, hsecond⟩, ?_, ?_,
    (hothers _).2 ⟨(hmem _).2 (hfound 8 (by simp)), 8, rfl, hthird⟩⟩
  · intro h
    obtain ⟨-, x, heq, hnot⟩ := (hothers _).1 h
    obtain rfl := Location.node.inj heq
    exact hnot hsecond
  · intro h
    obtain ⟨-, x, heq, hholds⟩ := (hkept _).1 h
    obtain rfl := Location.node.inj heq
    exact hthird hholds

/-- A place among siblings, in a compound that is reached from a sibling and has no other
pseudo-class. In every document, from every node, such a place keeps just the elements of which it
holds among the elements after one of the siblings from which they are reached, and not among all
siblings. Only the last place is the same there. The numbers have to have 52 bits at most.

**Proof sketch.** The predicate sees an element among those after a sibling, and asks for the other
qualifiers of the compound wherever it sees the element. The siblings up to a node and those after it
make up all siblings, so that both end in the same one. -/
theorem css_place_of_sibling {d : Document} (hwf : d.arena.WellFormed) (n : Nat)
    (hcount : ∀ x, (Peers.all.of d.arena x).length < 2 ^ 52) {c : Css.Complex} {k : Combinator}
    (hk : k = .adjacent ∨ k = .sibling) {type : Option Text} {qs qs' : List Qualifier}
    (hsimple : ∀ q ∈ qs ++ qs', q.isSimple = true)
    {place : Place} (hsmall : place.Small) {s t : Text}
    (hs : Complex.Written (c ++ [(k, ⟨type, qs ++ qs'⟩)]) s)
    (ht : Complex.Written (c ++ [(k, ⟨type, qs ++ .place .all place :: qs'⟩)]) t)
    {cache₁ cache₂ : Cache} (h₁ : cache₁.Faithful) (h₂ : cache₂.Faithful) {xs : List Location}
    (hxs : (d.css s (.node n) cache₁).1 = .ok xs) :
    ∃ ys, (d.css t (.node n) cache₂).1 = .ok ys ∧
      ys.Pairwise (fun x y => x.before y = true) ∧
      (∀ y, y ∈ ys ↔ y ∈ xs ∧ ∃ w x, y = .node x ∧
        .node w ∈ Complex.reach d.arena c (.node n) ∧ x ∈ elementsAfter d.arena w ∧
        (k = .adjacent → (elementsAfter d.arena w).idxOf x = 0) ∧
        place.Holds ((elementsAfter d.arena w).idxOf x + 1) (elementsAfter d.arena w).length) ∧
      (place = .last → ∀ y, y ∈ ys ↔ y ∈ xs ∧ ∃ x, y = .node x ∧
        place.Holds ((Peers.all.of d.arena x).idxOf x + 1) (Peers.all.of d.arena x).length) := by
  obtain ⟨hnames, hmem⟩ := hs.css_spec h₁ hxs
  obtain ⟨ys, hys, harranged, hmemt⟩ :=
    ht.exists_css_eq_ok (Complex.named_insert rfl hnames) h₂ _ (.node n)
  have hfound : ∀ y, y ∈ ys ↔ y ∈ xs ∧ ∃ w x, y = .node x ∧
      .node w ∈ Complex.reach d.arena c (.node n) ∧ x ∈ elementsAfter d.arena w ∧
      (k = .adjacent → (elementsAfter d.arena w).idxOf x = 0) ∧
      place.Holds ((elementsAfter d.arena w).idxOf x + 1) (elementsAfter d.arena w).length := by
    intro y
    rw [hmemt, Complex.mem_reach_insert_iff_of_sibling hwf hk hs.hasPart hsimple rfl, ← hmem]
    refine and_congr_right fun _ => exists_congr fun w => exists_congr fun x =>
      and_congr_right fun _ => and_congr_right fun _ => and_congr_right fun hx => ?_
    obtain ⟨hcombinator, hplace⟩ := allTrue_elementsAfter_iff hwf hcount hx
    rw [hcombinator]
    exact and_congr_right fun _ => hplace place hsmall
  refine ⟨ys, hys, harranged, hfound, ?_⟩
  rintro rfl y
  rw [hfound]
  refine and_congr_right fun hy => ⟨?_, ?_⟩
  · rintro ⟨w, x, rfl, -, hx, -, hlast⟩
    exact ⟨x, rfl, (last_holds_elementsAfter_iff hwf hx).1 hlast⟩
  · rintro ⟨x, rfl, hlast⟩
    obtain ⟨w, x', hw, hx, heq, hcombinator, -⟩ := (Complex.mem_reach_concat_iff_allTrue hwf
      hs.hasPart fun q hq => q.isTypeRelative_of_isSimple (hsimple q hq)).1 ((hmem _).1 hy)
    obtain rfl := Location.node.inj heq
    rw [Complex.approaches_iff_of_sibling hk] at hw
    rw [k.candidates_eq_elementsAfter hk] at hx hcombinator
    exact ⟨w, x, rfl, hw, hx, ((allTrue_elementsAfter_iff hwf hcount hx).1 k).1 hcombinator,
      (last_holds_elementsAfter_iff hwf hx).2 hlast⟩

/-- Of two paragraphs after a heading the second, which is the third child. -/
theorem css_place_of_sibling_of_paragraphs :
    let d : Document := .parse "<h1>a</h1><p>b</p><p>c</p>"
    ∃ ys, (d.css "h1 ~ p:nth-child(2)" root (.empty 0)).1 = .ok ys ∧ .node 8 ∈ ys ∧
      (Peers.all.of d.arena 8).idxOf 8 + 1 = 3 := by
  intro d
  obtain ⟨hwf, -, -⟩ := arena_parse "<h1>a</h1><p>b</p><p>c</p>"
  have hs : Complex.Written ([(.descendant, ⟨some "h1", []⟩)] ++ [(.sibling, ⟨some "p", [] ++ []⟩)])
      "h1 ~ p" := parse_eq_ok_iff_spelled.1 rfl
  have ht : Complex.Written ([(.descendant, ⟨some "h1", []⟩)] ++
      [(.sibling, ⟨some "p", [] ++ [.place .all (.nth (.only 2))]⟩)]) "h1 ~ p:nth-child(2)" :=
    parse_eq_ok_iff_spelled.1 rfl
  have hempty := Cache.faithful_empty 0
  have harena : d.arena.size = 10 ∧ elementsAfter d.arena 4 = [6, 8] ∧
      Peers.all.of d.arena 8 = [4, 6, 8] ∧ d.arena.elementName? 4 = some "h1".toList ∧
      d.arena.elementName? 8 = some "p".toList := by decide +kernel
  obtain ⟨hsize, hafter, hpeers, hheading, hparagraph⟩ := harena
  have hbody : Complex.Approaches d.arena [] .descendant Arena.root 3 :=
    (mem_walk_step_iff (by decide)).2 (by decide +kernel)
  have hfour : .node 4 ∈ Complex.reach d.arena [(.descendant, ⟨some "h1", []⟩)] root :=
    Complex.mem_reach_of_type hwf (by decide) hbody (by decide +kernel) ⟨"h1", hheading, .inr rfl⟩
  have height : .node 8 ∈ Complex.reach d.arena
      ([(.descendant, ⟨some "h1", []⟩)] ++ [(.sibling, ⟨some "p", []⟩)]) root :=
    Complex.mem_reach_of_type hwf (by decide) ((Complex.approaches_iff_of_sibling (.inr rfl)).2 hfour)
      (by decide +kernel) ⟨"p", hparagraph, .inr rfl⟩
  obtain ⟨xs, hxs, -, hmem⟩ := hs.exists_css_eq_ok nofun hempty d root
  obtain ⟨ys, hys, -, hkept, -⟩ := css_place_of_sibling (d := d) hwf Arena.root
    (fun x => Nat.lt_of_le_of_lt (length_peers_le hwf x) (hsize ▸ by norm_num))
    (.inr rfl) (by simp) (by simp [Place.Small, Nth.Small]) hs ht hempty hempty hxs
  have hsecond : (Place.nth (.only 2)).Holds ((elementsAfter d.arena 4).idxOf 8 + 1)
      (elementsAfter d.arena 4).length := by
    rw [hafter]
    rfl
  refine ⟨ys, hys, (hkept _).2 ⟨(hmem _).2 height, 4, 8, rfl, hfour, ?_, nofun, hsecond⟩, ?_⟩
  · exact hafter ▸ by simp
  · rw [hpeers]
    rfl

/-- A paragraph after a heading is found as a first child, although it is the second one. -/
theorem css_first_child_after_heading :
    let d : Document := .parse "<h1>a</h1><p>b</p>"
    ∃ ys, (d.css "h1 ~ p:first-child" root (.empty 0)).1 = .ok ys ∧ .node 6 ∈ ys ∧
      ¬Place.first.Holds ((Peers.all.of d.arena 6).idxOf 6 + 1) (Peers.all.of d.arena 6).length := by
  intro d
  obtain ⟨hwf, -, -⟩ := arena_parse "<h1>a</h1><p>b</p>"
  have ht : Complex.Written [(.descendant, ⟨some "h1", []⟩),
      (.sibling, ⟨some "p", [.place .all .first]⟩)] "h1 ~ p:first-child" :=
    parse_eq_ok_iff_spelled.1 rfl
  have harena : d.arena.size = 8 ∧ elementsAfter d.arena 4 = [6] ∧
      Peers.all.of d.arena 6 = [4, 6] ∧ d.arena.elementName? 4 = some "h1".toList ∧
      d.arena.elementName? 6 = some "p".toList := by decide +kernel
  obtain ⟨hsize, hafter, hpeers, hheading, hparagraph⟩ := harena
  have hbody : Complex.Approaches d.arena [] .descendant Arena.root 3 :=
    (mem_walk_step_iff (by decide)).2 (by decide +kernel)
  have hfour : .node 4 ∈ Complex.reach d.arena [(.descendant, ⟨some "h1", []⟩)] root :=
    Complex.mem_reach_of_type hwf (by decide) hbody (by decide +kernel) ⟨"h1", hheading, .inr rfl⟩
  have hsix : .node 6 ∈ Complex.reach d.arena
      ([(.descendant, ⟨some "h1", []⟩)] ++ [(.sibling, ⟨some "p", [] ++ []⟩)]) root :=
    Complex.mem_reach_of_type hwf (by decide) ((Complex.approaches_iff_of_sibling (.inr rfl)).2 hfour)
      (by decide +kernel) ⟨"p", hparagraph, .inr rfl⟩
  have hx : 6 ∈ elementsAfter d.arena 4 := hafter ▸ by simp
  have hcount : ∀ x, (Peers.all.of d.arena x).length < 2 ^ 52 := fun x =>
    Nat.lt_of_le_of_lt (length_peers_le hwf x) (hsize ▸ by norm_num)
  obtain ⟨hcombinator, hplace⟩ := allTrue_elementsAfter_iff hwf hcount hx
  have hfirst : Place.first.Holds ((elementsAfter d.arena 4).idxOf 6 + 1)
      (elementsAfter d.arena 4).length := by
    rw [hafter]
    rfl
  obtain ⟨ys, hys, -, hmem⟩ := ht.exists_css_eq_ok nofun (Cache.faithful_empty 0) d root
  refine ⟨ys, hys, (hmem _).2 ?_, ?_⟩
  · exact (Complex.mem_reach_insert_iff_of_sibling hwf (.inr rfl) (.inl (by simp)) (by simp)
      (q := .place .all .first) rfl).2
      ⟨hsix, 4, 6, rfl, hfour, hx, (hcombinator _).2 nofun, (hplace .first trivial).2 hfirst⟩
  · have hindex : [4, 6].idxOf 6 = 1 := rfl
    rw [hpeers, Place.Holds, hindex]
    decide

end WebCrawl.Query.Document
