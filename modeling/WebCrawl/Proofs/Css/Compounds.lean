import WebCrawl.Proofs.Css.Indices

set_option autoImplicit false

/-!
# Qualifiers in a row

A compound that counts no places among siblings of one type finds just what it finds with each of
its qualifiers alone. A place among siblings of one type begins a predicate of its own. That
predicate sees the siblings that the qualifiers before it have left and not all siblings of the
type, so that it matters where in the compound the place stands.

## Main definitions

* `WebCrawl.Css.peersAmong` — the siblings of an element among some nodes.

## Main results

* `WebCrawl.Css.Complex.mem_reach_opening_iff` — what a place among siblings of one type leaves.
* `WebCrawl.Css.Complex.mem_reach_iff_forall` — where a compound finds what its qualifiers find.
* `WebCrawl.Query.Document.css_compound` — both for selectors.
* `WebCrawl.Query.Document.css_first_of_type_after_class` — a compound that finds more than one of
  its qualifiers.
-/

namespace WebCrawl.Css

open Html Location XPath

variable {a : Arena}

/-! ## Predicates -/

/-- Conjuncts that begin a predicate are put together apart from those before them. -/
lemma gather_append (parts more : List (Bool × List Expr)) (current es : List Expr) :
    gather current (parts ++ (true, es) :: more) = gather current parts ++ gather es more := by
  induction parts generalizing current with
  | nil => rfl
  | cons part parts ih =>
    obtain ⟨opens, es'⟩ := part
    cases opens <;> simp [gather, ih]

/-- A qualifier that counts among siblings of one type begins the last predicate, if no later one
does. -/
lemma Compound.predicates_append {type : Option Text} {before rest : List Qualifier} {r : Qualifier}
    (hr : r.isTypeRelative = true) (hrest : ∀ q ∈ rest, q.isTypeRelative = false) (k : Combinator) :
    Compound.predicates k ⟨type, before ++ r :: rest⟩ =
      Compound.predicates k ⟨type, before⟩ ++ [conjunction (conjunctsOf (r :: rest))] := by
  have hlast : gather r.conjuncts (rest.map Qualifier.part) =
      [conjunction (conjunctsOf (r :: rest))] := by
    have hopens : ∀ part ∈ (false, r.conjuncts) :: rest.map Qualifier.part, part.1 = false :=
      List.forall_mem_cons.2 ⟨rfl, List.forall_mem_map.2 hrest⟩
    have hone := predicatesOf_eq_conjunction (List.cons_ne_nil _ _) hopens
    have hconjuncts : (rest.map Qualifier.part).flatMap (·.2) = conjunctsOf rest :=
      flatMap_parts none rest
    rw [List.flatMap_cons, hconjuncts] at hone
    exact hone
  have hpart : r.part = (true, r.conjuncts) := by rw [Qualifier.part, hr]
  have hparts : k.parts ++ typeParts type ++ (before ++ r :: rest).map Qualifier.part =
      (k.parts ++ typeParts type ++ before.map Qualifier.part) ++
        (true, r.conjuncts) :: rest.map Qualifier.part := by
    rw [List.map_append, List.map_cons, hpart, List.append_assoc _ (before.map _)]
  rw [predicates, predicates, hparts]
  cases k.parts ++ typeParts type ++ before.map Qualifier.part with
  | nil => exact hlast
  | cons part parts => exact (gather_append ..).trans (congrArg _ hlast)

/-- What predicates keep of nodes in document order is what is left of these nodes in their order.
-/
lemma keepAll_map_node {ids : List Nat} (h : ids.Pairwise (· < ·)) (ps : List Expr) :
    keepAll a ps (ids.map .node) =
      (ids.filter fun x => .node x ∈ keepAll a ps (ids.map .node)).map .node := by
  have harranged : Arranged (ids.map .node) := Axis.pairwise_map_node .child h
  have hsub := keepAll_sublist (a := a) ps (ids.map .node)
  refine (harranged.sublist hsub).eq_of_mem_iff
    (harranged.sublist (List.filter_sublist.map _)) fun y => ?_
  constructor
  · intro hy
    obtain ⟨x, hx, rfl⟩ := List.mem_map.1 (hsub.subset hy)
    exact List.mem_map_of_mem (List.mem_filter.2 ⟨hx, decide_eq_true hy⟩)
  · intro hy
    obtain ⟨x, hx, rfl⟩ := List.mem_map.1 hy
    exact of_decide_eq_true (List.mem_filter.1 hx).2

/-! ## What is found -/

/-- The elements where a compound is looked for from a node that some predicates keep. -/
def Combinator.kept (a : Arena) (k : Combinator) (ps : List Expr) (w : Nat) : List Nat :=
  (k.candidates a w).filter fun x => .node x ∈ keepAll a ps ((k.candidates a w).map .node)

lemma Combinator.mem_kept_iff {k : Combinator} {ps : List Expr} {w x : Nat} :
    x ∈ k.kept a ps w ↔
      x ∈ k.candidates a w ∧ .node x ∈ keepAll a ps ((k.candidates a w).map .node) := by
  rw [kept, List.mem_filter, decide_eq_true_iff]

/-- The siblings of an element, itself one of them, that are among some nodes. -/
def peersAmong (a : Arena) (xs : List Location) (x : Nat) : List Nat :=
  (Peers.all.of a x).filter fun z => .node z ∈ xs

lemma peersAmong_congr {xs ys : List Location} (hmem : ∀ y, y ∈ xs ↔ y ∈ ys) (x : Nat) :
    peersAmong a xs x = peersAmong a ys x :=
  List.filter_congr fun _ _ => decide_eq_decide.2 (hmem _)

section Above

variable (h : a.WellFormed) {k : Combinator} (hk : k = .descendant ∨ k = .child) {c : Complex}
  {n : Nat} {y : Location}
include h hk

/-- Predicates keep elements where a compound is looked for in the order in which they stand there.
-/
lemma Combinator.keepAll_candidates (ps : List Expr) (w : Nat) :
    keepAll a ps ((k.candidates a w).map .node) = (k.kept a ps w).map .node := by
  refine keepAll_map_node ?_ ps
  rcases hk with rfl | rfl <;> exact (h.sorted_children w).filter _

/-- What is found where a compound is looked for from a node is what its predicates keep there. -/
lemma Complex.mem_reach_iff_mem_kept {p : Compound} {w x : Nat} (hw : Complex.Approaches a c k n w)
    (hx : x ∈ k.candidates a w) :
    .node x ∈ Complex.reach a (c ++ [(k, p)]) (.node n) ↔ x ∈ k.kept a (p.predicates k) w := by
  rw [Combinator.mem_kept_iff, and_iff_right hx]
  refine mem_reach_concat_iff.trans ⟨?_, fun hkept => ⟨w, hw, hkept⟩⟩
  rintro ⟨v, -, hkept⟩
  obtain ⟨z, hz, heq⟩ := List.mem_map.1 ((keepAll_sublist ..).subset hkept)
  obtain rfl := Location.node.inj heq
  -- a node has one parent, so that it is looked for among the same elements
  rwa [← k.peers_eq_candidates h hk hz, k.peers_eq_candidates h hk hx] at hkept

/-- The siblings of an element that are found are those that the predicates keep. -/
lemma Complex.peersAmong_reach {p : Compound} {w x : Nat} (hw : Complex.Approaches a c k n w)
    (hx : x ∈ k.candidates a w) :
    peersAmong a (Complex.reach a (c ++ [(k, p)]) (.node n)) x = k.kept a (p.predicates k) w := by
  rw [peersAmong, k.peers_eq_candidates h hk hx]
  refine List.filter_congr fun z hz => decide_eq_decide.2 ?_
  rw [mem_reach_iff_mem_kept h hk hw hz, Combinator.mem_kept_iff, and_iff_right hz]

/-- A qualifier that counts among siblings of one type, and what follows it, sees the siblings that
the qualifiers before it have left. -/
theorem Complex.mem_reach_opening_iff {type : Option Text} (before : List Qualifier) {r : Qualifier}
    (hr : r.isTypeRelative = true) {rest : List Qualifier}
    (hrest : ∀ q ∈ rest, q.isTypeRelative = false) :
    y ∈ Complex.reach a (c ++ [(k, ⟨type, before ++ r :: rest⟩)]) (.node n) ↔
      y ∈ Complex.reach a (c ++ [(k, ⟨type, before⟩)]) (.node n) ∧ ∃ x, y = .node x ∧
        ∀ q ∈ r :: rest, AllTrue a (focusAmong (peersAmong a
          (Complex.reach a (c ++ [(k, ⟨type, before⟩)]) (.node n)) x) x) q.conjuncts := by
  have hnumber : ∀ e ∈ conjunctsOf (r :: rest), ∀ f z, e.value a f ≠ .number z := fun e he => by
    have hmem : e ∈ Combinator.child.conjuncts ++ (typeConjuncts none ++ conjunctsOf (r :: rest)) :=
      List.mem_append_right _ (List.mem_append_right _ he)
    exact Compound.ne_number hmem
  have hne : conjunctsOf (r :: rest) ≠ [] := by
    rw [conjunctsOf]
    exact List.append_ne_nil_of_left_ne_nil r.conjuncts_ne_nil _
  have hlast : ∀ w, y ∈ keepAll a (Compound.predicates k ⟨type, before ++ r :: rest⟩)
      ((k.candidates a w).map .node) ↔ ∃ x ∈ k.kept a (Compound.predicates k ⟨type, before⟩) w,
        y = .node x ∧ ∀ q ∈ r :: rest, AllTrue a
          (focusAmong (k.kept a (Compound.predicates k ⟨type, before⟩) w) x) q.conjuncts := fun w => by
    simp only [← allTrue_conjunctsOf]
    rw [Compound.predicates_append hr hrest, keepAll_concat, k.keepAll_candidates h hk]
    exact mem_keep_conjunction_iff ((k.nodup_candidates h w).filter _) hnumber hne
  rw [mem_reach_concat_iff]
  constructor
  · rintro ⟨w, hw, hy⟩
    obtain ⟨x, hx, rfl, htrue⟩ := (hlast w).1 hy
    have hcandidate := (Combinator.mem_kept_iff.1 hx).1
    rw [← peersAmong_reach h hk hw hcandidate] at htrue
    exact ⟨(mem_reach_iff_mem_kept h hk hw hcandidate).2 hx, x, rfl, htrue⟩
  · rintro ⟨hy, x, rfl, htrue⟩
    obtain ⟨w, hw, hkept⟩ := mem_reach_concat_iff.1 hy
    rw [k.keepAll_candidates h hk] at hkept
    obtain ⟨z, hz, heq⟩ := List.mem_map.1 hkept
    obtain rfl := Location.node.inj heq
    rw [peersAmong_reach h hk hw (Combinator.mem_kept_iff.1 hz).1] at htrue
    exact ⟨w, hw, (hlast w).2 ⟨z, hz, rfl, htrue⟩⟩

/-- What qualifiers keep none of which counts among siblings of one type: the elements at whose
place among all siblings their conjuncts are true. -/
lemma Complex.mem_reach_iff_allTrue {t : Text} {qs : List Qualifier}
    (hrelative : ∀ q ∈ qs, q.isTypeRelative = false) :
    y ∈ Complex.reach a (c ++ [(k, ⟨some t, qs⟩)]) (.node n) ↔
      y ∈ Complex.reach a (c ++ [(k, ⟨some t, []⟩)]) (.node n) ∧ ∃ x, y = .node x ∧
        ∀ q ∈ qs, AllTrue a (focusAmong (Peers.all.of a x) x) q.conjuncts := by
  have hsome : (some t : Option Text) ≠ none := Option.some_ne_none t
  rw [mem_reach_concat_iff_allTrue h (.inl hsome) hrelative,
    mem_reach_concat_iff_allTrue h (.inl hsome) (by simp)]
  constructor
  · rintro ⟨w, x, hw, hx, rfl, hcombinator, htype, hqs⟩
    rw [← k.peers_eq_candidates h hk hx] at hqs
    exact ⟨⟨w, x, hw, hx, rfl, hcombinator, htype, by simp⟩, x, rfl, hqs⟩
  · rintro ⟨⟨w, x, hw, hx, rfl, hcombinator, htype, -⟩, x', heq, hqs⟩
    obtain rfl := Location.node.inj heq
    rw [k.peers_eq_candidates h hk hx] at hqs
    exact ⟨w, x, hw, hx, rfl, hcombinator, htype, hqs⟩

/-- An element of the type is found where it is looked for, with a qualifier that asks for no place,
if the qualifier holds of it. -/
lemma Complex.mem_reach_iff_holds (hnames : a.DistinctNames) {t : Text} {w x : Nat}
    (hw : Complex.Approaches a c k n w) (hx : x ∈ k.candidates a w) (htype : OfType a t x)
    {q : Qualifier} (hq : q.WellFormed) (hplain : q.Plain) :
    .node x ∈ Complex.reach a (c ++ [(k, ⟨some t, [q]⟩)]) (.node n) ↔ q.Holds a x := by
  have hrelative : q.isTypeRelative = false := by cases hplain <;> rfl
  have hk' : k ≠ .adjacent := by rcases hk with rfl | rfl <;> decide
  have hdecides : AllTrue a (focusAmong (Peers.all.of a x) x) q.conjuncts ↔ q.Holds a x :=
    (q.decides hnames hq hplain rfl (List.mem_filter.1 hx).2).2
  simp only [mem_reach_iff_allTrue h hk (List.forall_mem_singleton.2 hrelative),
    List.forall_mem_singleton, Location.node.injEq, exists_eq_left', hdecides,
    mem_reach_of_type h hk' hw hx htype, true_and]

/-- A compound finds what it finds with each of its qualifiers alone, if either none of them counts
among siblings of one type, or only the first one does and the others are no pseudo-classes.

**Proof sketch.** In both cases one focus does for all qualifiers: the element among all its
siblings, or among those of its type. What is no pseudo-class does not care for the focus. -/
theorem Complex.mem_reach_iff_forall {t : Text} {qs : List Qualifier} (hne : qs ≠ [])
    (hqs : (∀ q ∈ qs, q.isTypeRelative = false) ∨
      ∃ r rest, qs = r :: rest ∧ r.isTypeRelative = true ∧ ∀ q ∈ rest, q.isSimple = true) :
    y ∈ Complex.reach a (c ++ [(k, ⟨some t, qs⟩)]) (.node n) ↔
      ∀ q ∈ qs, y ∈ Complex.reach a (c ++ [(k, ⟨some t, [q]⟩)]) (.node n) := by
  suffices hfocus : ∃ f : Nat → Focus,
      (y ∈ Complex.reach a (c ++ [(k, ⟨some t, qs⟩)]) (.node n) ↔
        y ∈ Complex.reach a (c ++ [(k, ⟨some t, []⟩)]) (.node n) ∧
          ∃ x, y = .node x ∧ ∀ q ∈ qs, AllTrue a (f x) q.conjuncts) ∧
      ∀ q ∈ qs, (y ∈ Complex.reach a (c ++ [(k, ⟨some t, [q]⟩)]) (.node n) ↔
        y ∈ Complex.reach a (c ++ [(k, ⟨some t, []⟩)]) (.node n) ∧
          ∃ x, y = .node x ∧ AllTrue a (f x) q.conjuncts) by
    obtain ⟨f, hall, hone⟩ := hfocus
    obtain ⟨q₀, hq₀⟩ := List.exists_mem_of_ne_nil qs hne
    constructor
    · intro hy q hq
      obtain ⟨htype, x, hx, htrue⟩ := hall.1 hy
      exact (hone q hq).2 ⟨htype, x, hx, htrue q hq⟩
    · intro hy
      obtain ⟨htype, x, rfl, -⟩ := (hone q₀ hq₀).1 (hy q₀ hq₀)
      refine hall.2 ⟨htype, x, rfl, fun q hq => ?_⟩
      obtain ⟨-, x', heq, htrue⟩ := (hone q hq).1 (hy q hq)
      obtain rfl := Location.node.inj heq
      exact htrue
  have hone : ∀ {q : Qualifier}, q.isTypeRelative = false →
      (y ∈ Complex.reach a (c ++ [(k, ⟨some t, [q]⟩)]) (.node n) ↔
        y ∈ Complex.reach a (c ++ [(k, ⟨some t, []⟩)]) (.node n) ∧ ∃ x, y = .node x ∧
          AllTrue a (focusAmong (Peers.all.of a x) x) q.conjuncts) := fun {q} hq => by
    simp only [mem_reach_iff_allTrue h hk (List.forall_mem_singleton.2 hq), List.forall_mem_singleton]
  rcases hqs with hrelative | ⟨r, rest, rfl, hr, hrest⟩
  · exact ⟨fun x => focusAmong (Peers.all.of a x) x, mem_reach_iff_allTrue h hk hrelative,
      fun q hq => hone (hrelative q hq)⟩
  · have hother : ∀ q ∈ rest, q.isTypeRelative = false := fun q hq =>
      q.isTypeRelative_of_isSimple (hrest q hq)
    have hopening : ∀ {rest : List Qualifier}, (∀ q ∈ rest, q.isTypeRelative = false) →
        (y ∈ Complex.reach a (c ++ [(k, ⟨some t, r :: rest⟩)]) (.node n) ↔
          y ∈ Complex.reach a (c ++ [(k, ⟨some t, []⟩)]) (.node n) ∧ ∃ x, y = .node x ∧
            ∀ q ∈ r :: rest, AllTrue a (focusAmong (peersAmong a
              (Complex.reach a (c ++ [(k, ⟨some t, []⟩)]) (.node n)) x) x) q.conjuncts) := fun hrest =>
      mem_reach_opening_iff h hk [] hr hrest
    refine ⟨fun x => focusAmong (peersAmong a
      (Complex.reach a (c ++ [(k, ⟨some t, []⟩)]) (.node n)) x) x, ?_, fun q hq => ?_⟩
    · exact hopening hother
    rcases List.mem_cons.1 hq with rfl | hq
    · have hnone : ∀ q ∈ ([] : List Qualifier), q.isTypeRelative = false := by simp
      simpa only [List.forall_mem_singleton] using hopening hnone
    · rw [hone (hother q hq)]
      refine and_congr_right fun _ => exists_congr fun x => and_congr_right fun _ => ?_
      exact q.allTrue_iff_of_isSimple (.node x) _ _ _ _ (hrest q hq)

end Above

end WebCrawl.Css

namespace WebCrawl.Query.Document

open Html Location Css

/-- A type with qualifiers in a row, reached from above. In every document, from every node, it
finds what it finds with each qualifier alone, if either none of them counts among siblings of one
type, or only the first one does and the others are no pseudo-classes. In general, a place among
siblings of one type is counted among what the qualifiers before it leave, and not among all
siblings of the type; and so are the places after it. The numbers have to have 52 bits at most.

**Proof sketch.** What precedes a place among siblings of one type stands in other predicates than
the place itself, and these are applied first. So the last predicate sees the siblings that are
found without what it asks. -/
theorem css_compound {d : Document} (hwf : d.arena.WellFormed) (n : Nat) {c : Css.Complex} {k : Combinator}
    (hk : k = .descendant ∨ k = .child) {t : Text} {qs : List Qualifier} (hne : qs ≠ []) {s : Text}
    (hs : Complex.Written (c ++ [(k, ⟨some t, qs⟩)]) s) {text : Qualifier → Text}
    (htext : ∀ q ∈ qs, Complex.Written (c ++ [(k, ⟨some t, [q]⟩)]) (text q))
    {cache₁ cache₂ cache₃ : Cache} (h₁ : cache₁.Faithful) (h₂ : cache₂.Faithful)
    (h₃ : cache₃.Faithful) {found : Qualifier → List Location}
    (hfound : ∀ q ∈ qs, (d.css (text q) (.node n) cache₁).1 = .ok (found q)) :
    ∃ ys, (d.css s (.node n) cache₂).1 = .ok ys ∧
      ys.Pairwise (fun x y => x.before y = true) ∧
      ((∀ q ∈ qs, q.isTypeRelative = false) ∨ (∃ r rest, qs = r :: rest ∧
          r.isTypeRelative = true ∧ ∀ q ∈ rest, q.isSimple = true) →
        ∀ y, y ∈ ys ↔ ∀ q ∈ qs, y ∈ found q) ∧
      ∀ before place rest, qs = before ++ .place .sameType place :: rest → place.Small →
        (∀ x, (Peers.all.of d.arena x).length < 2 ^ 52) →
        (∀ q ∈ rest, q.isTypeRelative = false) →
        ∀ u, Complex.Written (c ++ [(k, ⟨some t, before⟩)]) u →
          ∃ xs, (d.css u (.node n) cache₃).1 = .ok xs ∧
            ∀ y, y ∈ ys ↔ y ∈ xs ∧ ∃ x, y = .node x ∧
              place.Holds ((peersAmong d.arena xs x).idxOf x + 1) (peersAmong d.arena xs x).length ∧
              ∀ q ∈ rest,
                AllTrue d.arena (focusAmong (peersAmong d.arena xs x) x) q.conjuncts := by
  have hspec := fun q hq => (htext q hq).css_spec h₁ (hfound q hq)
  have hnamed : Named (Complex.attributeNames c) ∧ ∀ q ∈ qs, Named q.attributeNames := by
    have hone := fun q hq => Complex.named_concat_iff.1 (hspec q hq).1
    obtain ⟨q, hq⟩ := List.exists_mem_of_ne_nil qs hne
    exact ⟨(hone q hq).1, fun q hq => (hone q hq).2 q (List.mem_singleton_self q)⟩
  obtain ⟨ys, hys, harranged, hmem⟩ :=
    hs.exists_css_eq_ok (Complex.named_concat_iff.2 hnamed) h₂ _ (.node n)
  refine ⟨ys, hys, harranged, fun hqs y => ?_, ?_⟩
  · rw [hmem, Complex.mem_reach_iff_forall hwf hk hne hqs]
    exact forall₂_congr fun q hq => ((hspec q hq).2 y).symm
  · rintro before place rest rfl hsmall hcount hrest u hu
    have hnamed' : Named (Complex.attributeNames (c ++ [(k, ⟨some t, before⟩)])) :=
      Complex.named_concat_iff.2 ⟨hnamed.1, fun q hq => hnamed.2 q (List.mem_append_left _ hq)⟩
    obtain ⟨xs, hxs, -, hmem'⟩ := hu.exists_css_eq_ok hnamed' h₃ d (.node n)
    refine ⟨xs, hxs, fun y => ?_⟩
    rw [hmem, Complex.mem_reach_opening_iff hwf hk before rfl hrest, ← hmem']
    refine and_congr_right fun hy => exists_congr fun x => and_congr_right ?_
    rintro rfl
    rw [← peersAmong_congr hmem', List.forall_mem_cons]
    refine and_congr_left' ?_
    have hpeers : x ∈ peersAmong d.arena xs x := List.mem_filter.2
      ⟨Complex.mem_peers_of_mem_reach hwf hk ((hmem' _).1 hy), decide_eq_true hy⟩
    have hsize : (peersAmong d.arena xs x).length < 2 ^ 52 :=
      Nat.lt_of_le_of_lt (List.length_filter_le ..) (hcount x)
    exact place.allTrue_focusAmong_iff hpeers hsize hsmall

/-- Of two paragraphs the second alone is of a class. -/
lemma peersAmong_of_paragraphs :
    let a := (Document.parse "<p>a</p><p class=x>b</p>").arena
    .node 6 ∈ Complex.reach a ([] ++ [(.descendant, ⟨some "p", [.className "x"]⟩)])
        (.node Arena.root) ∧
      peersAmong a (Complex.reach a ([] ++ [(.descendant, ⟨some "p", []⟩)]) (.node Arena.root)) 6 =
        [4, 6] ∧
      peersAmong a (Complex.reach a ([] ++ [(.descendant, ⟨some "p", [.className "x"]⟩)])
        (.node Arena.root)) 6 = [6] := by
  intro a
  obtain ⟨hwf, -, hnames⟩ := arena_parse "<p>a</p><p class=x>b</p>"
  have harena : Peers.all.of a 6 = [4, 6] ∧ a.attribute? 4 "class" = none ∧
      a.attribute? 6 "class" = some ['x'] := by decide +kernel
  obtain ⟨hpeers, hfour, hsix⟩ := harena
  have hbody : Complex.Approaches a [] .descendant Arena.root 3 :=
    (mem_walk_step_iff (by decide)).2 (by decide +kernel)
  have hchildren : ∀ x ∈ [4, 6], x ∈ Combinator.candidates a .descendant 3 ∧
      a.elementName? x = some "p".toList := by decide +kernel
  have htype : ∀ x ∈ [4, 6], OfType a "p" x := fun x hx => ⟨"p", (hchildren x hx).2, .inr rfl⟩
  have hclass : (Qualifier.className "x").WellFormed :=
    .className (by simp) (List.forall_mem_singleton.2 rfl)
  have hparagraphs : ∀ x ∈ [4, 6], .node x ∈ Complex.reach a
      ([] ++ [(.descendant, ⟨some "p", []⟩)]) (.node Arena.root) := fun x hx =>
    Complex.mem_reach_of_type hwf (by decide) hbody (hchildren x hx).1 (htype x hx)
  have hkept : ∀ x ∈ [4, 6], (.node x ∈ Complex.reach a
      ([] ++ [(.descendant, ⟨some "p", [.className "x"]⟩)]) (.node Arena.root) ↔
        (Qualifier.className "x").Holds a x) := fun x hx =>
    Complex.mem_reach_iff_holds hwf (.inl rfl) hnames hbody (hchildren x hx).1 (htype x hx) hclass
      (.className "x")
  have hfound := (hkept 6 (by simp)).2 ⟨_, hsix, .head _⟩
  have hmissed : .node 4 ∉ Complex.reach a
      ([] ++ [(.descendant, ⟨some "p", [.className "x"]⟩)]) (.node Arena.root) := fun h => by
    obtain ⟨value, hvalue, -⟩ := (hkept 4 (by simp)).1 h
    cases hfour.symm.trans hvalue
  refine ⟨hfound, ?_, ?_⟩ <;> rw [peersAmong, hpeers]
  · exact List.filter_eq_self.2 fun x hx => decide_eq_true (hparagraphs x hx)
  · simp only [List.filter_cons, List.filter_nil, decide_eq_true_eq, hmissed, hfound, if_false, if_true]

/-- The second paragraph is found as the first one of its class. -/
theorem css_compound_of_paragraphs :
    ∃ ys, ((Document.parse "<p>a</p><p class=x>b</p>").css "p.x:first-of-type" root (.empty 0)).1 =
      .ok ys ∧ .node 6 ∈ ys := by
  obtain ⟨hwf, -, -⟩ := arena_parse "<p>a</p><p class=x>b</p>"
  obtain ⟨hsix, -, hleft⟩ := peersAmong_of_paragraphs
  have hsize : (Document.parse "<p>a</p><p class=x>b</p>").arena.size = 8 := by decide +kernel
  have hs : Complex.Written ([] ++ [(.descendant,
      ⟨some "p", [.className "x", .place .sameType .first]⟩)]) "p.x:first-of-type" :=
    parse_eq_ok_iff_spelled.1 rfl
  have hclass : Complex.Written ([] ++ [(.descendant, ⟨some "p", [.className "x"]⟩)]) "p.x" :=
    parse_eq_ok_iff_spelled.1 rfl
  have hplace : Complex.Written ([] ++ [(.descendant, ⟨some "p", [.place .sameType .first]⟩)])
      "p:first-of-type" := parse_eq_ok_iff_spelled.1 rfl
  have hempty := Cache.faithful_empty 0
  obtain ⟨xs, hxs, -, hmemClass⟩ :=
    hclass.exists_css_eq_ok nofun hempty (.parse "<p>a</p><p class=x>b</p>") root
  obtain ⟨zs, hzs, -, -⟩ :=
    hplace.exists_css_eq_ok nofun hempty (.parse "<p>a</p><p class=x>b</p>") root
  have htext : ∀ q ∈ [Qualifier.className "x", .place .sameType .first], Complex.Written
      ([] ++ [(.descendant, ⟨some "p", [q]⟩)]) (if q.isSimple then "p.x" else "p:first-of-type") := by
    simpa [Qualifier.isSimple] using ⟨hclass, hplace⟩
  have hparts : ∀ q ∈ [Qualifier.className "x", .place .sameType .first],
      ((Document.parse "<p>a</p><p class=x>b</p>").css
        (if q.isSimple then "p.x" else "p:first-of-type") root (.empty 0)).1 =
          .ok (if q.isSimple then xs else zs) := by
    simpa [Qualifier.isSimple] using ⟨hxs, hzs⟩
  obtain ⟨ys, hys, -, -, hplaces⟩ := css_compound (d := .parse "<p>a</p><p class=x>b</p>") hwf
    Arena.root (.inl rfl) (by simp) hs htext hempty hempty hempty hparts
  obtain ⟨xs', hxs', hmem⟩ := hplaces [.className "x"] .first [] rfl trivial
    (fun x => Nat.lt_of_le_of_lt (length_peers_le hwf x) (hsize ▸ by norm_num)) (by simp) "p.x" hclass
  obtain rfl : xs' = xs := Except.ok.inj (hxs'.symm.trans hxs)
  refine ⟨ys, hys, (hmem _).2 ⟨(hmemClass _).2 hsix, 6, rfl, ?_, by simp⟩⟩
  have hfirst := (peersAmong_congr hmemClass 6).trans hleft
  rw [hfirst]
  rfl

/-- The second paragraph is found as the first one of its class, although it is not found as the
first paragraph. -/
theorem css_first_of_type_after_class :
    let d : Document := .parse "<p>a</p><p class=x>b</p>"
    ∃ ys zs, (d.css "p.x:first-of-type" root (.empty 0)).1 = .ok ys ∧
      (d.css "p:first-of-type" root (.empty 0)).1 = .ok zs ∧ .node 6 ∈ ys ∧ .node 6 ∉ zs := by
  intro d
  obtain ⟨hwf, -, -⟩ := arena_parse "<p>a</p><p class=x>b</p>"
  obtain ⟨hsix, hparagraphs, hleft⟩ := peersAmong_of_paragraphs
  have hs : Complex.Written ([] ++ [(.descendant,
      ⟨some "p", [.className "x"] ++ .place .sameType .first :: []⟩)]) "p.x:first-of-type" :=
    parse_eq_ok_iff_spelled.1 rfl
  have ht : Complex.Written ([] ++ [(.descendant, ⟨some "p", [] ++ .place .sameType .first :: []⟩)])
      "p:first-of-type" := parse_eq_ok_iff_spelled.1 rfl
  have hempty := Cache.faithful_empty 0
  obtain ⟨ys, hys, -, hmem⟩ := hs.exists_css_eq_ok nofun hempty d root
  obtain ⟨zs, hzs, -, hmem'⟩ := ht.exists_css_eq_ok nofun hempty d root
  refine ⟨ys, zs, hys, hzs, (hmem _).2 ?_, fun h => ?_⟩
  · refine (Complex.mem_reach_opening_iff hwf (.inl rfl) _ rfl (by simp)).2 ⟨hsix, 6, rfl, ?_⟩
    rw [hleft, List.forall_mem_singleton]
    exact (Place.first.allTrue_focusAmong_iff (by simp) (by simp) trivial).2 rfl
  · obtain ⟨-, x, heq, hfirst⟩ :=
      (Complex.mem_reach_opening_iff hwf (.inl rfl) _ rfl (by simp)).1 ((hmem' _).1 h)
    obtain rfl := Location.node.inj heq
    rw [hparagraphs, List.forall_mem_singleton] at hfirst
    cases (Place.first.allTrue_focusAmong_iff (by simp) (by simp) trivial).1 hfirst

end WebCrawl.Query.Document
