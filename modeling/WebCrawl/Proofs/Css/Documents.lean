import WebCrawl.Proofs.Css.Confinement

set_option autoImplicit false

/-!
# Selectors put to a document

The path of an alternative that begins with no combinator goes from the root of a document to the
elements, and from these to what stands below them. The document element, `html`, stands below no
element, so it is not reached in that way: a selector put to a document finds what it finds from there.

## Main definitions

* `WebCrawl.Css.Group.Unled` — groups whose alternatives begin with no combinator.

## Main results

* `WebCrawl.Css.Complex.reach_root` — from the root an alternative leads to where it leads from the
  document element.
* `WebCrawl.Query.Document.css_root_finds` — what a selector finds in a document, and what of
  its matches it does not find.
* `WebCrawl.Query.Document.css_root_misses` — the selector of a type does not find the `html` element.
-/

namespace WebCrawl.Html.Arena

variable {a : Arena} {x y : Nat}

/-- Every element is at or below the document element, and so below the root. -/
lemma IsDocumentElement.reflTransGen (h : a.IsDocumentElement x) (hy : (a.elementName? y).isSome) :
    Relation.ReflTransGen a.IsParent Arena.root y ∧ Relation.ReflTransGen a.IsParent x y := by
  have hx := Relation.reflTransGen_iff_eq_or_transGen.2 (h.above y hy)
  exact ⟨.head h.below hx, hx⟩

/-- The document element is the only element right below the root. -/
lemma IsDocumentElement.only (h : a.IsDocumentElement x) (hwf : a.WellFormed)
    (hy : a.IsParent Arena.root y) (helement : (a.elementName? y).isSome) : y = x := by
  obtain rfl | hxy := h.above y helement
  · rfl
  · obtain ⟨p, hxp, hpy⟩ := Relation.TransGen.tail'_iff.1 hxy
    obtain rfl := Option.some.inj (hpy.symm.trans hy)
    have hle : x = Arena.root ∨ a.IsAncestor x Arena.root :=
      (Relation.reflTransGen_iff_eq_or_transGen.1 hxp).imp_left Eq.symm
    exact absurd hle (not_or.2 ⟨Nat.ne_of_gt (hwf.lt_of_isParent h.below),
      fun habove => Nat.not_lt_zero _ (hwf.lt_of_isAncestor habove)⟩)

/-- The elements below the root are the document element and those below it. -/
lemma IsDocumentElement.isAncestor_iff (h : a.IsDocumentElement x) (hy : (a.elementName? y).isSome) :
    a.IsAncestor Arena.root y ↔ y = x ∨ a.IsAncestor x y :=
  ⟨fun _ => h.above y hy, fun hx => .head' h.below (Relation.reflTransGen_iff_eq_or_transGen.2 hx)⟩

end WebCrawl.Html.Arena

namespace WebCrawl.Css

open Html Location XPath

variable {a : Arena} {x z : Nat}

/-- No alternative begins with a combinator: the first compound may stand anywhere below. -/
def Group.Unled (g : Group) : Prop :=
  ∀ c ∈ g, ∃ compound rest, c = (Combinator.descendant, compound) :: rest

/-- The selector of a type is plain and begins with no combinator. -/
lemma Group.plain_of_type (t : Text) :
    Group.Plain [[(.descendant, ⟨some t, []⟩)]] ∧ Group.Unled [[(.descendant, ⟨some t, []⟩)]] :=
  ⟨by simp [Group.Plain, Complex.Plain], List.forall_mem_singleton.2 ⟨_, _, rfl⟩⟩

/-- A chain from the root is one from the document element, or its first compound holds of the
document element and the rest leads on from there. -/
lemma Complex.leads_root_iff (hx : a.IsDocumentElement x) (compound : Compound) (c : Complex) :
    Complex.Leads a ((.descendant, compound) :: c) Arena.root z ↔
      Complex.Leads a ((.descendant, compound) :: c) x z ∨
        (compound.Holds a x ∧ Complex.Leads a c x z) := by
  simp only [Leads, Combinator.Relates]
  constructor
  · rintro ⟨w, hw, hholds, hleads⟩
    obtain rfl | hxw := (hx.isAncestor_iff hholds.1).1 hw
    · exact .inr ⟨hholds, hleads⟩
    · exact .inl ⟨w, hxw, hholds, hleads⟩
  · rintro (⟨w, hxw, hholds, hleads⟩ | ⟨hholds, hleads⟩)
    · exact ⟨w, (hx.isAncestor_iff hholds.1).2 (.inr hxw), hholds, hleads⟩
    · exact ⟨x, (hx.isAncestor_iff hholds.1).2 (.inl rfl), hholds, hleads⟩

section Document

variable (hwf : a.WellFormed) (hx : a.IsDocumentElement x)
include hwf hx

/-- The first step of a path goes to the same elements from the root and from the document element. -/
lemma walk_root_eq :
    walk a [.mk .descendantOrSelf .anyName []] [.node Arena.root] =
      walk a [.mk .descendantOrSelf .anyName []] [.node x] := by
  have hsize : x < a.size := Arena.lt_size_of_isElement hx.element
  have hroot : Arena.root < a.size := Nat.lt_of_le_of_lt (Nat.zero_le x) hsize
  have harranged : ∀ y, Arranged (walk a [.mk .descendantOrSelf .anyName []] [.node y]) :=
    fun y => walk_arranged _ (List.pairwise_singleton ..)
  have hbelow : ∀ {y}, y < a.size → ∀ w, w ∈ Axis.descendantOrSelf.ofNode a y ↔
      Relation.ReflTransGen a.IsParent y w := fun hy _ => hwf.mem_range_lastDescendant_iff hy
  refine (harranged _).eq_of_mem_iff (harranged _) fun y => ?_
  rw [mem_walk_step_iff (by decide), mem_walk_step_iff (by decide)]
  simp only [keepAll, List.mem_map, List.mem_filter, hbelow hsize, hbelow hroot]
  constructor
  · rintro ⟨w, ⟨-, hw⟩, rfl⟩
    exact ⟨w, ⟨(hx.reflTransGen hw).2, hw⟩, rfl⟩
  · rintro ⟨w, ⟨-, hw⟩, rfl⟩
    exact ⟨w, ⟨(hx.reflTransGen hw).1, hw⟩, rfl⟩

/-- From the root an alternative that begins with no combinator leads to where it leads from the
document element. -/
theorem Complex.reach_root (compound : Compound) (c : Complex) :
    Complex.reach a ((.descendant, compound) :: c) (.node Arena.root) =
      Complex.reach a ((.descendant, compound) :: c) (.node x) := by
  have hsteps : ∃ later, Complex.steps ((.descendant, compound) :: c) =
      [.mk .descendantOrSelf .anyName []] ++ later := ⟨_, rfl⟩
  obtain ⟨later, hsteps⟩ := hsteps
  rw [reach, reach, hsteps, walk_append, walk_append, walk_root_eq hwf hx]

end Document

end WebCrawl.Css

namespace WebCrawl.Query.Document

open Html Location Css

section Root

variable {d : Document} {x : Nat} (hwf : d.arena.WellFormed) (hx : d.arena.IsDocumentElement x)
  {s : Text} {g : Group} (hparse : Css.parse s = .ok g) (hunled : Group.Unled g) {cache : Cache}
  (hc : cache.Faithful)
include hwf hx hparse hunled hc

/-- A selector whose alternatives begin with no combinator finds from the root what it finds from the
document element. -/
lemma exists_css_root_eq_ok (hnamed : Named (Group.attributeNames g)) :
    ∃ ys, (d.css s root cache).1 = .ok ys ∧ (d.css s (.node x) cache).1 = .ok ys ∧ Arranged ys ∧
      ∀ y, y ∈ ys ↔ ∃ c ∈ g, y ∈ Complex.reach d.arena c (.node x) := by
  obtain ⟨ys, hys, harranged, hmem⟩ := exists_css_eq_ok hc hparse hnamed d root
  obtain ⟨zs, hzs, harranged', hmem'⟩ := exists_css_eq_ok hc hparse hnamed d (.node x)
  have hreach : ∀ y, y ∈ ys ↔ ∃ c ∈ g, y ∈ Complex.reach d.arena c (.node x) := by
    refine fun y => (hmem y).trans (exists_congr fun c => and_congr_right fun hcg => ?_)
    obtain ⟨compound, rest, rfl⟩ := hunled c hcg
    rw [root, Complex.reach_root hwf hx]
  obtain rfl : zs = ys := harranged'.eq_of_mem_iff harranged fun y => by rw [hmem', hreach]
  exact ⟨zs, hys, hzs, harranged, hreach⟩

/-- If the selector is plain, these are the elements to which one of its alternatives leads from the
document element. -/
lemma mem_css_root_iff (hnested : d.arena.ElementsNested) (hnames : d.arena.DistinctNames)
    (hplain : Group.Plain g)
    {ys : List Location} (hys : (d.css s root cache).1 = .ok ys) (y : Location) :
    y ∈ ys ↔ ∃ z, y = .node z ∧ ∃ c ∈ g, Complex.Leads d.arena c x z := by
  obtain ⟨zs, hzs, -, -, hmem⟩ :=
    exists_css_root_eq_ok hwf hx hparse hunled hc hplain.named
  obtain rfl := Except.ok.inj (hys.symm.trans hzs)
  have hread := (wellFormed_of_parse hparse).2
  have hreach : ∀ c ∈ g, (y ∈ Complex.reach d.arena c (.node x) ↔
      ∃ z, y = .node z ∧ Complex.Leads d.arena c x z) := fun c hcg =>
    Complex.mem_reach_iff hwf hnested hnames (hplain c hcg) (hread c hcg).2 hx.element
  rw [hmem]
  constructor
  · rintro ⟨c, hcg, hy⟩
    obtain ⟨z, rfl, hleads⟩ := (hreach c hcg).1 hy
    exact ⟨z, rfl, c, hcg, hleads⟩
  · rintro ⟨z, rfl, c, hcg, hleads⟩
    exact ⟨c, hcg, (hreach c hcg).2 ⟨z, rfl, hleads⟩⟩

end Root

/-- A selector whose alternatives begin with no combinator, put to a document, finds in document order
and each once what it finds from the document element: elements below that, and so never the document
element itself. If it is plain and the elements of the document stand below elements, it finds those to
which one of its alternatives leads from the document element. Of all elements to which one leads from
the root, those are not found to which the chain leads only with the document element as its first.

**Proof sketch.** The first step of a path goes to elements, and the root is none. So it goes to the
same elements from the root and from the document element, which is above all others, and what is found
are children of those. -/
theorem css_root_finds {d : Document} (hwf : d.arena.WellFormed) {x : Nat}
    (hx : d.arena.IsDocumentElement x) {s : Text} {g : Group} (hparse : Css.parse s = .ok g)
    (hnamed : Named (Group.attributeNames g)) (hunled : Group.Unled g) {cache : Cache}
    (hc : cache.Faithful) :
    ∃ ys, (d.css s root cache).1 = .ok ys ∧ (d.css s (.node x) cache).1 = .ok ys ∧
      ys.Pairwise (fun y z => y.before z = true) ∧
      (∀ y ∈ ys, ∃ z, y = .node z ∧ (d.arena.elementName? z).isSome ∧ d.arena.IsAncestor x z) ∧
      (d.arena.ElementsNested → d.arena.DistinctNames → Group.Plain g →
        (∀ y, y ∈ ys ↔ ∃ z, y = .node z ∧ ∃ c ∈ g, Complex.Leads d.arena c x z) ∧
        ∀ z, (∃ c ∈ g, Complex.Leads d.arena c Arena.root z) ↔
          .node z ∈ ys ∨ ∃ compound c, (Combinator.descendant, compound) :: c ∈ g ∧
            compound.Holds d.arena x ∧ Complex.Leads d.arena c x z) := by
  obtain ⟨ys, hys, hfrom, harranged, hmem⟩ := exists_css_root_eq_ok hwf hx hparse hunled hc hnamed
  refine ⟨ys, hys, hfrom, harranged, fun y hy => ?_, fun hnested hnames hplain => ?_⟩
  · obtain ⟨c, hcg, hreach⟩ := (hmem y).1 hy
    obtain ⟨compound, rest, rfl⟩ := hunled c hcg
    have hne : (Combinator.descendant, compound) :: rest ≠ [] := List.cons_ne_nil _ _
    have hinward : ∀ part ∈ ((Combinator.descendant, compound) :: rest).head?,
        part.1 = .descendant ∨ part.1 = .child := by
      rintro part ⟨⟩
      exact .inl rfl
    obtain ⟨n, z, hn, rfl, hbelow⟩ := Complex.isAncestor_of_mem_reach_inward hwf hne hinward hreach
    obtain rfl := Location.node.inj hn
    obtain ⟨z', heq, hz⟩ := Complex.isElement_of_mem_reach hne hreach
    obtain rfl := Location.node.inj heq
    exact ⟨z, rfl, hz, hbelow⟩
  · have hfound := mem_css_root_iff hwf hx hparse hunled hc hnested hnames hplain hys
    refine ⟨hfound, fun z => ?_⟩
    have hnode : .node z ∈ ys ↔ ∃ c ∈ g, Complex.Leads d.arena c x z := by
      rw [hfound]
      simp
    rw [hnode]
    constructor
    · rintro ⟨c, hcg, hleads⟩
      obtain ⟨compound, rest, rfl⟩ := hunled c hcg
      obtain hleads | hleads := (Complex.leads_root_iff hx compound rest).1 hleads
      · exact .inl ⟨_, hcg, hleads⟩
      · exact .inr ⟨compound, rest, hcg, hleads⟩
    · rintro (⟨c, hcg, hleads⟩ | ⟨compound, rest, hcg, hleads⟩)
      · obtain ⟨compound, rest, rfl⟩ := hunled c hcg
        exact ⟨_, hcg, (Complex.leads_root_iff hx compound rest).2 (.inl hleads)⟩
      · exact ⟨_, hcg, (Complex.leads_root_iff hx compound rest).2 (.inr hleads)⟩

/-- The one paragraph of a document is found. -/
theorem css_root_finds_of_paragraph :
    let d : Document := .parse "<p>x</p>"
    ∃ ys, (d.css "p" root (.empty 0)).1 = .ok ys ∧ .node 4 ∈ ys := by
  intro d
  have hparse : Css.parse "p" = .ok [[(.descendant, ⟨some "p", []⟩)]] := rfl
  obtain ⟨hplain, hunled⟩ := Group.plain_of_type "p"
  obtain ⟨hwf, hnested, hnames⟩ := arena_parse "<p>x</p>"
  obtain ⟨x, hx, -⟩ := Arena.exists_documentElement "<p>x</p>"
  obtain ⟨ys, hys, -, -, -, hmatches⟩ :=
    css_root_finds (d := d) hwf hx hparse hplain.named hunled (Cache.faithful_empty 0)
  obtain ⟨hmem, -⟩ := hmatches hnested hnames hplain
  have hchain : d.arena.parent 1 = some 0 ∧ d.arena.parent 3 = some 1 ∧ d.arena.parent 4 = some 3 ∧
      (d.arena.elementName? 1).isSome ∧ d.arena.elementName? 4 = some "p".toList := by
    decide +kernel
  obtain ⟨hhtml, hbody, hp, helement, hname⟩ := hchain
  obtain rfl : 1 = x := hx.only hwf hhtml helement
  have hholds : Compound.Holds d.arena 4 ⟨some "p", []⟩ :=
    ⟨by rw [hname]; rfl, by rintro t ⟨rfl⟩; exact ⟨"p", hname, .inr rfl⟩, trivial⟩
  exact ⟨ys, hys, (hmem _).2 ⟨4, rfl, _, List.mem_singleton_self _, 4, .tail (.single hbody) hp,
    hholds, rfl⟩⟩

/-- The `html` element of a document is of that type, but the selector of the type finds nothing. -/
theorem css_root_misses :
    let d : Document := .parse "<p>x</p>"
    Css.parse "html" = .ok [[(.descendant, ⟨some "html", []⟩)]] ∧
      Complex.Leads d.arena [(.descendant, ⟨some "html", []⟩)] Arena.root 1 ∧
      (d.css "html" root (.empty 0)).1 = .ok [] := by
  intro d
  have hparse : Css.parse "html" = .ok [[(.descendant, ⟨some "html", []⟩)]] := rfl
  obtain ⟨hplain, hunled⟩ := Group.plain_of_type "html"
  have hhtml : d.arena.parent 1 = some 0 ∧ d.arena.elementName? 1 = some "html".toList := by
    decide +kernel
  have hothers : d.arena.size = 6 ∧ ∀ z < 6, 1 < z →
      (d.arena.elementName? z).any (Text.sameLetters · "html") = false := by decide +kernel
  obtain ⟨hwf, hnested, hnames⟩ := arena_parse "<p>x</p>"
  have helement : (d.arena.elementName? 1).isSome := by rw [hhtml.2]; rfl
  obtain ⟨x, hx, -⟩ := Arena.exists_documentElement "<p>x</p>"
  obtain rfl : 1 = x := hx.only hwf hhtml.1 helement
  have hholds : Compound.Holds d.arena 1 ⟨some "html", []⟩ :=
    ⟨helement, by rintro t ⟨rfl⟩; exact ⟨"html", hhtml.2, .inr rfl⟩, trivial⟩
  refine ⟨hparse, ⟨1, .single hhtml.1, hholds, rfl⟩, ?_⟩
  obtain ⟨ys, hys, -⟩ :=
    exists_css_root_eq_ok (d := d) hwf hx hparse hunled (Cache.faithful_empty 0) hplain.named
  have hmem := mem_css_root_iff (d := d) hwf hx hparse hunled (Cache.faithful_empty 0) hnested hnames
    hplain hys
  have hnone : ys = [] := by
    refine List.eq_nil_iff_forall_not_mem.2 fun y hy => ?_
    obtain ⟨_, -, c, hc, hleads⟩ := (hmem y).1 hy
    obtain rfl := List.mem_singleton.1 hc
    obtain ⟨z, hz, ⟨-, htype, -⟩, -⟩ := hleads
    obtain ⟨name, hname, hstar | hsame⟩ := htype _ rfl
    · cases hstar
    · have hlt : z < 6 := hothers.1 ▸ Arena.WellFormed.lt_size_of_isAncestor hz
      have hno := hothers.2 z hlt (hwf.lt_of_isAncestor hz)
      rw [hname] at hno
      exact absurd hsame (by simpa using hno)
  rw [hys, hnone]

end WebCrawl.Query.Document
