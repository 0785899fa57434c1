import WebCrawl.Proofs.Css.Indices

set_option autoImplicit false

/-!
# Selectors of one quality

A selector that is a single qualifier finds, after any combinator and from any location, what a star
finds there, but for the elements that the qualifier does not hold of. So such a selector is known
by the elements that it picks.

## Main definitions

* `WebCrawl.Css.Combinator.sign` — how a combinator is written.
* `WebCrawl.Css.bracketText` — how a test of an attribute is written.
* `WebCrawl.Css.Askable` — the name of an attribute that selectors can ask for.
* `WebCrawl.Query.Document.Picks` — a selector picks elements by a quality of theirs.

## Main results

* `WebCrawl.Css.Complex.mem_reach_qualifier_iff` — what a single qualifier finds.
* `WebCrawl.Css.askable_iff` — which names can be asked for.
* `WebCrawl.Query.Document.picks_of_decides`, `WebCrawl.Query.Document.picks_bracketText` — how a
  selector picks elements.
-/

namespace WebCrawl.Css

open Html Location XPath Text Computability

/-! ## Lexemes that end where others begin -/

section Lexemes

variable {p first later : Char → Bool} {c : Char} {x t : Text}

lemma Lexeme.run_eq_length (hx : ∀ d ∈ x, p d = true) (ht : ∀ d ∈ t.head?, p d = false) :
    Lexeme.run p (x ++ t) = x.length := by
  have hstop : Lexeme.run p t = 0 := by
    cases t with
    | nil => rfl
    | cons d t =>
      rw [Lexeme.run, List.takeWhile_cons_of_neg (by simp [ht d rfl])]
      rfl
  rw [Lexeme.run_append hx, hstop, Nat.add_zero]

lemma takes_several (hx : x ∈ several p) (ht : ∀ d ∈ t.head?, p d = false) :
    Takes (several p) x (x ++ t) t :=
  (Lexeme.recognizes_run p).takes_append hx (Lexeme.run_eq_length (mem_several.1 hx).2 ht)

lemma takes_marked (hx : x ∈ several p) (ht : ∀ d ∈ t.head?, p d = false) :
    Takes (mark c * several p) (c :: x) (c :: x ++ t) t := by
  refine (Lexeme.recognizes_marked c p).takes_append (mem_mark_mul.2 ⟨x, rfl, hx⟩) ?_
  obtain ⟨hne, hall⟩ := mem_several.1 hx
  have hrun := Lexeme.run_eq_length hall ht
  have hpos : x.length ≠ 0 := fun hzero => hne (List.length_eq_zero_iff.1 hzero)
  rw [List.cons_append, Lexeme.marked, hrun, if_pos ⟨rfl, hpos⟩, List.length_cons]

lemma takes_headed (hx : x ∈ one first * (one later)∗) (ht : ∀ d ∈ t.head?, later d = false) :
    Takes (one first * (one later)∗) x (x ++ t) t := by
  refine (Lexeme.recognizes_headed first later).takes_append hx ?_
  obtain ⟨d, y, rfl, hd, hy⟩ := mem_one_mul.1 hx
  rw [List.cons_append, Lexeme.headed, if_pos hd, Lexeme.run_eq_length (mem_star.1 hy) ht,
    List.length_cons]

lemma takes_mark (c : Char) (t : Text) : Takes (mark c) [c] (c :: t) t :=
  (Lexeme.recognizes_head c).takes_append (mem_mark.2 rfl) (if_pos rfl)

/-- No white space is passed over where there is none. -/
lemma gap_of_head (h : ∀ d ∈ t.head?, isBlank d = false) : Gap t t := by
  refine gap_iff.2 ?_
  cases t with
  | nil => rfl
  | cons d t => exact List.dropWhile_cons_of_neg (by simp [h d rfl])

end Lexemes

/-! ## Compounds after a combinator -/

/-- How a combinator is written. A descendant has no sign. -/
def Combinator.sign : Combinator → Text
  | .descendant => []
  | .child => ['>']
  | .adjacent => ['+']
  | .sibling => ['~']

/-- A compound may stand alone after the sign of a combinator. -/
lemma Complex.written_of_spells {c : Compound} {s : Text} (k : Combinator)
    (h : Spells Compound.HasPart (.compound c) s []) (hflush : Flush s) (htight : Tight s) :
    Complex.Written [(k, c)] (k.sign ++ s) := by
  have hne : s ≠ [] := by
    rintro rfl
    obtain ⟨d, hd, -⟩ := h.begins
    cases hd
  have hjoins : ∀ {d : Char}, isBlank d = false → Sign d (d :: s) s := fun {d} hd =>
    (sign_iff hd).2 (List.dropWhile_cons_of_neg (by simp [hd]))
  have htrim : trim (k.sign ++ s) = k.sign ++ s := by
    have htight' : Tight (k.sign ++ s) := fun d hd => by
      rw [List.getLast?_append_of_ne_nil _ hne] at hd
      exact htight d hd
    have hflush' : Flush (k.sign ++ s) := by
      cases k with
      | descendant => exact hflush
      | _ =>
        rintro d ⟨⟩
        rfl
    simpa using trim_eq (x := []) (y := []) htight' hflush' (by simp [hne]) nofun nofun
  have hhead : Alternative Compound.HasPart [(k, c)] (k.sign ++ s) [] := by
    cases k with
    | descendant => exact .plain h .nil
    | child => exact .joined (.child (hjoins rfl)) h .nil
    | adjacent => exact .joined (.adjacent (hjoins rfl)) h .nil
    | sibling => exact .joined (.sibling (hjoins rfl)) h .nil
  rw [Complex.Written, htrim]
  exact .mk hhead .nil

lemma Complex.written_star (k : Combinator) :
    Complex.Written [(k, ⟨some ['*'], []⟩)] (k.sign ++ ['*']) := by
  have hstar : Takes Pattern.element ['*'] ['*'] [] :=
    Lexeme.recognizes_element.takes_append (.inl (mem_mark.2 rfl)) rfl
  have hspells : Spells Compound.HasPart (.compound ⟨some (lower ['*']), []⟩) ['*'] [] :=
    .typed (gap_of_head (by simp [isBlank])) hstar .nil (.inl (by simp))
  exact Complex.written_of_spells k hspells (by rintro d ⟨⟩; rfl) (by rintro d ⟨⟩; rfl)

lemma Complex.written_qualifier {q : Qualifier} {s : Text} (k : Combinator)
    (h : Spells Compound.HasPart (.qualifier q) s []) (htight : Tight s) :
    Complex.Written [(k, ⟨none, [q]⟩)] (k.sign ++ s) := by
  obtain ⟨c, hc, hstarts⟩ := h.head_qualifier
  have hblank : isBlank c = false :=
    (startsCompound_spec (by simp [startsCompound, hstarts])).1
  have hflush : Flush s := fun d hd => by
    obtain rfl := Option.some.inj (hc.symm.trans hd)
    exact hblank
  exact Complex.written_of_spells k (.untyped (gap_of_head hflush) (.cons h .nil) (.inr (by simp)))
    hflush htight

/-! ## What a single qualifier finds -/

variable {a : Arena}

/-- A predicate that asks for one more quality, which does not depend on positions, keeps those that
have it. -/
lemma mem_keep_iff_of_and {predicate predicate' : Focus → Value} {xs : List Location}
    {P : Location → Prop} (h : ∀ x ∈ xs, ∀ i n, keeps i (predicate' ⟨x, i, n⟩) = true ↔
      keeps i (predicate ⟨x, i, n⟩) = true ∧ P x) {y : Location} :
    y ∈ keep predicate' xs ↔ y ∈ keep predicate xs ∧ P y := by
  simp only [keep, List.mem_map, List.mem_filter, Prod.exists, exists_and_right, exists_eq_right]
  rw [← exists_and_right]
  refine exists_congr fun i => ?_
  rw [and_assoc]
  exact and_congr_right fun hi => h y (List.fst_mem_of_mem_zipIdx hi) i _

/-- The last step to a compound leads to elements, before its predicates. -/
lemma Combinator.exists_element {k : Combinator} {y z : Location}
    (hy : y ∈ (k.lastAxis.locations a z).filter (NodeTest.anyName.passes a)) :
    ∃ x, y = .node x ∧ (a.elementName? x).isSome := by
  obtain ⟨hy, hpasses⟩ := List.mem_filter.1 hy
  have hnode : ∃ x, y = .node x := by
    cases z with
    | node id =>
      have hlocations : k.lastAxis.locations a (.node id) = (k.lastAxis.ofNode a id).map .node := by
        cases k <;> rfl
      rw [hlocations] at hy
      obtain ⟨x, -, rfl⟩ := List.mem_map.1 hy
      exact ⟨x, rfl⟩
    | attr owner index =>
      have hnone : k.lastAxis.locations a (.attr owner index) = [] := by cases k <;> rfl
      rw [hnone] at hy
      cases hy
  obtain ⟨x, rfl⟩ := hnode
  exact ⟨x, rfl, hpasses⟩

/-- A compound that is a single qualifier finds, after any combinator and from any location, what a
star finds there and the qualifier holds of. -/
theorem Complex.mem_reach_qualifier_iff {q : Qualifier} (hrelative : q.isTypeRelative = false)
    {p : Nat → Prop} (h : Decides a q.conjuncts p) (k : Combinator) (start : Location) {y : Location} :
    y ∈ Complex.reach a [(k, ⟨none, [q]⟩)] start ↔
      y ∈ Complex.reach a [(k, ⟨some ['*'], []⟩)] start ∧ ∃ x, y = .node x ∧ p x := by
  have hqualifier : Compound.predicates k ⟨none, [q]⟩ = [conjunction (k.conjuncts ++ q.conjuncts)] := by
    rw [Compound.predicates_eq (.inr (by simp)) (by simpa using hrelative)]
    simp [typeConjuncts, conjunctsOf]
  have htype : Compound.predicates k ⟨some ['*'], []⟩ =
      [conjunction (k.conjuncts ++ typeConjuncts (some ['*']))] := by
    rw [Compound.predicates_eq (.inl (by simp)) (by simp)]
    simp [conjunctsOf]
  have hne : k.conjuncts ++ q.conjuncts ≠ [] :=
    List.append_ne_nil_of_right_ne_nil _ q.conjuncts_ne_nil
  have hne' : k.conjuncts ++ typeConjuncts (some ['*']) ≠ [] := by simp [typeConjuncts]
  have hnumber : ∀ e ∈ k.conjuncts ++ q.conjuncts, ∀ f z, e.value a f ≠ .number z := fun e he => by
    have hmem : e ∈ k.conjuncts ++ (typeConjuncts none ++ conjunctsOf [q]) := by
      simpa [typeConjuncts, conjunctsOf] using he
    exact Compound.ne_number hmem
  have hnumber' : ∀ e ∈ k.conjuncts ++ typeConjuncts (some ['*']), ∀ f z,
      e.value a f ≠ .number z := fun e he => by
    have hmem : e ∈ k.conjuncts ++ (typeConjuncts (some ['*']) ++ conjunctsOf []) := by
      simpa [conjunctsOf] using he
    exact Compound.ne_number hmem
  have hstep : ∀ z, y ∈ walk a [.mk k.lastAxis .anyName (Compound.predicates k ⟨none, [q]⟩)] [z] ↔
      y ∈ walk a [.mk k.lastAxis .anyName (Compound.predicates k ⟨some ['*'], []⟩)] [z] ∧
        ∃ x, y = .node x ∧ p x := by
    intro z
    simp only [walk, mem_arrange, List.flatMap_singleton, Step.reach, hqualifier, htype, keepAll]
    refine mem_keep_iff_of_and (P := fun y => ∃ x, y = .node x ∧ p x) fun w hw i n => ?_
    obtain ⟨x, rfl, hx⟩ := Combinator.exists_element hw
    have hstar : AllTrue a ⟨.node x, i, n⟩ (typeConjuncts (some ['*'])) := by
      obtain ⟨name, hname⟩ := Option.isSome_iff_exists.1 hx
      refine (decides_type (some ['*']) rfl hx).2.2 fun t ht => ?_
      obtain rfl := Option.some.inj ht
      exact ⟨name, hname, .inl rfl⟩
    have hp : AllTrue a ⟨.node x, i, n⟩ q.conjuncts ↔ p x := (h rfl hx).2
    simp [keeps_conjunction_iff hnumber hne, keeps_conjunction_iff hnumber' hne', hstar, hp]
  simp only [Complex.reach, Complex.steps_singleton, mem_walk_append_iff, hstep]
  constructor
  · rintro ⟨z, hz, hy, hp⟩
    exact ⟨⟨z, hz, hy⟩, hp⟩
  · rintro ⟨⟨z, hz, hy⟩, hp⟩
    exact ⟨z, hz, hy, hp⟩

/-- A star after the sign of a child finds the elements among the children. -/
lemma Complex.mem_reach_star_child_iff {n : Nat} {y : Location} :
    y ∈ Complex.reach a [(.child, ⟨some ['*'], []⟩)] (.node n) ↔
      ∃ x, y = .node x ∧ x ∈ a.children n ∧ (a.elementName? x).isSome := by
  have haxis : Axis.child ≠ .attributes := by decide
  refine ((decides_type (a := a) (some ['*'])).mem_walk_step_iff haxis).trans ?_
  refine exists_congr fun x => and_congr_right fun _ => and_congr_right fun _ =>
    and_iff_left_of_imp fun hx t ht => ?_
  obtain ⟨name, hname⟩ := Option.isSome_iff_exists.1 hx
  obtain rfl := Option.some.inj ht
  exact ⟨name, hname, .inl rfl⟩

/-! ## Attributes in brackets -/

/-- A test of an attribute as it is written: the operator and the value stand after the name. -/
def bracketText (name operator lexeme : Text) : Text :=
  '[' :: (name ++ (operator ++ (lexeme ++ [']'])))

/-- The name of an attribute that can be asked for: alone in brackets it is a selector that compiles. -/
structure Askable (name : Text) : Prop where
  /-- It is written as the names of attributes are. -/
  pattern : name ∈ Pattern.attributeName
  /-- Its selector compiles. -/
  compiles : ∃ scope q, Query.compile (.css ('[' :: (name ++ [']'])) scope) = .ok q

/-- Attributes are looked for in letters of either case. -/
lemma sameLetters_lower (key name : Text) : sameLetters key (lower name) = sameLetters key name := by
  rw [sameLetters, sameLetters, lower_lower]

lemma attribute?_lower (a : Arena) (x : Nat) (name : Text) :
    a.attribute? x (lower name) = a.attribute? x name := by
  simp only [Arena.attribute?, sameLetters_lower]

lemma attributeValues_lower (a : Arena) (x : Nat) (name : Text) :
    a.attributeValues x (lower name) = a.attributeValues x name := by
  simp only [Arena.attributeValues, sameLetters_lower]

section Brackets

variable {name operator lexeme value : Text} {test : Text → AttributeTest}

/-- The characters of the names of attributes stand neither in operators nor in brackets. -/
lemma takes_attributeName (hname : name ∈ Pattern.attributeName) {t : Text} {d : Char}
    (ht : t.head? = some d) (hd : Lexeme.isAttributeChar d = false) :
    Takes Pattern.attributeName name (name ++ t) t := by
  refine takes_headed hname fun c hc => ?_
  obtain rfl := Option.some.inj (ht.symm.trans hc)
  exact hd

/-- No name of an attribute begins with white space. -/
lemma head_attributeName (hname : name ∈ Pattern.attributeName) (t : Text) :
    ∀ d ∈ (name ++ t).head?, isBlank d = false := by
  obtain ⟨c, y, rfl, hc, -⟩ := mem_one_mul.1 hname
  rintro d ⟨⟩
  simp only [Bool.or_eq_true, beq_iff_eq] at hc
  rcases hc with ((rfl | rfl) | rfl) | hc
  · rfl
  · rfl
  · rfl
  · exact isBlank_of_isAlpha hc

/-- An operator is told from what stands on either side of it. -/
lemma spec_of_mem_operators (h : (operator, test) ∈ operators) (t : Text) :
    Takes Pattern.operator operator (operator ++ t) t ∧
      ∃ d, (operator ++ t).head? = some d ∧ Lexeme.isAttributeChar d = false ∧ isBlank d = false := by
  obtain ⟨hpattern, -⟩ := mem_operators_iff.1 h
  simp only [operators, List.mem_cons, List.not_mem_nil, or_false, Prod.mk.injEq] at h
  refine ⟨Lexeme.recognizes_operator.takes_append hpattern ?_, ?_⟩
  · rcases h with ⟨rfl, -⟩ | ⟨rfl, -⟩ | ⟨rfl, -⟩ | ⟨rfl, -⟩ | ⟨rfl, -⟩ | ⟨rfl, -⟩ <;> rfl
  · rcases h with ⟨rfl, -⟩ | ⟨rfl, -⟩ | ⟨rfl, -⟩ | ⟨rfl, -⟩ | ⟨rfl, -⟩ | ⟨rfl, -⟩ <;>
      exact ⟨_, rfl, rfl, rfl⟩

/-- What is written spells the test of the attribute. -/
lemma spells_bracketText (hname : name ∈ Pattern.attributeName) (hop : (operator, test) ∈ operators)
    (hhead : ∀ d ∈ (lexeme ++ [']']).head?, isBlank d = false)
    (hvalue : Valued value (lexeme ++ [']']) [']']) :
    Spells Compound.HasPart (.qualifier (.attr (lower name) (test value)))
      (bracketText name operator lexeme) [] := by
  obtain ⟨htakes, d, hd, hattribute, hblank⟩ := spec_of_mem_operators hop (lexeme ++ [']'])
  have hgap : Gap (operator ++ (lexeme ++ [']'])) (operator ++ (lexeme ++ [']'])) :=
    gap_of_head fun c hc => by
      obtain rfl := Option.some.inj (hd.symm.trans hc)
      exact hblank
  exact .attr (.compared (takes_mark '[' _) (gap_of_head (head_attributeName hname _))
    (takes_attributeName hname hd hattribute) hgap htakes hop (gap_of_head hhead) hvalue
    (gap_of_head (by rintro c ⟨⟩; rfl)) (takes_mark ']' []))

/-- A text that ends with a bracket does not end in a blank. -/
lemma tight_append_closeBracket (s : Text) : Tight (s ++ [']']) := by
  intro c hc
  rw [List.getLast?_append] at hc
  obtain rfl := Option.some.inj hc
  rfl

lemma tight_bracketText (name operator lexeme : Text) : Tight (bracketText name operator lexeme) := by
  have hsplit : bracketText name operator lexeme = '[' :: (name ++ operator ++ lexeme) ++ [']'] := by
    simp [bracketText]
  rw [hsplit]
  exact tight_append_closeBracket _

/-- A name can be asked for if it is a name in expressions. -/
lemma askable_iff :
    Askable name ↔ name ∈ Pattern.attributeName ∧ XPath.isName (lower name) = true := by
  have hwritten : name ∈ Pattern.attributeName → Complex.Written
      [(.descendant, ⟨none, [.attr (lower name) .present]⟩)] ('[' :: (name ++ [']'])) := fun hname => by
    have hspells : Spells Compound.HasPart (.qualifier (.attr (lower name) .present))
        ('[' :: (name ++ [']'])) [] :=
      .attr (.present (takes_mark '[' _) (gap_of_head (head_attributeName hname _))
        (takes_attributeName hname (d := ']') rfl rfl) (gap_of_head (by rintro c ⟨⟩; rfl))
        (takes_mark ']' []))
    exact Complex.written_qualifier .descendant hspells (tight_append_closeBracket ('[' :: name))
  constructor
  · rintro ⟨hname, hcompiles⟩
    have hnamed := Query.Document.named_of_compile (hwritten hname).parse_eq hcompiles
    exact ⟨hname, hnamed _ (List.mem_singleton_self _)⟩
  · rintro ⟨hname, hisName⟩
    exact ⟨hname, .document, _, (compile_eq_ok_iff (hwritten hname).parse_eq).2
      ⟨List.forall_mem_singleton.2 hisName, rfl⟩⟩

/-- A name that is taken as a whole can be asked for. -/
lemma askable_of_lexeme (hne : name ≠ []) (h : Lexeme.attributeName name = name.length)
    (hname : XPath.isName (lower name) = true) : Askable name := by
  have hpos : Lexeme.attributeName name ≠ 0 := fun hzero =>
    hne (List.length_eq_zero_iff.1 (h.symm.trans hzero))
  have hmem := Lexeme.recognizes_attributeName.mem name hpos
  rw [h, List.take_length] at hmem
  exact askable_iff.2 ⟨hmem, hname⟩

end Brackets

end WebCrawl.Css

namespace WebCrawl.Query.Document

open Html Location Css

/-! ## Picking elements -/

variable {d : Document} {s : Text} {p : Nat → Prop}

/-- In the document the text picks the elements with a quality, whatever it is put to: after each
combinator it is a selector that finds, of the elements that a star finds there, those that have the
quality. -/
structure Picks (d : Document) (s : Text) (p : Nat → Prop) : Prop where
  /-- The selector is accepted. -/
  accepted : ∀ scope, ∃ q, compile (.css s scope) = .ok q
  /-- From any location and after any combinator it keeps, of what the star finds, what has the
  quality. -/
  among : ∀ (k : Combinator) (start : Location) {cache₁ cache₂ : Cache}, cache₁.Faithful →
    cache₂.Faithful → ∃ xs ys, (d.css (k.sign ++ ['*']) start cache₁).1 = .ok xs ∧
      (d.css (k.sign ++ s) start cache₂).1 = .ok ys ∧
      ys.Pairwise (fun y z => y.before z = true) ∧
      ∀ y, y ∈ ys ↔ y ∈ xs ∧ ∃ x, y = .node x ∧ p x
  /-- Every element is found or not as a child of its parent. -/
  child : ∀ {n x : Nat}, x ∈ d.arena.children n → (d.arena.elementName? x).isSome →
    ∀ {cache : Cache}, cache.Faithful →
      ∃ ys, (d.css ('>' :: s) (.node n) cache).1 = .ok ys ∧ (.node x ∈ ys ↔ p x)

/-- A qualifier picks the elements that have the quality that its conjuncts decide. -/
theorem picks_of_decides {q : Qualifier} (hrelative : q.isTypeRelative = false)
    (hspells : Spells Compound.HasPart (.qualifier q) s []) (htight : Tight s)
    (hnames : Named q.attributeNames) (h : Decides d.arena q.conjuncts p) : d.Picks s p := by
  have hwritten : ∀ k : Combinator, Complex.Written [(k, ⟨none, [q]⟩)] (k.sign ++ s) := fun k =>
    Complex.written_qualifier k hspells htight
  have hnamed : ∀ k : Combinator, Named (Complex.attributeNames ([] ++ [(k, ⟨none, [q]⟩)])) :=
    fun k => Complex.named_concat_iff.2 ⟨List.forall_mem_nil _, List.forall_mem_singleton.2 hnames⟩
  have hfound : ∀ (k : Combinator) (start : Location) {cache : Cache}, cache.Faithful →
      ∃ ys, (d.css (k.sign ++ s) start cache).1 = .ok ys ∧ Arranged ys ∧
        ∀ y, y ∈ ys ↔ y ∈ Complex.reach d.arena [(k, ⟨some ['*'], []⟩)] start ∧
          ∃ x, y = .node x ∧ p x := fun k start cache hc => by
    obtain ⟨ys, hys, harranged, hmem⟩ := (hwritten k).exists_css_eq_ok (hnamed k) hc d start
    exact ⟨ys, hys, harranged, fun y =>
      (hmem y).trans (Complex.mem_reach_qualifier_iff hrelative h k start)⟩
  refine ⟨fun scope => ?_, fun k start cache₁ cache₂ h₁ h₂ => ?_, fun {n x} hx helement cache hc => ?_⟩
  · have hgroup : Named (Group.attributeNames [[(.descendant, ⟨none, [q]⟩)]]) := by
      simpa [Group.attributeNames] using hnamed .descendant
    exact ⟨_, (compile_eq_ok_iff (hwritten .descendant).parse_eq).2 ⟨hgroup, rfl⟩⟩
  · obtain ⟨xs, hxs, -, hmem⟩ := (Complex.written_star k).exists_css_eq_ok (List.forall_mem_nil _) h₁ d start
    obtain ⟨ys, hys, harranged, hmem'⟩ := hfound k start h₂
    exact ⟨xs, ys, hxs, hys, harranged, fun y => by rw [hmem', hmem]⟩
  · obtain ⟨ys, hys, -, hmem⟩ := hfound .child (.node n) hc
    refine ⟨ys, hys, (hmem _).trans ?_⟩
    rw [Complex.mem_reach_star_child_iff]
    simp [hx, helement]

/-- A test of an attribute picks the elements that have the quality that its expression decides. -/
theorem picks_bracketText {name operator lexeme value : Text} {test : Text → AttributeTest}
    (hname : Askable name) (hop : (operator, test) ∈ operators)
    (hhead : ∀ c ∈ (lexeme ++ [']']).head?, Text.isBlank c = false)
    (hvalue : Valued value (lexeme ++ [']']) [']'])
    (h : Decides d.arena [(test value).expr (Text.lower name)] p) :
    d.Picks (bracketText name operator lexeme) p :=
  picks_of_decides rfl (spells_bracketText hname.pattern hop hhead hvalue)
    (tight_bracketText name operator lexeme) (List.forall_mem_singleton.2 (askable_iff.1 hname).2) h

end WebCrawl.Query.Document
