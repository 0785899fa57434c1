import WebCrawl.Proofs.Css.Quoting

set_option autoImplicit false

/-!
# Attributes that are not there

An operator that compares a value as a whole needs the attribute. The others search the text of the
attribute, and the text of one that is not there is empty; so they need the attribute just if the value
sought is not empty. An empty one is found in every element.

The end of a value is compared with what is left of the value after as many characters as it is longer.
The number of these is exact as long as the lengths have 52 bits at most, also where it is negative.

## Main results

* `WebCrawl.Css.substring_infinity` — the rest of a text from a position on.
* `WebCrawl.Css.decides_endsWith` — the end of a value.
* `WebCrawl.Query.Document.css_operator` — which elements are found by the operators.
* `WebCrawl.Query.Document.css_without_attribute` — elements that are found without the attribute.
-/

namespace WebCrawl.Css

open Html Location XPath Text

variable {a : Arena} {f : Focus}

/-! ## The rest of a text -/

/-- The members of a list from a place on, by their numbers. -/
lemma filterMap_zipIdx_eq_drop {α : Type} {xs : List α} {p : Nat → Bool} {k m : Nat}
    (hp : ∀ i, k ≤ i → i < k + xs.length → (p i = true ↔ m ≤ i)) :
    (xs.zipIdx k).filterMap (fun pair => if p pair.2 then some pair.1 else none) =
      xs.drop (m - k) := by
  induction xs generalizing k with
  | nil => simp
  | cons x xs ih =>
    have hfirst := hp k (Nat.le_refl k) (by simp)
    have hrest : ∀ i, k + 1 ≤ i → i < k + 1 + xs.length → (p i = true ↔ m ≤ i) := fun i hi hlt =>
      hp i (by omega) (by simp only [List.length_cons]; omega)
    have hlater := ih hrest
    rw [List.zipIdx_cons, List.filterMap_cons]
    by_cases hm : m ≤ k
    · have hzero : m - k = 0 := by omega
      have hzero' : m - (k + 1) = 0 := by omega
      rw [hzero'] at hlater
      simp only [hfirst.2 hm, if_true, hlater, hzero, List.drop_zero]
    · obtain ⟨j, hj⟩ : ∃ j, m - k = j + 1 := ⟨m - k - 1, by omega⟩
      have hj' : m - (k + 1) = j := by omega
      have hnot : p k = false := by simpa using mt hfirst.1 hm
      rw [hj'] at hlater
      simp only [hnot, Bool.false_eq_true, if_false, hlater, hj, List.drop_succ_cons]

/-- The characters of a text whose positions are at least an integer are the rest of the text. -/
lemma substring_infinity {text : Text} {start : Double} {z : Int} (hstart : start.Is z)
    (hlength : text.length < 2 ^ 52) :
    XPath.substring text start (.infinity false) = text.drop (z - 1).toNat := by
  have hdrop : (z - 1).toNat = z.toNat - 1 := by omega
  rw [hdrop, XPath.substring]
  refine filterMap_zipIdx_eq_drop (p := fun i => Double.le start (Double.ofNat i) &&
    Double.lt (Double.ofNat i) (.infinity false)) fun i hi hlt => ?_
  have hposition : (Double.ofNat i).Is i := Double.is_ofNat (by omega)
  have hfinite : Double.lt (Double.ofNat i) (.infinity false) = true := by
    obtain ⟨s, hs, -⟩ := hposition
    rw [hs]
    rfl
  rw [hfinite, Bool.and_true, hstart.le_iff hposition]
  omega

/-! ## Lengths -/

/-- The length of a text is exact. -/
lemma gives_stringLength {e : Expr} (h : ((e.value a f).toText a).length < 2 ^ 53) :
    Gives a f (.call .stringLength [e]) ((e.value a f).toText a).length :=
  ⟨_, rfl, Double.is_ofNat h⟩

/-- The value of the function that takes a text from the position that an expression gives. -/
lemma value_substring {e position : Expr} {z : Int} (hz : Gives a f position z)
    (hsmall : z.natAbs < 2 ^ 52) (hlength : ((e.value a f).toText a).length < 2 ^ 52) :
    (Expr.call .substring [e, position]).value a f =
      .string (((e.value a f).toText a).drop (z - 1).toNat) := by
  obtain ⟨x, hx, hzx⟩ := hz
  have hround : (roundHalfUp x).Is z := by
    obtain ⟨s, hs, -⟩ := id hzx
    have hfinite : x.isFinite = true := by
      rw [hs]
      rfl
    rw [roundHalfUp, if_pos hfinite]
    exact hzx.floor_add_half hsmall
  rw [← substring_infinity hround hlength]
  simp [Expr.value, argumentValues, Function.apply, textArgument, numberArgument, hx, Value.toNumber]

/-! ## Conditions -/

/-- The condition on the end of a value decides whether the value ends with the text, also where the
text is longer. An attribute that is not there counts as an empty text. -/
lemma decides_endsWith (name : Text) {v : Text} (hv : v.length < 2 ^ 52)
    (hlength : ∀ x, ((a.attribute? x name).getD []).length + 1 < 2 ^ 52) :
    Decides a [(AttributeTest.endsWith v).expr name] fun x =>
      v <:+ (a.attribute? x name).getD [] := by
  refine decides_singleton fun f x hf _ => ⟨nofun, ?_⟩
  rw [← toText_attributeExpr hf name]
  have hbound : ((attributeExpr name).value a f |>.toText a).length + 1 < 2 ^ 52 := by
    rw [toText_attributeExpr hf name]
    exact hlength x
  have hliteral := toText_literalExpr (a := a) v f
  have hcount := gives_stringLength (a := a) (f := f) (e := attributeExpr name) (by omega)
  have hcount' := gives_stringLength (a := a) (f := f) (e := literalExpr v) (by rw [hliteral]; omega)
  have hone : Gives a f (numberExpr 1) ((1 : Nat) : Int) := gives_number (by omega)
  rw [hliteral] at hcount'
  have hposition := (hcount.sub hcount' (by omega)).add hone (by omega)
  have hskip : ∀ n : Nat, ((n : Int) - v.length + ((1 : Nat) : Int) - 1).toNat = n - v.length := by
    omega
  rw [AttributeTest.expr, Expr.value, value_substring hposition (by omega) (by omega),
    value_literalExpr, hskip, List.suffix_iff_eq_drop]
  have hequal : ∀ s t : Text, (s == t) = true ↔ t = s := fun s t => beq_iff_eq.trans eq_comm
  exact hequal _ _

/-- Between two spaces with nothing between them only an empty text is found between spaces. -/
lemma enclosed_infix_enclosed_nil_iff {v : Text} :
    ' ' :: (v ++ [' ']) <:+: [' ', ' '] ↔ v = [] := by
  constructor
  · intro h
    have hlength := h.length_le
    simp only [List.length_cons, List.length_append, List.length_nil] at hlength
    exact List.length_eq_zero_iff.1 (by omega)
  · rintro rfl
    exact List.infix_rfl

/-- What is sought in the text of an attribute is found in an empty text if it is empty itself, and
then in every text. -/
lemma Decides.sought {es : List Expr} {name v : Text} {p : Text → Prop}
    (h : Decides a es fun x => p ((a.attribute? x name).getD [])) (hempty : p [] → v = [])
    (hall : v = [] → ∀ value, p value) : Decides a es fun x =>
      v = [] ∨ ∃ value, a.attribute? x name = some value ∧ p value :=
  h.congr fun x => by
    cases a.attribute? x name with
    | none => simpa using ⟨hempty, fun hv => hall hv []⟩
    | some value => simpa using fun hv => hall hv value

end WebCrawl.Css

namespace WebCrawl.Query.Document

open Html Location Css

/-- The operators between the name of an attribute and a quoted value. In every document, with every
name of an attribute that can be asked for and every value, `=` and `|=` pick only elements that have
an attribute of the name: one that has the value, or that begins with the value and a hyphen. If the
value is not empty, then so do `^=`, `$=`, `*=` and `~=`: the elements whose attribute begins with the
value, ends with it (also where the value is longer), contains it, or contains it between spaces. If
the value is empty, then `^=`, `$=` and `*=` pick all elements, and `~=` also those that have no such
attribute. For `$=` the lengths have to have 52 bits at most.

**Proof sketch.** Compared with a text, the path to an attribute that is not there equals none. Searched
as a text it is empty, and an empty text begins with, ends with and contains the empty text alone. -/
theorem css_operator {name : Text} (hname : Askable name) (v : Text) (d : Document) :
    (d.Picks (bracketText name "=" (enquote v)) fun x => v ∈ d.arena.attributeValues x name) ∧
    (d.Picks (bracketText name "|=" (enquote v)) fun x => v ∈ d.arena.attributeValues x name ∨
      ∃ value, d.arena.attribute? x name = some value ∧ v ++ ['-'] <+: value) ∧
    (d.Picks (bracketText name "^=" (enquote v)) fun x =>
      v = [] ∨ ∃ value, d.arena.attribute? x name = some value ∧ v <+: value) ∧
    (v.length < 2 ^ 52 → (∀ x, ((d.arena.attribute? x name).getD []).length + 1 < 2 ^ 52) →
      d.Picks (bracketText name "$=" (enquote v)) fun x =>
        v = [] ∨ ∃ value, d.arena.attribute? x name = some value ∧ v <:+ value) ∧
    (d.Picks (bracketText name "*=" (enquote v)) fun x =>
      v = [] ∨ ∃ value, d.arena.attribute? x name = some value ∧ v <:+: value) ∧
    d.Picks (bracketText name "~=" (enquote v)) fun x =>
      v = [] ∧ d.arena.attribute? x name = none ∨
        ∃ value, d.arena.attribute? x name = some value ∧
          ' ' :: (v ++ [' ']) <:+: ' ' :: (value ++ [' ']) := by
  have hpicks : ∀ {operator : Text} {test : Text → AttributeTest} {p : Nat → Prop},
      (operator, test) ∈ operators → Decides d.arena [(test v).expr (Text.lower name)] p →
      d.Picks (bracketText name operator (enquote v)) p := fun hop h =>
    picks_bracketText hname hop (head_enquote v _) (valued_enquote v _) h
  have hequals := decides_equals (a := d.arena) (Text.lower name) v
  have hhyphen := decides_hyphen (a := d.arena) (Text.lower name) v
  have hbegins := decides_beginsWith (a := d.arena) (Text.lower name) (toText_literalExpr v)
  have hcontains := decides_contains (a := d.arena) (Text.lower name) v
  have hwithin := decides_enclosed (a := d.arena) (Text.lower name) v (value_paddedExpr_literalExpr v)
  simp only [attributeValues_lower, attribute?_lower] at hequals hhyphen hbegins hcontains hwithin
  obtain ⟨hequal, hword, hdash, hbegin, hend, hcontain⟩ : ("=".toList, AttributeTest.equals) ∈ operators ∧
      ("~=".toList, AttributeTest.includes) ∈ operators ∧
      ("|=".toList, AttributeTest.dashMatch) ∈ operators ∧
      ("^=".toList, AttributeTest.beginsWith) ∈ operators ∧
      ("$=".toList, AttributeTest.endsWith) ∈ operators ∧
      ("*=".toList, AttributeTest.contains) ∈ operators := by simp [operators]
  refine ⟨hpicks hequal hequals, hpicks hdash (hequals.or hhyphen),
    hpicks hbegin (hbegins.sought (p := (v <+: ·)) List.prefix_nil.1 ?_), fun hv hlength => ?_,
    hpicks hcontain (hcontains.sought (p := (v <:+: ·)) List.infix_nil.1 ?_),
    hpicks hword (hwithin.congr fun x => ?_)⟩
  · rintro rfl
    exact fun value => List.nil_prefix
  · have hends := decides_endsWith (a := d.arena) (Text.lower name) hv fun x => by
      rw [attribute?_lower]
      exact hlength x
    simp only [attribute?_lower] at hends
    refine hpicks hend (hends.sought (p := (v <:+ ·)) List.suffix_nil.1 ?_)
    rintro rfl
    exact fun value => List.nil_suffix
  · rintro rfl
    exact fun value => value.nil_infix
  · cases d.arena.attribute? x name with
    | none => simp [enclosed_infix_enclosed_nil_iff]
    | some value => simp

/-- Of two paragraphs one has a title. It is found by the end of the title and not by a longer text,
and the other one is found by the beginning that every text has. -/
theorem css_operator_of_paragraphs :
    let d : Document := ⟨.ofForest [.element "p" [("title", "abc")] [], .element "p" [] []]⟩
    ∃ xs ys zs, (d.css ">[title$=\"bc\"]" root (.empty 0)).1 = .ok xs ∧
      (d.css ">[title$=\"xabc\"]" root (.empty 0)).1 = .ok ys ∧
      (d.css ">[title^=\"\"]" root (.empty 0)).1 = .ok zs ∧
      .node 1 ∈ xs ∧ .node 2 ∉ xs ∧ .node 1 ∉ ys ∧ .node 2 ∈ zs := by
  intro d
  have hempty := Cache.faithful_empty 0
  have hname : Askable "title" := askable_of_lexeme (by simp) rfl rfl
  have hlength : ∀ x, ((d.arena.attribute? x "title").getD []).length + 1 < 2 ^ 52 := by
    rintro (_ | _ | _ | x)
    · decide
    · decide
    · decide
    · show ([] : Text).length + 1 < 2 ^ 52
      norm_num
  have hone : 1 ∈ d.arena.children 0 := .head _
  have htwo : 2 ∈ d.arena.children 0 := .tail _ (.head _)
  have htitle : d.arena.attribute? 1 "title" = some "abc".toList := rfl
  have hnone : d.arena.attribute? 2 "title" = none := rfl
  obtain ⟨-, -, -, hends, -⟩ := css_operator hname "bc" d
  obtain ⟨-, -, -, hends', -⟩ := css_operator hname "xabc" d
  obtain ⟨-, -, hbegins, -⟩ := css_operator hname [] d
  obtain ⟨xs, hxs, hmem⟩ := (hends (by decide) hlength).child hone rfl hempty
  obtain ⟨xs', hxs', hmem'⟩ := (hends (by decide) hlength).child htwo rfl hempty
  obtain ⟨ys, hys, hmemLonger⟩ := (hends' (by decide) hlength).child hone rfl hempty
  obtain ⟨zs, hzs, hmemEmpty⟩ := hbegins.child htwo rfl hempty
  obtain rfl : xs' = xs := Except.ok.inj (hxs'.symm.trans hxs)
  refine ⟨xs', ys, zs, hxs, hys, hzs, hmem.2 (.inr ⟨_, htitle, ['a'], rfl⟩), fun h => ?_, fun h => ?_,
    hmemEmpty.2 (.inl rfl)⟩
  · obtain hnil | ⟨value, hvalue, -⟩ := hmem'.1 h
    · simp at hnil
    · cases hnone.symm.trans hvalue
  · obtain hnil | ⟨value, hvalue, hsuffix⟩ := hmemLonger.1 h
    · simp at hnil
    · obtain rfl := Option.some.inj (htitle.symm.trans hvalue)
      exact absurd hsuffix.length_le (by decide)

/-- A paragraph without a title is found by every operator that searches the title for an empty
text. -/
theorem css_without_attribute :
    let d : Document := .parse "<p>x</p>"
    d.arena.attribute? 4 "title" = none ∧
      ∀ s ∈ ["[title^='']", "[title$='']", "[title*='']", "[title~='']"],
        ∃ ys, (d.css s root (.empty 0)).1 = .ok ys ∧ .node 4 ∈ ys := by
  intro d
  obtain ⟨hwf, -, -⟩ := arena_parse "<p>x</p>"
  have harena : d.arena.size = 6 ∧ (∀ x < 6, d.arena.attribute? x "title" = none) ∧
      4 ∈ Combinator.candidates d.arena .descendant 3 ∧
      d.arena.elementName? 4 = some "p".toList := by decide +kernel
  obtain ⟨hsize, hnone, hcandidate, hname⟩ := harena
  have hfour : d.arena.attribute? 4 "title" = none := hnone 4 (by decide)
  have hbody : Complex.Approaches d.arena [] .descendant Arena.root 3 :=
    (mem_walk_step_iff (by decide)).2 (by decide +kernel)
  have hstar : .node 4 ∈ Complex.reach d.arena [(.descendant, ⟨some ['*'], []⟩)] root :=
    Complex.mem_reach_of_type hwf (by decide) hbody hcandidate ⟨"p", hname, .inl rfl⟩
  have hfound : ∀ {s : Text} {test : AttributeTest} {p : Nat → Prop},
      Complex.Written [(.descendant, ⟨none, [.attr "title" test]⟩)] s →
      Decides d.arena [test.expr "title"] p → p 4 →
      ∃ ys, (d.css s root (.empty 0)).1 = .ok ys ∧ .node 4 ∈ ys := fun hs hdecides hp => by
    obtain ⟨ys, hys, -, hmem⟩ := hs.exists_css_eq_ok (List.forall_mem_singleton.2 rfl)
      (Cache.faithful_empty 0) d root
    exact ⟨ys, hys, (hmem _).2 ((Complex.mem_reach_qualifier_iff (q := .attr "title" _) rfl hdecides
      _ _).2 ⟨hstar, 4, rfl, hp⟩)⟩
  have hlength : ∀ x, ((d.arena.attribute? x "title").getD []).length + 1 < 2 ^ 52 := fun x => by
    have hmissing : d.arena.attribute? x "title" = none := by
      rcases Nat.lt_or_ge x 6 with hlt | hge
      · exact hnone x hlt
      · have hout : d.arena.nodes[x]? = none := Array.getElem?_eq_none (hsize.trans_le hge)
        simp [Arena.attribute?, Arena.attributes, Arena.data?, hout]
    rw [hmissing]
    norm_num
  have hbegins : Decides d.arena [(AttributeTest.beginsWith []).expr "title"] fun x =>
      [] <+: (d.arena.attribute? x "title").getD [] :=
    decides_beginsWith "title" (toText_literalExpr [])
  have hends : Decides d.arena [(AttributeTest.endsWith []).expr "title"] fun x =>
      [] <:+ (d.arena.attribute? x "title").getD [] :=
    decides_endsWith "title" (by norm_num) hlength
  have hcontains : Decides d.arena [(AttributeTest.contains []).expr "title"] fun x =>
      [] <:+: (d.arena.attribute? x "title").getD [] := decides_contains "title" []
  have hwithin : Decides d.arena [(AttributeTest.includes []).expr "title"] fun x =>
      [' ', ' '] <:+: ' ' :: ((d.arena.attribute? x "title").getD [] ++ [' ']) :=
    decides_enclosed "title" [] (value_paddedExpr_literalExpr [])
  have hspaces : [' ', ' '] <:+: ' ' :: ((d.arena.attribute? 4 "title").getD [] ++ [' ']) := by
    rw [hfour]
    exact List.infix_rfl
  simpa using ⟨hfour, hfound (parse_eq_ok_iff_spelled.1 rfl) hbegins List.nil_prefix,
    hfound (parse_eq_ok_iff_spelled.1 rfl) hends List.nil_suffix,
    hfound (parse_eq_ok_iff_spelled.1 rfl) hcontains List.nil_infix,
    hfound (parse_eq_ok_iff_spelled.1 rfl) hwithin hspaces⟩

end WebCrawl.Query.Document
