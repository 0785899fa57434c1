import WebCrawl.Proofs.Css.Quoting

set_option autoImplicit false

/-!
# Classes and words

A class, or a word of another attribute, is looked for between spaces. Other white space of markup
separates the tokens of a value as well, so that a token is found where the space is the only
separator, and may be missed where another one stands next to it.

## Main definitions

* `WebCrawl.Html.valueTokens` — the pieces of a value between white space.

## Main results

* `WebCrawl.Html.mem_valueTokens_iff`, `WebCrawl.Html.mem_valueTokens_of_mem_splitAt`,
  `WebCrawl.Html.mem_valueTokens_iff_mem_splitAt` — tokens and the pieces between spaces.
* `WebCrawl.Query.Document.css_word` — which elements are found by a class or a word.
* `WebCrawl.Query.Document.css_class_before_tab` — a token that is not found.
-/

namespace WebCrawl.Html

open Text

/-- The tokens of a value: its pieces between white space of markup, without the empty ones. -/
def valueTokens (value : Text) : List Text := (value.splitOnP isSpace).filter (· ≠ [])

variable {value c : Text}

/-- A token is what occurs with white space or an end of the value on either side. -/
lemma mem_valueTokens_iff : c ∈ valueTokens value ↔ c ≠ [] ∧ (∀ d ∈ c, isSpace d = false) ∧
    ∃ u w, value = u ++ c ++ w ∧ (∀ d ∈ u.getLast?, isSpace d = true) ∧
      ∀ d ∈ w.head?, isSpace d = true := by
  rw [valueTokens, List.mem_filter, mem_splitOnP_iff, decide_eq_true_iff, and_comm]

/-- A piece between spaces that has no white space in it is a token. -/
lemma mem_valueTokens_of_mem_splitAt (hne : c ≠ []) (hc : ∀ d ∈ c, isSpace d = false)
    (h : c ∈ splitAt ' ' value) : c ∈ valueTokens value := by
  obtain ⟨-, u, w, hvalue, hu, hw⟩ := mem_splitOnP_iff.1 h
  have hspace : ∀ {d : Char}, (d == ' ') = true → isSpace d = true := fun {d} hd => by
    rw [beq_iff_eq.1 hd]
    rfl
  exact mem_valueTokens_iff.2 ⟨hne, hc, u, w, hvalue, fun d hd => hspace (hu d hd),
    fun d hd => hspace (hw d hd)⟩

/-- Where the space is the only white space, the tokens are the pieces between spaces. -/
lemma mem_valueTokens_iff_mem_splitAt (hne : c ≠ []) (hc : ∀ d ∈ c, isSpace d = false)
    (hvalue : ∀ d ∈ value, isSpace d = true → d = ' ') :
    c ∈ valueTokens value ↔ c ∈ splitAt ' ' value := by
  refine ⟨fun h => ?_, mem_valueTokens_of_mem_splitAt hne hc⟩
  obtain ⟨-, -, u, w, rfl, hu, hw⟩ := mem_valueTokens_iff.1 h
  refine mem_splitOnP_iff.2 ⟨fun d hd => ?_, u, w, rfl, fun d hd => ?_, fun d hd => ?_⟩
  · rw [beq_eq_false_iff_ne]
    rintro rfl
    cases hc _ hd
  · exact beq_iff_eq.2 (hvalue d (by simp [List.mem_of_getLast? hd]) (hu d hd))
  · exact beq_iff_eq.2 (hvalue d (by simp [List.mem_of_head? hd]) (hw d hd))

end WebCrawl.Html

namespace WebCrawl.Css

open Html Text

variable {c : Text}

/-- No character of a name is a blank. -/
lemma isBlank_of_isNameChar {d : Char} (hd : Lexeme.isNameChar d = true) : isBlank d = false := by
  by_contra hblank
  cases hd.symm.trans (excludes_isNameChar d (.inl (by simpa using hblank)))

lemma spells_className (hne : c ≠ []) (hc : ∀ d ∈ c, Lexeme.isNameChar d = true) :
    Spells Compound.HasPart (.qualifier (.className c)) ('.' :: c) [] := by
  have htakes : Takes Pattern.className ('.' :: c) ('.' :: c ++ []) [] :=
    takes_marked (mem_several.2 ⟨hne, hc⟩) nofun
  rw [List.append_nil] at htakes
  exact .className htakes

/-- A name is read as a value without quotes. -/
lemma valued_bare (hne : c ≠ []) (hc : ∀ d ∈ c, Lexeme.isNameChar d = true) :
    Valued c (c ++ [']']) [']'] :=
  .bare (takes_several (mem_several.2 ⟨hne, hc⟩) (by rintro d ⟨⟩; rfl))

end WebCrawl.Css

namespace WebCrawl.Query.Document

open Html Location Css

/-- Classes and words are matched between spaces. In every document a class picks the elements of
which it is a piece of the value of `class` between spaces, and the test for a word, with any name of
an attribute that can be asked for, bare or quoted, those of which it is such a piece of the value of
that attribute. Each such piece is a token of the value; and each token is such a piece where the
value has no other white space of markup than spaces.

**Proof sketch.** The value with a space on either side is searched for the word with a space on either
side. A piece between spaces is found in this way at either end of the value and within it. -/
theorem css_word {c : Text} (hne : c ≠ []) (hc : ∀ d ∈ c, isSpace d = false) :
    (∀ d : Document,
      ((∀ e ∈ c, Lexeme.isNameChar e = true) → d.Picks ('.' :: c) fun x =>
        ∃ value, d.arena.attribute? x "class" = some value ∧ c ∈ Text.splitAt ' ' value) ∧
      ∀ {name lexeme : Text}, Askable name →
        ((∀ e ∈ c, Lexeme.isNameChar e = true) ∧ lexeme = c ∨ lexeme = enquote c) →
        d.Picks (bracketText name "~=" lexeme) fun x =>
          ∃ value, d.arena.attribute? x name = some value ∧ c ∈ Text.splitAt ' ' value) ∧
    ∀ value, (c ∈ Text.splitAt ' ' value → c ∈ valueTokens value) ∧
      ((∀ d ∈ value, isSpace d = true → d = ' ') →
        (c ∈ valueTokens value ↔ c ∈ Text.splitAt ' ' value)) := by
  have hspace : ' ' ∉ c := fun hmem => by cases hc _ hmem
  refine ⟨fun d => ⟨fun hname => ?_, fun {name lexeme} haskable hlexeme => ?_⟩, fun value =>
    ⟨mem_valueTokens_of_mem_splitAt hne hc, mem_valueTokens_iff_mem_splitAt hne hc⟩⟩
  · have htight : Tight ('.' :: c) := fun e he => by
      rw [List.getLast?_cons_of_ne_nil hne] at he
      exact isBlank_of_isNameChar (hname e (List.mem_of_getLast? he))
    exact picks_of_decides rfl (spells_className hne hname) htight nofun
      (decides_word "class" hne hspace fun _ => rfl)
  · have hdecides : Decides d.arena [(AttributeTest.includes c).expr (Text.lower name)] fun x =>
        ∃ value, d.arena.attribute? x name = some value ∧ c ∈ Text.splitAt ' ' value := by
      refine (decides_word (Text.lower name) hne hspace (value_paddedExpr_literalExpr c)).congr
        fun x => ?_
      rw [attribute?_lower]
      rfl
    have hop : ("~=".toList, AttributeTest.includes) ∈ operators := .tail _ (.head _)
    rcases hlexeme with ⟨hname, rfl⟩ | rfl
    · refine picks_bracketText haskable hop (fun e he => ?_) (valued_bare hne hname) hdecides
      rw [List.head?_append_of_ne_nil _ hne] at he
      exact isBlank_of_isNameChar (hname e (List.mem_of_head? he))
    · exact picks_bracketText haskable hop (head_enquote c _) (valued_enquote c _) hdecides

/-- A class at the end of a value, and a text that is only part of one of its tokens. -/
theorem css_word_of_paragraph :
    let d : Document := ⟨.ofForest [.element "p" [("class", "a bc b")] []]⟩
    ∃ xs ys zs, (d.css ">.b" root (.empty 0)).1 = .ok xs ∧
      (d.css ">[class~=\"b\"]" root (.empty 0)).1 = .ok ys ∧
      (d.css ">[class~=c]" root (.empty 0)).1 = .ok zs ∧
      .node 1 ∈ xs ∧ .node 1 ∈ ys ∧ .node 1 ∉ zs := by
  intro d
  have hempty := Cache.faithful_empty 0
  have hname : Askable "class" := askable_of_lexeme (by simp) rfl rfl
  have hchild : 1 ∈ d.arena.children 0 := .head _
  have hvalue : d.arena.attribute? 1 "class" = some "a bc b".toList := rfl
  obtain ⟨hfound, -⟩ := css_word (c := "b".toList) (by simp) (by simp [isSpace])
  obtain ⟨hmissed, -⟩ := css_word (c := "c".toList) (by simp) (by simp [isSpace])
  obtain ⟨hclass, hword⟩ := hfound d
  obtain ⟨xs, hxs, hmem⟩ := (hclass (by simp [Lexeme.isNameChar, Text.isWord])).child hchild rfl hempty
  obtain ⟨ys, hys, hmem'⟩ := (hword hname (.inr rfl)).child hchild rfl hempty
  obtain ⟨zs, hzs, hmem''⟩ := ((hmissed d).2 hname (.inl ⟨by simp [Lexeme.isNameChar, Text.isWord],
    rfl⟩)).child hchild rfl hempty
  refine ⟨xs, ys, zs, hxs, hys, hzs, hmem.2 ⟨_, hvalue, by decide⟩, hmem'.2 ⟨_, hvalue, by decide⟩,
    fun hone => ?_⟩
  obtain ⟨value, hvalue', hpiece⟩ := hmem''.1 hone
  obtain rfl := Option.some.inj (hvalue.symm.trans hvalue')
  revert hpiece
  decide

/-- A class with a tab after it is a token of the value, but it is found neither as a class nor as a
word. -/
theorem css_class_before_tab :
    let d : Document := .parse "<p class=\"a\tb\">x</p>"
    (∃ value, d.arena.attribute? 4 "class" = some value ∧ ['a'] ∈ valueTokens value) ∧
      ∃ xs ys zs, (d.css "p" root (.empty 0)).1 = .ok xs ∧ (d.css ".a" root (.empty 0)).1 = .ok ys ∧
        (d.css "[class~=a]" root (.empty 0)).1 = .ok zs ∧
        .node 4 ∈ xs ∧ .node 4 ∉ ys ∧ .node 4 ∉ zs := by
  intro d
  obtain ⟨hwf, -, -⟩ := arena_parse "<p class=\"a\tb\">x</p>"
  have hempty := Cache.faithful_empty 0
  have harena : d.arena.attribute? 4 "class" = some ['a', '\t', 'b'] ∧
      4 ∈ Combinator.candidates d.arena .descendant 3 ∧
      d.arena.elementName? 4 = some "p".toList := by decide +kernel
  obtain ⟨hvalue, hcandidate, hname⟩ := harena
  have hbody : Complex.Approaches d.arena [] .descendant Arena.root 3 :=
    (mem_walk_step_iff (by decide)).2 (by decide +kernel)
  have htype : Complex.Written [(.descendant, ⟨some "p", []⟩)] "p" := parse_eq_ok_iff_spelled.1 rfl
  have hclass : Complex.Written [(.descendant, ⟨none, [.className ['a']]⟩)] ".a" :=
    parse_eq_ok_iff_spelled.1 rfl
  have hword : Complex.Written [(.descendant, ⟨none, [.attr "class" (.includes ['a'])]⟩)]
      "[class~=a]" := parse_eq_ok_iff_spelled.1 rfl
  have hpiece : ∀ x, (∃ value, d.arena.attribute? x "class" = some value ∧
      ['a'] ∈ Text.splitAt ' ' value) → x ≠ 4 := by
    rintro x ⟨value, hvalue', hmem⟩ rfl
    obtain rfl := Option.some.inj (hvalue.symm.trans hvalue')
    revert hmem
    decide
  have hmissed : ∀ {q : Qualifier}, q.isTypeRelative = false →
      Decides d.arena q.conjuncts (fun x => ∃ value, d.arena.attribute? x "class" = some value ∧
        ['a'] ∈ Text.splitAt ' ' value) →
      .node 4 ∉ Complex.reach d.arena [(.descendant, ⟨none, [q]⟩)] root := by
    intro q hrelative hdecides hmem
    obtain ⟨-, x, heq, hx⟩ := (Complex.mem_reach_qualifier_iff hrelative hdecides _ _).1 hmem
    exact hpiece x hx (Location.node.inj heq).symm
  obtain ⟨xs, hxs, -, hmem⟩ := htype.exists_css_eq_ok nofun hempty d root
  obtain ⟨ys, hys, -, hmem'⟩ := hclass.exists_css_eq_ok nofun hempty d root
  obtain ⟨zs, hzs, -, hmem''⟩ := hword.exists_css_eq_ok
    (List.forall_mem_singleton.2 rfl) hempty d root
  refine ⟨⟨_, hvalue, by decide⟩, xs, ys, zs, hxs, hys, hzs, (hmem _).2 ?_, fun hfour => ?_,
    fun hfour => ?_⟩
  · exact Complex.mem_reach_of_type hwf (by decide) hbody hcandidate ⟨"p", hname, .inr rfl⟩
  · exact hmissed rfl (decides_word "class" (by simp) (by simp) fun _ => rfl) ((hmem' _).1 hfour)
  · exact hmissed rfl (decides_word "class" (by simp) (by simp)
      (value_paddedExpr_literalExpr ['a'])) ((hmem'' _).1 hfour)

end WebCrawl.Query.Document
