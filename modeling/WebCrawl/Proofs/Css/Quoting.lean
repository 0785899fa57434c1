import WebCrawl.Proofs.Css.Picking

set_option autoImplicit false

/-!
# Quoted values

A value between double quotes in which a backslash stands before every double quote and every
backslash is read as it was meant, and the expression that it is compared with has it as its value.
So every text can be asked for, and none of them can end the place where it stands.

## Main definitions

* `WebCrawl.Css.escape`, `WebCrawl.Css.enquote` — how a text is quoted in a selector.

## Main results

* `WebCrawl.Css.valued_enquote` — a quoted text is read as the text.
* `WebCrawl.Query.Document.css_quoted` — which elements have a text as the value of an attribute.
-/

namespace WebCrawl.Css

open Html Location XPath Text Computability

/-! ## Escapes -/

/-- A character of a quoted value, with a backslash before it if it could be taken for another. -/
def escapeChar (c : Char) : Text := if c = '"' ∨ c = '\\' then ['\\', c] else [c]

/-- A text with a backslash before every double quote and every backslash. -/
def escape (v : Text) : Text := v.flatMap escapeChar

/-- A text as a quoted value. -/
def enquote (v : Text) : Text := '"' :: (escape v ++ ['"'])

lemma escapeChar_mem (c : Char) : escapeChar c ∈ Pattern.quotable '"' := by
  rw [Lexeme.mem_quotable, escapeChar]
  split
  case isTrue h => exact .inl ⟨c, rfl, by rcases h with rfl | rfl <;> decide⟩
  case isFalse h => exact .inr ⟨c, rfl, not_or.1 h⟩

/-- Escapes stand for the text that is escaped. -/
lemma unescape_escape (v : Text) : unescape (escape v) = v := by
  induction v with
  | nil => rfl
  | cons c v ih =>
    rw [escape, List.flatMap_cons, ← escape, escapeChar]
    split
    case isTrue => exact congrArg (c :: ·) ih
    case isFalse h =>
      obtain ⟨-, hc⟩ := not_or.1 h
      rw [List.singleton_append, unescape, ih]
      · exact fun heq => absurd heq hc
      · exact fun _ _ heq => absurd heq hc

lemma unquote_enquote (v : Text) : unquote (enquote v) = v := by
  have hinner : ((enquote v).drop 1).dropLast = escape v := by simp [enquote]
  rw [unquote, hinner, unescape_escape]

/-- A quoted text ends at its last quote. -/
lemma takes_enquote (v t : Text) : Takes Pattern.quoted (enquote v) (enquote v ++ t) t := by
  have hinner : escape v ++ ['"'] ∈ (Pattern.quotable '"')∗ * mark '"' := by
    refine Language.append_mem_mul (Language.mem_kstar.2 ⟨v.map escapeChar, rfl, ?_⟩) (mem_mark.2 rfl)
    rintro _ hx
    obtain ⟨c, -, rfl⟩ := List.mem_map.1 hx
    exact escapeChar_mem c
  refine Lexeme.recognizes_quoted.takes_append (.inl (mem_mark_mul.2 ⟨_, rfl, hinner⟩)) ?_
  have hne : '"' ≠ '\\' := by decide
  rw [enquote, List.cons_append, Lexeme.quoted_cons, if_pos (.inl rfl), Lexeme.quotedRest_eq hne hinner]
  rfl

/-- A quoted text is read as the text. -/
lemma valued_enquote (v t : Text) : Valued v (enquote v ++ t) t := by
  have h := Valued.quoted (takes_enquote v t)
  rwa [unquote_enquote] at h

lemma head_enquote (v t : Text) : ∀ c ∈ (enquote v ++ t).head?, isBlank c = false := by
  rintro c ⟨⟩
  rfl

/-! ## Literals -/

/-- The literal of a text is compiled to an expression that has the text as its value. -/
lemma exists_ofXPath_literal (v : Text) : ∃ q, Query.ofXPath (literal v) = .ok q ∧
    ∀ (a : Arena) (f : Focus), q.expression.value a f = .string v := by
  have hparse : XPath.parse (literal v) = .ok (literalExpr v) := (writes_literal v).parse_eq
  refine ⟨⟨literal v, literalExpr v⟩, ?_, fun a f => value_literalExpr v f⟩
  rw [Query.ofXPath, hparse]

end WebCrawl.Css

namespace WebCrawl.Query.Document

open Html Location Css

/-- A text as the value of an attribute survives all quoting. Between double quotes, with a backslash
before every double quote and backslash, it makes an accepted selector with every name of an attribute
that can be asked for, and in every document that selector picks the elements of which some attribute
of the name, in letters of either case, has just this value. The literal of a text in an expression
compiles alone, and its value is the text everywhere.

**Proof sketch.** The pattern of quoted values takes the quoted text up to its last quote, and what it
takes stands for the text. The expression of the text is a literal, or is put together from pieces
without double quotes and from double quotes; both have the text as their value, which is compared with
all attributes of the name. -/
theorem css_quoted (v : Text) :
    (∀ {name : Text}, Askable name → ∀ d : Document,
      d.Picks (bracketText name "=" (enquote v)) fun x =>
        ∃ pair ∈ d.arena.attributes x, Text.sameLetters pair.1 name = true ∧ pair.2 = v) ∧
    ∃ q, ofXPath (Css.literal v) = .ok q ∧
      ∀ (a : Arena) (f : XPath.Focus), q.expression.value a f = .string v := by
  refine ⟨fun {name} hname d => ?_, exists_ofXPath_literal v⟩
  have hdecides : Decides d.arena [(AttributeTest.equals v).expr (Text.lower name)] fun x =>
      v ∈ d.arena.attributeValues x (Text.lower name) := decides_equals _ v
  refine picks_bracketText hname (.head _) (head_enquote v _) (valued_enquote v _)
    (hdecides.congr fun x => ?_)
  rw [attributeValues_lower, Arena.mem_attributeValues_iff]

/-- A title with quotes of both kinds, a backslash, a bracket and a line feed. -/
theorem css_quoted_of_title :
    let title : Text := "a'\\b\"]\n".toList
    let d : Document := ⟨.ofForest [.element "p" [("TITLE", "x"), ("title", title)] []]⟩
    bracketText "title" "=" (enquote title) = "[title=\"a'\\\\b\\\"]\n\"]".toList ∧
    (∃ ys, (d.css ('>' :: bracketText "title" "=" (enquote title)) root (.empty 0)).1 = .ok ys ∧
      .node 1 ∈ ys) ∧
    ∃ q, ofXPath "concat(\"a'\\b\", '\"', \"]\n\")" = .ok q ∧
      q.evaluate d.arena root = .string title := by
  intro title d
  have hname : Askable "title" := askable_of_lexeme (by simp) rfl rfl
  obtain ⟨hpicks, q, hq, hvalue⟩ := css_quoted title
  obtain ⟨ys, hys, hmem⟩ := (hpicks hname d).child (n := 0) (x := 1) (.head _) rfl
    (Cache.faithful_empty 0)
  exact ⟨rfl, ⟨ys, hys, hmem.2 ⟨("title", title), .tail _ (.head _), rfl, rfl⟩⟩, q, hq, hvalue _ _⟩

end WebCrawl.Query.Document
