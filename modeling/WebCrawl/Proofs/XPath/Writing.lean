import Mathlib.Tactic.Common
import WebCrawl.Proofs.XPath.Lexing

set_option autoImplicit false

/-!
# Writing expressions

How the text of an expression is put together from the texts of its parts, so that it is read as the
expression that is meant.

## Main definitions

* `WebCrawl.XPath.Writes` — a text that is read as a phrase wherever it stands.
* `WebCrawl.XPath.Separates` — a text that stands for an operator between two operands.

## Main results

* `WebCrawl.XPath.Writes.parse_eq` — the text of an expression is read as it.
* `WebCrawl.XPath.Writes.binary`, `WebCrawl.XPath.Writes.call` and others — the texts of the parts put
  together.
-/

namespace WebCrawl.XPath

open Text

/-! ## Levels -/

/-- An expression with stronger operators is one of any weaker level. -/
lemma Spells.of_rank_le {l l' : Level} {e : Expr} {ts : List Token} (hle : l.rank ≤ l'.rank)
    (h : Spells (.expr l' e) ts) : Spells (.expr l e) ts := by
  have hall : ∀ n (l : Level), l.rank + n = l'.rank → Spells (.expr l e) ts := by
    intro n
    induction n with
    | zero =>
      intro l hl
      have : l = l' := by cases l <;> cases l' <;> first | rfl | cases hl
      exact this ▸ h
    | succ n ih =>
      intro l hl
      have hne : l ≠ .path := by
        rintro rfl
        have hlast : l'.rank ≤ Level.path.rank := by cases l' <;> decide
        omega
      exact .stronger (ih l.next (by rw [Level.rank_next hne]; omega))
  exact hall (l'.rank - l.rank) l (by omega)

/-- Steps one after the other. -/
lemma Spells.steps_append {ss ss' : List Step} {ts us : List Token} (h : Spells (.steps ss) ts)
    (h' : Spells (.steps ss') us) : Spells (.steps (ss ++ ss')) (ts ++ us) := by
  generalize hph : Phrase.steps ss = ph at h
  induction h generalizing ss with
  | noSteps =>
    cases hph
    exact h'
  | @slash s ss ts us hs hss _ ih =>
    cases hph
    rw [List.append_assoc]
    exact .slash hs (ih rfl)
  | @doubleSlash s ss ts us hs hss _ ih =>
    cases hph
    rw [List.append_assoc]
    exact .doubleSlash hs (ih rfl)
  | _ => cases hph

/-- Steps with the slashes before them are a path from the root. -/
lemma Spells.absolute_of_steps {ss : List Step} {ts : List Token} (h : Spells (.steps ss) ts)
    (hne : ss ≠ []) : Spells (.expr .path (.path true ss)) ts := by
  cases h with
  | noSteps => exact absurd rfl hne
  | slash hs hss => exact .absolute hs hss
  | doubleSlash hs hss => exact .throughout hs hss

/-! ## Texts of phrases -/

/-- The text is read as the phrase, wherever it stands in front of a delimited text. -/
def Writes (ph : Phrase) (x : Text) : Prop :=
  ∃ ts, Spells ph ts ∧ Reads (!ph.isWhole) x ts true ∧ (ph.isWhole = false → isDelimited x = true)

/-- The text stands for an operator between two operands. -/
structure Separates (sep : Text) (t : Token) : Prop where
  delimited : ∀ s, isDelimited (sep ++ s) = true
  lex_append : ∀ s, lex true (sep ++ s) = (lex false s).map (t :: ·)

namespace Separates

variable {c : Char} {p : Text} {t : Token}

/-- An operator with a blank on either side. -/
lemma spaced (hc : isBlank c = false) (ht : t.endsOperand = false)
    (h : ∀ s, tokenAt true c (p ++ ' ' :: s) = .ok (t, p.length)) :
    Separates (' ' :: c :: (p ++ [' '])) t where
  delimited _ := rfl
  lex_append s := by
    rw [List.cons_append, List.cons_append, List.append_assoc, List.singleton_append,
      lex_blank rfl, lex_token hc (h s), List.drop_left, ht, lex_blank rfl]

lemma and : Separates " and " .and := spaced (p := "nd".toList) rfl rfl fun _ => rfl

lemma or : Separates " or " .or := spaced (p := "r".toList) rfl rfl fun _ => rfl

lemma mod : Separates " mod " .mod := spaced (p := "od".toList) rfl rfl fun _ => rfl

lemma add : Separates " + " .plus := spaced (p := []) rfl rfl fun _ => rfl

lemma sub : Separates " - " .minus := spaced (p := []) rfl rfl fun _ => rfl

lemma atLeast : Separates " >= " .greaterEqual := spaced (p := "=".toList) rfl rfl fun _ => rfl

lemma atMost : Separates " <= " .lessEqual := spaced (p := "=".toList) rfl rfl fun _ => rfl

lemma union : Separates " | " .pipe := spaced (p := []) rfl rfl fun _ => rfl

lemma spacedEqual : Separates " = " .equal := spaced (p := []) rfl rfl fun _ => rfl

lemma equal : Separates "=" .equal where
  delimited _ := rfl
  lex_append _ := lex_token (t := .equal) (n := 0) rfl rfl

end Separates

/-- The expression of an integer, with a minus sign if it is negative. -/
def integerExpr : Int → Expr
  | .ofNat n => .number (Double.ofNumeral false (ofNat n))
  | .negSucc n => .negate (.number (Double.ofNumeral false (ofNat (n + 1))))

namespace Writes

variable {l : Level} {e : Expr} {es ps : List Expr} {ss ss' : List Step} {st : Step} {x y : Text}

/-- A phrase that is more than any number of further parts is written by a text of its tokens. -/
lemma of_reads {ph : Phrase} {ts : List Token} (hts : Spells ph ts) (hx : Reads false x ts true)
    (hw : ph.isWhole = true) : Writes ph x := by
  refine ⟨ts, hts, ?_, fun hno => ?_⟩
  · rw [hw]
    exact hx
  · rw [hw] at hno
    cases hno

/-- The tokens of a phrase that is more than any number of further parts. -/
lemma exists_reads {ph : Phrase} (h : Writes ph x) (hw : ph.isWhole = true) :
    ∃ ts, Spells ph ts ∧ Reads false x ts true := by
  obtain ⟨ts, hts, hx, -⟩ := h
  rw [hw] at hx
  exact ⟨ts, hts, hx⟩

/-- The tokens of any number of further parts, which go on with what stands before them. -/
lemma exists_further {ph : Phrase} (h : Writes ph x) (hw : ph.isWhole = false) :
    ∃ ts, Spells ph ts ∧ Reads true x ts true ∧ isDelimited x = true := by
  obtain ⟨ts, hts, hx, hd⟩ := h
  rw [hw] at hx
  exact ⟨ts, hts, hx, hd hw⟩

/-- The text of an expression is read as it. -/
theorem parse_eq (h : Writes (.expr .disjunction e) x) : parse x = .ok e := by
  obtain ⟨ts, hts, hx⟩ := h.exists_reads rfl
  exact parse_eq_ok_iff.2 ⟨ts, hx.lex_eq, hts⟩

/-! ### Expressions -/

lemma of_rank_le {l' : Level} (hle : l.rank ≤ l'.rank) (h : Writes (.expr l' e) x) :
    Writes (.expr l e) x := by
  obtain ⟨ts, hts, hx⟩ := h.exists_reads rfl
  exact of_reads (hts.of_rank_le hle) hx rfl

/-- An operand is an expression of any level. -/
lemma of_primary (h : Writes (.primary e) x) : Writes (.expr l e) x := by
  obtain ⟨ts, hts, hx⟩ := h.exists_reads rfl
  exact of_reads ((Spells.operand hts).of_rank_le (by cases l <;> decide)) hx rfl

/-- A step is a path on its own. -/
lemma of_step (h : Writes (.step st) x) : Writes (.expr l (.path false [st])) x := by
  obtain ⟨ts, hts, hx⟩ := h.exists_reads rfl
  have hpath := Spells.relative hts .noSteps
  rw [List.append_nil] at hpath
  exact of_reads (hpath.of_rank_le (by cases l <;> decide)) hx rfl

/-- Two operands with an operator between them. -/
lemma binary {left right : Expr} {sep : Text} {t : Token} {f : Combination}
    (hf : l.operator t = some f) (hsep : Separates sep t) (hx : Writes (.expr l left) x)
    (hy : Writes (.expr l.next right) y) : Writes (.expr l (f left right)) (x ++ (sep ++ y)) := by
  obtain ⟨ts, hts, hx⟩ := hx.exists_reads rfl
  obtain ⟨us, hus, hy⟩ := hy.exists_reads rfl
  have hsepy : Reads true (sep ++ y) (t :: us) true := by
    intro s hs
    rw [List.append_assoc, hsep.lex_append, hy s hs, Option.map_map]
    rfl
  exact of_reads (.binary hf hts hus) (hx.append hsepy (hsep.delimited y)) rfl

/-- An expression between parentheses is an operand. -/
lemma parens (h : Writes (.expr .disjunction e) x) :
    Writes (.primary e) ('(' :: (x ++ [')'])) := by
  obtain ⟨ts, hts, hx⟩ := h.exists_reads rfl
  have hclose : Reads true [')'] [.closeParen] true := .symbol rfl (.nil true)
  exact of_reads (.parens hts) (.symbol (t := .openParen) rfl (hx.append hclose rfl)) rfl

/-! ### Literals and numbers -/

/-- A text between quotes that do not occur in it. -/
lemma literal {q : Char} {v : Text} (hq : q = '"' ∨ q = '\'') (hv : q ∉ v) :
    Writes (.primary (.literal v)) (q :: (v ++ [q])) :=
  of_reads (.literal v) (.literal hq hv (.nil true)) rfl

/-- A natural number. -/
lemma number (n : Nat) :
    Writes (.primary (.number (Double.ofNumeral false (ofNat n)))) (ofNat n) := by
  have hne : ofNat n ≠ [] := Nat.toDigits_ne_nil
  have hall : (ofNat n).all Char.isDigit = true :=
    List.all_eq_true.2 fun c hc => Nat.isDigit_of_mem_toDigits (by decide) (by decide) hc
  have hread := Reads.numeral (b := false) hne hall rfl (.nil true)
  rw [List.append_nil] at hread
  exact of_reads (.number _) hread rfl

/-- An integer, with a minus sign if it is negative. -/
lemma integer (b : Int) : Writes (.expr .negation (integerExpr b)) (ofInt b) := by
  cases b with
  | ofNat n => exact .of_primary (.number n)
  | negSucc n =>
    obtain ⟨ts, hts, hx⟩ := (of_primary (l := .negation) (.number (n + 1))).exists_reads rfl
    exact of_reads (.negate hts) (.symbol (t := .minus) rfl hx) rfl

/-! ### Functions -/

lemma noArguments : Writes (.arguments []) [] :=
  ⟨[], .noArguments, .nil true, fun _ => rfl⟩

/-- A further argument with the comma before it. -/
lemma argument (hx : Writes (.expr .disjunction e) x) (hy : Writes (.arguments es) y) :
    Writes (.arguments (e :: es)) (',' :: ' ' :: (x ++ y)) := by
  obtain ⟨ts, hts, hx⟩ := hx.exists_reads rfl
  obtain ⟨us, hus, hy, hd⟩ := hy.exists_further rfl
  exact ⟨.comma :: ts ++ us, .argument hts hus,
    .symbol (t := .comma) rfl (.blank (hx.append hy hd)), fun _ => rfl⟩

/-- A function without arguments. -/
lemma callNone (name : Text) {f : Function} (hname : isName name = true)
    (hf : Function.named? name = some f) (htakes : f.takes 0 = true) :
    Writes (.primary (.call f [])) (name ++ ['(', ')']) := by
  have hparens : Reads true ['(', ')'] [.openParen, .closeParen] true :=
    .symbol rfl (.symbol rfl (.nil true))
  exact of_reads (.callNone hf htakes) (.name hname rfl hparens) rfl

/-- A function with its arguments. -/
lemma call (name : Text) {f : Function} (hname : isName name = true)
    (hf : Function.named? name = some f) (hx : Writes (.expr .disjunction e) x)
    (hy : Writes (.arguments es) y) (htakes : f.takes (es.length + 1) = true) :
    Writes (.primary (.call f (e :: es))) (name ++ '(' :: (x ++ (y ++ [')']))) := by
  obtain ⟨ts, hts, hx⟩ := hx.exists_reads rfl
  obtain ⟨us, hus, hy, hd⟩ := hy.exists_further rfl
  have hclose : Reads true [')'] [.closeParen] true := .symbol rfl (.nil true)
  have hargs := hx.append (hy.append hclose rfl) (isDelimited_append hd rfl)
  rw [← List.append_assoc ts] at hargs
  exact of_reads (.call hf hts hus htakes)
    (.name hname rfl (.symbol (t := .openParen) rfl hargs)) rfl

/-- A function with one argument. -/
lemma call₁ (name : Text) {f : Function} (hname : isName name = true)
    (hf : Function.named? name = some f) (htakes : f.takes 1 = true)
    (hx : Writes (.expr .disjunction e) x) :
    Writes (.primary (.call f [e])) (name ++ '(' :: (x ++ [')'])) := by
  simpa using call name hname hf hx noArguments htakes

/-- A function with two arguments. -/
lemma call₂ (name : Text) {f : Function} {e' : Expr} (hname : isName name = true)
    (hf : Function.named? name = some f) (htakes : f.takes 2 = true)
    (hx : Writes (.expr .disjunction e) x) (hy : Writes (.expr .disjunction e') y) :
    Writes (.primary (.call f [e, e'])) (name ++ '(' :: (x ++ ',' :: ' ' :: (y ++ [')']))) := by
  simpa using call name hname hf hx (.argument hy noArguments) htakes

/-- A function with three arguments. -/
lemma call₃ (name : Text) {f : Function} {e' e'' : Expr} {z : Text} (hname : isName name = true)
    (hf : Function.named? name = some f) (htakes : f.takes 3 = true)
    (hx : Writes (.expr .disjunction e) x) (hy : Writes (.expr .disjunction e') y)
    (hz : Writes (.expr .disjunction e'') z) :
    Writes (.primary (.call f [e, e', e'']))
      (name ++ '(' :: (x ++ ',' :: ' ' :: (y ++ ',' :: ' ' :: (z ++ [')'])))) := by
  simpa using call name hname hf hx (.argument hy (.argument hz noArguments)) htakes

/-! ### Steps -/

lemma noPredicates : Writes (.predicates []) [] :=
  ⟨[], .noPredicates, .nil true, fun _ => rfl⟩

/-- A predicate with its brackets. -/
lemma predicate (hx : Writes (.expr .disjunction e) x) (hy : Writes (.predicates ps) y) :
    Writes (.predicates (e :: ps)) ('[' :: (x ++ ']' :: y)) := by
  obtain ⟨ts, hts, hx⟩ := hx.exists_reads rfl
  obtain ⟨us, hus, hy, -⟩ := hy.exists_further rfl
  have hclose : Reads true (']' :: y) (.closeBracket :: us) true :=
    .symbol (t := .closeBracket) rfl hy
  exact ⟨.openBracket :: ts ++ .closeBracket :: us, .predicate hts hus,
    .symbol (t := .openBracket) rfl (hx.append hclose rfl), fun _ => rfl⟩

/-- An attribute of a given name. -/
lemma attributeNamed {name : Text} (hname : isName name = true) :
    Writes (.step (.mk .attributes (.name name) [])) ('@' :: name) := by
  have hread := Reads.name hname rfl (.nil true)
  rw [List.append_nil] at hread
  exact of_reads (.step .attributes (.name name) .noPredicates) (.symbol (t := .at) rfl hread) rfl

/-- The node itself, if it has a given name. -/
lemma selfNamed {name : Text} (hname : isName name = true) :
    Writes (.step (.mk .self (.name name) [])) ("self::".toList ++ name) := by
  have hread := Reads.name hname rfl (.nil true)
  rw [List.append_nil] at hread
  exact of_reads (.step (.named rfl) (.name name) .noPredicates)
    (.axisName (p := "elf".toList) rfl (fun _ => rfl) hread) rfl

/-- The node itself, if it is of the kind that the axis leads to. -/
lemma selfAny : Writes (.step (.mk .self .anyName [])) ("self::".toList ++ ['*']) :=
  of_reads (.step (.named rfl) .any .noPredicates)
    (.axisName (p := "elf".toList) rfl (fun _ => rfl) (.star (.nil true))) rfl

/-- The nodes of any name on an axis, with predicates. -/
lemma onAxis (axis : Axis) {c : Char} {p : Text} (hc : isBlank c = false)
    (hname : ∀ s, tokenAt false c (p ++ ':' :: ':' :: s) = .ok (.name (c :: p), p.length))
    (haxis : c :: p = axis.name) (hps : Writes (.predicates ps) x) :
    Writes (.step (.mk axis .anyName ps)) (c :: (p ++ ':' :: ':' :: '*' :: x)) := by
  obtain ⟨ts, hts, hx, -⟩ := hps.exists_further rfl
  exact of_reads (.step (.named haxis) .any hts) (.axisName hc hname (.star hx)) rfl

/-- The children of any name, with predicates. -/
lemma children (hps : Writes (.predicates ps) x) :
    Writes (.step (.mk .child .anyName ps)) ('*' :: x) := by
  obtain ⟨ts, hts, hx, -⟩ := hps.exists_further rfl
  exact of_reads (.step .child .any hts) (.star hx) rfl

/-! ### Paths -/

lemma noSteps : Writes (.steps []) [] :=
  ⟨[], .noSteps, .nil true, fun _ => rfl⟩

/-- Steps one after the other. -/
lemma steps_append (hx : Writes (.steps ss) x) (hy : Writes (.steps ss') y) :
    Writes (.steps (ss ++ ss')) (x ++ y) := by
  obtain ⟨ts, hts, hx, hdx⟩ := hx.exists_further rfl
  obtain ⟨us, hus, hy, hdy⟩ := hy.exists_further rfl
  exact ⟨ts ++ us, hts.steps_append hus, hx.append hy hdy, fun _ => isDelimited_append hdx hdy⟩

/-- A step with the slash before it. -/
lemma slash {c : Char} (hc : c ≠ '/') (h : Writes (.step st) (c :: x)) :
    Writes (.steps [st]) ('/' :: c :: x) := by
  obtain ⟨ts, hts, hx⟩ := h.exists_reads rfl
  have hspells := Spells.slash hts .noSteps
  rw [List.append_nil] at hspells
  refine ⟨.slash :: ts, hspells, fun s hs => ?_, fun _ => rfl⟩
  rw [List.cons_append, List.cons_append, lex_token rfl (tokenAt_slash hc _ _), List.drop_zero]
  show (lex false (c :: x ++ s)).map _ = _
  rw [hx s hs, Option.map_map]
  rfl

/-- Steps with the slashes before them are a path from the root. -/
lemma absolute (hne : ss ≠ []) (h : Writes (.steps ss) ('/' :: x)) :
    Writes (.expr l (.path true ss)) ('/' :: x) := by
  obtain ⟨ts, hts, hx, -⟩ := h.exists_further rfl
  refine of_reads ((hts.absolute_of_steps hne).of_rank_le (by cases l <;> decide)) ?_ rfl
  intro s hs
  rw [← hx s hs]
  exact lex_slash _ _ _

/-- Steps from a node. -/
lemma fromHere (h : Writes (.steps ss) ('/' :: x)) :
    Writes (.expr l (.path false (.here :: ss))) ('.' :: '/' :: x) := by
  obtain ⟨ts, hts, hx, -⟩ := h.exists_further rfl
  refine of_reads ((Spells.relative .here hts).of_rank_le (by cases l <;> decide)) ?_ rfl
  intro s hs
  rw [List.cons_append, lex_token (t := .dot) (n := 0) rfl rfl, List.drop_zero]
  show (lex true ('/' :: x ++ s)).map _ = _
  rw [hx s hs, Option.map_map]
  rfl

end Writes

end WebCrawl.XPath
