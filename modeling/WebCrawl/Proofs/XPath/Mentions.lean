import Mathlib.Tactic.Common
import WebCrawl.Proofs.Text.Utf8
import WebCrawl.Proofs.XPath.Lexing

set_option autoImplicit false

/-!
# Names that an expression asks for

The names in the text of an expression are those of axes, functions and kinds of nodes, which are
written in ASCII, and those that its steps ask for. So a character beyond ASCII is found in the names
of the tokens exactly if it is found in the names that the steps ask for.

## Main definitions

* `WebCrawl.XPath.Expr.mentions` — a character stands in a name that a step asks for.
* `WebCrawl.XPath.Token.mentions` — a character stands in the name that a token is.

## Main results

* `WebCrawl.XPath.Spells.mentions_eq` — these are the same for a phrase and its tokens.
* `WebCrawl.XPath.mentions_of_parse` — and for an expression and the tokens of its text.
-/

namespace WebCrawl.XPath

open Text

/-! ## Definitions -/

/-- Whether the character stands in the name that a step asks for. -/
def NodeTest.mentions (d : Char) : NodeTest → Bool
  | .name asked => decide (d ∈ asked)
  | _ => false

mutual

/-- Whether the character stands in a name that a step of the expression asks for. -/
@[simp] def Expr.mentions (d : Char) : Expr → Bool
  | .or l r => l.mentions d || r.mentions d
  | .and l r => l.mentions d || r.mentions d
  | .compare _ l r => l.mentions d || r.mentions d
  | .arithmetic _ l r => l.mentions d || r.mentions d
  | .negate e => e.mentions d
  | .union l r => l.mentions d || r.mentions d
  | .path _ steps => mentionedInSteps d steps
  | .filter primary predicates steps =>
    primary.mentions d || mentionedInExprs d predicates || mentionedInSteps d steps
  | .literal _ => false
  | .number _ => false
  | .call _ arguments => mentionedInExprs d arguments

/-- The same of one of the expressions. -/
@[simp] def mentionedInExprs (d : Char) : List Expr → Bool
  | [] => false
  | e :: es => e.mentions d || mentionedInExprs d es

/-- The same of a step with its predicates. -/
@[simp] def Step.mentions (d : Char) : Step → Bool
  | .mk _ test predicates => test.mentions d || mentionedInExprs d predicates

/-- The same of one of the steps. -/
@[simp] def mentionedInSteps (d : Char) : List Step → Bool
  | [] => false
  | s :: ss => s.mentions d || mentionedInSteps d ss

end

/-- The same of a phrase. -/
def Phrase.mentions (d : Char) : Phrase → Bool
  | .expr _ e => e.mentions d
  | .primary e => e.mentions d
  | .predicates es => mentionedInExprs d es
  | .step s => s.mentions d
  | .steps ss => mentionedInSteps d ss
  | .arguments es => mentionedInExprs d es

/-- Whether the token is a name in which the character stands. -/
def Token.mentions (d : Char) : Token → Bool
  | .name asked => decide (d ∈ asked)
  | _ => false

/-! ## Names in ASCII -/

variable {d : Char}

/-- The names of functions are in ASCII. -/
lemma isAscii_of_function {text : Text} {f : Function} (h : Function.named? text = some f) :
    isAscii text = true := by
  have hall : ∀ entry ∈ Function.table, isAscii entry.1.toList = true := by decide +kernel
  obtain ⟨entry, hentry, -⟩ := Option.map_eq_some_iff.1 h
  obtain rfl : entry.1.toList = text := by simpa using List.find?_some hentry
  exact hall entry (List.mem_of_find?_eq_some hentry)

/-- The names of axes are in ASCII. -/
lemma any_mentions_of_axisSpelled (hd : 128 ≤ d.toNat) {axis : Axis} {ts : List Token}
    (h : AxisSpelled axis ts) : ts.any (·.mentions d) = false := by
  have hall : ∀ axis : Axis, isAscii axis.name = true := by
    intro axis
    cases axis <;> decide +kernel
  cases h with
  | child => rfl
  | attributes => simp [Token.mentions]
  | named h =>
    subst h
    simp [Token.mentions, not_mem_of_isAscii (hall axis) hd]

/-- The names of kinds of nodes are in ASCII, and the others are what a step asks for. -/
lemma any_mentions_of_testSpelled (hd : 128 ≤ d.toNat) {test : NodeTest} {ts : List Token}
    (h : TestSpelled test ts) : ts.any (·.mentions d) = test.mentions d := by
  have hall : ∀ {name : Text} {test : NodeTest}, TypeNamed name test →
      isAscii name = true ∧ test.mentions d = false := by
    rintro name test (_ | _ | _) <;> exact ⟨by decide +kernel, rfl⟩
  cases h with
  | any => rfl
  | name asked => simp [Token.mentions, NodeTest.mentions]
  | type h => simp [Token.mentions, not_mem_of_isAscii (hall h).1 hd, (hall h).2]

/-- An operator is no name, and leaves the names of its operands. -/
lemma mentions_of_operator {l : Level} {t : Token} {combine : Combination}
    (h : l.operator t = some combine) : t.mentions d = false ∧
      ∀ left right, (combine left right).mentions d = (left.mentions d || right.mentions d) := by
  cases l <;> cases t <;> first | (cases h; done) | (cases h; simp [Token.mentions])

/-! ## Phrases and texts -/

/-- A character beyond ASCII stands in a name that a phrase asks for exactly if it stands in a name
among its tokens. -/
theorem Spells.mentions_eq (hd : 128 ≤ d.toNat) {ph : Phrase} {ts : List Token} (h : Spells ph ts) :
    ph.mentions d = ts.any (·.mentions d) := by
  induction h <;> simp only [Phrase.mentions] at *
  case stronger h ih => exact ih
  case binary operator hl hr ihl ihr =>
    obtain ⟨ht, hcombine⟩ := mentions_of_operator (d := d) operator
    simp [hcombine, ihl, ihr, ht]
  case negate h ih => simp [Token.mentions, ih]
  case root => simp [Token.mentions]
  case absolute hs hss ihs ihss => simp [Token.mentions, ihs, ihss]
  case throughout hs hss ihs ihss =>
    simp [Step.throughout, NodeTest.mentions, Token.mentions, ihs, ihss]
  case relative hs hss ihs ihss => simp [ihs, ihss]
  case operand h ih => exact ih
  case filter h hps hss some ih ihps ihss => simp [ih, ihps, ihss, Bool.or_assoc]
  case parens h ih => simp [Token.mentions, ih]
  case literal text => simp [Token.mentions]
  case number value => simp [Token.mentions]
  case callNone named takes =>
    simp [Token.mentions, not_mem_of_isAscii (isAscii_of_function named) hd]
  case call named h hes takes ih ihes =>
    simp [Token.mentions, not_mem_of_isAscii (isAscii_of_function named) hd, ih, ihes]
  case noArguments => simp
  case argument h hes ih ihes => simp [Token.mentions, ih, ihes]
  case noPredicates => simp
  case predicate h hes ih ihes => simp [Token.mentions, ih, ihes]
  case here => simp [Step.here, NodeTest.mentions, Token.mentions]
  case up => simp [Step.up, NodeTest.mentions, Token.mentions]
  case step haxis htest hps ih =>
    simp [any_mentions_of_axisSpelled hd haxis, any_mentions_of_testSpelled hd htest, ih]
  case noSteps => simp
  case slash hs hss ihs ihss => simp [Token.mentions, ihs, ihss]
  case doubleSlash hs hss ihs ihss =>
    simp [Step.throughout, NodeTest.mentions, Token.mentions, ihs, ihss]

/-- A character beyond ASCII stands in a name that an expression asks for exactly if it stands in a
name among the tokens of its text. -/
theorem mentions_of_parse (hd : 128 ≤ d.toNat) {s : Text} {e : Expr} (h : parse s = .ok e) :
    ∃ ts, lex false s = some ts ∧ e.mentions d = ts.any (·.mentions d) := by
  obtain ⟨ts, hts, hspells⟩ := parse_eq_ok_iff.1 h
  exact ⟨ts, hts, hspells.mentions_eq hd⟩

end WebCrawl.XPath
