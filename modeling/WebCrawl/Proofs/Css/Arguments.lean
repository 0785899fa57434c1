import Mathlib.Tactic.Common
import WebCrawl.Proofs.Css.Grammar

set_option autoImplicit false

/-!
# Reading attributes and indices

An attribute and an index are read exactly where they are spelled. Of an index that begins like a
numeral the longest progression is read if there is one; a numeral alone is spelled only where no
progression is, since the parenthesis that closes the index has to follow.

## Main results

* `WebCrawl.Css.attributeIfAny_eq_some_iff` — which attributes are read.
* `WebCrawl.Css.nth_eq_ok_iff` — which indices are read.
-/

namespace WebCrawl.Css

open Reader Text Computability
open Lexeme (recognizes_attributeName recognizes_bare recognizes_closeBracket recognizes_integer
  recognizes_keyword recognizes_openBracket recognizes_operator recognizes_quoted recognizes_spaced)

/-! ## Attributes -/

section Attributes

variable {s t u v w r x y op name value : Text} {q : Qualifier} {test : Text → AttributeTest}

/-- The operators are those that the pattern allows, and their tests are those that are made. -/
lemma mem_operators_iff : (op, test) ∈ operators ↔
    op ∈ Pattern.operator ∧ test = attributeTest op := by
  have htable : operators = [(['='], .equals), (['~', '='], .includes), (['|', '='], .dashMatch),
      (['^', '='], .beginsWith), (['$', '='], .endsWith), (['*', '='], .contains)] := by
    simp [operators]
  have hpattern : op ∈ Pattern.operator ↔ op = ['='] ∨
      ∃ c, op = [c, '='] ∧ c ∈ ['~', '|', '^', '$', '*'] := by
    rw [Pattern.operator, Language.mem_add, mem_mark, mem_one_mul]
    refine or_congr Iff.rfl (exists_congr fun c => ⟨?_, ?_⟩)
    · rintro ⟨y, rfl, hc, hy⟩
      obtain rfl := mem_mark.1 hy
      exact ⟨rfl, by simpa [or_assoc] using hc⟩
    · rintro ⟨rfl, hc⟩
      exact ⟨['='], rfl, by simpa [or_assoc] using hc, mem_mark.2 rfl⟩
  rw [htable, hpattern]
  simp only [List.mem_cons, List.not_mem_nil, or_false, Prod.mk.injEq]
  constructor
  · rintro (⟨rfl, rfl⟩ | ⟨rfl, rfl⟩ | ⟨rfl, rfl⟩ | ⟨rfl, rfl⟩ | ⟨rfl, rfl⟩ | ⟨rfl, rfl⟩)
    · exact ⟨.inl rfl, rfl⟩
    all_goals exact ⟨.inr ⟨_, rfl, by simp⟩, rfl⟩
  · rintro ⟨rfl | ⟨c, rfl, rfl | rfl | rfl | rfl | rfl⟩, rfl⟩
    · exact .inl ⟨rfl, rfl⟩
    · exact .inr (.inl ⟨rfl, rfl⟩)
    · exact .inr (.inr (.inl ⟨rfl, rfl⟩))
    · exact .inr (.inr (.inr (.inl ⟨rfl, rfl⟩)))
    · exact .inr (.inr (.inr (.inr (.inl ⟨rfl, rfl⟩))))
    · exact .inr (.inr (.inr (.inr (.inr ⟨rfl, rfl⟩))))

lemma attributeValue_eq_ok_iff : attributeValue s = .ok (value, r) ↔ Valued value s r := by
  unfold attributeValue
  rw [recognizes_quoted.token?_bind_eq_ok_iff]
  dsimp only
  simp only [pure_apply, Except.ok.injEq, Prod.mk.injEq, recognizes_bare.token_eq_ok_iff]
  constructor
  · rintro (⟨x, t, hx, rfl, rfl⟩ | ⟨-, h⟩)
    · exact .quoted hx
    · exact .bare h
  · intro h
    cases h with
    | quoted h => exact .inl ⟨_, _, h, rfl, rfl⟩
    | bare h =>
      have hzero := Lexeme.quoted_eq_zero_of_bare (recognizes_bare.takes_iff.1 h).1
      exact .inr ⟨recognizes_quoted.eq_zero_iff.1 hzero, h⟩

lemma afterOperator_eq_ok_iff : afterOperator name op s = .ok (q, r) ↔
    ∃ t value u v y, Gap s t ∧ Valued value t u ∧ Gap u v ∧ Takes (mark ']') y v r ∧
      q = .attr (lower name) (attributeTest op value) := by
  unfold afterOperator attributeEnd
  simp only [bind_of_ok (skipSpaces_apply _), bind_eq_ok_iff, attributeValue_eq_ok_iff,
    recognizes_closeBracket.discard_token_eq_ok_iff, pure_apply, Except.ok.injEq, Prod.mk.injEq,
    gap_iff]
  constructor
  · rintro ⟨value, u, hvalue, _, _, ⟨y, hy⟩, rfl, rfl⟩
    exact ⟨_, value, u, _, y, rfl, hvalue, rfl, hy, rfl⟩
  · rintro ⟨_, value, u, _, y, rfl, hvalue, rfl, hy, rfl⟩
    exact ⟨value, u, hvalue, (), r, ⟨y, hy⟩, rfl, rfl⟩

/-- An operator begins with no bracket. -/
lemma not_takes_closeBracket (h : Takes Pattern.operator op s r) (x t : Text) :
    ¬Takes (mark ']') x s t := by
  intro hclose
  have hhead := hclose.head_mark
  rw [h.append] at hhead
  rcases h.mem with hop | hop
  · rw [mem_mark.1 hop] at hhead
    simp at hhead
  · obtain ⟨c, y, rfl, hc, -⟩ := mem_one_mul.1 hop
    obtain rfl : c = ']' := by simpa using hhead
    cases hc

/-- What is read after an opening bracket makes up an attribute with it. -/
lemma afterBracket_eq_ok_iff (hopen : Takes (mark '[') x s t) :
    afterBracket t = .ok (q, r) ↔ ∃ name test, q = .attr name test ∧ Bracketed name test s r := by
  unfold afterBracket
  simp only [bind_of_ok (skipSpaces_apply _), bind_eq_ok_iff,
    recognizes_attributeName.token_eq_ok_iff, recognizes_closeBracket.accept_bind_eq_ok_iff, if_true,
    Bool.false_eq_true, if_false, recognizes_operator.token_eq_ok_iff, afterOperator_eq_ok_iff,
    pure_apply, Except.ok.injEq, Prod.mk.injEq]
  constructor
  · rintro ⟨name, v, hname, ⟨y, _, hclose, rfl, rfl⟩ | ⟨-, op, t', hop, u', value, v', w', y, hgap,
      hvalue, hgap', hclose, rfl⟩⟩
    · exact ⟨_, _, rfl, .present hopen (gap_iff.2 rfl) hname (gap_iff.2 rfl) hclose⟩
    · exact ⟨_, _, rfl, .compared hopen (gap_iff.2 rfl) hname (gap_iff.2 rfl) hop
        (mem_operators_iff.2 ⟨hop.mem, rfl⟩) hgap hvalue hgap' hclose⟩
  · rintro ⟨name, test, rfl, h⟩
    cases h with
    | present opening first named last closing =>
      obtain ⟨-, rfl⟩ := Takes.unique opening hopen
      obtain rfl := gap_iff.1 first
      obtain rfl := gap_iff.1 last
      exact ⟨_, _, named, .inl ⟨_, r, closing, rfl, rfl⟩⟩
    | compared opening first named second compared makes third valued last closing =>
      obtain ⟨-, rfl⟩ := Takes.unique opening hopen
      obtain rfl := gap_iff.1 first
      obtain rfl := gap_iff.1 second
      obtain ⟨-, rfl⟩ := mem_operators_iff.1 makes
      exact ⟨_, _, named, .inr ⟨not_takes_closeBracket compared, _, _, compared, _, _, _, _, _,
        third, valued, last, closing, rfl⟩⟩

/-- An attribute is read where one is spelled. -/
lemma attributeIfAny_eq_some_iff : attributeIfAny s = .ok (some q, r) ↔
    ∃ name test, q = .attr name test ∧ Bracketed name test s r := by
  by_cases hopen : Lexeme.openBracket s = 0
  · have hnone := recognizes_openBracket.eq_zero_iff.1 hopen
    rw [attributeIfAny_of_none hopen]
    refine ⟨fun h => by simp at h, ?_⟩
    rintro ⟨name, test, -, h⟩
    cases h with
    | present opening => exact absurd opening (hnone _ _)
    | compared opening => exact absurd opening (hnone _ _)
  · have htakes := recognizes_openBracket.takes_iff.2 ⟨hopen, rfl, rfl⟩
    have htoken := recognizes_openBracket.token?_eq_some_iff.2 htakes
    have hdiscard : discard (token? Lexeme.openBracket) s = .ok ((), _) := bind_of_ok htoken
    rw [attributeIfAny_of_open hopen, ← afterBracket_eq_ok_iff htakes]
    simp only [bind_eq_ok_iff, bracketed_eq, hdiscard, pure_apply, Except.ok.injEq, Prod.mk.injEq,
      Option.some.injEq]
    constructor
    · rintro ⟨q, r, ⟨_, _, ⟨-, rfl⟩, h⟩, rfl, rfl⟩
      exact h
    · exact fun h => ⟨q, r, ⟨(), _, ⟨trivial, rfl⟩, h⟩, rfl, rfl⟩

/-- Where no attribute is read nothing is taken. -/
lemma attributeIfAny_eq_none (h : attributeIfAny s = .ok (none, r)) : s = r := by
  by_cases hopen : Lexeme.openBracket s = 0
  · rw [attributeIfAny_of_none hopen] at h
    simpa using h
  · rw [attributeIfAny_of_open hopen] at h
    simp [bind_eq_ok_iff] at h

end Attributes

/-! ## Indices -/

section Indices

variable {s t u v r x : Text} {n : Nth}

/-- Digits are no letters. -/
lemma not_isDecimal_of_isAlpha {c : Char} (h : c.isAlpha = true) : isDecimal c = false := by
  have hbounds : '0'.val.toNat = 48 ∧ '9'.val.toNat = 57 ∧ 'A'.val.toNat = 65 ∧ 'Z'.val.toNat = 90 ∧
      'a'.val.toNat = 97 ∧ 'z'.val.toNat = 122 := ⟨rfl, rfl, rfl, rfl, rfl, rfl⟩
  have hval : c.toNat = c.val.toNat := rfl
  simp only [Char.isAlpha, Char.isUpper, Char.isLower, Bool.or_eq_true, Bool.and_eq_true,
    decide_eq_true_eq, ge_iff_le, UInt32.le_iff_toNat_le] at h
  have hrange : c.toNat < 128 := by omega
  rw [isDecimal, if_pos hrange]
  simp only [Char.isDigit, Bool.and_eq_false_iff, decide_eq_false_iff_not, ge_iff_le,
    UInt32.le_iff_toNat_le]
  omega

/-- The text begins as the numbers of indices do. -/
def StartsNumber (s : Text) : Prop :=
  ∃ c, s.head? = some c ∧ (c = '-' ∨ c = '+' ∨ isDecimal c = true ∨ c = 'n' ∨ c = 'N')

lemma startsNumber_append (hx : x ∈ Pattern.coefficient) (ht : x = [] → StartsNumber t) :
    StartsNumber (x ++ t) := by
  obtain ⟨y, z, hy, hz, rfl⟩ := mem_coefficient.1 hx
  rcases Lexeme.mem_optional_sign.1 hy with rfl | rfl | rfl
  · cases z with
    | nil => exact ht rfl
    | cons d z => exact ⟨d, rfl, .inr (.inr (.inl (hz d (List.mem_cons_self ..))))⟩
  · exact ⟨'-', rfl, .inl rfl⟩
  · exact ⟨'+', rfl, .inr (.inl rfl)⟩

/-- The numerals are factors of progressions. -/
lemma coefficient_of_integer (hx : x ∈ Pattern.integer) : x ∈ Pattern.coefficient ∧ x ≠ [] := by
  obtain ⟨y, hy, z, hz, rfl⟩ := Language.mem_mul.1 hx
  obtain ⟨hne, hall⟩ := mem_several.1 hz
  exact ⟨mem_coefficient.2 ⟨y, z, hy, hall, rfl⟩, by simp [hne]⟩

lemma startsNumber_of_integer (h : Takes Pattern.integer x s r) : StartsNumber s := by
  obtain ⟨hmem, hne⟩ := coefficient_of_integer h.mem
  rw [h.append]
  exact startsNumber_append hmem fun hnil => absurd hnil hne

lemma startsNumber_of_progression (h : Takes Pattern.progression x s r) : StartsNumber s := by
  obtain ⟨y, hy, w, hw, rfl⟩ := Language.mem_mul.1 h.mem
  obtain ⟨c, z, rfl, hc, -⟩ := mem_one_mul.1 hw
  rw [h.append, List.append_assoc]
  refine startsNumber_append hy fun _ => ⟨c, rfl, ?_⟩
  simp only [Bool.or_eq_true, beq_iff_eq] at hc
  tauto

/-- A text that begins with a word begins with its first letter, in either case. -/
lemma head_of_anyCase {c : Char} {word : Text} (h : Takes (anyCase (c :: word)) x s r) :
    ∃ d, s.head? = some d ∧ d.toLower = c := by
  have hx : lower x = c :: word := h.mem
  cases x with
  | nil => cases hx
  | cons d x => exact ⟨d, by rw [h.append]; rfl, (List.cons.inj hx).1⟩

/-- No number begins with a letter other than that of progressions. -/
lemma StartsNumber.not_takes {c : Char} {word : Text} (h : StartsNumber s) (hc : c.isAlpha = true)
    (hn : c ≠ 'n') (x t : Text) : ¬Takes (anyCase (c :: word)) x s t := by
  intro htakes
  obtain ⟨d, hd, rfl⟩ := head_of_anyCase htakes
  obtain ⟨d', hd', hstarts⟩ := h
  obtain rfl := Option.some.inj (hd.symm.trans hd')
  rw [Char.isAlpha_toLower_eq_isAlpha] at hc
  rcases hstarts with rfl | rfl | hdecimal | rfl | rfl
  · cases hc
  · cases hc
  · rw [not_isDecimal_of_isAlpha hc] at hdecimal
    cases hdecimal
  · exact hn rfl
  · exact hn rfl

/-- A numeral is no progression if no letter follows. -/
lemma progression?_eq_none_of_integer (h : Takes Pattern.integer x s r)
    (hr : ∀ c ∈ r.head?, isDecimal c = false ∧ c ≠ '-' ∧ c ≠ '+' ∧ c ≠ 'n' ∧ c ≠ 'N') :
    progression? s = none := by
  refine progression?_eq_none ?_
  rw [h.append, Lexeme.coefficientSize_eq_length (coefficient_of_integer h.mem).1
    fun c hc => ⟨(hr c hc).1, (hr c hc).2.1, (hr c hc).2.2.1⟩, List.drop_left]
  exact fun c hc => (hr c hc).2.2.2

/-- What an index closes with is none of the characters of its number. -/
lemma head_of_closing {c : Char} (h : Sign ')' s r) (hc : c ∈ s.head?) :
    isDecimal c = false ∧ c ≠ '-' ∧ c ≠ '+' ∧ c ≠ 'n' ∧ c ≠ 'N' := by
  rw [sign_iff rfl] at h
  obtain ⟨t, rfl⟩ := List.head?_eq_some_iff.1 hc
  by_cases hblank : isBlank c = true
  · refine ⟨excludes_isDecimal c (.inl hblank), ?_⟩
    refine ⟨?_, ?_, ?_, ?_⟩ <;> (rintro rfl; cases hblank)
  · rw [List.dropWhile_cons_of_neg hblank] at h
    obtain ⟨rfl, -⟩ := List.cons.inj h
    decide

/-- An argument is read where it is spelled, in front of what closes it. -/
lemma nthArgument_eq_ok_iff (hclose : Sign ')' r v) : nthArgument s = .ok (n, r) ↔ Argument n s r := by
  have heven : (Lexeme.keyword "even").Recognizes (anyCase "even") := recognizes_keyword (by simp)
  have hodd : (Lexeme.keyword "odd").Recognizes (anyCase "odd") := recognizes_keyword (by simp)
  rw [nthArgument_eq, heven.accept_bind_eq_ok_iff]
  simp only [if_true, Bool.false_eq_true, if_false, hodd.accept_bind_eq_ok_iff, pure_apply,
    Except.ok.injEq, Prod.mk.injEq]
  constructor
  · rintro (⟨x, t, hx, rfl, rfl⟩ | ⟨-, ⟨x, t, hx, rfl, rfl⟩ | ⟨-, h⟩⟩)
    · exact .even hx
    · exact .odd hx
    · cases hparts : progression? s with
      | some parts =>
        obtain ⟨w, a, b, hw, hvalue, rfl⟩ := (nthNumber_eq_ok_iff_of_some hparts).1 h
        exact .progression hw hvalue
      | none =>
        obtain ⟨w, b, hw, hvalue, rfl⟩ := (nthNumber_eq_ok_iff_of_none hparts).1 h
        exact .only hw hvalue
  · have hnumber : StartsNumber s → (∀ x t, ¬Takes (anyCase "even") x s t) ∧
        ∀ x t, ¬Takes (anyCase "odd") x s t := fun h =>
      ⟨h.not_takes (c := 'e') rfl (by decide), h.not_takes (c := 'o') rfl (by decide)⟩
    intro h
    cases h with
    | even h => exact .inl ⟨_, _, h, rfl, rfl⟩
    | odd h =>
      refine .inr ⟨fun x t hx => ?_, .inl ⟨_, _, h, rfl, rfl⟩⟩
      obtain ⟨d, hd, ho⟩ := head_of_anyCase (c := 'o') h
      obtain ⟨d', hd', he⟩ := head_of_anyCase (c := 'e') hx
      obtain rfl := Option.some.inj (hd.symm.trans hd')
      rw [ho] at he
      cases he
    | progression h value =>
      obtain ⟨hnoteven, hnotodd⟩ := hnumber (startsNumber_of_progression h)
      obtain ⟨parts, hparts, -⟩ := takes_progression_iff.1 h
      exact .inr ⟨hnoteven, .inr ⟨hnotodd,
        (nthNumber_eq_ok_iff_of_some hparts).2 ⟨_, _, _, h, value, rfl⟩⟩⟩
    | only h value =>
      obtain ⟨hnoteven, hnotodd⟩ := hnumber (startsNumber_of_integer h)
      have hnone := progression?_eq_none_of_integer h fun c hc => head_of_closing hclose hc
      exact .inr ⟨hnoteven, .inr ⟨hnotodd,
        (nthNumber_eq_ok_iff_of_none hnone).2 ⟨_, _, h, value, rfl⟩⟩⟩

/-- An index is read where it is spelled. -/
lemma nth_eq_ok_iff : nth s = .ok (n, r) ↔ Indexed n s r := by
  unfold nth
  simp only [Lexeme.openParen, Lexeme.closeParen, bind_of_ok (skipSpaces_apply _), bind_eq_ok_iff,
    discard_spaced_eq_ok_iff (c := '(') rfl, discard_spaced_eq_ok_iff (c := ')') rfl,
    sign_dropWhile_iff (c := ')') rfl, pure_apply, Except.ok.injEq, Prod.mk.injEq]
  constructor
  · rintro ⟨_, t, hopen, n, v, hargument, _, r, hclose, rfl, rfl⟩
    exact ⟨hopen, gap_iff.2 rfl, (nthArgument_eq_ok_iff hclose).1 hargument, hclose⟩
  · rintro ⟨opening, first, argument, closing⟩
    obtain rfl := gap_iff.1 first
    exact ⟨(), _, opening, n, _, (nthArgument_eq_ok_iff closing).2 argument, (), r, closing, rfl, rfl⟩

end Indices

end WebCrawl.Css
