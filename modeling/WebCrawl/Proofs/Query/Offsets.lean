import WebCrawl.Proofs.Css.Offsets
import WebCrawl.Proofs.XPath.Offsets
import WebCrawl.Query.Compiled

set_option autoImplicit false

/-!
# The bytes at which queries are wrong

What is wrong with a selector or an expression is reported with its text and a byte of it. That byte
is never in the middle of a character, and never among blanks before or after a selector.

## Main results

* `WebCrawl.Query.boundary_of_reaches` — a position in the trimmed text as a position in the whole.
* `WebCrawl.Query.error_offsets` — the byte that an error names.
-/

namespace WebCrawl.Query

open Text

variable {s : Text} {n k : Nat}

/-- A position in the trimmed text is one in the whole text, after the blanks before it and not
after those behind it. -/
lemma boundary_of_reaches (h : Css.Reaches (trim s) k) :
    s.IsBoundary (byteSize (s.takeWhile isBlank) + k) ∧
      (trim s ≠ [] → byteSize (s.takeWhile isBlank) + k ≤ byteSize (trimEnd s)) := by
  have hk : (trim s).IsBoundary k := Option.isSome_iff_exists.2 h.slice
  refine ⟨?_, fun hne => ?_⟩
  · obtain ⟨after, hafter⟩ := trimEnd_prefix (trimStart s)
    have hs : s.takeWhile isBlank ++ trim s ++ after = s := by
      rw [List.append_assoc, trim, hafter, takeWhile_append_trimStart]
    have hboundary := hk.append (s.takeWhile isBlank) after
    rwa [hs] at hboundary
  · rw [trimEnd_eq hne, byteSize_append]
    exact Nat.add_le_add_left hk.le _

/-- An invalid selector could not be read, and the error names it and the byte of the fault. -/
lemma parse_of_invalidCss {scope : Css.Scope} {t reason : Text}
    (h : expressionOf s scope = .error (.invalidCss t n reason)) :
    t = s ∧ ∃ fault, Css.parse s = .error (fault, n) := by
  unfold expressionOf at h
  split at h
  case h_1 => cases h
  case h_2 => cases h
  case h_3 fault offset hne hparse =>
    cases h
    exact ⟨rfl, fault, hparse⟩

/-- An invalid expression could not be read, and the error names it and the byte of the fault. -/
lemma parse_of_invalidXPath {t reason : Text}
    (h : compile (.xpath s) = .error (.invalidXPath t n reason)) :
    t = s ∧ ∃ fault, XPath.parse s = .error (fault, n) := by
  change ofXPath s = _ at h
  unfold ofXPath at h
  split at h
  case h_1 => cases h
  case h_2 fault offset hparse =>
    cases h
    exact ⟨rfl, fault, hparse⟩

/-- For every text, read as a selector in any scope or as an expression:

* an error of a selector names the selector itself and a byte at which it can be cut, which is not
  before the end of the blanks at its start and not behind the start of those at its end; if there
  are nothing but blanks it is the end;
* an error of an expression names the expression itself and its end, or a byte at which a character
  begins that is not blank: the first one of a token, or one with which no token begins;
* wherever the position in a trimmed selector can come to while it is read, the selector can be cut
  there, and what is taken from there on is no more than what is left. The byte that an error of a
  selector names is such a position.

**Proof sketch.** Readers of selectors move only over lexemes and progressions, and readers of
expressions only over tokens, also when they fail. Tokens begin at characters that are not blank. -/
theorem error_offsets (s : Text) (scope : Css.Scope) :
    (∀ t n reason, expressionOf s scope = .error (.invalidCss t n reason) →
      t = s ∧ s.IsBoundary n ∧ byteSize (s.takeWhile isBlank) ≤ n ∧
      ((∀ c ∈ s, isBlank c = true) → n = byteSize s) ∧
      ((∃ c ∈ s, isBlank c = false) → n ≤ byteSize (trimEnd s)) ∧
      ∃ k, Css.Reaches (trim s) k ∧ n = byteSize (s.takeWhile isBlank) + k) ∧
    (∀ t n reason, compile (.xpath s) = .error (.invalidXPath t n reason) →
      t = s ∧ (n = byteSize s ∨
        (∃ c later, s.sliceFrom? n = some (c :: later) ∧ isBlank c = false) ∧
        ((∃ tokens token, XPath.tokenize s = .ok tokens ∧ token ∈ tokens ∧ token.offset = n) ∨
          ∃ fault, XPath.tokenize s = .error (fault, n)))) ∧
    ∀ k, Css.Reaches (trim s) k → ∃ rest, (trim s).sliceFrom? k = some rest ∧
      (∀ lexeme ∈ Css.lexemes, lexeme rest ≤ rest.length) ∧
      ∀ parts, Css.progression? rest = some parts → parts.size ≤ rest.length := by
  refine ⟨fun t n reason h => ?_, fun t n reason h => ?_, fun k hk => ?_⟩
  · obtain ⟨rfl, fault, hparse⟩ := parse_of_invalidCss h
    obtain ⟨k, hk, rfl⟩ := Css.parse_error_offset hparse
    obtain ⟨hboundary, hle⟩ := boundary_of_reaches hk
    refine ⟨rfl, hboundary, Nat.le_add_right _ _, fun hblank => ?_, ?_, k, hk, rfl⟩
    · rw [hk.eq_zero (trim_eq_nil_iff.2 hblank), List.takeWhile_eq_self_iff.2 hblank, Nat.add_zero]
    · rintro ⟨c, hc, hcblank⟩
      refine hle fun hnil => ?_
      rw [trim_eq_nil_iff.1 hnil c hc] at hcblank
      cases hcblank
  · obtain ⟨rfl, fault, hparse⟩ := parse_of_invalidXPath h
    obtain hend | ⟨hbegins, htoken⟩ := XPath.parse_error_offset hparse
    · exact ⟨rfl, .inl hend⟩
    · exact ⟨rfl, .inr ⟨hbegins, htoken.imp_right fun hnone => ⟨fault, hnone⟩⟩⟩
  · obtain ⟨rest, hrest⟩ := hk.slice
    exact ⟨rest, hrest, fun lexeme mem => Css.lexeme_le mem rest, fun parts => Css.progression?_le⟩

/-- What went wrong, if something did. -/
def fault? {ε α : Type} : Except ε α → Option ε
  | .error e => some e
  | .ok _ => none

lemma fault?_eq_some {ε α : Type} {x : Except ε α} {e : ε} (h : fault? x = some e) :
    x = .error e := by
  cases x with
  | error e' => exact congrArg Except.error (Option.some.inj h)
  | ok a => cases h

/-- In a selector with a wide blank before it, of three bytes, and another behind it, the
parenthesis at byte seven is wrong. In an expression that begins with a letter of two bytes, the
number sign at byte three is. -/
theorem error_offsets_of_wide_characters :
    let selector : Text := "\u3000div )\u3000"
    let expression : Text := "\u00e9 #"
    expressionOf selector .document =
        .error (.invalidCss selector 7 Css.Fault.expectedCompound.reason) ∧
      selector.IsBoundary 7 ∧ 7 ≤ byteSize (trimEnd selector) ∧
      compile (.xpath expression) =
        .error (.invalidXPath expression 3 XPath.Fault.unexpectedCharacter.reason) ∧
      ∃ c later, expression.sliceFrom? 3 = some (c :: later) ∧ isBlank c = false := by
  intro selector expression
  have hparse : Css.parse selector = .error (.expectedCompound, 7) :=
    fault?_eq_some (by decide +kernel)
  have hselector : expressionOf selector .document =
      .error (.invalidCss selector 7 Css.Fault.expectedCompound.reason) := by
    rw [expressionOf, hparse]
  have hparse' : XPath.parse expression = .error (.unexpectedCharacter, 3) :=
    fault?_eq_some (by decide +kernel)
  have hexpression : compile (.xpath expression) =
      .error (.invalidXPath expression 3 XPath.Fault.unexpectedCharacter.reason) := by
    rw [compile, ofXPath, hparse']
  obtain ⟨hcss, -, -⟩ := error_offsets selector .document
  obtain ⟨-, hxpath, -⟩ := error_offsets expression .document
  obtain ⟨-, hboundary, -, -, hle, -⟩ := hcss _ _ _ hselector
  obtain ⟨-, hend | ⟨hbegins, -⟩⟩ := hxpath _ _ _ hexpression
  · exact absurd hend (by decide +kernel)
  · exact ⟨hselector, hboundary, hle ⟨'d', by decide +kernel, rfl⟩, hexpression, hbegins⟩

end WebCrawl.Query
