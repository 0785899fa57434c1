import WebCrawl.Proofs.Reader
import WebCrawl.Proofs.Text.Boundaries
import WebCrawl.XPath.Reading

set_option autoImplicit false

/-!
# Where the reading of an expression stands

Tokens begin at characters that are not blank, and so does what is no token. An expression is read
token by token, and what is left to read is always an end of the list of tokens. So a fault is
reported where a token begins, or where a character stands that begins none, or at the end.

## Main definitions

* `WebCrawl.XPath.BeginsAt` — a character of a text that is not blank begins at a byte.
* `WebCrawl.XPath.Stays` — what a reader leaves is an end of the list of tokens.

## Main results

* `WebCrawl.XPath.beginsAt_of_tokenize`, `WebCrawl.XPath.beginsAt_of_tokenize_error` — where tokens
  begin, and where there is none.
* `WebCrawl.XPath.stays_expression` — what is left to read is an end of the list of tokens.
* `WebCrawl.XPath.parse_error_offset` — where a fault is reported.
-/

namespace WebCrawl.XPath

open Reader Text

/-! ## Tokens -/

/-- A character of the text that is not blank begins at the byte. -/
def BeginsAt (s : Text) (n : Nat) : Prop :=
  ∃ c later, s.sliceFrom? n = some (c :: later) ∧ isBlank c = false

section Tokens

variable {s : Text} {b : Bool} {n k : Nat}

lemma beginsAt_zero {c : Char} (later : Text) (hc : isBlank c = false) :
    BeginsAt (c :: later) 0 := ⟨c, later, rfl, hc⟩

/-- What begins in a part of a text begins as much later in the whole. -/
lemma BeginsAt.append (h : BeginsAt s n) (before : Text) :
    BeginsAt (before ++ s) (byteSize before + n) := by
  obtain ⟨c, later, hslice, hc⟩ := h
  obtain ⟨front, rfl, rfl⟩ := sliceFrom?_eq_some_iff.1 hslice
  refine ⟨c, later, ?_, hc⟩
  rw [← List.append_assoc, ← byteSize_append]
  exact sliceFrom?_append _ _

/-- Where a token or what is none begins, in a part of a text, is where it begins in the whole. -/
lemma exists_beginsAt_append {start : Nat} (before : Text)
    (h : ∃ n, k = start + byteSize before + n ∧ BeginsAt s n) :
    ∃ n, k = start + n ∧ BeginsAt (before ++ s) n := by
  obtain ⟨n, rfl, hn⟩ := h
  exact ⟨byteSize before + n, Nat.add_assoc _ _ _, hn.append before⟩

/-- Every token begins at a character that is not blank, and so does what is no token. -/
lemma beginsAt_of_tokensFrom (start : Nat) (b : Bool) (s : Text) :
    (∀ tokens, tokensFrom start b s = .ok tokens →
      ∀ t ∈ tokens, ∃ n, t.offset = start + n ∧ BeginsAt s n) ∧
    ∀ fault k, tokensFrom start b s = .error (fault, k) → ∃ n, k = start + n ∧ BeginsAt s n := by
  fun_induction tokensFrom start b s with
  | case1 start b =>
    refine ⟨?_, nofun⟩
    rintro _ ⟨⟩ t ht
    cases ht
  | case2 start b c cs hblank ih =>
    refine ⟨fun tokens h t ht => ?_, fun fault k h => ?_⟩
    · exact exists_beginsAt_append [c] (ih.1 tokens h t ht)
    · exact exists_beginsAt_append [c] (ih.2 fault k h)
  | case3 start b c cs hblank fault htoken =>
    refine ⟨nofun, ?_⟩
    rintro _ _ ⟨⟩
    exact ⟨0, rfl, beginsAt_zero cs (by simpa using hblank)⟩
  | case4 start b c cs hblank token size htoken ih =>
    have hsplit : c :: cs = (c :: cs.take size) ++ cs.drop size := by simp
    have hstart : start + c.utf8Size + byteSize (cs.take size) =
        start + byteSize (c :: cs.take size) := Nat.add_assoc _ _ _
    rw [hstart] at ih ⊢
    rw [hsplit]
    cases hlater : tokensFrom (start + byteSize (c :: cs.take size)) token.endsOperand
        (cs.drop size) with
    | error e =>
      refine ⟨nofun, ?_⟩
      rintro fault k ⟨⟩
      exact exists_beginsAt_append _ (ih.2 fault k hlater)
    | ok later =>
      refine ⟨?_, nofun⟩
      rintro _ ⟨⟩ t ht
      rcases List.mem_cons.1 ht with rfl | ht
      · exact ⟨0, rfl, beginsAt_zero _ (by simpa using hblank)⟩
      · exact exists_beginsAt_append _ (ih.1 later hlater t ht)

/-- A token begins at a character that is not blank. -/
theorem beginsAt_of_tokenize {tokens : List Located} (h : tokenize s = .ok tokens) :
    ∀ t ∈ tokens, BeginsAt s t.offset := by
  intro t ht
  obtain ⟨n, hn, hbegins⟩ := (beginsAt_of_tokensFrom 0 false s).1 tokens h t ht
  rwa [hn, Nat.zero_add]

/-- What is no token begins at a character that is not blank. -/
theorem beginsAt_of_tokenize_error {fault : Fault} (h : tokenize s = .error (fault, k)) :
    BeginsAt s k := by
  obtain ⟨n, rfl, hbegins⟩ := (beginsAt_of_tokensFrom 0 false s).2 fault k h
  rwa [Nat.zero_add]

end Tokens

/-! ## Readers -/

section Readers

variable {tokens : List Located} {α : Type} {inner : Parser Expr}

/-- What is left to read is an end of the list of tokens. -/
abbrev Stays (tokens : List Located) (p : Parser α) : Prop := Keeps (· <:+ tokens) p

/-! ### Single tokens -/

lemma stays_skip (n : Nat) : Stays tokens (skip n) := fun s hs =>
  ⟨by rintro _ _ ⟨⟩; exact (List.drop_suffix n s).trans hs, nofun⟩

lemma stays_peek : Stays tokens peek := Keeps.rest.bind fun _ => .pure _

lemma stays_peekSecond : Stays tokens peekSecond := Keeps.rest.bind fun _ => .pure _

lemma stays_accept (token : Token) : Stays tokens (accept token) :=
  stays_peek.bind fun _ => .ite ((stays_skip 1).bind fun _ => .pure _) (.pure _)

lemma stays_expect (token : Token) (fault : Fault) : Stays tokens (expect token fault) :=
  (stays_accept token).bind fun _ => .ite (.pure _) (.fail _)

/-! ### Operators -/

lemma stays_chain {operand : Parser Expr} (h : Stays tokens operand)
    (operator : Token → Option Combination) : Stays tokens (chain operand operator) := by
  have hfurther : Stays tokens (furtherOperand operand operator) := by
    refine stays_peek.bind fun next => ?_
    cases next.bind operator with
    | none => exact .pure _
    | some combine => exact (stays_skip 1).bind fun _ => h.bind fun _ => .pure _
  exact h.bind fun first => hfurther.many.bind fun more => .pure _

/-! ### Steps -/

lemma stays_predicate (h : Stays tokens inner) : Stays tokens (predicate inner) := by
  refine (stays_accept _).bind fun found => .ite ?_ (.pure _)
  exact h.bind fun condition => (stays_expect _ _).bind fun _ => .pure _

lemma stays_stepAxis : Stays tokens stepAxis := by
  refine (stays_accept _).bind fun attributes => .ite (.pure _) ?_
  refine stays_peek.bind fun first => stays_peekSecond.bind fun second => ?_
  split
  · exact (Keeps.require _ _).bind fun axis => (stays_skip 2).bind fun _ => .pure _
  · exact .pure _

lemma stays_nodeTest : Stays tokens nodeTest := by
  refine stays_peek.bind fun first => ?_
  split
  · exact (stays_skip 1).bind fun _ => .pure _
  · refine (stays_skip 1).bind fun _ => stays_peek.bind fun second => ?_
    split
    · exact (stays_skip 1).bind fun _ => (stays_expect _ _).bind fun _ => .pure _
    · exact .pure _
  · exact .fail _

lemma stays_step (h : Stays tokens inner) : Stays tokens (step inner) := by
  refine (stays_accept _).bind fun here => .ite (.pure _) ?_
  refine (stays_accept _).bind fun up => .ite (.pure _) ?_
  refine stays_stepAxis.bind fun axis => stays_nodeTest.bind fun test => ?_
  exact (stays_predicate h).many.bind fun predicates => .pure _

lemma stays_furtherSteps (h : Stays tokens inner) : Stays tokens (furtherSteps inner) := by
  refine (stays_accept _).bind fun one => .ite ((stays_step h).bind fun _ => .pure _) ?_
  exact (stays_accept _).bind fun two => .ite ((stays_step h).bind fun _ => .pure _) (.pure _)

lemma stays_stepsAfter (h : Stays tokens inner) (begun : List Step) :
    Stays tokens (stepsAfter inner begun) :=
  (stays_step h).bind fun _ => (stays_furtherSteps h).many.bind fun _ => .pure _

lemma stays_locationPath (h : Stays tokens inner) : Stays tokens (locationPath inner) := by
  have hsteps : ∀ absolute begun, Stays tokens (do
      return .path absolute (← stepsAfter inner begun) : Parser Expr) :=
    fun absolute begun => (stays_stepsAfter h begun).bind fun _ => .pure _
  refine (stays_accept _).bind fun one => .ite ?_ ?_
  · exact stays_peek.bind fun next => .ite (hsteps _ _) (.pure _)
  · exact (stays_accept _).bind fun two => .ite (hsteps _ _) (hsteps _ _)

/-! ### Operands -/

lemma stays_arguments (h : Stays tokens inner) : Stays tokens (arguments inner) := by
  have hfurther : Stays tokens (furtherArgument inner) :=
    (stays_accept _).bind fun _ => .ite (h.bind fun _ => .pure _) (.pure _)
  refine (stays_skip 1).bind fun _ => (stays_accept _).bind fun close => .ite (.pure _) ?_
  refine h.bind fun first => hfurther.many.bind fun more => ?_
  exact (stays_expect _ _).bind fun _ => .pure _

lemma stays_functionCall (h : Stays tokens inner) (name : Text) :
    Stays tokens (functionCall inner name) := by
  refine (Keeps.require _ _).bind fun function => (stays_skip 1).bind fun _ => ?_
  refine (stays_arguments h).bind fun arguments => ?_
  exact .ite (.pure _) ((Keeps.fail _).bind fun _ => .pure _)

lemma stays_primary (h : Stays tokens inner) : Stays tokens (primary inner) := by
  refine stays_peek.bind fun next => ?_
  split
  · refine (stays_skip 1).bind fun _ => h.bind fun e => ?_
    exact (stays_expect _ _).bind fun _ => .pure _
  · exact (stays_skip 1).bind fun _ => .pure _
  · exact (stays_skip 1).bind fun _ => .pure _
  · exact stays_functionCall h _
  · exact .fail _

lemma stays_path (h : Stays tokens inner) : Stays tokens (path inner) := by
  refine stays_peek.bind fun first => stays_peekSecond.bind fun second => .ite ?_ ?_
  · refine (stays_primary h).bind fun e => (stays_predicate h).many.bind fun predicates => ?_
    exact (stays_furtherSteps h).many.bind fun steps => .ite (.pure _) (.pure _)
  · exact stays_locationPath h

lemma stays_negation (h : Stays tokens inner) : Stays tokens (negation inner) := by
  have hsign : Stays tokens minusSign := (stays_accept _).bind fun _ => .pure _
  exact hsign.many.bind fun signs => (stays_chain (stays_path h) _).bind fun operand => .pure _

/-- What is left to read of an expression, also when it is none, is an end of the list of tokens. -/
theorem stays_expression (depth : Nat) : Stays tokens (expression depth) := by
  induction depth with
  | zero => exact .fail _
  | succ depth ih =>
    exact stays_chain (stays_chain (stays_chain (stays_chain (stays_chain (stays_chain
      (stays_negation ih) _) _) _) _) _) _

end Readers

/-! ## Faults -/

/-- What is left of the tokens where a fault was found is an end of the list. -/
lemma suffix_of_parseTokens {tokens r : List Located} {fault : Fault}
    (h : parseTokens tokens = .error (fault, r)) : r <:+ tokens := by
  unfold parseTokens at h
  split at h
  · cases h
    exact List.nil_suffix
  · split at h
    case h_1 e he =>
      cases h
      exact (stays_expression _).of_error (List.suffix_refl tokens) he
    case h_2 => cases h
    case h_3 e rest hne hrest =>
      cases h
      exact (stays_expression _).of_ok (List.suffix_refl tokens) hrest

/-- A fault is reported at the end, where a token begins, or where a character stands that begins no
token. -/
theorem parse_error_offset {s : Text} {fault : Fault} {n : Nat} (h : parse s = .error (fault, n)) :
    n = byteSize s ∨ BeginsAt s n ∧
      ((∃ tokens t, tokenize s = .ok tokens ∧ t ∈ tokens ∧ t.offset = n) ∨
        tokenize s = .error (fault, n)) := by
  unfold parse at h
  cases htokens : tokenize s with
  | error e =>
    rw [htokens] at h
    cases h
    exact .inr ⟨beginsAt_of_tokenize_error htokens, .inr rfl⟩
  | ok tokens =>
    rw [htokens] at h
    cases hparse : parseTokens tokens with
    | ok e => simp [hparse] at h
    | error e =>
      obtain ⟨fault', r⟩ := e
      simp only [hparse, Except.error.injEq, Prod.mk.injEq] at h
      obtain ⟨-, rfl⟩ := h
      have hsuffix := suffix_of_parseTokens hparse
      cases r with
      | nil => exact .inl rfl
      | cons t r =>
        have ht : t ∈ tokens := hsuffix.mem List.mem_cons_self
        exact .inr ⟨beginsAt_of_tokenize htokens t ht, .inl ⟨tokens, t, rfl, ht, rfl⟩⟩

end WebCrawl.XPath
