import WebCrawl.Proofs.Css.Extension
import WebCrawl.Proofs.Text.Boundaries

set_option autoImplicit false

/-!
# Where the reading of a selector stands

While a selector is read, the position in its text moves only over what a lexeme takes, or over a
progression. So it always stands where a character begins or at the end, and whatever is wrong is
reported at such a position.

## Main definitions

* `WebCrawl.Css.lexemes` — the lexemes over which the position moves.
* `WebCrawl.Css.Reaches` — the positions that can be reached.
* `WebCrawl.Css.IsRest` — what is left to read at such a position.

## Main results

* `WebCrawl.Css.Reaches.slice` — a text can be cut at every position that is reached.
* `WebCrawl.Css.keeps_group` — the whole reading stays at such positions.
* `WebCrawl.Css.parse_error_offset` — where a fault is reported.
-/

namespace WebCrawl.Css

open Reader Text

/-! ## Positions -/

/-- The lexemes over which the position moves. -/
def lexemes : List Lexeme :=
  [Lexeme.spaces, Lexeme.comma, Lexeme.element, Lexeme.className, Lexeme.identifier,
    Lexeme.pseudoClass, Lexeme.openBracket, Lexeme.closeBracket, Lexeme.attributeName,
    Lexeme.quoted, Lexeme.bare, Lexeme.operator, Lexeme.openParen, Lexeme.closeParen,
    Lexeme.keyword "even", Lexeme.keyword "odd", Lexeme.integer, Lexeme.plus, Lexeme.tilde,
    Lexeme.greater]

/-- The bytes at which the position can stand: the start, and from there on behind what a lexeme or
a progression takes of the text from the position on. -/
inductive Reaches (body : Text) : Nat → Prop where
  | start : Reaches body 0
  | lexeme {n : Nat} {rest : Text} {lexeme : Lexeme} (here : Reaches body n)
    (slice : body.sliceFrom? n = some rest) (mem : lexeme ∈ lexemes) :
    Reaches body (n + byteSize (rest.take (lexeme rest)))
  | progression {n : Nat} {rest : Text} {parts : ProgressionLexeme} (here : Reaches body n)
    (slice : body.sliceFrom? n = some rest) (found : progression? rest = some parts) :
    Reaches body (n + byteSize (rest.take parts.size))

/-- What is left to read at a position that can be reached. -/
def IsRest (body rest : Text) : Prop := ∃ n, Reaches body n ∧ body.sliceFrom? n = some rest

section Positions

variable {body rest : Text} {n : Nat}

/-- Behind some of the characters that are left, the text can be cut. -/
lemma sliceFrom?_take (h : body.sliceFrom? n = some rest) (k : Nat) :
    body.sliceFrom? (n + byteSize (rest.take k)) = some (rest.drop k) := by
  obtain ⟨before, rfl, rfl⟩ := sliceFrom?_eq_some_iff.1 h
  refine sliceFrom?_eq_some_iff.2 ⟨before ++ rest.take k, ?_, byteSize_append _ _⟩
  rw [List.append_assoc, List.take_append_drop]

/-- A text can be cut at every position that is reached. -/
theorem Reaches.slice (h : Reaches body n) : ∃ rest, body.sliceFrom? n = some rest := by
  induction h with
  | start => exact ⟨body, by cases body <;> rfl⟩
  | lexeme here slice mem ih => exact ⟨_, sliceFrom?_take slice _⟩
  | progression here slice found ih => exact ⟨_, sliceFrom?_take slice _⟩

/-- In an empty text only the start is reached. -/
lemma Reaches.eq_zero (h : Reaches body n) (hbody : body = []) : n = 0 := by
  have hle : n ≤ byteSize body := IsBoundary.le (Option.isSome_iff_exists.2 h.slice)
  rw [hbody] at hle
  exact Nat.le_zero.1 hle

lemma isRest_self (body : Text) : IsRest body body :=
  ⟨0, .start, by cases body <;> rfl⟩

lemma IsRest.lexeme (h : IsRest body rest) {lexeme : Lexeme} (mem : lexeme ∈ lexemes) :
    IsRest body (rest.drop (lexeme rest)) := by
  obtain ⟨n, here, slice⟩ := h
  exact ⟨_, .lexeme here slice mem, sliceFrom?_take slice _⟩

lemma IsRest.progression (h : IsRest body rest) {parts : ProgressionLexeme}
    (found : progression? rest = some parts) : IsRest body (rest.drop parts.size) := by
  obtain ⟨n, here, slice⟩ := h
  exact ⟨_, .progression here slice found, sliceFrom?_take slice _⟩

end Positions

/-! ## What is taken -/

/-- A lexeme takes no more than there is. -/
theorem lexeme_le {lexeme : Lexeme} (mem : lexeme ∈ lexemes) (s : Text) :
    lexeme s ≤ s.length := by
  have hquoted : Lexeme.quoted s ≤ s.length := by
    by_cases h : Lexeme.quoted s = 0
    · exact h ▸ Nat.zero_le _
    · exact (Lexeme.quoted_append (t := []) h).1
  simp only [lexemes, List.mem_cons, List.not_mem_nil, or_false] at mem
  rcases mem with rfl | rfl | rfl | rfl | rfl | rfl | rfl | rfl | rfl | rfl | rfl | rfl | rfl |
    rfl | rfl | rfl | rfl | rfl | rfl | rfl
  · exact Lexeme.settled_spaces.le s
  · exact Lexeme.settled_comma.le s
  · exact Lexeme.settled_element.1.le s
  · exact Lexeme.settled_className.1.le s
  · exact Lexeme.settled_identifier.1.le s
  · exact Lexeme.settled_pseudoClass.1.le s
  · exact Lexeme.settled_openBracket.1.le s
  · exact Lexeme.settled_closeBracket.1.le s
  · exact Lexeme.settled_attributeName.1.le s
  · exact hquoted
  · exact Lexeme.run_le _ s
  · exact Lexeme.settled_operator.le s
  · exact (Lexeme.settled_spaced _).le s
  · exact (Lexeme.settled_spaced _).le s
  · exact (Lexeme.settled_keyword isAlpha_of_mem_even).le s
  · exact (Lexeme.settled_keyword isAlpha_of_mem_odd).le s
  · exact Lexeme.settled_integer.le s
  · exact (Lexeme.settled_spaced _).le s
  · exact (Lexeme.settled_spaced _).le s
  · exact (Lexeme.settled_spaced _).le s

/-- The offset of a progression is no longer than the text. -/
lemma progressionOffset?_le {s : Text} {parts : Bool × Text × Nat}
    (h : progressionOffset? s = some parts) : parts.2.2 ≤ s.length := by
  have hs := congrArg List.length (List.takeWhile_append_dropWhile (p := isBlank) (l := s))
  rw [List.length_append] at hs
  cases hdrop : s.dropWhile isBlank with
  | nil =>
    have hnil : s.drop (Lexeme.run isBlank s) = [] := (XPath.drop_length_takeWhile _ _).trans hdrop
    simp [progressionOffset?, hnil] at h
  | cons c r =>
    have hr := congrArg List.length (List.takeWhile_append_dropWhile (p := isBlank) (l := r))
    have hdigits : ((r.dropWhile isBlank).takeWhile isDecimal).length ≤
        (r.dropWhile isBlank).length := (List.takeWhile_prefix isDecimal).length_le
    rw [List.length_append] at hr
    rw [hdrop, List.length_cons] at hs
    rw [progressionOffset?_eq hdrop] at h
    split at h
    · split at h
      · cases h
      · obtain rfl := Option.some.inj h
        simp only [Lexeme.run]
        omega
    · cases h

/-- A progression takes no more than there is. -/
theorem progression?_le {s : Text} {parts : ProgressionLexeme} (h : progression? s = some parts) :
    parts.size ≤ s.length := by
  have hsize := coefficientSize_le s
  cases hdrop : s.drop (coefficientSize s) with
  | nil => simp [progression?_eq_none (s := s) (by simp [hdrop])] at h
  | cons c r =>
    have hlength := congrArg List.length hdrop
    rw [List.length_drop, List.length_cons] at hlength
    by_cases hc : c = 'n' ∨ c = 'N'
    · rw [progression?_eq_some hdrop hc] at h
      split at h
      · rename_i negative digits n hoffset
        have hle := progressionOffset?_le hoffset
        obtain rfl := Option.some.inj h
        dsimp only at hle ⊢
        omega
      · obtain rfl := Option.some.inj h
        dsimp only
        omega
    · rw [not_or] at hc
      simp [progression?_eq_none (s := s) (by simp [hdrop, hc])] at h

/-! ## Readers -/

section Readers

variable {body : Text} {I : Text → Prop}

/-! ### Lexemes -/

lemma keeps_token? {lexeme : Lexeme} (mem : lexeme ∈ lexemes) :
    Keeps (IsRest body) (token? lexeme) := by
  intro s hs
  unfold token?
  split
  · exact ⟨by rintro _ _ ⟨⟩; exact hs, nofun⟩
  · exact ⟨by rintro _ _ ⟨⟩; exact hs.lexeme mem, nofun⟩

lemma keeps_token {lexeme : Lexeme} (mem : lexeme ∈ lexemes) (fault : Fault) :
    Keeps (IsRest body) (token lexeme fault) := (keeps_token? mem).bind fun _ => .require _ _

lemma keeps_accept {lexeme : Lexeme} (mem : lexeme ∈ lexemes) :
    Keeps (IsRest body) (accept lexeme) := (keeps_token? mem).bind fun _ => .pure _

lemma keeps_skipSpaces : Keeps (IsRest body) skipSpaces :=
  (keeps_token? (by simp [lexemes])).discard

/-! ### Arguments -/

lemma keeps_integerOf (numeral : Text) : Keeps I (integerOf numeral) := .require _ _

lemma keeps_coefficientOf (numeral : Text) : Keeps I (coefficientOf numeral) :=
  .ite (.pure _) (.ite (.pure _) (keeps_integerOf numeral))

lemma keeps_offsetOf (offset : Option (Bool × Text)) : Keeps I (offsetOf offset) := by
  cases offset with
  | none => exact .pure 0
  | some parts => exact (keeps_integerOf _).bind fun _ => .pure _

/-- The parts of a progression are read while the position stands before it, and only then the
position moves behind it. -/
lemma keeps_nthNumber : Keeps (IsRest body) nthNumber := by
  intro s hs
  cases hparts : progression? s with
  | some parts =>
    rw [nthNumber_of_some hparts]
    refine ⟨fun argument r h => ?_, fun fault r h => ?_⟩
    · obtain ⟨a, t, ha, hrest⟩ := bind_eq_ok_iff.1 h
      obtain ⟨rfl, -⟩ := Silent.coefficientOf _ ha
      obtain ⟨b, u, hb, hskip⟩ := bind_eq_ok_iff.1 hrest
      obtain ⟨rfl, -⟩ := Silent.offsetOf _ hb
      cases hskip
      exact hs.progression hparts
    · obtain hcoefficient | ⟨a, t, ha, hrest⟩ := bind_eq_error_iff.1 h
      · exact (keeps_coefficientOf _).of_error hs hcoefficient
      · have ht := (keeps_coefficientOf _).of_ok hs ha
        obtain hoffset | ⟨b, u, -, hskip⟩ := bind_eq_error_iff.1 hrest
        · exact (keeps_offsetOf _).of_error ht hoffset
        · cases hskip
  | none =>
    rw [nthNumber_of_none hparts]
    have hinteger : Lexeme.integer ∈ lexemes := by simp [lexemes]
    exact (keeps_token hinteger _).bind
      (fun numeral => (keeps_integerOf numeral).bind fun b => .pure (Nth.only b)) hs

lemma keeps_nthArgument : Keeps (IsRest body) nthArgument := by
  rw [nthArgument_eq]
  refine (keeps_accept (by simp [lexemes])).bind fun even => .ite (.pure _) ?_
  exact (keeps_accept (by simp [lexemes])).bind fun odd => .ite (.pure _) keeps_nthNumber

lemma keeps_nth : Keeps (IsRest body) nth := by
  refine (keeps_token (by simp [lexemes]) _).discard.bind fun _ => ?_
  refine keeps_skipSpaces.bind fun _ => keeps_nthArgument.bind fun argument => ?_
  refine keeps_skipSpaces.bind fun _ => ?_
  exact (keeps_token (by simp [lexemes]) _).discard.bind fun _ => .pure argument

lemma keeps_attributeValue : Keeps (IsRest body) attributeValue := by
  refine (keeps_token? (by simp [lexemes])).bind fun quoted => ?_
  cases quoted with
  | none => exact keeps_token (by simp [lexemes]) _
  | some lexeme => exact .pure _

lemma keeps_bracketed : Keeps (IsRest body) bracketed := by
  refine (keeps_token? (by simp [lexemes])).discard.bind fun _ => keeps_skipSpaces.bind fun _ => ?_
  refine (keeps_token (by simp [lexemes]) _).bind fun name => keeps_skipSpaces.bind fun _ => ?_
  refine (keeps_accept (by simp [lexemes])).bind fun present => .ite (.pure _) ?_
  refine (keeps_token (by simp [lexemes]) _).bind fun operator => keeps_skipSpaces.bind fun _ => ?_
  refine keeps_attributeValue.bind fun value => keeps_skipSpaces.bind fun _ => ?_
  exact (keeps_token (by simp [lexemes]) _).discard.bind fun _ => .pure _

/-! ### Compounds -/

lemma keeps_compoundWith {qualifier : Parser (Option Qualifier)}
    (h : Keeps (IsRest body) qualifier) : Keeps (IsRest body) (compoundWith qualifier) := by
  refine keeps_skipSpaces.bind fun _ => (keeps_token? (by simp [lexemes])).bind fun type => ?_
  exact h.many.bind fun qualifiers => .ite ((Keeps.fail _).bind fun _ => .pure _) (.pure _)

lemma keeps_negatable {qualifier : Parser (Option Qualifier)} (h : Keeps I qualifier) :
    Keeps I (negatable qualifier) :=
  h.bind fun _ => .ite ((Keeps.fail _).bind fun _ => .pure _) (.pure _)

lemma keeps_negationWith {qualifier : Parser (Option Qualifier)}
    (h : Keeps (IsRest body) qualifier) : Keeps (IsRest body) (negationWith qualifier) := by
  refine keeps_skipSpaces.bind fun _ => ?_
  refine (keeps_token (by simp [lexemes]) _).discard.bind fun _ => keeps_skipSpaces.bind fun _ => ?_
  refine (keeps_compoundWith (keeps_negatable h)).bind fun inner => ?_
  refine keeps_skipSpaces.bind fun _ => ?_
  exact (keeps_token (by simp [lexemes]) _).discard.bind fun _ => .pure _

lemma keeps_pseudoClassWith {negation : Parser Qualifier} (h : Keeps (IsRest body) negation)
    (name : Text) : Keeps (IsRest body) (pseudoClassWith negation name) := by
  have hplace : ∀ peers, Keeps (IsRest body) (do
      return .place peers (.nth (← nth)) : Parser Qualifier) :=
    fun peers => keeps_nth.bind fun _ => .pure _
  unfold pseudoClassWith
  repeat refine .ite (.pure _) ?_
  exact .ite (hplace _) (.ite (hplace _) (.ite h (.fail _)))

lemma keeps_qualifierWith {negation : Parser Qualifier} (h : Keeps (IsRest body) negation) :
    Keeps (IsRest body) (qualifierWith negation) := by
  refine (keeps_token? (by simp [lexemes])).bind fun className => ?_
  cases className with
  | some name => exact .pure _
  | none =>
    refine (keeps_token? (by simp [lexemes])).bind fun identifier => ?_
    cases identifier with
    | some name => exact .pure _
    | none =>
      refine (keeps_token? (by simp [lexemes])).bind fun pseudoClass => ?_
      cases pseudoClass with
      | some name => exact (keeps_pseudoClassWith h _).bind fun _ => .pure _
      | none =>
        refine Keeps.rest.bind fun _ => .ite ?_ (.pure _)
        exact keeps_bracketed.bind fun _ => .pure _

lemma keeps_qualifier (depth : Nat) : Keeps (IsRest body) (qualifier depth) := by
  induction depth with
  | zero => exact keeps_qualifierWith (.fail _)
  | succ depth ih => exact keeps_qualifierWith (keeps_negationWith ih)

lemma keeps_compound : Keeps (IsRest body) compound :=
  Keeps.rest.bind fun _ => keeps_compoundWith (keeps_qualifier _)

/-! ### Groups -/

lemma keeps_combinator : Keeps (IsRest body) combinator := by
  refine (keeps_accept (by simp [lexemes])).bind fun plus => .ite (.pure _) ?_
  refine (keeps_accept (by simp [lexemes])).bind fun tilde => .ite (.pure _) ?_
  refine (keeps_accept (by simp [lexemes])).bind fun greater => .ite (.pure _) ?_
  exact (keeps_accept (by simp [lexemes])).bind fun spaces => .ite (.pure _) (.pure _)

lemma keeps_furtherCompound : Keeps (IsRest body) furtherCompound := by
  refine Keeps.rest.bind fun s => .ite (.pure _) (keeps_combinator.bind fun c => ?_)
  cases c with
  | none => exact .pure _
  | some c => exact keeps_compound.bind fun _ => .pure _

lemma keeps_complex : Keeps (IsRest body) complex := by
  refine keeps_combinator.bind fun first => keeps_compound.bind fun head => ?_
  exact keeps_furtherCompound.many.bind fun _ => .pure _

lemma keeps_furtherComplex : Keeps (IsRest body) furtherComplex := by
  refine (keeps_accept (by simp [lexemes])).bind fun comma => .ite ?_ (.pure _)
  exact keeps_skipSpaces.bind fun _ => keeps_complex.bind fun _ => .pure _

/-- The whole reading stays at positions that can be reached. -/
theorem keeps_group : Keeps (IsRest body) group := by
  refine keeps_complex.bind fun first => keeps_furtherComplex.many.bind fun more => ?_
  exact Keeps.rest.bind fun s => .ite ((Keeps.fail _).bind fun _ => .pure _) (.pure _)

end Readers

/-! ## Faults -/

/-- A fault is reported at a position of the trimmed text that can be reached, counted from the
start of the whole text. -/
theorem parse_error_offset {s : Text} {fault : Fault} {n : Nat} (h : parse s = .error (fault, n)) :
    ∃ k, Reaches (trim s) k ∧ n = byteSize (s.takeWhile isBlank) + k := by
  have hlead : byteSize s - byteSize (trimStart s) = byteSize (s.takeWhile isBlank) := by
    have hsize := congrArg byteSize (takeWhile_append_trimStart s)
    rw [byteSize_append] at hsize
    omega
  unfold parse at h
  dsimp only at h
  rw [hlead] at h
  split at h
  · cases h
    exact ⟨0, .start, rfl⟩
  · cases hgroup : group (trim s) with
    | ok result => simp [hgroup] at h
    | error e =>
      obtain ⟨fault, r⟩ := e
      simp only [hgroup, Except.error.injEq, Prod.mk.injEq] at h
      obtain ⟨rfl, rfl⟩ := h
      obtain ⟨k, hk, hslice⟩ := keeps_group.of_error (isRest_self _) hgroup
      obtain ⟨before, hbefore, hsize⟩ := sliceFrom?_eq_some_iff.1 hslice
      refine ⟨k, hk, ?_⟩
      rw [hbefore, byteSize_append, hsize, Nat.add_sub_cancel]

end WebCrawl.Css
