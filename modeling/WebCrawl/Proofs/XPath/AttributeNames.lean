import Mathlib.Tactic.Common
import WebCrawl.Proofs.XPath.Lexing

set_option autoImplicit false

/-!
# Names of attributes

After an at sign there is a name or a star in every expression. Hence a text in which something else
stands there is no expression, whatever it may be part of.

## Main definitions

* `WebCrawl.XPath.Attributed` — an attribute stands after each at sign.

## Main results

* `WebCrawl.XPath.Spells.attributed` — so it is in every phrase.
* `WebCrawl.XPath.isName_of_attributed` — what stands after an at sign is a single name.
-/

namespace WebCrawl.XPath

open Text

/-! ## Tokens -/

/-- Whether an attribute begins with the tokens: a star or a name, which no axis is. -/
def beginsAttribute : List Token → Bool
  | .star :: _ => true
  | .name _ :: .doubleColon :: _ => false
  | .name _ :: _ => true
  | _ => false

/-- An attribute stands after each at sign. -/
def Attributed : List Token → Prop
  | [] => True
  | t :: ts => (t = .at → beginsAttribute ts = true) ∧ Attributed ts

namespace Attributed

variable {ts us : List Token} {t : Token}

lemma cons (ht : t ≠ .at) (h : Attributed ts) : Attributed (t :: ts) :=
  ⟨fun hat => absurd hat ht, h⟩

/-- An attribute is one still, if no two colons follow. -/
lemma beginsAttribute_append (h : beginsAttribute ts = true) (hus : us.head? ≠ some .doubleColon) :
    beginsAttribute (ts ++ us) = true := by
  match ts, h with
  | .star :: _, _ => rfl
  | [.name n], _ =>
    cases us with
    | nil => rfl
    | cons u us => cases u <;> first | rfl | exact absurd rfl hus
  | .name _ :: u :: ts, h => cases u <;> first | rfl | cases h

lemma append (h : Attributed ts) (h' : Attributed us) (hus : us.head? ≠ some .doubleColon) :
    Attributed (ts ++ us) := by
  induction ts with
  | nil => exact h'
  | cons t ts ih => exact ⟨fun ht => beginsAttribute_append (h.1 ht) hus, ih h.2⟩

/-- What comes after a part of the tokens. -/
lemma of_append (h : Attributed (ts ++ us)) : Attributed us := by
  induction ts with
  | nil => exact h
  | cons t ts ih => exact ih h.2

end Attributed

/-- The tokens of an axis and a test. -/
lemma attributed_of_spelled {axis : Axis} {test : NodeTest} {ts us : List Token}
    (haxis : AxisSpelled axis ts) (htest : TestSpelled test us) :
    Attributed (ts ++ us) ∧ (ts ++ us).head? ≠ some .doubleColon := by
  cases haxis <;> cases htest <;> simp [Attributed, beginsAttribute]

/-- In every phrase an attribute stands after each at sign. -/
theorem Spells.attributed {ph : Phrase} {ts : List Token} (h : Spells ph ts) :
    Attributed ts ∧ ts.head? ≠ some .doubleColon := by
  induction h with
  | stronger h ih => exact ih
  | @binary l left right ts us t c operator hl hr ihl ihr =>
    have hat : t ≠ .at := by
      rintro rfl
      cases l <;> cases operator
    have hcolons : (t :: us).head? ≠ some .doubleColon := by
      rintro ⟨⟩
      cases l <;> cases operator
    refine ⟨ihl.1.append (.cons hat ihr.1) hcolons, ?_⟩
    cases ts with
    | nil => exact absurd rfl hl.ne_nil
    | cons t' ts => exact ihl.2
  | negate h ih => exact ⟨.cons (by simp) ih.1, by simp⟩
  | root => exact ⟨.cons (by simp) trivial, by simp⟩
  | absolute hs hss ihs ihss => exact ⟨.cons (by simp) (ihs.1.append ihss.1 ihss.2), by simp⟩
  | throughout hs hss ihs ihss => exact ⟨.cons (by simp) (ihs.1.append ihss.1 ihss.2), by simp⟩
  | @relative s ss ts us hs hss ihs ihss =>
    refine ⟨ihs.1.append ihss.1 ihss.2, ?_⟩
    obtain ⟨t, ts', rfl, -⟩ := hs.startsStep
    exact ihs.2
  | operand h ih => exact ih
  | @filter e ps ss ts us vs h hps hss some ih ihps ihss =>
    refine ⟨(ih.1.append ihps.1 ihps.2).append ihss.1 ihss.2, ?_⟩
    have hpos := h.length_pos rfl
    cases ts with
    | nil => cases hpos
    | cons t ts => exact ih.2
  | parens h ih =>
    exact ⟨.cons (by simp) (ih.1.append (.cons (by simp) trivial) (by simp)), by simp⟩
  | literal text => exact ⟨.cons (by simp) trivial, by simp⟩
  | number value => exact ⟨.cons (by simp) trivial, by simp⟩
  | callNone => exact ⟨.cons (by simp) (.cons (by simp) (.cons (by simp) trivial)), by simp⟩
  | call named h hes takes ih ihes =>
    have hclose : Attributed [.closeParen] := .cons (by simp) trivial
    have hargs := (ih.1.append ihes.1 ihes.2).append hclose (by simp)
    exact ⟨.cons (by simp) (.cons (by simp) hargs), by simp⟩
  | noArguments => exact ⟨trivial, by simp⟩
  | argument h hes ih ihes => exact ⟨.cons (by simp) (ih.1.append ihes.1 ihes.2), by simp⟩
  | noPredicates => exact ⟨trivial, by simp⟩
  | predicate h hes ih ihes =>
    exact ⟨.cons (by simp) (ih.1.append (.cons (by simp) ihes.1) (by simp)), by simp⟩
  | here => exact ⟨.cons (by simp) trivial, by simp⟩
  | up => exact ⟨.cons (by simp) trivial, by simp⟩
  | @step axis test ps ts us vs haxis htest hps ih =>
    obtain ⟨hat, hcolons⟩ := attributed_of_spelled haxis htest
    refine ⟨hat.append ih.1 ih.2, ?_⟩
    cases hus : ts ++ us with
    | nil => cases haxis <;> cases htest <;> cases hus
    | cons t ts' =>
      rw [hus] at hcolons
      exact hcolons
  | noSteps => exact ⟨trivial, by simp⟩
  | slash hs hss ihs ihss => exact ⟨.cons (by simp) (ihs.1.append ihss.1 ihss.2), by simp⟩
  | doubleSlash hs hss ihs ihss => exact ⟨.cons (by simp) (ihs.1.append ihss.1 ihss.2), by simp⟩

/-! ## Texts -/

/-- What is read at a colon without another. -/
lemma tokenAt_colon {s : Text} (hs : s.head? ≠ some ':') (b : Bool) :
    tokenAt b ':' s = .error .unexpectedCharacter := by
  cases s with
  | nil => rfl
  | cons c s =>
    have hc : c ≠ ':' := by
      rintro rfl
      exact hs rfl
    unfold tokenAt
    split
    case h_18 heq => exact absurd (List.cons.inj heq).1 hc
    case h_21 => rfl
    all_goals contradiction

/-- No attribute begins with a colon, and no name is an attribute in front of one. -/
lemma lex_colon {b : Bool} {s : Text} {ts : List Token} (h : lex b (':' :: s) = some ts) :
    ∃ us, ts = .doubleColon :: us := by
  by_cases hs : s.head? = some ':'
  · obtain ⟨r, rfl⟩ := List.head?_eq_some_iff.1 hs
    rw [lex_token (t := .doubleColon) (n := 1) rfl rfl, Option.map_eq_some_iff] at h
    obtain ⟨us, -, rfl⟩ := h
    exact ⟨us, rfl⟩
  · rw [lex_fault rfl (tokenAt_colon hs b)] at h
    cases h

/-- What a colon joins to a name is no more than the colon and what is behind it. -/
lemma joined_le (s : Text) : joined s ≤ s.length + 1 := by
  cases s with
  | nil => exact Nat.zero_le _
  | cons c s =>
    have htake := (List.takeWhile_prefix (l := s) isNameChar).length_le
    rw [joined, List.length_cons]
    split
    · omega
    · split <;> omega

lemma joinedRest_le (s : Text) : joinedRest s ≤ s.length := by
  cases s with
  | nil => exact Nat.le_refl 0
  | cons c s =>
    rw [joinedRest]
    split
    · exact joined_le s
    · exact Nat.zero_le _

/-- A name takes no more than there is. -/
lemma nameRest_le (s : Text) : nameRest s ≤ s.length := by
  have hlength := congrArg List.length (List.takeWhile_append_dropWhile (p := isNameChar) (l := s))
  rw [List.length_append] at hlength
  have hjoined := joinedRest_le (s.dropWhile isNameChar)
  rw [nameRest_eq]
  omega

/-- After a run of characters of names a name of attributes goes on with a colon, if it goes on. -/
lemma exists_dropWhile_eq_colon {s : Text} (hs : ∀ c ∈ s, isNameChar c = true ∨ c = ':')
    (hne : s.dropWhile isNameChar ≠ []) : ∃ r, s.dropWhile isNameChar = ':' :: r := by
  obtain ⟨c, r, hcr⟩ := List.exists_cons_of_ne_nil hne
  have hnot : isNameChar c = false := by
    have := List.head_dropWhile_not isNameChar hne
    simpa [hcr] using this
  have hmem : c ∈ s := (List.dropWhile_sublist isNameChar).mem (by simp [hcr])
  obtain hc | rfl := hs c hmem
  · rw [hc] at hnot
    cases hnot
  · exact ⟨r, hcr⟩

/-- What a colon does not join begins with a colon, be it the same one. -/
lemma exists_of_joined_ne {s : Text} (hs : ∀ c ∈ s, isNameChar c = true ∨ c = ':')
    (h : joined s ≠ s.length + 1) : ∃ r, (':' :: s).drop (joined s) = ':' :: r := by
  cases s with
  | nil => exact ⟨[], rfl⟩
  | cons c s =>
    have hstar : c ≠ '*' := by
      rintro rfl
      obtain hc | hc := hs '*' (by simp) <;> cases hc
    cases hstart : isNameStart c with
    | false =>
      rw [joined_eq_zero hstar hstart]
      exact ⟨c :: s, rfl⟩
    | true =>
      rw [joined_of_isNameStart hstart] at h ⊢
      have hdrop : (':' :: c :: s).drop (2 + (s.takeWhile isNameChar).length) =
          s.dropWhile isNameChar := by
        rw [Nat.add_comm, ← drop_length_takeWhile]
        rfl
      rw [hdrop]
      refine exists_dropWhile_eq_colon (fun d hd => hs d (by simp [hd])) fun hnil => h ?_
      have hlength :=
        congrArg List.length (List.takeWhile_append_dropWhile (p := isNameChar) (l := s))
      rw [hnil, List.append_nil] at hlength
      rw [hlength, List.length_cons]
      omega

/-- What a name of attributes leaves begins with a colon, if it leaves anything. -/
lemma exists_of_nameRest_ne {s : Text} (hs : ∀ c ∈ s, isNameChar c = true ∨ c = ':')
    (h : nameRest s ≠ s.length) : ∃ r, s.drop (nameRest s) = ':' :: r := by
  have hlength := congrArg List.length (List.takeWhile_append_dropWhile (p := isNameChar) (l := s))
  rw [List.length_append] at hlength
  rw [nameRest_eq] at h ⊢
  rw [← List.drop_drop, drop_length_takeWhile]
  have hne : s.dropWhile isNameChar ≠ [] := by
    intro hnil
    rw [hnil] at h hlength
    exact h hlength
  obtain ⟨v, hv⟩ := exists_dropWhile_eq_colon hs hne
  rw [hv, joinedRest_colon] at h ⊢
  rw [hv, List.length_cons] at hlength
  have hsub : ∀ c ∈ v, isNameChar c = true ∨ c = ':' := fun c hc =>
    hs c ((List.dropWhile_sublist isNameChar).mem (by simp [hv, hc]))
  exact exists_of_joined_ne hsub (by omega)

/-- What stands after an at sign is a single name. -/
theorem isName_of_attributed {c : Char} {s t : Text} {ts : List Token}
    (hc : c = '-' ∨ c = ':' ∨ isNameStart c = true ∧ isBlank c = false)
    (hs : ∀ c ∈ s, isNameChar c = true ∨ c = ':') (ht : isDelimited t = true)
    (h : lex false (c :: (s ++ t)) = some ts) (hts : beginsAttribute ts = true) :
    isName (c :: s) = true := by
  obtain rfl | rfl | ⟨hstart, hblank⟩ := hc
  · rw [lex_token (t := .minus) (n := 0) rfl rfl, Option.map_eq_some_iff] at h
    obtain ⟨us, -, rfl⟩ := h
    cases hts
  · obtain ⟨us, rfl⟩ := lex_colon h
    cases hts
  · by_contra hname
    have hrest : nameRest s ≠ s.length := by
      intro heq
      exact hname (by simp [isName, hstart, hblank, heq])
    obtain ⟨r, hr⟩ := exists_of_nameRest_ne hs hrest
    rw [lex_token hblank (tokenAt_nameStart hstart _), nameRest_append ht,
      List.drop_append_of_le_length (nameRest_le s), hr, List.cons_append,
      Option.map_eq_some_iff] at h
    obtain ⟨us, hus, rfl⟩ := h
    obtain ⟨vs, rfl⟩ := lex_colon hus
    cases hts

end WebCrawl.XPath
