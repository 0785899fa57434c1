import WebCrawl.Proofs.Css.Breaks
import WebCrawl.Proofs.Reader

set_option autoImplicit false

/-!
# Compounds in front of further text

What is read from a text that does not end in a blank is read in the same way when a blank or a
comma and any further text follow. The blanks that a reader passes over end within the text, since
something has to be read after them.

## Main definitions

* `WebCrawl.Css.Extends` — what is read from a tight text is read in front of further text.

## Main results

* `WebCrawl.Css.nth_extends`, `WebCrawl.Css.bracketed_extends` — indices and attributes.
* `WebCrawl.Css.compound_extends` — compounds.
-/

namespace WebCrawl.Css

open Reader Text
open XPath (takeWhile_append_of_stop)

/-! ## Readers in front of further text -/

lemma skipSpaces_apply (s : Text) : skipSpaces s = .ok ((), s.dropWhile isBlank) := by
  have hdrop : s.drop (Lexeme.spaces s) = s.dropWhile isBlank := XPath.drop_length_takeWhile _ _
  show (token? Lexeme.spaces >>= fun _ => pure ()) s = _
  by_cases hzero : Lexeme.spaces s = 0
  · have htoken : token? Lexeme.spaces s = .ok (none, s) := if_pos hzero
    rw [hzero, List.drop_zero] at hdrop
    rw [bind_of_ok htoken, pure_apply, ← hdrop]
  · have htoken : token? Lexeme.spaces s = .ok (_, s.drop (Lexeme.spaces s)) := if_neg hzero
    rw [bind_of_ok htoken, pure_apply, hdrop]

/-- What the first reader reads from a tight text, the second reads when a break follows. -/
def Extends {α : Type} (p p' : Parser α) : Prop :=
  ∀ ⦃s a r⦄, Tight s → p s = .ok (a, r) →
    r <:+ s ∧ ∀ ⦃t⦄, Breaks t → p' (s ++ t) = .ok (a, r ++ t)

namespace Extends

variable {α β : Type} {p p' : Parser α} {f f' : α → Parser β} {lexeme : Lexeme}

lemma pure (a : α) : Extends (pure a) (pure a) := by
  intro s b r _ h
  obtain ⟨rfl, rfl⟩ : a = b ∧ s = r := by simpa using h
  exact ⟨List.suffix_rfl, fun _ _ => rfl⟩

lemma fail (fault : Fault) (p' : Parser α) : Extends (fail fault) p' := by
  intro s b r _ h
  cases h

lemma require (fault : Fault) (o : Option α) : Extends (require fault o) (require fault o) := by
  cases o with
  | none => exact fail fault _
  | some a => exact pure a

lemma bind (hp : Extends p p') (hf : ∀ a, Extends (f a) (f' a)) :
    Extends (p >>= f) (p' >>= f') := by
  intro s b r hs h
  obtain ⟨a, u, ha, hb⟩ := bind_eq_ok_iff.1 h
  obtain ⟨hu, happend⟩ := hp hs ha
  obtain ⟨hr, happend'⟩ := hf a (hs.of_suffix hu) hb
  exact ⟨hr.trans hu, fun t ht => bind_eq_ok_iff.2 ⟨a, u ++ t, happend ht, happend' ht⟩⟩

lemma ite {c : Prop} [Decidable c] {q q' : Parser α} (hp : Extends p p') (hq : Extends q q') :
    Extends (if c then p else q) (if c then p' else q') := by
  by_cases h : c
  · rw [if_pos h, if_pos h]
    exact hp
  · rw [if_neg h, if_neg h]
    exact hq

lemma discard (hp : Extends p p') : Extends (discard p) (discard p') :=
  hp.bind fun _ => pure _

/-- A lexeme that occurs. -/
lemma token?_of_ne_zero (hl : lexeme.Settled) {s r t : Text} {o : Option Text} (hs : Tight s)
    (ht : Breaks t) (hne : lexeme s ≠ 0) (h : token? lexeme s = .ok (o, r)) :
    r <:+ s ∧ token? lexeme (s ++ t) = .ok (o, r ++ t) := by
  have hnil : s ≠ [] := by
    rintro rfl
    exact hne hl.nil
  rw [token?, if_neg hne] at h
  obtain ⟨rfl, rfl⟩ : some (s.take (lexeme s)) = o ∧ s.drop (lexeme s) = r := by simpa using h
  refine ⟨List.drop_suffix _ _, ?_⟩
  rw [token?, hl.append hs hnil ht, if_neg hne, List.take_append_of_le_length (hl.le s),
    List.drop_append_of_le_length (hl.le s)]

/-- A lexeme that does not occur at a break may occur. -/
lemma token? (hl : lexeme.Settled ∧ lexeme.Inner) : Extends (token? lexeme) (token? lexeme) := by
  intro s o r hs h
  by_cases hzero : lexeme s = 0
  · have happend : ∀ ⦃t⦄, Breaks t → lexeme (s ++ t) = lexeme s := fun t ht =>
      hl.1.append_of_inner hl.2 hs ht
    rw [Css.token?, if_pos hzero] at h
    obtain ⟨rfl, rfl⟩ : none = o ∧ s = r := by simpa using h
    refine ⟨List.suffix_rfl, fun t ht => ?_⟩
    rw [Css.token?, happend ht, if_pos hzero]
  · exact ⟨(token?_of_ne_zero hl.1 hs breaks_nil hzero h).1, fun t ht =>
      (token?_of_ne_zero hl.1 hs ht hzero h).2⟩

/-- A lexeme that has to occur. -/
lemma token (hl : lexeme.Settled) (fault : Fault) :
    Extends (token lexeme fault) (token lexeme fault) := by
  intro s x r hs h
  have hne := (token_eq_ok h).1
  simp only [Css.token, bind_eq_ok_iff] at h ⊢
  obtain ⟨o, u, ho, hx⟩ := h
  obtain ⟨rfl, rfl⟩ := require_eq_ok_iff.1 hx
  exact ⟨(token?_of_ne_zero hl hs breaks_nil hne ho).1, fun t ht =>
    ⟨some x, u ++ t, (token?_of_ne_zero hl hs ht hne ho).2, rfl⟩⟩

lemma accept (hl : lexeme.Settled ∧ lexeme.Inner) : Extends (accept lexeme) (accept lexeme) :=
  (token? hl).bind fun _ => pure _

/-- Blanks are passed over in front of what has to be there. -/
lemma skipSpaces (hp : Extends p p') (hnil : ∀ x, p [] ≠ .ok x) :
    Extends (skipSpaces >>= fun _ => p) (Css.skipSpaces >>= fun _ => p') := by
  intro s a r hs h
  rw [bind_of_ok (skipSpaces_apply s)] at h
  have hne : s ≠ [] := by
    rintro rfl
    exact hnil _ h
  have hsuffix := List.dropWhile_suffix isBlank (l := s)
  obtain ⟨hr, happend⟩ := hp (hs.of_suffix hsuffix) h
  refine ⟨hr.trans hsuffix, fun t ht => ?_⟩
  rw [bind_of_ok (skipSpaces_apply _), hs.dropWhile_append hne]
  exact happend ht

/-- Values that are read one after the other are so in front of a break. -/
lemma repeats {p p' : Parser (Option α)} {s u : Text} {as : List α}
    (hp : ∀ s a r, Tight s → p s = .ok (some a, r) →
      r <:+ s ∧ ∀ ⦃t⦄, Breaks t → p' (s ++ t) = .ok (some a, r ++ t))
    (h : Repeats p s as u) (hs : Tight s) :
    u <:+ s ∧ ∀ ⦃t⦄, Breaks t → Repeats p' (s ++ t) as (u ++ t) := by
  induction h with
  | stop => exact ⟨List.suffix_rfl, fun t _ => .stop⟩
  | @next s v u a as head shorter tail ih =>
    obtain ⟨hv, happend⟩ := hp s a v hs head
    obtain ⟨hsuffix, hrepeats⟩ := ih (hs.of_suffix hv)
    refine ⟨hsuffix.trans hv, fun t ht => .next (happend ht) ?_ (hrepeats ht)⟩
    rw [List.length_append, List.length_append]
    omega

/-- Values are read as long as each of them takes up a symbol. -/
lemma many {p p' : Parser (Option α)} (hp : Extends p p')
    (hshorter : ∀ s a r, Tight s → p s = .ok (some a, r) → r.length < s.length) :
    Extends (many p) (many p') := by
  intro s as r hs h
  obtain ⟨u, hrepeats, hu, hnone⟩ := repeats_of_many_of_invariant (I := Tight)
    (fun s a t hs h => ⟨hshorter s a t hs h, hs.of_suffix (hp hs h).1⟩) hs h
  obtain ⟨hsuffix, hall⟩ := repeats (fun s a r hs h => hp hs h) hrepeats hs
  obtain ⟨hr, happend⟩ := hp hu hnone
  exact ⟨hr.trans hsuffix, fun t ht => many_of_repeats (hall ht) (happend ht)⟩

end Extends

/-! ## Attributes -/

lemma token_nil {lexeme : Lexeme} (hl : lexeme.Settled) (fault : Fault) (x : Text × Text) :
    token lexeme fault [] ≠ .ok x := by
  intro h
  exact (token_eq_ok h).1 hl.nil

lemma token?_of_eq_zero {lexeme : Lexeme} {s : Text} (h : lexeme s = 0) :
    token? lexeme s = .ok (none, s) :=
  if_pos h

lemma accept_of_eq_zero {lexeme : Lexeme} {s : Text} (h : lexeme s = 0) :
    accept lexeme s = .ok (false, s) :=
  bind_of_ok (token?_of_eq_zero h)

lemma accept_of_ne_zero {lexeme : Lexeme} {s : Text} (h : lexeme s ≠ 0) :
    accept lexeme s = .ok (true, s.drop (lexeme s)) := by
  have htoken : token? lexeme s = .ok (some (s.take (lexeme s)), s.drop (lexeme s)) := if_neg h
  exact bind_of_ok htoken

/-- A lexeme is accepted or not, in front of a break as without it. -/
lemma accept_append {lexeme : Lexeme} {s : Text} (hl : lexeme.Settled) (hs : Tight s)
    (hne : s ≠ []) :
    (accept lexeme s = .ok (false, s) ∧
      ∀ ⦃t⦄, Breaks t → accept lexeme (s ++ t) = .ok (false, s ++ t)) ∨
    ∃ r, accept lexeme s = .ok (true, r) ∧ r <:+ s ∧ r.length < s.length ∧
      ∀ ⦃t⦄, Breaks t → accept lexeme (s ++ t) = .ok (true, r ++ t) := by
  by_cases hzero : lexeme s = 0
  · exact .inl ⟨accept_of_eq_zero hzero, fun t ht =>
      accept_of_eq_zero ((hl.append hs hne ht).trans hzero)⟩
  · have hlength := List.length_drop (l := s) (i := lexeme s)
    have hle := hl.le s
    refine .inr ⟨_, accept_of_ne_zero hzero, List.drop_suffix _ _, by omega, fun t ht => ?_⟩
    have happend := hl.append hs hne ht
    rw [accept_of_ne_zero (by rwa [happend]), happend, List.drop_append_of_le_length hle]

/-- A reader cannot read on if its first part cannot. -/
lemma bind_ne_ok {α β : Type} {p : Parser α} {f : α → Parser β} {s : Text}
    (h : ∀ x, p s ≠ .ok x) (x : β × Text) : (p >>= f) s ≠ .ok x := by
  intro hx
  obtain ⟨a, t, ha, -⟩ := bind_eq_ok_iff.1 hx
  exact h _ ha

lemma discard_ne_ok {α : Type} {p : Parser α} {s : Text} (h : ∀ x, p s ≠ .ok x) (x : Unit × Text) :
    discard p s ≠ .ok x :=
  bind_ne_ok (f := fun _ => pure ()) h x

lemma attributeValue_extends : Extends attributeValue attributeValue := by
  intro s v r hs h
  unfold attributeValue at h ⊢
  simp only [bind_eq_ok_iff] at h ⊢
  obtain ⟨o, u, ho, hv⟩ := h
  cases o with
  | some x =>
    obtain ⟨rfl, rfl⟩ : unquote x = v ∧ u = r := by simpa using hv
    obtain ⟨hne, rfl, rfl⟩ := token?_eq_some ho
    refine ⟨List.drop_suffix _ _, fun t ht => ⟨some _, _, ?_, rfl⟩⟩
    obtain ⟨hle, happend⟩ := Lexeme.quoted_append (t := t) hne
    rw [token?, happend, if_neg hne, List.take_append_of_le_length hle,
      List.drop_append_of_le_length hle]
  | none =>
    have hzero : Lexeme.quoted s = 0 ∧ s = u := by
      unfold token? at ho
      split at ho
      case isTrue hzero => exact ⟨hzero, by simpa using ho⟩
      case isFalse => simp at ho
    obtain ⟨hzero, rfl⟩ := hzero
    have hbare := Lexeme.settled_run excludes_isNameChar
    obtain ⟨hr, happend⟩ := Extends.token hbare .missingAttributeValue hs hv
    refine ⟨hr, fun t ht => ⟨none, s ++ t, ?_, happend ht⟩⟩
    have hne : Lexeme.bare (s ++ t) ≠ 0 := (token_eq_ok (happend ht)).1
    exact if_pos (Lexeme.quoted_eq_zero_of_bare hne)

lemma attributeValue_nil (x : Text × Text) : attributeValue [] ≠ .ok x := by
  intro h
  unfold attributeValue at h
  obtain ⟨o, u, ho, hv⟩ := bind_eq_ok_iff.1 h
  obtain ⟨rfl, rfl⟩ : none = o ∧ [] = u := by simpa [token?, Lexeme.quoted] using ho
  exact token_nil (Lexeme.settled_run excludes_isNameChar) _ _ hv

/-- Reads the end of an attribute after its value. -/
def attributeEnd (name operator value : Text) : Parser Qualifier := do
  skipSpaces
  discard (token Lexeme.closeBracket .unterminatedAttribute)
  return .attr name.lower (attributeTest operator value)

/-- Reads an attribute after its operator. -/
def afterOperator (name operator : Text) : Parser Qualifier := do
  skipSpaces
  let value ← attributeValue
  attributeEnd name operator value

/-- Reads an attribute after its opening bracket. -/
def afterBracket : Parser Qualifier := do
  skipSpaces
  let name ← token Lexeme.attributeName .missingAttributeName
  skipSpaces
  if ← accept Lexeme.closeBracket then
    return .attr name.lower .present
  let operator ← token Lexeme.operator .missingAttributeOperator
  afterOperator name operator

lemma bracketed_eq :
    bracketed = discard (token? Lexeme.openBracket) >>= fun _ => afterBracket := rfl

lemma attributeEnd_extends (name operator value : Text) :
    Extends (attributeEnd name operator value) (attributeEnd name operator value) :=
  .skipSpaces (.bind (.discard (.token Lexeme.settled_closeBracket.1 _)) fun _ => .pure _)
    (bind_ne_ok (discard_ne_ok (token_nil Lexeme.settled_closeBracket.1 _)))

lemma afterOperator_extends (name operator : Text) :
    Extends (afterOperator name operator) (afterOperator name operator) :=
  .skipSpaces (.bind attributeValue_extends fun _ => attributeEnd_extends _ _ _)
    (bind_ne_ok attributeValue_nil)

lemma afterBracket_extends : Extends afterBracket afterBracket := by
  have hname := Lexeme.settled_attributeName.1
  refine .skipSpaces (.bind (.token hname _) fun name => .skipSpaces ?_ ?_)
    (bind_ne_ok (token_nil hname _))
  · refine .bind (.accept Lexeme.settled_closeBracket) fun closed => ?_
    cases closed with
    | true => exact .pure _
    | false => exact .bind (.token Lexeme.settled_operator _) fun _ => afterOperator_extends _ _
  · intro x h
    rw [bind_of_ok (accept_of_eq_zero rfl)] at h
    exact bind_ne_ok (token_nil Lexeme.settled_operator _) x h

lemma bracketed_extends : Extends bracketed bracketed :=
  .bind (.discard (.token? Lexeme.settled_openBracket)) fun _ => afterBracket_extends

/-- An attribute takes up its opening bracket. -/
lemma bracketed_shorter {s r : Text} {q : Qualifier} (hs : Tight s)
    (hopen : Lexeme.openBracket s ≠ 0) (h : bracketed s = .ok (q, r)) : r.length < s.length := by
  have htoken : token? Lexeme.openBracket s = .ok (some _, s.drop (Lexeme.openBracket s)) :=
    if_neg hopen
  have hdiscard : discard (token? Lexeme.openBracket) s = .ok ((), s.drop (Lexeme.openBracket s)) :=
    bind_of_ok htoken
  rw [bracketed_eq, bind_of_ok hdiscard] at h
  have hr := (afterBracket_extends (hs.of_suffix (List.drop_suffix _ _)) h).1.length_le
  have hle := Lexeme.settled_openBracket.1.le s
  rw [List.length_drop] at hr
  omega

/-! ## Indices -/

/-- Only a closing parenthesis follows, but for blanks. -/
def Closes (s : Text) : Prop := (s.dropWhile isBlank).head? = some ')'

lemma Closes.ne_nil {s : Text} (h : Closes s) : s ≠ [] := by
  rintro rfl
  cases h

lemma closes_of_closeParen {s r x : Text} {fault : Fault}
    (h : token Lexeme.closeParen fault (s.dropWhile isBlank) = .ok (x, r)) : Closes s := by
  have hne := (token_eq_ok h).1
  by_contra hclose
  refine hne (if_neg fun hhead => hclose ?_)
  rwa [List.dropWhile_idempotent] at hhead

/-- The offset of a progression, after the blanks before it. -/
lemma progressionOffset?_eq {s r : Text} {c : Char} (h : s.dropWhile isBlank = c :: r) :
    progressionOffset? s =
      if c = '-' ∨ c = '+' then
        if ((r.dropWhile isBlank).takeWhile isDecimal).isEmpty then none
        else some (decide (c = '-'), (r.dropWhile isBlank).takeWhile isDecimal,
          Lexeme.run isBlank s + 1 + Lexeme.run isBlank r +
            ((r.dropWhile isBlank).takeWhile isDecimal).length)
      else none := by
  have hr : r.drop (Lexeme.run isBlank r) = r.dropWhile isBlank := XPath.drop_length_takeWhile _ _
  have hs : s.drop (Lexeme.run isBlank s) = c :: r :=
    (XPath.drop_length_takeWhile _ _).trans h
  unfold progressionOffset?
  dsimp only
  rw [hs]
  dsimp only
  rw [hr]

/-- The offset of a progression is the same in front of a break if it is complete, or if the
argument is closed. -/
lemma progressionOffset?_append {s t : Text} (ht : Breaks t)
    (h : progressionOffset? s ≠ none ∨ Closes s) :
    progressionOffset? (s ++ t) = progressionOffset? s := by
  have hne : s.dropWhile isBlank ≠ [] := by
    intro hnil
    obtain h | h := h
    · refine h ?_
      have hdrop : s.drop (Lexeme.run isBlank s) = [] :=
        (XPath.drop_length_takeWhile _ _).trans hnil
      unfold progressionOffset?
      dsimp only
      rw [hdrop]
    · rw [Closes, hnil] at h
      cases h
  obtain ⟨c, r, hr⟩ := List.exists_cons_of_ne_nil hne
  have happend : (s ++ t).dropWhile isBlank = c :: (r ++ t) := by
    rw [dropWhile_append_of_ne_nil hne, hr]
    rfl
  rw [progressionOffset?_eq hr, progressionOffset?_eq happend, run_append_of_ne_nil hne]
  by_cases hsign : c = '-' ∨ c = '+'
  case neg => rw [if_neg hsign, if_neg hsign]
  case pos =>
    have hdigits : ((r.dropWhile isBlank).takeWhile isDecimal) ≠ [] := by
      intro hnil
      obtain h | h := h
      · rw [progressionOffset?_eq hr, if_pos hsign, hnil] at h
        exact h rfl
      · rw [Closes, hr] at h
        obtain rfl : c = ')' := by simpa using h
        exact absurd hsign (by decide)
    have hrne : r.dropWhile isBlank ≠ [] := by
      intro hnil
      rw [hnil] at hdigits
      exact hdigits rfl
    rw [dropWhile_append_of_ne_nil hrne, takeWhile_append_of_stop (excludes_isDecimal.head ht),
      run_append_of_ne_nil hrne]

/-- How many characters of a progression stand before its letter. -/
def coefficientSize (s : Text) : Nat :=
  Lexeme.sign s + Lexeme.run isDecimal (s.drop (Lexeme.sign s))

lemma coefficientSize_le (s : Text) : coefficientSize s ≤ s.length := by
  have hdigits := Lexeme.run_le isDecimal (s.drop (Lexeme.sign s))
  have hsign := Lexeme.sign_le s
  rw [List.length_drop] at hdigits
  rw [coefficientSize]
  omega

lemma coefficientSize_append {s t : Text} (hne : s ≠ []) (ht : Breaks t) :
    coefficientSize (s ++ t) = coefficientSize s := by
  rw [coefficientSize, coefficientSize, Lexeme.digits_append hne ht, Lexeme.sign_append hne]

/-- A text has no progression unless a letter follows the coefficient. -/
lemma progression?_eq_none {s : Text}
    (h : ∀ c ∈ (s.drop (coefficientSize s)).head?, c ≠ 'n' ∧ c ≠ 'N') : progression? s = none := by
  simp only [progression?]
  split
  case h_1 => rfl
  case h_2 c r hr =>
    obtain ⟨hsmall, hcapital⟩ := h c (by rw [coefficientSize, hr]; rfl)
    exact if_neg (not_or.2 ⟨hsmall, hcapital⟩)

lemma progression?_eq_some {s r : Text} {c : Char} (h : s.drop (coefficientSize s) = c :: r)
    (hc : c = 'n' ∨ c = 'N') : progression? s =
      match progressionOffset? r with
      | some (negative, digits, n) =>
        some ⟨s.take (coefficientSize s), some (negative, digits), coefficientSize s + 1 + n⟩
      | none => some ⟨s.take (coefficientSize s), none, coefficientSize s + 1⟩ := by
  unfold coefficientSize at h
  simp only [progression?, h, coefficientSize]
  exact if_pos hc

/-- A progression is the same in front of a break, if the argument is closed wherever it has no
offset. -/
lemma progression?_append {s t : Text} (hne : s ≠ []) (ht : Breaks t)
    (h : ∀ parts ∈ progression? s, parts.offset = none → Closes (s.drop parts.size)) :
    progression? (s ++ t) = progression? s := by
  have hle := coefficientSize_le s
  have hsize := coefficientSize_append hne ht
  have hdrop : (s ++ t).drop (coefficientSize (s ++ t)) = s.drop (coefficientSize s) ++ t := by
    rw [hsize, List.drop_append_of_le_length hle]
  cases hr : s.drop (coefficientSize s) with
  | nil =>
    rw [hr, List.nil_append] at hdrop
    rw [progression?_eq_none, progression?_eq_none]
    · rw [hr]
      simp
    · rw [hdrop]
      intro c hc
      exact ⟨ne_of_break (ht c hc) rfl (by decide), ne_of_break (ht c hc) rfl (by decide)⟩
  | cons c r =>
    rw [hr, List.cons_append] at hdrop
    by_cases hc : c = 'n' ∨ c = 'N'
    case neg =>
      rw [not_or] at hc
      rw [progression?_eq_none, progression?_eq_none]
      · rw [hr]
        simpa using hc
      · rw [hdrop]
        simpa using hc
    case pos =>
      have hoffset : progressionOffset? (r ++ t) = progressionOffset? r := by
        refine progressionOffset?_append ht ?_
        by_contra hnot
        rw [not_or, not_not] at hnot
        have hparts := progression?_eq_some hr hc
        rw [hnot.1] at hparts
        have hcloses := h _ hparts rfl
        have hrest : s.drop (coefficientSize s + 1) = r := by
          rw [← List.drop_drop, hr]
          rfl
        rw [hrest] at hcloses
        exact hnot.2 hcloses
      rw [progression?_eq_some hdrop hc, progression?_eq_some hr hc, hoffset, hsize,
        List.take_append_of_le_length hle]

lemma isAlpha_of_mem_even : ∀ c ∈ "even".toList, c.isAlpha = true := by
  have hchars : "even".toList = ['e', 'v', 'e', 'n'] := by simp
  rw [hchars]
  simp

lemma isAlpha_of_mem_odd : ∀ c ∈ "odd".toList, c.isAlpha = true := by
  have hchars : "odd".toList = ['o', 'd', 'd'] := by simp
  rw [hchars]
  simp

/-- The reader takes nothing, and its value does not depend on the text. -/
def Silent {α : Type} (p : Parser α) : Prop :=
  ∀ ⦃s a r⦄, p s = .ok (a, r) → r = s ∧ ∀ t, p t = .ok (a, t)

namespace Silent

variable {α β : Type} {p q : Parser α} {f : α → Parser β}

lemma pure (a : α) : Silent (pure a) := by
  intro s b r h
  obtain ⟨rfl, rfl⟩ : a = b ∧ s = r := by simpa using h
  exact ⟨rfl, fun _ => rfl⟩

lemma require (fault : Fault) (o : Option α) : Silent (require fault o) := by
  cases o with
  | none =>
    intro s a r h
    cases h
  | some a => exact pure a

lemma bind (hp : Silent p) (hf : ∀ a, Silent (f a)) : Silent (p >>= f) := by
  intro s b r h
  obtain ⟨a, u, ha, hb⟩ := bind_eq_ok_iff.1 h
  obtain ⟨rfl, hp'⟩ := hp ha
  obtain ⟨rfl, hf'⟩ := hf a hb
  exact ⟨rfl, fun t => (bind_of_ok (hp' t)).trans (hf' t)⟩

lemma coefficientOf (numeral : Text) : Silent (coefficientOf numeral) := by
  unfold Css.coefficientOf
  split
  · exact pure _
  · split
    · exact pure _
    · exact require _ _

lemma offsetOf (offset : Option (Bool × Text)) : Silent (offsetOf offset) := by
  cases offset with
  | none => exact pure _
  | some o => exact bind (require _ _) fun _ => pure _

end Silent

/-- Reads an index that is no word. -/
def nthNumber : Parser Nth := do
  match progression? (← rest) with
  | some parts =>
    let a ← coefficientOf parts.coefficient
    let b ← offsetOf parts.offset
    skip parts.size
    return .progression a b
  | none =>
    let numeral ← token Lexeme.integer .invalidNthArgument
    return .only (← integerOf numeral)

lemma nthArgument_eq : nthArgument = accept (Lexeme.keyword "even") >>= fun even =>
    if even then pure .even
    else accept (Lexeme.keyword "odd") >>= fun odd => if odd then pure .odd else nthNumber := rfl

lemma nthNumber_of_some {s : Text} {parts : ProgressionLexeme} (h : progression? s = some parts) :
    nthNumber s = (coefficientOf parts.coefficient >>= fun a => offsetOf parts.offset >>= fun b =>
      skip parts.size >>= fun _ => pure (.progression a b)) s := by
  rw [nthNumber, bind_of_ok (rest_apply s), h]

lemma nthNumber_of_none {s : Text} (h : progression? s = none) :
    nthNumber s = (token Lexeme.integer .invalidNthArgument >>= fun numeral =>
      integerOf numeral >>= fun b => pure (.only b)) s := by
  rw [nthNumber, bind_of_ok (rest_apply s), h]

lemma nthNumber_append {s r : Text} {argument : Nth} (hne : s ≠ []) (hs : Tight s)
    (h : nthNumber s = .ok (argument, r)) (hr : Closes r) :
    r <:+ s ∧ ∀ ⦃t⦄, Breaks t → nthNumber (s ++ t) = .ok (argument, r ++ t) := by
  cases hparts : progression? s with
  | some parts =>
    rw [nthNumber_of_some hparts] at h
    simp only [bind_eq_ok_iff, skip_apply, pure_apply, Except.ok.injEq, Prod.mk.injEq] at h
    obtain ⟨a, u, ha, b, v, hb, _, _, ⟨-, rfl⟩, rfl, rfl⟩ := h
    obtain ⟨rfl, ha'⟩ := Silent.coefficientOf _ ha
    obtain ⟨rfl, hb'⟩ := Silent.offsetOf _ hb
    refine ⟨List.drop_suffix _ _, fun t ht => ?_⟩
    have happend : progression? (v ++ t) = some parts := by
      rw [progression?_append hne ht, hparts]
      intro parts' hparts' _
      rw [hparts] at hparts'
      obtain rfl := Option.some.inj hparts'
      exact hr
    have hle : parts.size ≤ v.length := by
      have hlength := List.length_pos_iff.2 hr.ne_nil
      rw [List.length_drop] at hlength
      omega
    rw [nthNumber_of_some happend, bind_of_ok (ha' _), bind_of_ok (hb' _),
      bind_of_ok (skip_apply _ _), pure_apply, List.drop_append_of_le_length hle]
  | none =>
    rw [nthNumber_of_none hparts] at h
    have hextends := Extends.bind (.token Lexeme.settled_integer .invalidNthArgument)
      fun numeral => .bind (.require .integerOutOfRange (integerValue? numeral))
        fun b => .pure (Nth.only b)
    obtain ⟨hsuffix, happend⟩ := hextends hs h
    refine ⟨hsuffix, fun t ht => ?_⟩
    have hnone : progression? (s ++ t) = none := by
      rw [progression?_append hne ht, hparts]
      rw [hparts]
      rintro parts ⟨⟩
    rw [nthNumber_of_none hnone]
    exact happend ht

/-- What stands between the parentheses of an index is read in front of a break when it is
closed. -/
lemma nthArgument_append {s r : Text} {argument : Nth} (hne : s ≠ []) (hs : Tight s)
    (h : nthArgument s = .ok (argument, r)) (hr : Closes r) :
    r <:+ s ∧ ∀ ⦃t⦄, Breaks t → nthArgument (s ++ t) = .ok (argument, r ++ t) := by
  rw [nthArgument_eq] at h ⊢
  obtain ⟨heven, heven'⟩ | ⟨u, heven, hu, -, heven'⟩ :=
    accept_append (Lexeme.settled_keyword isAlpha_of_mem_even) hs hne
  case inr =>
    rw [bind_of_ok heven] at h
    obtain ⟨rfl, rfl⟩ : Nth.even = argument ∧ u = r := by simpa using h
    exact ⟨hu, fun t ht => bind_of_ok (heven' ht)⟩
  rw [bind_of_ok heven] at h
  obtain ⟨hodd, hodd'⟩ | ⟨u, hodd, hu, -, hodd'⟩ :=
    accept_append (Lexeme.settled_keyword isAlpha_of_mem_odd) hs hne
  case inr =>
    replace h := (bind_of_ok hodd).symm.trans h
    obtain ⟨rfl, rfl⟩ : Nth.odd = argument ∧ u = r := by simpa using h
    exact ⟨hu, fun t ht => (bind_of_ok (heven' ht)).trans (bind_of_ok (hodd' ht))⟩
  obtain ⟨hsuffix, happend⟩ := nthNumber_append hne hs ((bind_of_ok hodd).symm.trans h) hr
  exact ⟨hsuffix, fun t ht => (bind_of_ok (heven' ht)).trans
    ((bind_of_ok (hodd' ht)).trans (happend ht))⟩

lemma nthArgument_nil (x : Nth × Text) : nthArgument [] ≠ .ok x := by
  have hnone : nthArgument [] = (token Lexeme.integer .invalidNthArgument >>= fun numeral =>
    integerOf numeral >>= fun b => pure (.only b)) [] := rfl
  rw [hnone]
  exact bind_ne_ok (token_nil Lexeme.settled_integer _) x

lemma nth_extends : Extends nth nth := by
  have hopen := Extends.token (Lexeme.settled_spaced '(') .missingNthArgument
  have hclose := Extends.token (Lexeme.settled_spaced ')') .unterminatedNthArgument
  refine .bind (.discard hopen) fun _ => .skipSpaces ?_ (bind_ne_ok nthArgument_nil)
  intro s argument r hs h
  have hne : s ≠ [] := by
    rintro rfl
    exact bind_ne_ok nthArgument_nil _ h
  obtain ⟨argument', u, hargument, h⟩ := bind_eq_ok_iff.1 h
  have hafter := Extends.skipSpaces (.bind (.discard hclose) fun _ => .pure argument')
    (bind_ne_ok (discard_ne_ok (token_nil (Lexeme.settled_spaced ')') _)))
  have hcloses : Closes u := by
    rw [bind_of_ok (skipSpaces_apply u)] at h
    obtain ⟨_, _, hdiscard, -⟩ := bind_eq_ok_iff.1 h
    obtain ⟨_, _, hparen, -⟩ := bind_eq_ok_iff.1 hdiscard
    exact closes_of_closeParen hparen
  obtain ⟨hu, happend⟩ := nthArgument_append hne hs hargument hcloses
  obtain ⟨hr, happend'⟩ := hafter (hs.of_suffix hu) h
  exact ⟨hr.trans hu, fun t ht => (bind_of_ok (happend ht)).trans (happend' ht)⟩

/-! ## Compounds -/

variable {negation negation' : Parser Qualifier} {qualifier qualifier' : Parser (Option Qualifier)}

/-- Every qualifier takes up characters. -/
def Shortens (p : Parser (Option Qualifier)) : Prop :=
  ∀ s q r, Tight s → p s = .ok (some q, r) → r.length < s.length

lemma compoundWith_nil (hshorter : Shortens qualifier) (x : Compound × Text) :
    compoundWith qualifier [] ≠ .ok x := by
  intro h
  rw [compoundWith, bind_of_ok (skipSpaces_apply [])] at h
  replace h := (bind_of_ok (token?_of_eq_zero rfl)).symm.trans h
  obtain ⟨qs, u, hqs, h⟩ := bind_eq_ok_iff.1 h
  obtain ⟨v, hrepeats, -, -⟩ := repeats_of_many_of_invariant (I := fun s => s = [])
    (fun s q r hs hq => by
      subst hs
      exact absurd (hshorter [] q r (by simp [Tight]) hq) (Nat.not_lt_zero _)) rfl hqs
  cases hrepeats with
  | stop => cases h
  | next head shorter tail => exact Nat.not_lt_zero _ shorter

lemma compoundWith_extends (h : Extends qualifier qualifier') (hshorter : Shortens qualifier) :
    Extends (compoundWith qualifier) (compoundWith qualifier') := by
  refine .skipSpaces (.bind (.token? Lexeme.settled_element) fun type =>
    .bind (.many h hshorter) fun qualifiers => ?_) ?_
  · split
    · exact .bind (.fail _ _) fun _ => .pure _
    · exact .pure _
  · intro x hx
    refine compoundWith_nil hshorter x ?_
    rw [compoundWith, bind_of_ok (skipSpaces_apply [])]
    exact hx

lemma negatable_extends (h : Extends qualifier qualifier') :
    Extends (negatable qualifier) (negatable qualifier') := by
  refine .bind h fun read => ?_
  split
  · exact .bind (.fail _ _) fun _ => .pure _
  · exact .pure _

lemma Shortens.negatable (h : Shortens qualifier) : Shortens (negatable qualifier) := by
  intro s q r hs hq
  obtain ⟨o, u, ho, hq⟩ := bind_eq_ok_iff.1 hq
  split at hq
  · cases hq
  · obtain ⟨rfl, rfl⟩ : o = some q ∧ u = r := by simpa using hq
    exact h s q u hs ho

lemma negationWith_extends (h : Extends qualifier qualifier') (hshorter : Shortens qualifier) :
    Extends (negationWith qualifier) (negationWith qualifier') := by
  have hopen := Lexeme.settled_spaced '('
  have hclose := Lexeme.settled_spaced ')'
  exact .skipSpaces (.bind (.discard (.token hopen _)) fun _ =>
    .skipSpaces (.bind (compoundWith_extends (negatable_extends h) hshorter.negatable) fun _ =>
      .skipSpaces (.bind (.discard (.token hclose _)) fun _ => .pure _)
        (bind_ne_ok (discard_ne_ok (token_nil hclose _))))
      (bind_ne_ok (compoundWith_nil hshorter.negatable)))
    (bind_ne_ok (discard_ne_ok (token_nil hopen _)))

lemma pseudoClassWith_extends (h : Extends negation negation') (name : Text) :
    Extends (pseudoClassWith negation name) (pseudoClassWith negation' name) :=
  .ite (.pure _) (.ite (.pure _) (.ite (.pure _) (.ite (.pure _) (.ite (.pure _) (.ite (.pure _)
    (.ite (.bind nth_extends fun _ => .pure _) (.ite (.bind nth_extends fun _ => .pure _)
      (.ite h (.fail _ _)))))))))

/-- Reads an attribute if a bracket opens one. -/
def attributeIfAny : Parser (Option Qualifier) := do
  if Lexeme.openBracket (← rest) ≠ 0 then
    return some (← bracketed)
  return none

lemma attributeIfAny_of_open {s : Text} (h : Lexeme.openBracket s ≠ 0) :
    attributeIfAny s = (bracketed >>= fun q => pure (some q)) s := by
  rw [attributeIfAny, bind_of_ok (rest_apply s)]
  exact congrFun (if_pos h) s

lemma attributeIfAny_of_none {s : Text} (h : Lexeme.openBracket s = 0) :
    attributeIfAny s = .ok (none, s) := by
  rw [attributeIfAny, bind_of_ok (rest_apply s)]
  exact congrFun (if_neg (not_not.2 h)) s

lemma attributeIfAny_extends : Extends attributeIfAny attributeIfAny := by
  intro s o r hs h
  have happend : ∀ ⦃t⦄, Breaks t → Lexeme.openBracket (s ++ t) = Lexeme.openBracket s := fun t ht =>
    Lexeme.settled_openBracket.1.append_of_inner Lexeme.settled_openBracket.2 hs ht
  by_cases hopen : Lexeme.openBracket s = 0
  · rw [attributeIfAny_of_none hopen] at h
    obtain ⟨rfl, rfl⟩ : none = o ∧ s = r := by simpa using h
    exact ⟨List.suffix_rfl, fun t ht => attributeIfAny_of_none ((happend ht).trans hopen)⟩
  · rw [attributeIfAny_of_open hopen] at h
    obtain ⟨hr, hextends⟩ := Extends.bind bracketed_extends (fun q => .pure (some q)) hs h
    refine ⟨hr, fun t ht => ?_⟩
    rw [attributeIfAny_of_open (by rwa [happend ht])]
    exact hextends ht

lemma qualifierWith_extends (h : Extends negation negation') :
    Extends (qualifierWith negation) (qualifierWith negation') := by
  refine .bind (.token? Lexeme.settled_className) fun o => ?_
  split
  · exact .pure _
  refine .bind (.token? Lexeme.settled_identifier) fun o => ?_
  split
  · exact .pure _
  refine .bind (.token? Lexeme.settled_pseudoClass) fun o => ?_
  split
  · exact .bind (pseudoClassWith_extends h _) fun _ => .pure _
  · exact attributeIfAny_extends

/-- A lexeme that was read takes up characters. -/
lemma token?_shorter {lexeme : Lexeme} {s r x : Text} (hl : lexeme.Settled)
    (h : token? lexeme s = .ok (some x, r)) : r.length < s.length ∧ r <:+ s := by
  obtain ⟨hne, -, rfl⟩ := token?_eq_some h
  have hle := hl.le s
  rw [List.length_drop]
  exact ⟨by omega, List.drop_suffix _ _⟩

lemma token?_none {lexeme : Lexeme} {s r : Text} (h : token? lexeme s = .ok (none, r)) : r = s := by
  unfold token? at h
  split at h
  · simpa using h.symm
  · simp at h

lemma qualifierWith_shortens (h : Extends negation negation') :
    Shortens (qualifierWith negation) := by
  intro s q r hs hq
  replace hq := bind_eq_ok_iff.1 hq
  obtain ⟨o, u, ho, hq⟩ := hq
  cases o with
  | some x =>
    obtain ⟨-, rfl⟩ : Qualifier.className (x.drop 1) = q ∧ u = r := by simpa using hq
    exact (token?_shorter Lexeme.settled_className.1 ho).1
  | none =>
  obtain rfl := token?_none ho
  replace hq := bind_eq_ok_iff.1 hq
  obtain ⟨o, v, ho, hq⟩ := hq
  cases o with
  | some x =>
    obtain ⟨-, rfl⟩ : Qualifier.identifier (x.drop 1) = q ∧ v = r := by simpa using hq
    exact (token?_shorter Lexeme.settled_identifier.1 ho).1
  | none =>
  obtain rfl := token?_none ho
  replace hq := bind_eq_ok_iff.1 hq
  obtain ⟨o, w, ho, hq⟩ := hq
  cases o with
  | some x =>
    obtain ⟨hshorter, hw⟩ := token?_shorter Lexeme.settled_pseudoClass.1 ho
    obtain ⟨q', v', hq', hq⟩ := bind_eq_ok_iff.1 hq
    obtain ⟨rfl, rfl⟩ : q' = q ∧ v' = r := by simpa using hq
    have := (pseudoClassWith_extends h _ (hs.of_suffix hw) hq').1.length_le
    omega
  | none =>
  obtain rfl := token?_none ho
  replace hq : attributeIfAny w = .ok (some q, r) := hq
  by_cases hopen : Lexeme.openBracket w = 0
  · rw [attributeIfAny_of_none hopen] at hq
    simp at hq
  · rw [attributeIfAny_of_open hopen] at hq
    obtain ⟨q', v', hq', hq⟩ := bind_eq_ok_iff.1 hq
    obtain ⟨rfl, rfl⟩ : q' = q ∧ v' = r := by simpa using hq
    exact bracketed_shorter hs hopen hq'

/-- A greater bound on the depth of negations never matters. -/
lemma qualifier_extends {n m : Nat} (h : n ≤ m) :
    Extends (Css.qualifier n) (Css.qualifier m) ∧ Shortens (Css.qualifier n) := by
  induction n generalizing m with
  | zero =>
    have hfail : ∀ p', Extends (fail Fault.missingNegationArgument : Parser Qualifier) p' :=
      fun p' => .fail _ p'
    refine ⟨?_, qualifierWith_shortens (hfail (pure (.identifier [])))⟩
    cases m with
    | zero => exact qualifierWith_extends (hfail _)
    | succ m => exact qualifierWith_extends (hfail _)
  | succ n ih =>
    obtain ⟨m, rfl⟩ := Nat.exists_eq_add_of_le' h
    obtain ⟨hextends, hshorter⟩ := ih (m := m + n) (by omega)
    have := negationWith_extends hextends hshorter
    exact ⟨qualifierWith_extends this, qualifierWith_shortens this⟩

lemma compound_nil (x : Compound × Text) : compound [] ≠ .ok x :=
  compoundWith_nil (qualifier_extends (Nat.le_refl 0)).2 x

lemma compound_extends : Extends compound compound := by
  intro s c r hs h
  have hqualifier : ∀ t : Text, Extends (Css.qualifier s.length) (Css.qualifier (s ++ t).length) ∧
      Shortens (Css.qualifier s.length) := fun t =>
    qualifier_extends (by rw [List.length_append]; omega)
  have hcompound := fun t => compoundWith_extends (hqualifier t).1 (hqualifier t).2 hs h
  exact ⟨(hcompound []).1, fun t ht => (hcompound t).2 ht⟩

end WebCrawl.Css
