import WebCrawl.Proofs.Css.Extension

set_option autoImplicit false

/-!
# Selectors joined together

Two selectors with a blank between them are read as one chain, and two selector groups with a comma
between them as the alternatives of both.

## Main definitions

* `WebCrawl.Css.Flush`, `WebCrawl.Css.Blanks` — trimmed texts, and what is trimmed.

## Main results

* `WebCrawl.Css.parse_append_blank` — two chains with a blank between them.
* `WebCrawl.Css.parse_append_comma` — two groups with a comma between them.
-/

namespace WebCrawl.Css

open Reader Text

/-! ## Combinators -/

section Combinators

variable {s r x : Text} {c : Char}

/-- The text does not begin with a blank. -/
def Flush (s : Text) : Prop := ∀ c ∈ s.head?, isBlank c = false

/-- The text consists of blanks. -/
def Blanks (x : Text) : Prop := ∀ c ∈ x, isBlank c = true

lemma flush_dropWhile (s : Text) : Flush (s.dropWhile isBlank) := by
  intro c hc
  have := List.head?_dropWhile_not isBlank s
  rw [Option.mem_def.1 hc] at this
  exact this

lemma Flush.dropWhile (hs : Flush s) : s.dropWhile isBlank = s := by
  cases s with
  | nil => rfl
  | cons c s => rw [List.dropWhile_cons_of_neg (by simp [hs c rfl])]

lemma Flush.dropWhile_append (hs : Flush s) (hx : Blanks x) : (x ++ s).dropWhile isBlank = s := by
  rw [List.dropWhile_append_of_pos hx, hs.dropWhile]

lemma Flush.run_append (hs : Flush s) (hx : Blanks x) :
    Lexeme.run isBlank (x ++ s) = x.length := by
  have hlength := congrArg List.length
    (List.takeWhile_append_dropWhile (p := isBlank) (l := x ++ s))
  rw [hs.dropWhile_append hx, List.length_append, List.length_append] at hlength
  rw [Lexeme.run]
  omega

lemma Flush.spaced (hs : Flush s) (hx : Blanks x) :
    Lexeme.spaced c (x ++ s) = if s.head? = some c then x.length + 1 else 0 := by
  rw [Lexeme.spaced, hs.dropWhile_append hx, hs.run_append hx]

/-- Blanks in front of a character that is accepted make no difference. -/
lemma Flush.accept_spaced (hs : Flush s) (hx : Blanks x) :
    accept (Lexeme.spaced c) (x ++ s) =
      if s.head? = some c then .ok (true, s.drop 1) else .ok (false, x ++ s) := by
  by_cases hc : s.head? = some c
  · have hsize : Lexeme.spaced c (x ++ s) = x.length + 1 := by rw [hs.spaced hx, if_pos hc]
    rw [if_pos hc, accept_of_ne_zero (by omega), hsize, ← List.drop_drop, List.drop_left]
  · have hsize : Lexeme.spaced c (x ++ s) = 0 := by rw [hs.spaced hx, if_neg hc]
    rw [if_neg hc, accept_of_eq_zero hsize]

/-- The combinator at the beginning of a text that does not begin with a blank, or at blanks before
it. -/
lemma Flush.combinator_eq (hs : Flush s) (hx : Blanks x) : combinator (x ++ s) =
    if s.head? = some '+' then .ok (some .adjacent, s.drop 1)
    else if s.head? = some '~' then .ok (some .sibling, s.drop 1)
    else if s.head? = some '>' then .ok (some .child, s.drop 1)
    else .ok (if x = [] then none else some .descendant, s) := by
  have hstep : ∀ {c : Char} {o : Combinator} {p : Parser (Option Combinator)},
      (accept (Lexeme.spaced c) >>= fun read => if read then pure (some o) else p) (x ++ s) =
        if s.head? = some c then .ok (some o, s.drop 1) else p (x ++ s) := by
    intro c o p
    have haccept := hs.accept_spaced (c := c) hx
    by_cases hc : s.head? = some c
    · rw [if_pos hc] at haccept
      rw [if_pos hc]
      exact bind_of_ok haccept
    · rw [if_neg hc] at haccept
      rw [if_neg hc]
      exact bind_of_ok haccept
  have hspaces : Lexeme.spaces (x ++ s) = x.length := hs.run_append hx
  refine hstep.trans (if_congr Iff.rfl rfl (hstep.trans (if_congr Iff.rfl rfl
    (hstep.trans (if_congr Iff.rfl rfl ?_)))))
  by_cases hne : x = []
  · subst hne
    have haccept := accept_of_eq_zero hspaces
    exact bind_of_ok haccept
  · have haccept : accept Lexeme.spaces (x ++ s) = .ok (true, s) := by
      rw [accept_of_ne_zero (by rwa [hspaces, Ne, List.length_eq_zero_iff]), hspaces,
        List.drop_left]
    rw [if_neg hne]
    exact bind_of_ok haccept

lemma takeWhile_blanks (s : Text) : Blanks (s.takeWhile isBlank) := fun _ hc =>
  List.mem_takeWhile_imp hc

/-- The combinator at the beginning of a text is told by the first character that is no blank. -/
lemma combinator_eq (s : Text) : combinator s =
    if (s.dropWhile isBlank).head? = some '+' then .ok (some .adjacent, (s.dropWhile isBlank).drop 1)
    else if (s.dropWhile isBlank).head? = some '~' then
      .ok (some .sibling, (s.dropWhile isBlank).drop 1)
    else if (s.dropWhile isBlank).head? = some '>' then
      .ok (some .child, (s.dropWhile isBlank).drop 1)
    else .ok (if s.takeWhile isBlank = [] then none else some .descendant, s.dropWhile isBlank) := by
  have heq := (flush_dropWhile s).combinator_eq (takeWhile_blanks s)
  rwa [List.takeWhile_append_dropWhile] at heq

/-- Where no combinator is read nothing is taken. -/
lemma combinator_eq_none (h : combinator s = .ok (none, r)) : s = r := by
  rw [combinator_eq] at h
  split_ifs at h with hplus htilde hgreater hnil
  · simp at h
  · simp at h
  · simp at h
  · obtain rfl : _ = r := by simpa using h
    conv_lhs => rw [← List.takeWhile_append_dropWhile (p := isBlank) (l := s), hnil]
    rfl
  · simp at h

end Combinators

/-! ## Chains -/

/-- The combinator takes up characters, unless there is none. -/
def Advances (s r : Text) (o : Option Combinator) : Prop :=
  r <:+ s ∧ (o = none → r = s) ∧ (o ≠ none → r.length < s.length)

/-- A combinator in front of a compound is read in front of a break. -/
lemma combinator_append {s r : Text} {o : Option Combinator} (hs : Tight s) (hne : s ≠ [])
    (h : combinator s = .ok (o, r)) :
    Advances s r o ∧ ∀ ⦃t⦄, Breaks t → combinator (s ++ t) = .ok (o, r ++ t) := by
  have hstep : ∀ {lexeme : Lexeme} {c : Combinator} {p : Parser (Option Combinator)},
      lexeme.Settled →
      (∀ {o r}, p s = .ok (o, r) →
        Advances s r o ∧ ∀ ⦃t⦄, Breaks t → p (s ++ t) = .ok (o, r ++ t)) →
      ∀ {o r}, (accept lexeme >>= fun read => if read then pure (some c) else p) s = .ok (o, r) →
        Advances s r o ∧ ∀ ⦃t⦄, Breaks t →
          (accept lexeme >>= fun read => if read then pure (some c) else p) (s ++ t) =
            .ok (o, r ++ t) := by
    intro lexeme c p hl hp o r h
    obtain ⟨haccept, happend⟩ | ⟨u, haccept, hu, hlength, happend⟩ := accept_append hl hs hne
    · obtain ⟨hr, hextends⟩ := hp ((bind_of_ok haccept).symm.trans h)
      exact ⟨hr, fun t ht => (bind_of_ok (happend ht)).trans (hextends ht)⟩
    · replace h := (bind_of_ok haccept).symm.trans h
      obtain ⟨rfl, rfl⟩ : some c = o ∧ u = r := by simpa using h
      exact ⟨⟨hu, nofun, fun _ => hlength⟩, fun t ht => bind_of_ok (happend ht)⟩
  refine hstep (Lexeme.settled_spaced '+') (hstep (Lexeme.settled_spaced '~')
    (hstep (Lexeme.settled_spaced '>') (hstep Lexeme.settled_spaces ?_))) h
  intro o r h
  obtain ⟨rfl, rfl⟩ : none = o ∧ s = r := by simpa using h
  exact ⟨⟨List.suffix_rfl, fun _ => rfl, fun h => absurd rfl h⟩, fun _ _ => rfl⟩

/-- Reads a combinator and its compound. -/
def combinedCompound : Parser (Option (Combinator × Compound)) := do
  match ← combinator with
  | none => return none
  | some c => return some (c, ← compound)

lemma furtherCompound_of_end {s : Text} (h : s = [] ∨ Lexeme.comma s ≠ 0) :
    furtherCompound s = .ok (none, s) := by
  have hend : (s.isEmpty || Lexeme.comma s ≠ 0) = true := by
    rw [Bool.or_eq_true, List.isEmpty_iff, decide_eq_true_eq]
    exact h
  rw [furtherCompound, bind_of_ok (rest_apply s)]
  exact congrFun (if_pos hend) s

lemma furtherCompound_of_inside {s : Text} (hne : s ≠ []) (h : Lexeme.comma s = 0) :
    furtherCompound s = combinedCompound s := by
  have hend : ¬(s.isEmpty || Lexeme.comma s ≠ 0) = true := by
    rw [Bool.or_eq_true, List.isEmpty_iff, decide_eq_true_eq]
    exact not_or.2 ⟨hne, not_not.2 h⟩
  rw [furtherCompound, bind_of_ok (rest_apply s)]
  exact congrFun (if_neg hend) s

/-- A further compound is read in front of a break. -/
lemma furtherCompound_append {s r : Text} {x : Combinator × Compound} (hs : Tight s)
    (h : furtherCompound s = .ok (some x, r)) : r <:+ s ∧ r.length < s.length ∧
      ∀ ⦃t⦄, Breaks t → furtherCompound (s ++ t) = .ok (some x, r ++ t) := by
  by_cases hend : s = [] ∨ Lexeme.comma s ≠ 0
  case pos =>
    rw [furtherCompound_of_end hend] at h
    simp at h
  case neg =>
    rw [not_or, not_not] at hend
    obtain ⟨hne, hcomma⟩ := hend
    rw [furtherCompound_of_inside hne hcomma] at h
    obtain ⟨o, u, ho, h⟩ := bind_eq_ok_iff.1 h
    cases o with
    | none => cases h
    | some c =>
      obtain ⟨compound, v, hcompound, h⟩ := bind_eq_ok_iff.1 h
      obtain ⟨rfl, rfl⟩ : (c, compound) = x ∧ v = r := by simpa using h
      obtain ⟨⟨hu, -, hshorter⟩, happend⟩ := combinator_append hs hne ho
      obtain ⟨hv, happend'⟩ := compound_extends (hs.of_suffix hu) hcompound
      have hlength := hshorter (by simp)
      have hle := hv.length_le
      refine ⟨hv.trans hu, by omega, fun t ht => ?_⟩
      have hcomma' : Lexeme.comma (s ++ t) = 0 :=
        (Lexeme.settled_comma.append hs hne ht).trans hcomma
      rw [furtherCompound_of_inside (by simp [hne]) hcomma']
      exact (bind_of_ok (happend ht)).trans (bind_of_ok (happend' ht))

/-- Where no further compound follows nothing is read. -/
lemma furtherCompound_eq_none {s r : Text} (h : furtherCompound s = .ok (none, r)) : s = r := by
  by_cases hend : s = [] ∨ Lexeme.comma s ≠ 0
  case pos =>
    rw [furtherCompound_of_end hend] at h
    simpa using h
  case neg =>
    rw [not_or, not_not] at hend
    rw [furtherCompound_of_inside hend.1 hend.2] at h
    obtain ⟨o, t, ho, h⟩ := bind_eq_ok_iff.1 h
    cases o with
    | none =>
      obtain rfl : t = r := by simpa using h
      exact combinator_eq_none ho
    | some c =>
      obtain ⟨d, u, -, h⟩ := bind_eq_ok_iff.1 h
      cases h

/-! ## Alternatives -/

lemma complex_nil (x : Complex × Text) : complex [] ≠ .ok x := by
  have hnil : complex [] = (compound >>= fun head => many furtherCompound >>= fun more =>
    pure ((Combinator.descendant, head) :: more)) [] := rfl
  rw [hnil]
  exact bind_ne_ok compound_nil x

/-- The parts of an alternative that is read. -/
lemma exists_of_complex {s r : Text} {c : Complex} (hs : Tight s) (h : complex s = .ok (c, r)) :
    ∃ o v head w more, combinator s = .ok (o, v) ∧ compound v = .ok (head, w) ∧
      Repeats furtherCompound w more r ∧ furtherCompound r = .ok (none, r) ∧
        v <:+ s ∧ w <:+ v ∧ c = (o.getD .descendant, head) :: more := by
  have hne : s ≠ [] := by
    rintro rfl
    exact complex_nil _ h
  obtain ⟨o, v, ho, h⟩ := bind_eq_ok_iff.1 h
  obtain ⟨head, w, hhead, h⟩ := bind_eq_ok_iff.1 h
  obtain ⟨more, r', hmore, h⟩ := bind_eq_ok_iff.1 h
  obtain ⟨rfl, rfl⟩ : (o.getD .descendant, head) :: more = c ∧ r' = r := by simpa using h
  have hv := (combinator_append hs hne ho).1.1
  have hw := (compound_extends (hs.of_suffix hv) hhead).1
  obtain ⟨r, hrepeats, hr, hnone⟩ := repeats_of_many_of_invariant (I := Tight)
    (fun s x r hs hx => ⟨(furtherCompound_append hs hx).2.1,
      hs.of_suffix (furtherCompound_append hs hx).1⟩) (hs.of_suffix (hw.trans hv)) hmore
  obtain rfl := furtherCompound_eq_none hnone
  exact ⟨o, v, head, w, more, ho, hhead, hrepeats, hnone, hv, hw, rfl⟩

/-- An alternative that is read goes on with the compounds that can be read after it. -/
lemma complex_append {s r : Text} {c : Complex} (hs : Tight s) (h : complex s = .ok (c, r)) :
    r <:+ s ∧ furtherCompound r = .ok (none, r) ∧ ∀ ⦃t⦄, Breaks t →
      ∀ {more u}, Repeats furtherCompound (r ++ t) more u → furtherCompound u = .ok (none, u) →
        complex (s ++ t) = .ok (c ++ more, u) := by
  have hne : s ≠ [] := by
    rintro rfl
    exact complex_nil _ h
  obtain ⟨o, v, head, w, more, ho, hhead, hmore, hnone, hv, hw, rfl⟩ := exists_of_complex hs h
  obtain ⟨hr, hmore'⟩ := Extends.repeats (fun s x r hs hx =>
    ⟨(furtherCompound_append hs hx).1, (furtherCompound_append hs hx).2.2⟩) hmore
    (hs.of_suffix (hw.trans hv))
  refine ⟨hr.trans (hw.trans hv), hnone, fun t ht more' u hrest hend => ?_⟩
  have ho' := (combinator_append hs hne ho).2 ht
  have hhead' := (compound_extends (hs.of_suffix hv) hhead).2 ht
  have hmany := many_of_repeats ((hmore' ht).append hrest) hend
  exact (bind_of_ok ho').trans ((bind_of_ok hhead').trans (bind_of_ok hmany))

/-! ## Groups -/

/-- Reads an alternative after its comma. -/
def afterComma : Parser (Option Complex) := do
  skipSpaces
  return some (← complex)

lemma furtherComplex_of_comma {s : Text} (h : Lexeme.comma s ≠ 0) :
    furtherComplex s = afterComma (s.drop (Lexeme.comma s)) :=
  bind_of_ok (accept_of_ne_zero h)

lemma furtherComplex_of_none {s : Text} (h : Lexeme.comma s = 0) :
    furtherComplex s = .ok (none, s) :=
  bind_of_ok (accept_of_eq_zero h)

lemma furtherComplex_append {s r : Text} {c : Complex} (hs : Tight s)
    (h : furtherComplex s = .ok (some c, r)) :
    (Lexeme.comma s ≠ 0 ∧ r <:+ s ∧ r.length < s.length) ∧ ∀ ⦃t⦄, Breaks t →
      furtherCompound (r ++ t) = .ok (none, r ++ t) →
        furtherComplex (s ++ t) = .ok (some c, r ++ t) := by
  have hsettled := Lexeme.settled_comma
  have hcomma : Lexeme.comma s ≠ 0 := by
    intro hzero
    rw [furtherComplex_of_none hzero] at h
    simp at h
  have hne : s ≠ [] := by
    rintro rfl
    exact hcomma hsettled.nil
  have hle := hsettled.le s
  have hrest := hs.of_suffix (List.drop_suffix (Lexeme.comma s) s)
  rw [furtherComplex_of_comma hcomma, afterComma, bind_of_ok (skipSpaces_apply _)] at h
  obtain ⟨c', r', hc, h⟩ := bind_eq_ok_iff.1 h
  obtain ⟨rfl, rfl⟩ : c' = c ∧ r' = r := by simpa using h
  have hblanks := List.dropWhile_suffix isBlank (l := s.drop (Lexeme.comma s))
  obtain ⟨hr, -, hcomplex⟩ := complex_append (hrest.of_suffix hblanks) hc
  have hlength := (hr.trans hblanks).length_le
  rw [List.length_drop] at hlength
  have hpositive := Nat.pos_of_ne_zero hcomma
  refine ⟨⟨hcomma, (hr.trans hblanks).trans (List.drop_suffix _ _), ?_⟩, fun t ht hend => ?_⟩
  · omega
  · have happend : Lexeme.comma (s ++ t) = Lexeme.comma s := hsettled.append hs hne ht
    have hne' : s.drop (Lexeme.comma s) ≠ [] := by
      intro hnil
      rw [hnil] at hc
      exact complex_nil _ hc
    rw [furtherComplex_of_comma (by rwa [happend]), happend, List.drop_append_of_le_length hle,
      afterComma, bind_of_ok (skipSpaces_apply _), hrest.dropWhile_append hne']
    have := hcomplex ht .stop hend
    rw [List.append_nil] at this
    exact bind_of_ok this

/-- Alternatives that are read up to the end of the text are followed by commas. -/
lemma comma_of_repeats {s : Text} {cs : List Complex} (hs : Tight s)
    (h : Repeats furtherComplex s cs []) : s = [] ∨ Lexeme.comma s ≠ 0 := by
  cases h with
  | stop => exact .inl rfl
  | next head shorter tail => exact .inr (furtherComplex_append hs head).1.1

/-- Nothing more is read of an alternative in front of a comma. -/
lemma furtherCompound_append_comma {s t : Text} (hs : Tight s) (h : s = [] ∨ Lexeme.comma s ≠ 0)
    (ht : Breaks t) (hcomma : Lexeme.comma t ≠ 0) :
    furtherCompound (s ++ t) = .ok (none, s ++ t) := by
  refine furtherCompound_of_end (.inr ?_)
  by_cases hne : s = []
  · subst hne
    exact hcomma
  · have happend : Lexeme.comma (s ++ t) = Lexeme.comma s :=
      Lexeme.settled_comma.append hs hne ht
    rw [happend]
    exact h.resolve_left hne

/-- Alternatives that are read up to the end of the text are read up to a comma. -/
lemma repeats_furtherComplex_append {s t : Text} {cs : List Complex} (hs : Tight s)
    (h : Repeats furtherComplex s cs []) (ht : Breaks t) (hcomma : Lexeme.comma t ≠ 0) :
    Repeats furtherComplex (s ++ t) cs t := by
  generalize hr : ([] : Text) = r at h
  induction h with
  | stop =>
    subst hr
    exact .stop
  | @next s v r c cs head shorter tail ih =>
    subst hr
    obtain ⟨⟨-, hv, -⟩, happend⟩ := furtherComplex_append hs head
    have hvTight := hs.of_suffix hv
    refine .next (happend ht (furtherCompound_append_comma hvTight
      (comma_of_repeats hvTight tail) ht hcomma)) ?_ (ih hvTight rfl)
    rw [List.length_append, List.length_append]
    omega

/-- A group that is read is an alternative and those after commas, up to the end of the text. -/
lemma exists_of_group {s r : Text} {g : Group} (hs : Tight s) (h : group s = .ok (g, r)) :
    ∃ c v cs, complex s = .ok (c, v) ∧ Repeats furtherComplex v cs [] ∧ g = c :: cs := by
  obtain ⟨c, v, hc, h⟩ := bind_eq_ok_iff.1 h
  obtain ⟨cs, w, hcs, h⟩ := bind_eq_ok_iff.1 h
  rw [bind_of_ok (rest_apply w)] at h
  have hv := hs.of_suffix (complex_append hs hc).1
  obtain ⟨u, hrepeats, -, hnone⟩ := repeats_of_many_of_invariant (I := Tight)
    (fun s c r hs hc => ⟨(furtherComplex_append hs hc).1.2.2,
      hs.of_suffix (furtherComplex_append hs hc).1.2.1⟩) hv hcs
  obtain rfl : u = w := by
    by_cases hcomma : Lexeme.comma u = 0
    · rw [furtherComplex_of_none hcomma] at hnone
      simpa using hnone
    · rw [furtherComplex_of_comma hcomma] at hnone
      obtain ⟨_, _, -, hnone⟩ := bind_eq_ok_iff.1 hnone
      obtain ⟨_, _, -, hnone⟩ := bind_eq_ok_iff.1 hnone
      simp at hnone
  split at h
  case isTrue => cases h
  case isFalse hend =>
    rw [not_not] at hend
    subst hend
    obtain ⟨rfl, rfl⟩ : c :: cs = g ∧ [] = r := by simpa using h
    exact ⟨c, v, cs, hc, hrepeats, rfl⟩

lemma group_of_repeats {s v : Text} {c : Complex} {cs : List Complex} (hc : complex s = .ok (c, v))
    (hcs : Repeats furtherComplex v cs []) : group s = .ok (c :: cs, []) := by
  have hnone : furtherComplex [] = .ok (none, []) := furtherComplex_of_none rfl
  have hmany := many_of_repeats hcs hnone
  exact (bind_of_ok hc).trans (bind_of_ok hmany)

/-! ## Joining texts -/

section Joining

variable {s s' x y : Text} {c : Char}

/-- With blanks in front, the combinator that is not written is the descendant. -/
lemma Flush.combinator_append {r : Text} {o : Option Combinator} (hs : Flush s) (hx : Blanks x)
    (hne : x ≠ []) (h : combinator s = .ok (o, r)) :
    combinator (x ++ s) = .ok (some (o.getD .descendant), r) := by
  have hbare := hs.combinator_eq (x := []) (by simp [Blanks])
  rw [List.nil_append, h] at hbare
  rw [hs.combinator_eq hx]
  split at hbare
  case isTrue hc =>
    obtain ⟨rfl, rfl⟩ : o = some .adjacent ∧ r = s.drop 1 := by simpa using hbare
    rw [if_pos hc]
    rfl
  case isFalse hc =>
  rw [if_neg hc]
  split at hbare
  case isTrue hc =>
    obtain ⟨rfl, rfl⟩ : o = some .sibling ∧ r = s.drop 1 := by simpa using hbare
    rw [if_pos hc]
    rfl
  case isFalse hc =>
  rw [if_neg hc]
  split at hbare
  case isTrue hc =>
    obtain ⟨rfl, rfl⟩ : o = some .child ∧ r = s.drop 1 := by simpa using hbare
    rw [if_pos hc]
    rfl
  case isFalse hc =>
    obtain ⟨rfl, rfl⟩ : o = none ∧ r = s := by simpa using hbare
    rw [if_neg hc, if_neg hne]
    rfl

/-- No qualifier begins at a break. -/
lemma qualifier_breaks {t r : Text} {q : Qualifier} (ht : Breaks t) (n : Nat) :
    Css.qualifier n t ≠ .ok (some q, r) := by
  have hnone : ∀ negation, qualifierWith negation t = .ok (none, t) := by
    intro negation
    have hclass := token?_of_eq_zero (Lexeme.settled_className.2 ht)
    have hidentifier := token?_of_eq_zero (Lexeme.settled_identifier.2 ht)
    have hpseudo := token?_of_eq_zero (Lexeme.settled_pseudoClass.2 ht)
    have hattribute := attributeIfAny_of_none (Lexeme.settled_openBracket.2 ht)
    exact (bind_of_ok hclass).trans ((bind_of_ok hidentifier).trans
      ((bind_of_ok hpseudo).trans hattribute))
  intro h
  cases n with
  | zero => exact absurd ((hnone _).symm.trans h) (by simp)
  | succ n => exact absurd ((hnone _).symm.trans h) (by simp)

/-- No alternative begins with a comma. -/
lemma complex_comma {r : Text} (x : Complex × Text) : complex (',' :: r) ≠ .ok x := by
  have ht : Breaks (',' :: r) := by
    rintro c ⟨⟩
    exact .inr rfl
  have hflush : Flush (',' :: r) := by
    rintro c ⟨⟩
    rfl
  have hcombinator : combinator (',' :: r) = .ok (none, ',' :: r) :=
    hflush.combinator_eq (x := []) (by simp [Blanks])
  refine fun h => ?_
  replace h := (bind_of_ok hcombinator).symm.trans h
  refine bind_ne_ok (fun x h => ?_) x h
  replace h := (bind_of_ok (rest_apply _)).symm.trans h
  rw [compoundWith, bind_of_ok (skipSpaces_apply _), hflush.dropWhile] at h
  replace h := (bind_of_ok (token?_of_eq_zero (Lexeme.settled_element.2 ht))).symm.trans h
  obtain ⟨qs, u, hqs, h⟩ := bind_eq_ok_iff.1 h
  obtain ⟨v, hrepeats, -, -⟩ := repeats_of_many_of_invariant (I := fun s => s = ',' :: r)
    (fun s q r hs hq => by
      subst hs
      exact absurd hq (qualifier_breaks ht _)) rfl hqs
  cases hrepeats with
  | stop => cases h
  | next head shorter tail => exact qualifier_breaks ht _ head

/-- Two chains with blanks between them are one chain. -/
lemma group_append_blanks {c c' : Complex} (hs : Tight s) (hs' : Tight s') (hflush : Flush s')
    (hx : Blanks x) (hne : x ≠ []) (h : group s = .ok ([c], [])) (h' : group s' = .ok ([c'], [])) :
    group (s ++ (x ++ s')) = .ok ([c ++ c'], []) := by
  obtain ⟨c, v, cs, hc, hcs, hg⟩ := exists_of_group hs h
  obtain ⟨c', v', cs', hc', hcs', hg'⟩ := exists_of_group hs' h'
  obtain ⟨rfl, rfl⟩ := List.cons.inj hg
  obtain ⟨rfl, rfl⟩ := List.cons.inj hg'
  cases hcs
  cases hcs'
  have hbreaks : Breaks (x ++ s') := by
    obtain ⟨b, x, rfl⟩ := List.exists_cons_of_ne_nil hne
    rintro c ⟨⟩
    exact .inl (hx b (by simp))
  have hcomma : Lexeme.comma (x ++ s') = 0 := by
    refine (hflush.spaced hx).trans (if_neg fun hhead => ?_)
    obtain ⟨r, rfl⟩ := List.head?_eq_some_iff.1 hhead
    exact complex_comma _ hc'
  obtain ⟨o, u, head, w, more, ho, hhead, hmore, hnone, hu, hw, rfl⟩ := exists_of_complex hs' hc'
  have hfurther : furtherCompound (x ++ s') = .ok (some (o.getD .descendant, head), w) := by
    rw [furtherCompound_of_inside (by simp [hne]) hcomma]
    exact (bind_of_ok (hflush.combinator_append hx hne ho)).trans (bind_of_ok hhead)
  have hlength : w.length < (x ++ s').length := by
    have hle := (hw.trans hu).length_le
    have hpositive := List.length_pos_iff.2 hne
    rw [List.length_append]
    omega
  have := (complex_append hs hc).2.2 hbreaks (.next hfurther hlength hmore) hnone
  exact group_of_repeats this .stop

/-- Two groups with a comma between them are the alternatives of both. -/
lemma group_append_comma {g g' : Group} (hs : Tight s) (hs' : Tight s') (hflush : Flush s')
    (hx : Blanks x) (hy : Blanks y) (h : group s = .ok (g, [])) (h' : group s' = .ok (g', [])) :
    group (s ++ (x ++ ',' :: (y ++ s'))) = .ok (g ++ g', []) := by
  obtain ⟨c, v, cs, hc, hcs, rfl⟩ := exists_of_group hs h
  obtain ⟨c', v', cs', hc', hcs', rfl⟩ := exists_of_group hs' h'
  have hflush' : Flush (',' :: (y ++ s')) := by
    rintro c ⟨⟩
    rfl
  have hsize : Lexeme.comma (x ++ ',' :: (y ++ s')) = x.length + 1 :=
    (hflush'.spaced hx).trans (if_pos rfl)
  have hbreaks : Breaks (x ++ ',' :: (y ++ s')) := by
    cases x with
    | nil =>
      rintro c ⟨⟩
      exact .inr rfl
    | cons b x =>
      rintro c ⟨⟩
      exact .inl (hx b (by simp))
  have hfurther : furtherComplex (x ++ ',' :: (y ++ s')) = .ok (some c', v') := by
    rw [furtherComplex_of_comma (by omega), hsize, ← List.drop_drop, List.drop_left]
    show afterComma (y ++ s') = _
    rw [afterComma, bind_of_ok (skipSpaces_apply _), hflush.dropWhile_append hy]
    exact bind_of_ok hc'
  have hlength : v'.length < (x ++ ',' :: (y ++ s')).length := by
    have := (complex_append hs' hc').1.length_le
    simp only [List.length_append, List.length_cons]
    omega
  have hv := hs.of_suffix (complex_append hs hc).1
  have hcomma : Lexeme.comma (x ++ ',' :: (y ++ s')) ≠ 0 := by omega
  have hcomplex := (complex_append hs hc).2.2 hbreaks .stop
    (furtherCompound_append_comma hv (comma_of_repeats hv hcs) hbreaks hcomma)
  rw [List.append_nil] at hcomplex
  exact group_of_repeats hcomplex ((repeats_furtherComplex_append hv hcs hbreaks hcomma).append
    (.next hfurther hlength hcs'))

end Joining

/-! ## Whole texts -/

section Whole

variable {s t x y : Text} {g g' : Group} {c c' : Complex}

/-- A text is its trimmed part with blanks around it. -/
lemma exists_trim (s : Text) : ∃ x y, s = x ++ trim s ++ y ∧ Blanks x ∧ Blanks y := by
  have hstart := List.takeWhile_append_dropWhile (p := isBlank) (l := s)
  have hend := List.takeWhile_append_dropWhile (p := isBlank) (l := (s.dropWhile isBlank).reverse)
  have hreverse := congrArg List.reverse hend
  rw [List.reverse_append, List.reverse_reverse] at hreverse
  refine ⟨s.takeWhile isBlank, ((s.dropWhile isBlank).reverse.takeWhile isBlank).reverse, ?_,
    fun c hc => List.mem_takeWhile_imp hc, fun c hc => ?_⟩
  · show s = _ ++ ((s.dropWhile isBlank).reverse.dropWhile isBlank).reverse ++ _
    rw [List.append_assoc, hreverse, hstart]
  · exact List.mem_takeWhile_imp (List.mem_reverse.1 hc)

lemma tight_trim (s : Text) : Tight (trim s) := by
  intro c hc
  have hhead : c ∈ ((s.dropWhile isBlank).reverse.dropWhile isBlank).head? := by
    have hlast : c ∈ ((s.dropWhile isBlank).reverse.dropWhile isBlank).reverse.getLast? := hc
    rwa [List.getLast?_reverse] at hlast
  have := List.head?_dropWhile_not isBlank (s.dropWhile isBlank).reverse
  rw [Option.mem_def.1 hhead] at this
  simpa using this

lemma flush_trim (s : Text) : Flush (trim s) := by
  have hprefix : trim s <+: s.dropWhile isBlank := by
    have := List.dropWhile_suffix isBlank (l := (s.dropWhile isBlank).reverse)
    rw [← List.reverse_prefix, List.reverse_reverse] at this
    exact this
  intro c hc
  obtain ⟨r, hr⟩ := hprefix
  have hhead : (s.dropWhile isBlank).head? = some c := by
    rw [← hr, List.head?_append, Option.mem_def.1 hc]
    rfl
  exact flush_dropWhile s c hhead

/-- The blanks around a text without any at its ends are trimmed. -/
lemma trim_eq (hs : Tight s) (hflush : Flush s) (hne : s ≠ []) (hx : Blanks x) (hy : Blanks y) :
    trim (x ++ s ++ y) = s := by
  have hstart : Flush (s ++ y) := by
    obtain ⟨c, s, rfl⟩ := List.exists_cons_of_ne_nil hne
    exact hflush
  have hend : Flush s.reverse := by
    intro c hc
    rw [List.head?_reverse] at hc
    exact hs c hc
  show (((x ++ s ++ y).dropWhile isBlank).reverse.dropWhile isBlank).reverse = s
  rw [List.append_assoc, hstart.dropWhile_append hx, List.reverse_append,
    hend.dropWhile_append fun c hc => hy c (List.mem_reverse.1 hc), List.reverse_reverse]

/-- Of two texts with something between them, only the outer blanks are trimmed. -/
lemma trim_append {m x' y' : Text} (hs : s = x ++ trim s ++ y) (ht : t = x' ++ trim t ++ y')
    (hx : Blanks x) (hy' : Blanks y') (hne : trim s ≠ []) (hne' : trim t ≠ []) :
    trim (s ++ (m ++ t)) = trim s ++ (y ++ (m ++ (x' ++ trim t))) := by
  have htight : Tight (trim s ++ (y ++ (m ++ (x' ++ trim t)))) := by
    intro c hc
    refine tight_trim t c ?_
    have hlast := List.getLast?_eq_some_getLast hne'
    simp only [List.getLast?_append, hlast, Option.some_or] at hc
    exact hlast.trans hc
  have hflush : Flush (trim s ++ (y ++ (m ++ (x' ++ trim t)))) := by
    intro c hc
    refine flush_trim s c ?_
    have hhead := List.head?_eq_some_head hne
    rw [List.head?_append, hhead] at hc
    exact hhead.trans hc
  have htext : s ++ (m ++ t) = x ++ (trim s ++ (y ++ (m ++ (x' ++ trim t)))) ++ y' := by
    conv_lhs => rw [hs, ht]
    simp only [List.append_assoc]
  rw [htext]
  exact trim_eq htight hflush (by simp [hne]) hx hy'

/-- What a group is read from. -/
lemma parse_eq_ok_iff : parse s = .ok g ↔ trim s ≠ [] ∧ group (trim s) = .ok (g, []) := by
  unfold parse
  dsimp only
  by_cases hnil : trim s = []
  case pos =>
    rw [if_pos hnil]
    simp [hnil]
  case neg =>
    rw [if_neg hnil]
    cases hgroup : group (trim s) with
    | error e => simp
    | ok result =>
      obtain ⟨g', r⟩ := result
      obtain ⟨c, v, cs, hc, hcs, rfl⟩ := exists_of_group (tight_trim s) hgroup
      rw [group_of_repeats hc hcs] at hgroup
      obtain rfl : [] = r := by simpa using hgroup
      simp [hnil]

/-- Two chains with a blank between them are read as one chain. -/
theorem parse_append_blank (h : parse s = .ok [c]) (h' : parse t = .ok [c']) :
    parse (s ++ ' ' :: t) = .ok [c ++ c'] := by
  rw [parse_eq_ok_iff] at h h'
  obtain ⟨x, y, hs, hx, hy⟩ := exists_trim s
  obtain ⟨x', y', ht, hx', hy'⟩ := exists_trim t
  have hblanks : Blanks (y ++ ' ' :: x') := by
    intro d hd
    rw [List.mem_append, List.mem_cons] at hd
    obtain hd | rfl | hd := hd
    · exact hy d hd
    · rfl
    · exact hx' d hd
  have hbody := group_append_blanks (tight_trim s) (tight_trim t) (flush_trim t) hblanks (by simp)
    h.2 h'.2
  have htrim : trim (s ++ ' ' :: t) = trim s ++ ((y ++ ' ' :: x') ++ trim t) := by
    simpa using trim_append (m := [' ']) hs ht hx hy' h.1 h'.1
  rw [parse_eq_ok_iff, htrim]
  exact ⟨by simp [h.1], hbody⟩

/-- Two groups with a comma between them are read as the alternatives of both. -/
theorem parse_append_comma (h : parse s = .ok g) (h' : parse t = .ok g') :
    parse (s ++ ',' :: t) = .ok (g ++ g') := by
  rw [parse_eq_ok_iff] at h h'
  obtain ⟨x, y, hs, hx, hy⟩ := exists_trim s
  obtain ⟨x', y', ht, hx', hy'⟩ := exists_trim t
  have hbody := group_append_comma (tight_trim s) (tight_trim t) (flush_trim t) hy hx' h.2 h'.2
  have htrim : trim (s ++ ',' :: t) = trim s ++ (y ++ ',' :: (x' ++ trim t)) :=
    trim_append (m := [',']) hs ht hx hy' h.1 h'.1
  rw [parse_eq_ok_iff, htrim]
  exact ⟨by simp [h.1], hbody⟩

end Whole

end WebCrawl.Css
