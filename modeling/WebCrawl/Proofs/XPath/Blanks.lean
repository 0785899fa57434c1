import Mathlib
import WebCrawl.Proofs.XPath.AttributeNames
import WebCrawl.Proofs.XPath.Mentions
import WebCrawl.Proofs.XPath.Writing

set_option autoImplicit false

/-!
# Blanks between tokens

Between tokens any blank may stand for any other: it separates the texts on either side of it, each
with tokens of its own. After a name this is so of the blanks of ASCII only. The characters of names
are all those beyond ASCII, blanks included, and a name that is begun takes all it can. So another
blank after a name becomes part of that name, and so does one after a name and a colon.

Where a text ends is found from its characters one by one, without reading tokens.

## Main definitions

* `WebCrawl.XPath.Place` — where a text ends, with `WebCrawl.XPath.Place.after`.
* `WebCrawl.XPath.Place.separates` — which blanks separate at a place.
* `WebCrawl.XPath.SameOutcome` — two texts are read as the same expression, or neither is one.

## Main results

* `WebCrawl.XPath.complete_or_endsInName` — the first token of a text is complete, or it is a name
  in which the text ends.
* `WebCrawl.XPath.lex_append_blank` — a blank that separates divides a text in two.
* `WebCrawl.XPath.mentions_of_lex` — one that does not stands in a name.
* `WebCrawl.XPath.parse_name_blank` — what a name before a blank is read as.
* `WebCrawl.XPath.parse_blank` — what comes of one blank in place of another.
* `WebCrawl.XPath.parse_unbreakable_blank` — a blank that does not separate after a name.
-/

namespace WebCrawl.XPath

open Text

/-- Where the text before a character ends. -/
inductive Place where
  /-- Between tokens, or at the end of one that no blank can make longer. -/
  | gap
  /-- Within a literal that ends at the next quote of this kind. -/
  | literal (quote : Char)
  /-- At the end of a name. -/
  | name
  /-- After a name and a colon, which may join another one. -/
  | colon
  /-- At the end of a name that a colon has joined to another one. -/
  | joined
deriving DecidableEq

namespace Place

/-- The place after a character that begins a token or stands between tokens. -/
def begun (c : Char) : Place :=
  if c = '"' ∨ c = '\'' then .literal c else if isNameStart c && !isBlank c then .name else .gap

/-- The place after one more character. -/
def next : Place → Char → Place
  | .gap, c => begun c
  | .literal quote, c => if c = quote then .gap else .literal quote
  | .name, c => if isNameChar c then .name else if c = ':' then .colon else begun c
  | .colon, c => if c = '*' then .gap else if isNameStart c then .joined else begun c
  | .joined, c => if isNameChar c then .joined else begun c

/-- The place after a text. -/
def after (p : Place) (s : Text) : Place := s.foldl next p

@[simp] lemma after_nil (p : Place) : p.after [] = p := rfl

@[simp] lemma after_cons (p : Place) (c : Char) (s : Text) : p.after (c :: s) = (p.next c).after s :=
  rfl

@[simp] lemma after_append (p : Place) (s t : Text) : p.after (s ++ t) = (p.after s).after t :=
  List.foldl_append

/-- Whether a name ends at the place, or a colon after one. -/
def isOpen : Place → Bool
  | .name | .colon | .joined => true
  | .gap | .literal _ => false

/-- Whether a blank at the place separates what is before it from what is after it. Within a literal
none does, and after a name only those of ASCII. -/
def separates (p : Place) (c : Char) : Bool :=
  match p with
  | .gap => true
  | .literal _ => false
  | .name | .colon | .joined => c.toNat < 128

end Place

variable {x y : Char} {b : Bool} {u v : Text}

/-! ## Blanks -/

/-- The blanks of ASCII and the others. -/
lemma toNat_of_isBlank (h : isBlank y = true) :
    9 ≤ y.toNat ∧ y.toNat ≤ 13 ∨ y.toNat = 32 ∨ 128 ≤ y.toNat := by
  simp only [isBlank, Bool.or_eq_true, Bool.and_eq_true, decide_eq_true_eq, beq_iff_eq] at h
  omega

/-- A blank is none of the characters that have a meaning of their own. -/
lemma ne_of_isBlank (hy : isBlank y = true) (hx : isBlank x = false) : y ≠ x := by
  rintro rfl
  rw [hx] at hy
  cases hy

/-- A blank between tokens leaves the place as it is. -/
lemma next_of_isBlank (hy : isBlank y = true) : Place.gap.next y = .gap := by
  have hquote : ¬(y = '"' ∨ y = '\'') := by
    rintro (rfl | rfl) <;> cases hy
  simp [Place.next, Place.begun, hquote, hy]

/-- A blank is no digit. -/
lemma isDigit_of_isBlank (hy : isBlank y = true) : y.isDigit = false := by
  have hrange := toNat_of_isBlank hy
  by_contra hdigit
  have := Char.isDigit_iff_toNat.1 (Bool.not_eq_false _ ▸ hdigit)
  have hzero : '0'.toNat = 48 := rfl
  have hnine : '9'.toNat = 57 := rfl
  omega

/-- Of the blanks those of ASCII are no characters of names. -/
lemma isNameChar_of_isBlank (hy : isBlank y = true) (hascii : y.toNat < 128) :
    isNameChar y = false := by
  have hrange := toNat_of_isBlank hy
  have hval : y.toNat = y.val.toNat := rfl
  have hupper : 'A'.val.toNat = 65 := rfl
  have hlower : 'a'.val.toNat = 97 := rfl
  simp only [isNameChar, isNameStart, Char.isAlpha, Char.isUpper, Char.isLower,
    isDigit_of_isBlank hy, Bool.or_eq_false_iff, beq_eq_false_iff_ne, Bool.and_eq_false_iff,
    decide_eq_false_iff_not, ge_iff_le, UInt32.le_iff_toNat_le]
  exact ⟨⟨⟨⟨⟨by omega, ne_of_isBlank hy rfl⟩, by omega⟩, trivial⟩, ne_of_isBlank hy rfl⟩,
    ne_of_isBlank hy rfl⟩

/-- A blank of ASCII makes no name before it longer. -/
lemma isDelimited_of_isBlank (hy : isBlank y = true) (hascii : y.toNat < 128) :
    isDelimited (y :: v) = true :=
  isDelimited_cons.2 ⟨isNameChar_of_isBlank hy hascii, ne_of_isBlank hy rfl, ne_of_isBlank hy rfl⟩

/-! ## Symbols -/

/-- Whether a symbol begins with the character, or no token at all. -/
def beginsSymbol (c : Char) : Bool := !(c == '"' || c == '\'' || c.isDigit || isNameStart c)

/-- The characters that can belong to the symbol before them. -/
def isSecond (c : Char) : Bool := c == '/' || c == '=' || c == ':' || c == '.'

/-- No digit belongs to a symbol. -/
lemma isDigit_of_isSecond (h : isSecond y = true) : y.isDigit = false := by
  simp only [isSecond, Bool.or_eq_true, beq_iff_eq] at h
  obtain ((rfl | rfl) | rfl) | rfl := h <;> rfl

/-- A character that belongs to a symbol leads between tokens. -/
lemma next_of_isSecond (h : isSecond y = true) : Place.gap.next y = .gap := by
  simp only [isSecond, Bool.or_eq_true, beq_iff_eq] at h
  obtain ((rfl | rfl) | rfl) | rfl := h <;> rfl

/-- No blank belongs to a symbol. -/
lemma isSecond_of_isBlank (hy : isBlank y = true) : isSecond y = false := by
  simp [isSecond, ne_of_isBlank hy (x := '/') rfl, ne_of_isBlank hy (x := '=') rfl,
    ne_of_isBlank hy (x := ':') rfl, ne_of_isBlank hy (x := '.') rfl]

/-- A symbol is read as it is at the end of a text, unless what follows can belong to it. -/
lemma tokenAt_of_not_isSecond (hx : beginsSymbol x = true)
    (hu : ∀ c ∈ u.head?, isSecond c = false ∧ (x = '.' → c.isDigit = false)) :
    tokenAt b x u = tokenAt b x [] := by
  have hdigit : x = '.' → u.head?.any Char.isDigit = false := fun hpoint => by
    cases u with
    | nil => rfl
    | cons c u => exact (hu c rfl).2 hpoint
  unfold tokenAt
  split <;> simp_all [beginsSymbol, isSecond]

/-- What follows the character that can belong to a symbol does not matter. -/
lemma tokenAt_of_isSecond (hx : beginsSymbol x = true) (hy : isSecond y = true) :
    tokenAt b x (y :: u) = tokenAt b x [y] := by
  have hdigit := isDigit_of_isSecond hy
  unfold tokenAt
  split <;> simp_all [beginsSymbol]

/-- A symbol takes the next character if that can belong to it, or none. -/
lemma size_of_beginsSymbol (hx : beginsSymbol x = true)
    (hu : x = '.' → u.head?.any Char.isDigit = false) {t : Token} {n : Nat}
    (h : tokenAt b x u = .ok (t, n)) :
    n = 0 ∨ n = 1 ∧ ∃ c r, u = c :: r ∧ isSecond c = true := by
  unfold tokenAt at h
  split at h
  case h_21 =>
    simp only [beginsSymbol, Bool.not_eq_true', Bool.or_eq_false_iff, beq_eq_false_iff_ne] at hx
    have hdigit : ¬(x.isDigit = true ∨ x = '.' ∧ u.head?.any Char.isDigit = true) := by
      rintro (h | ⟨h, h'⟩)
      · simp [hx] at h
      · simp [hu h] at h'
    rw [if_neg (by simp [hx]), if_neg hdigit, if_neg (by simp [hx.2] : ¬isNameStart x = true)] at h
    split_ifs at h
    cases h
    exact .inl rfl
  all_goals first | (cases h; exact .inl rfl) | (cases h; exact .inr ⟨rfl, _, _, rfl, rfl⟩)

/-! ## Literals -/

/-- A text after a quote ends within a literal, or what follows the next quote stands between
tokens. -/
lemma after_literal {q : Char} (h : (Place.literal q).after u ≠ .literal q) :
    ∃ w r, u = w ++ q :: r ∧ q ∉ w ∧ (Place.literal q).after u = Place.gap.after r := by
  have hstay : ∀ w : Text, q ∉ w → (Place.literal q).after w = .literal q := by
    intro w hw
    induction w with
    | nil => rfl
    | cons c w ih =>
      rw [List.mem_cons, not_or] at hw
      rw [Place.after_cons, Place.next, if_neg (Ne.symm hw.1), ih hw.2]
  by_cases hq : q ∈ u
  · obtain ⟨w, r, rfl, hw⟩ := List.eq_append_cons_of_mem hq
    refine ⟨w, r, rfl, hw, ?_⟩
    rw [Place.after_append, hstay w hw, Place.after_cons, Place.next, if_pos rfl]
  · exact absurd (hstay u hq) h

/-! ## Numerals -/

/-- What is read where a numeral begins. -/
lemma tokenAt_of_numeral (hx : x.isDigit = true ∨ x = '.' ∧ u.head?.any Char.isDigit = true) :
    tokenAt b x u = .ok (.number (Double.ofNumeral false (x :: u.take (numeralRest x u))),
      numeralRest x u) := by
  have hquote : ¬(x = '"' ∨ x = '\'') := by
    rintro (rfl | rfl) <;> simp at hx
  unfold tokenAt
  split
  case h_21 => rw [if_neg hquote, if_pos hx]
  case h_20 => simp at hx
  all_goals simp at hx

/-- How many characters of a text a point at its start joins to the numeral before it. -/
def pointRest (x : Char) : Text → Nat
  | '.' :: r => if x = '.' then 0 else 1 + (r.takeWhile Char.isDigit).length
  | _ => 0

/-- A numeral is a run of digits and what a point joins to it. -/
lemma numeralRest_eq (x : Char) (u : Text) : numeralRest x u =
    (u.takeWhile Char.isDigit).length + pointRest x (u.dropWhile Char.isDigit) := by
  simp only [numeralRest, drop_length_takeWhile]
  generalize u.dropWhile Char.isDigit = w
  split
  case h_1 =>
    unfold pointRest
    split <;> simp
  case h_2 hx =>
    have hpoint : x ≠ '.' := hx
    simp [pointRest, hpoint, Nat.add_assoc]
  case h_3 hx hw =>
    unfold pointRest
    split
    · rename_i r
      by_cases hpoint : x = '.'
      · simp [hpoint]
      · exact absurd rfl (hw r)
    · rfl

/-- How long a numeral is does not depend on what follows a blank. -/
lemma numeralRest_append_blank (hy : isBlank y = true) :
    numeralRest x (u ++ y :: v) = numeralRest x u := by
  have hdigit := isDigit_of_isBlank hy
  have hpoint : y ≠ '.' := ne_of_isBlank hy rfl
  have hstop : ∀ c ∈ (y :: v).head?, c.isDigit = false := by
    rintro c ⟨⟩
    exact hdigit
  have hdrop : (u ++ y :: v).dropWhile Char.isDigit = u.dropWhile Char.isDigit ++ y :: v := by
    rw [List.dropWhile_append, List.dropWhile_cons_of_neg (by simp [hdigit])]
    split
    case isTrue hnil => rw [List.isEmpty_iff.1 hnil, List.nil_append]
    case isFalse => rfl
  have hrest : ∀ w, pointRest x (w ++ y :: v) = pointRest x w := by
    intro w
    rcases w with _ | ⟨c, w⟩
    · simp [pointRest, hpoint]
    · by_cases hc : c = '.'
      · subst hc
        simp only [List.cons_append, pointRest, takeWhile_append_of_stop hstop]
      · simp [pointRest, hc]
  rw [numeralRest_eq, numeralRest_eq, takeWhile_append_of_stop hstop, hdrop, hrest]

/-- A numeral takes no more than there is, and consists of digits and points. -/
lemma numeral_spec (x : Char) (u : Text) : numeralRest x u ≤ u.length ∧
    ∀ c ∈ u.take (numeralRest x u), c.isDigit = true ∨ c = '.' := by
  have hrest : ∀ w : Text, pointRest x w ≤ w.length ∧
      ∀ c ∈ w.take (pointRest x w), c.isDigit = true ∨ c = '.' := by
    intro w
    unfold pointRest
    split
    case h_1 r =>
      have htake := (List.takeWhile_prefix (l := r) Char.isDigit).length_le
      split_ifs
      · simp
      · refine ⟨by simp; omega, fun c hc => ?_⟩
        rw [Nat.add_comm, List.take_succ_cons, ← List.prefix_iff_eq_take.1 (List.takeWhile_prefix _),
          List.mem_cons] at hc
        exact hc.elim .inr fun h => .inl (List.mem_takeWhile_imp h)
    case h_2 => simp
  obtain ⟨hle, hall⟩ := hrest (u.dropWhile Char.isDigit)
  have hu := List.takeWhile_append_dropWhile (p := Char.isDigit) (l := u)
  constructor
  · have := congrArg List.length hu
    rw [List.length_append] at this
    rw [numeralRest_eq]
    omega
  · have htake : u.take (numeralRest x u) = u.takeWhile Char.isDigit ++
        (u.dropWhile Char.isDigit).take (pointRest x (u.dropWhile Char.isDigit)) := by
      conv_lhs => arg 2; rw [← hu]
      rw [numeralRest_eq, List.take_length_add_append]
    intro c hc
    rw [htake, List.mem_append] at hc
    exact hc.elim (fun h => .inl (List.mem_takeWhile_imp h)) (hall c)

/-- A numeral ends between tokens. -/
lemma after_of_numeral {w : Text} (h : ∀ c ∈ w, c.isDigit = true ∨ c = '.') :
    Place.gap.after w = .gap := by
  induction w with
  | nil => rfl
  | cons c w ih =>
    have hnext : Place.gap.next c = .gap := by
      rcases h c (.head _) with hc | rfl
      · have hquote : ¬(c = '"' ∨ c = '\'') := by
          rintro (rfl | rfl) <;> cases hc
        simp [Place.next, Place.begun, hquote, isNameStart_of_isDigit hc]
      · rfl
    rw [Place.after_cons, hnext, ih fun d hd => h d (.tail _ hd)]

/-! ## Names -/

/-- The token of a name; after an operand it is an operator. -/
def nameToken (b : Bool) (name : Text) : Except Fault Token :=
  if b then
    match operatorNamed? name with
    | some t => .ok t
    | none => .error .expectedOperator
  else .ok (.name name)

/-- What is read at a character that names begin with. -/
lemma tokenAt_of_isNameStart (hx : isNameStart x = true) (b : Bool) (u : Text) :
    tokenAt b x u = (nameToken b (x :: u.take (nameRest u))).map (·, nameRest u) := by
  have hquote : ¬(x = '"' ∨ x = '\'') := by
    rintro (rfl | rfl) <;> cases hx
  have hpoint : x ≠ '.' := by
    rintro rfl
    cases hx
  have hdigit : x.isDigit = false := by
    by_contra hdigit
    rw [isNameStart_of_isDigit (by simpa using hdigit)] at hx
    cases hx
  unfold tokenAt
  split
  case h_21 =>
    cases b with
    | false => simp [hquote, hdigit, hpoint, hx, nameToken, Except.map]
    | true =>
      simp only [hquote, hdigit, hpoint, hx, nameToken, if_true, if_false]
      cases operatorNamed? (x :: u.take (nameRest u)) <;> simp [Except.map]
  all_goals cases hx

/-- How many characters after its first one a name takes. -/
lemma size_of_isNameStart (hx : isNameStart x = true) {t : Token} {n : Nat}
    (h : tokenAt b x u = .ok (t, n)) : nameRest u = n := by
  rw [tokenAt_of_isNameStart hx] at h
  cases hname : nameToken b (x :: u.take (nameRest u)) with
  | error fault => simp [hname, Except.map] at h
  | ok t =>
    rw [hname] at h
    cases h
    rfl

/-- The place stays the same in a run of characters of names. -/
lemma after_run {p : Place} (hp : p = .name ∨ p = .joined) {run : Text}
    (h : ∀ c ∈ run, isNameChar c = true) : p.after run = p := by
  induction run with
  | nil => rfl
  | cons c run ih =>
    have hc := h c (.head _)
    have hstay : p.next c = p := by
      rcases hp with rfl | rfl <;> simp [Place.next, hc]
    rw [Place.after_cons, hstay, ih fun d hd => h d (.tail _ hd)]

/-- Every text is a run of characters of names and a text that does not go on with it. -/
lemma exists_run (u : Text) : ∃ run rest, u = run ++ rest ∧ (∀ c ∈ run, isNameChar c = true) ∧
    ∀ c ∈ rest.head?, isNameChar c = false := by
  refine ⟨u.takeWhile isNameChar, u.dropWhile isNameChar,
    (List.takeWhile_append_dropWhile).symm, fun c hc => List.mem_takeWhile_imp hc, fun c hc => ?_⟩
  obtain ⟨r, hr⟩ := List.head?_eq_some_iff.1 hc
  have := List.head_dropWhile_not isNameChar (l := u) (by simp [hr])
  simpa [hr] using this

section Run

variable {run rest : Text} (hrun : ∀ c ∈ run, isNameChar c = true)
  (hrest : ∀ c ∈ rest.head?, isNameChar c = false)

include hrun hrest

lemma takeWhile_run : (run ++ rest).takeWhile isNameChar = run := by
  have hnil : rest.takeWhile isNameChar = [] := takeWhile_append_of_stop (s := []) hrest
  rw [List.takeWhile_append_of_pos hrun, hnil, List.append_nil]

/-- How long a name is that begins with the run. -/
lemma nameRest_run : nameRest (run ++ rest) = run.length + joinedRest rest := by
  have hdrop : (run ++ rest).dropWhile isNameChar = rest := by
    rw [← drop_length_takeWhile, takeWhile_run hrun hrest, List.drop_left]
  rw [nameRest_eq, takeWhile_run hrun hrest, hdrop]

end Run

/-- Where a text ends that comes after a run of characters of names and does not go on with it:

* within what it joins to the name, which then goes on with any character that names begin with; or
* at a place that does not depend on the name, which then has ended before. -/
lemma after_joinedRest {rest : Text} (hrest : ∀ c ∈ rest.head?, isNameChar c = false) :
    ((Place.name.after rest).isOpen = true ∧
        Place.gap.after (rest.drop (joinedRest rest)) = .gap ∧
        (rest ≠ [] → ∀ d t, isNameStart d = true →
          rest.length < joinedRest (rest ++ d :: t))) ∨
      (Place.name.after rest = Place.gap.after (rest.drop (joinedRest rest)) ∧ rest ≠ [] ∧
        ∀ t, joinedRest (rest ++ t) = joinedRest rest) := by
  cases rest with
  | nil => exact .inl ⟨rfl, rfl, fun h => absurd rfl h⟩
  | cons c r =>
    by_cases hc : c = ':'
    case neg =>
      have hnext : Place.name.next c = Place.gap.next c := by simp [Place.next, hrest c rfl, hc]
      refine .inr ⟨?_, by simp, fun t => by simp [joinedRest, hc]⟩
      simp [hnext, joinedRest, hc]
    case pos =>
      subst hc
      cases r with
      | nil =>
        refine .inl ⟨rfl, rfl, fun _ d t hd => ?_⟩
        rw [List.singleton_append, joinedRest_colon, joined_of_isNameStart hd, List.length_singleton]
        omega
      | cons d r =>
        have hcolon : Place.name.next ':' = .colon := rfl
        by_cases hstar : d = '*'
        · subst hstar
          exact .inr ⟨rfl, by simp, fun t => rfl⟩
        by_cases hstart : isNameStart d = true
        · -- the colon joins a second name, and the text ends within it or goes on after it
          obtain ⟨run, rest, rfl, hrun, hrest⟩ := exists_run r
          have hjoined : ∀ t, joinedRest (':' :: d :: t) = 2 + (t.takeWhile isNameChar).length :=
            joined_of_isNameStart hstart
          have hnext : Place.colon.next d = .joined := by simp [Place.next, hstar, hstart]
          have hplace : Place.name.after (':' :: d :: (run ++ rest)) = Place.joined.after rest := by
            simp [hcolon, hnext, after_run (.inr rfl) hrun]
          have hdrop : (':' :: d :: (run ++ rest)).drop (2 + run.length) = rest := by
            rw [← List.drop_drop]
            exact List.drop_left
          rw [hjoined, hplace, takeWhile_run hrun hrest, hdrop]
          cases rest with
          | nil =>
            refine .inl ⟨rfl, rfl, fun _ e t he => ?_⟩
            have hlonger : (run ++ e :: t).takeWhile isNameChar =
                run ++ e :: t.takeWhile isNameChar := by
              rw [List.takeWhile_append_of_pos hrun,
                List.takeWhile_cons_of_pos (isNameChar_of_isNameStart he)]
            rw [List.append_nil, List.cons_append, List.cons_append, hjoined, hlonger]
            simp only [List.length_cons, List.length_append]
            omega
          | cons e r =>
            refine .inr ⟨by simp [Place.next, hrest e rfl], by simp, fun t => ?_⟩
            have htake : (run ++ e :: (r ++ t)).takeWhile isNameChar = run :=
              takeWhile_run hrun fun c hc => hrest c hc
            simp [hjoined, htake]
        · have hjoined : ∀ t, joinedRest (':' :: d :: t) = 0 :=
            joined_eq_zero hstar (eq_false_of_ne_true hstart)
          refine .inr ⟨?_, by simp, fun t => by simp [hjoined]⟩
          have hgap : Place.gap.next ':' = .gap := rfl
          have hnext : Place.colon.next d = Place.gap.next d := by simp [Place.next, hstar, hstart]
          simp [hjoined, hcolon, hgap, hnext]

/-- A text after the first character of a name ends within the name, which goes on with any
character that names begin with. -/
structure EndsInName (u : Text) : Prop where
  isOpen : (Place.name.after u).isOpen = true
  left : Place.gap.after (u.drop (nameRest u)) = .gap
  longer : ∀ d t, isNameStart d = true → u.length < nameRest (u ++ d :: t)

/-- After a name in which the text ends the blanks of ASCII separate and no others. -/
lemma EndsInName.separates_eq (h : EndsInName u) (hnext : Place.gap.next x = .name) (y : Char) :
    (Place.gap.after (x :: u)).separates y = decide (y.toNat < 128) := by
  have hopen := h.isOpen
  rw [Place.after_cons, hnext]
  revert hopen
  cases Place.name.after u <;> simp [Place.isOpen, Place.separates]

/-- A text after the first character of a name ends within the name, or at a place that does not
depend on it, and then the name has ended before. -/
lemma endsInName_or (u : Text) : EndsInName u ∨
    (Place.name.after u = Place.gap.after (u.drop (nameRest u)) ∧
      ∀ t, nameRest (u ++ t) = nameRest u) := by
  obtain ⟨run, rest, rfl, hrun, hrest⟩ := exists_run u
  have hplace : Place.name.after (run ++ rest) = Place.name.after rest := by
    rw [Place.after_append, after_run (.inl rfl) hrun]
  have hdrop : (run ++ rest).drop (nameRest (run ++ rest)) = rest.drop (joinedRest rest) := by
    rw [nameRest_run hrun hrest, ← List.drop_drop, List.drop_left]
  have happend : rest ≠ [] → ∀ t, nameRest (run ++ rest ++ t) =
      run.length + joinedRest (rest ++ t) := by
    intro hne t
    rw [List.append_assoc, nameRest_run hrun]
    rwa [List.head?_append_of_ne_nil _ hne]
  rcases after_joinedRest hrest with ⟨hopen, hleft, hlonger⟩ | ⟨hsame, hne, hjoined⟩
  · refine .inl ⟨hplace ▸ hopen, hdrop ▸ hleft, fun d t hd => ?_⟩
    by_cases hne : rest = []
    · subst hne
      have hlonger : (run ++ d :: t).takeWhile isNameChar = run ++ d :: t.takeWhile isNameChar := by
        rw [List.takeWhile_append_of_pos hrun,
          List.takeWhile_cons_of_pos (isNameChar_of_isNameStart hd)]
      rw [List.append_nil, nameRest_eq, hlonger]
      simp only [List.length_cons, List.length_append]
      omega
    · have := hlonger hne d t hd
      rw [happend hne, List.length_append]
      omega
  · refine .inr ⟨by rw [hplace, hdrop, hsame], fun t => ?_⟩
    rw [happend hne, hjoined, nameRest_run hrun hrest]

/-! ## Tokens before a blank -/

/-- The token at the start of a text is complete before any blank, and the place after the text is
that after what is left of it. -/
structure Complete (b : Bool) (x : Char) (u : Text) : Prop where
  same : ∀ y v, isBlank y = true → tokenAt b x (u ++ y :: v) = tokenAt b x u
  left : ∀ t n, tokenAt b x u = .ok (t, n) →
    n ≤ u.length ∧ Place.gap.after (u.drop n) = Place.gap.after (x :: u)

namespace Complete

lemma literal (hx : x = '"' ∨ x = '\'') (hu : Place.gap.after (x :: u) ≠ .literal x) (b : Bool) :
    Complete b x u := by
  have hnext : Place.gap.next x = .literal x := if_pos hx
  rw [Place.after_cons, hnext] at hu
  obtain ⟨w, r, rfl, hw, hafter⟩ := after_literal hu
  have hall : ∀ c ∈ w, (c != x) = true := fun c hc => bne_iff_ne.2 (ne_of_mem_of_not_mem hc hw)
  have htoken : ∀ s, tokenAt b x (w ++ x :: s) = .ok (.literal w, w.length + 1) := fun s => by
    have htake : (w ++ x :: s).takeWhile (· != x) = w := by
      simp [List.takeWhile_append_of_pos hall]
    rw [tokenAt_quote hx, htake, if_neg (by simp)]
  constructor
  · intro y v hy
    rw [List.append_assoc, List.cons_append, htoken, htoken]
  · intro t n h
    rw [htoken] at h
    cases h
    rw [← List.drop_drop, List.drop_left, Place.after_cons, hnext, hafter]
    exact ⟨by simp, rfl⟩

lemma name (hx : isNameStart x = true) (hnext : Place.gap.next x = .name)
    (hplace : Place.name.after u = Place.gap.after (u.drop (nameRest u)))
    (hrest : ∀ t, nameRest (u ++ t) = nameRest u) (b : Bool) : Complete b x u := by
  constructor
  · intro y v hy
    rw [tokenAt_of_isNameStart hx, tokenAt_of_isNameStart hx, hrest,
      List.take_append_of_le_length (nameRest_le u)]
  · intro t n h
    obtain rfl := size_of_isNameStart hx h
    rw [Place.after_cons, hnext, hplace]
    exact ⟨nameRest_le u, rfl⟩

lemma numeral (hx : x.isDigit = true ∨ x = '.' ∧ u.head?.any Char.isDigit = true)
    (hnext : Place.gap.next x = .gap) (b : Bool) : Complete b x u := by
  obtain ⟨hle, hall⟩ := numeral_spec x u
  constructor
  · intro y v hy
    have hx' : x.isDigit = true ∨ x = '.' ∧ (u ++ y :: v).head?.any Char.isDigit = true := by
      refine hx.imp_right fun ⟨hpoint, hhead⟩ => ⟨hpoint, ?_⟩
      cases u with
      | nil => cases hhead
      | cons c u => exact hhead
    rw [tokenAt_of_numeral hx, tokenAt_of_numeral hx', numeralRest_append_blank hy,
      List.take_append_of_le_length hle]
  · intro t n h
    rw [tokenAt_of_numeral hx] at h
    cases h
    have hsplit := Place.after_append .gap (u.take (numeralRest x u)) (u.drop (numeralRest x u))
    rw [List.take_append_drop, after_of_numeral hall] at hsplit
    rw [Place.after_cons, hnext, hsplit]
    exact ⟨hle, rfl⟩

lemma symbol (hx : beginsSymbol x = true) (hpoint : x = '.' → u.head?.any Char.isDigit = false)
    (hnext : Place.gap.next x = .gap) (b : Bool) : Complete b x u := by
  constructor
  · intro y v hy
    rcases u with _ | ⟨c, u⟩
    · refine tokenAt_of_not_isSecond hx ?_
      rintro c ⟨⟩
      exact ⟨isSecond_of_isBlank hy, fun _ => isDigit_of_isBlank hy⟩
    · by_cases hc : isSecond c = true
      · exact (tokenAt_of_isSecond hx hc).trans (tokenAt_of_isSecond hx hc).symm
      · have hother : ∀ d ∈ (c :: u).head?, isSecond d = false ∧ (x = '.' → d.isDigit = false) := by
          rintro d ⟨⟩
          exact ⟨by simpa using hc, fun h => by simpa using hpoint h⟩
        rw [tokenAt_of_not_isSecond hx hother]
        exact tokenAt_of_not_isSecond hx hother
  · intro t n h
    rw [Place.after_cons, hnext]
    rcases size_of_beginsSymbol hx hpoint h with rfl | ⟨rfl, c, r, rfl, hc⟩
    · exact ⟨Nat.zero_le _, rfl⟩
    · rw [Place.after_cons, next_of_isSecond hc]
      exact ⟨by simp, rfl⟩

end Complete

/-- Outside literals the first token of a text is complete, or it is a name in which the text
ends. -/
lemma complete_or_endsInName (hx : isBlank x = false)
    (hu : ∀ q, Place.gap.after (x :: u) ≠ .literal q) (b : Bool) :
    Complete b x u ∨ (isNameStart x = true ∧ Place.gap.next x = .name ∧ EndsInName u) := by
  by_cases hquote : x = '"' ∨ x = '\''
  · exact .inl (.literal hquote (hu x) b)
  by_cases hstart : isNameStart x = true
  · have hnext : Place.gap.next x = .name := by
      simp [Place.next, Place.begun, hquote, hstart, hx]
    exact (endsInName_or u).elim (fun h => .inr ⟨hstart, hnext, h⟩)
      fun ⟨hplace, hrest⟩ => .inl (.name hstart hnext hplace hrest b)
  have hnext : Place.gap.next x = .gap := by simp [Place.next, Place.begun, hquote, hstart]
  by_cases hnumeral : x.isDigit = true ∨ x = '.' ∧ u.head?.any Char.isDigit = true
  · exact .inl (.numeral hnumeral hnext b)
  · rw [not_or, not_and, Bool.not_eq_true, Bool.not_eq_true] at hnumeral
    have hsymbol : beginsSymbol x = true := by
      rw [not_or] at hquote
      simp [beginsSymbol, hnumeral.1, hquote, hstart]
    exact .inl (.symbol hsymbol hnumeral.2 hnext b)

/-! ## Texts with a blank in them -/

/-- Whether only an operator can follow some tokens. -/
def endsOperand (b : Bool) (ts : List Token) : Bool := ts.foldl (fun _ t => t.endsOperand) b

/-- A blank that separates stands outside literals. -/
lemma Place.ne_literal_of_separates {p : Place} (h : p.separates y = true) (q : Char) :
    p ≠ .literal q := by
  rintro rfl
  cases h

/-- The first token of a text is the same with a blank after the text that separates as without it:
it is complete, or it is a name in which the text ends, and then the blank is one of ASCII. What is
left of the text ends where the text did. -/
lemma tokenAt_append_blank (hy : isBlank y = true) (hx : isBlank x = false)
    (hsep : (Place.gap.after (x :: u)).separates y = true) (b : Bool) (v : Text) :
    tokenAt b x (u ++ y :: v) = tokenAt b x u ∧ ∀ t n, tokenAt b x u = .ok (t, n) →
      n ≤ u.length ∧ (Place.gap.after (u.drop n)).separates y = true := by
  rcases complete_or_endsInName hx (Place.ne_literal_of_separates hsep) b with
    h | ⟨hstart, hnext, h⟩
  · refine ⟨h.same y v hy, fun t n htoken => ?_⟩
    obtain ⟨hle, hplace⟩ := h.left t n htoken
    exact ⟨hle, hplace ▸ hsep⟩
  · rw [h.separates_eq hnext, decide_eq_true_eq] at hsep
    rw [tokenAt_of_isNameStart hstart, nameRest_append (isDelimited_of_isBlank hy hsep),
      List.take_append_of_le_length (nameRest_le u), ← tokenAt_of_isNameStart hstart]
    refine ⟨rfl, fun t n htoken => ?_⟩
    obtain rfl := size_of_isNameStart hstart htoken
    exact ⟨nameRest_le u, by rw [h.left]; rfl⟩

/-- A blank that separates divides a text in two, each with tokens of its own.

**Proof sketch.** By induction on the tokens of the first text, as its first token stays the same. -/
theorem lex_append_blank (hy : isBlank y = true) (hsep : (Place.gap.after u).separates y = true)
    (b : Bool) (v : Text) : lex b (u ++ y :: v) =
      (lex b u).bind fun ts => (lex (endsOperand b ts) v).map (ts ++ ·) := by
  induction b, u using lex_induction with
  | nil b =>
    rw [List.nil_append, lex_blank hy, lex_nil]
    simp [endsOperand]
  | blank b x u hx ih =>
    rw [Place.after_cons, next_of_isBlank hx] at hsep
    rw [List.cons_append, lex_blank hx, lex_blank hx, ih hsep]
  | fault b x u f hx h =>
    obtain ⟨hsame, -⟩ := tokenAt_append_blank hy hx hsep b v
    rw [List.cons_append, lex_fault hx (hsame.trans h), lex_fault hx h, Option.bind_none]
  | token b x u t n hx h ih =>
    obtain ⟨hsame, hleft⟩ := tokenAt_append_blank hy hx hsep b v
    obtain ⟨hle, hsep⟩ := hleft t n h
    rw [List.cons_append, lex_token hx (hsame.trans h), lex_token hx h,
      List.drop_append_of_le_length hle, ih hsep]
    cases lex t.endsOperand (u.drop n) with
    | none => rfl
    | some ts => simp [Function.comp_def, endsOperand]

/-- No operator has a character beyond ASCII in its name. -/
lemma operatorNamed?_eq_none {name : Text} (hy : 128 ≤ y.toNat) (hmem : y ∈ name) :
    operatorNamed? name = none := by
  have hne : ∀ operator : Text, isAscii operator = true → name ≠ operator := by
    rintro operator hascii rfl
    exact not_mem_of_isAscii hascii hy hmem
  rw [operatorNamed?, if_neg (hne _ (by decide +kernel)), if_neg (hne _ (by decide +kernel)),
    if_neg (hne _ (by decide +kernel)), if_neg (hne _ (by decide +kernel))]

/-- A name in which a text ends goes on with a blank after the text that does not separate. -/
lemma EndsInName.mentions (h : EndsInName u) (hx : isBlank x = false)
    (hstart : isNameStart x = true) (hnext : Place.gap.next x = .name)
    (hsep : (Place.gap.after (x :: u)).separates y = false) {ts : List Token}
    (hlex : lex b (x :: (u ++ y :: v)) = some ts) : ts.any (·.mentions y) = true := by
  rw [h.separates_eq hnext, decide_eq_false_iff_not, Nat.not_lt] at hsep
  have hlonger := h.longer y v (by simp [isNameStart, hsep])
  have hmem : y ∈ x :: (u ++ y :: v).take (nameRest (u ++ y :: v)) := by
    obtain ⟨k, hk⟩ := Nat.exists_eq_add_of_lt hlonger
    rw [hk, Nat.add_assoc, List.take_length_add_append]
    simp
  have htoken := tokenAt_of_isNameStart hstart b (u ++ y :: v)
  rw [nameToken, operatorNamed?_eq_none hsep hmem] at htoken
  cases b with
  | true =>
    rw [lex_fault hx htoken] at hlex
    cases hlex
  | false =>
    rw [lex_token hx htoken, Option.map_eq_some_iff] at hlex
    obtain ⟨us, -, rfl⟩ := hlex
    rw [List.any_cons, Token.mentions, decide_eq_true hmem, Bool.true_or]

/-- A blank outside literals that does not separate stands in a name, if the text has tokens at all.

**Proof sketch.** By induction on the tokens of what stands before the blank. The first one is
complete, or it is a name in which the text ends, and which then goes on with the blank. -/
theorem mentions_of_lex (hy : isBlank y = true) (hu : ∀ q, Place.gap.after u ≠ .literal q)
    (hsep : (Place.gap.after u).separates y = false) {b : Bool} {v : Text} {ts : List Token}
    (h : lex b (u ++ y :: v) = some ts) : ts.any (·.mentions y) = true := by
  induction b, u using lex_induction generalizing ts with
  | nil b => cases hsep
  | blank b x u hx ih =>
    rw [Place.after_cons, next_of_isBlank hx] at hsep hu
    rw [List.cons_append, lex_blank hx] at h
    exact ih hu hsep h
  | fault b x u f hx hfault =>
    rcases complete_or_endsInName hx hu b with hcomplete | ⟨hstart, hnext, hname⟩
    · rw [List.cons_append, lex_fault hx ((hcomplete.same y v hy).trans hfault)] at h
      cases h
    · exact hname.mentions hx hstart hnext hsep h
  | token b x u t n hx htoken ih =>
    rcases complete_or_endsInName hx hu b with hcomplete | ⟨hstart, hnext, hname⟩
    · obtain ⟨hle, hplace⟩ := hcomplete.left t n htoken
      rw [List.cons_append, lex_token hx ((hcomplete.same y v hy).trans htoken),
        List.drop_append_of_le_length hle, Option.map_eq_some_iff] at h
      obtain ⟨us, hus, rfl⟩ := h
      rw [List.any_cons, ih (hplace ▸ hu) (hplace ▸ hsep) hus, Bool.or_true]
    · exact hname.mentions hx hstart hnext hsep h

/-- A name that is read stands in the text. -/
lemma mem_of_tokenAt {s : Text} {t : Token} {n : Nat} (h : tokenAt b x s = .ok (t, n))
    (hmentions : t.mentions y = true) : y ∈ x :: s := by
  by_cases hx : isNameStart x = true
  · rw [tokenAt_of_isNameStart hx] at h
    have ht : t = .name (x :: s.take (nameRest s)) := by
      unfold nameToken operatorNamed? at h
      split_ifs at h <;> cases h <;> first | rfl | cases hmentions
    subst ht
    have hmem : y ∈ x :: s.take (nameRest s) := by simpa [Token.mentions] using hmentions
    exact List.mem_cons.2 ((List.mem_cons.1 hmem).imp_right List.mem_of_mem_take)
  · unfold tokenAt at h
    split at h
    case h_21 =>
      rw [if_neg hx] at h
      split_ifs at h
      · dsimp only at h
        split_ifs at h
        cases h
        cases hmentions
      all_goals cases h; cases hmentions
    all_goals cases h; cases b <;> cases hmentions

/-- A name among the tokens of a text stands in the text. -/
lemma mem_of_lex {s : Text} {ts : List Token} (h : lex b s = some ts)
    (hmentions : ts.any (·.mentions y) = true) : y ∈ s := by
  induction b, s using lex_induction generalizing ts with
  | nil b =>
    rw [lex_nil] at h
    cases h
    cases hmentions
  | blank b x s hx ih =>
    rw [lex_blank hx] at h
    exact .tail _ (ih h hmentions)
  | fault b x s f hx hfault =>
    rw [lex_fault hx hfault] at h
    cases h
  | token b x s t n hx htoken ih =>
    rw [lex_token hx htoken, Option.map_eq_some_iff] at h
    obtain ⟨us, hus, rfl⟩ := h
    rw [List.any_cons, Bool.or_eq_true] at hmentions
    rcases hmentions with ht | hus'
    · exact mem_of_tokenAt htoken ht
    · exact .tail _ (List.mem_of_mem_drop (ih hus hus'))

/-! ## Names before a blank -/

/-- The expression that a name alone stands for: the children of that name. -/
def childNamed (name : Text) : Expr := .path false [.mk .child (.name name) []]

/-- A name alone is read as the children of that name. -/
lemma parse_of_lex {s name : Text} (h : lex false s = some [.name name]) :
    parse s = .ok (childNamed name) := by
  have hstep : Spells (.step (.mk .child (.name name) [])) ([] ++ [.name name] ++ []) :=
    .step .child (.name name) .noPredicates
  have hpath := Spells.relative hstep .noSteps
  exact parse_eq_ok_iff.2 ⟨_, h, hpath.of_rank_le (by decide)⟩

/-- A name before a blank is read as the name, or as the name with the blank as its last character if
the blank does not separate. -/
theorem parse_name_blank {name : Text} (hname : isName name = true) (hy : isBlank y = true) :
    parse (name ++ [y]) =
      .ok (childNamed (if (Place.gap.after name).separates y then name else name ++ [y])) := by
  have hread : ∀ {name : Text}, isName name = true → lex false name = some [.name name] := by
    intro name hname
    have hread := Reads.name hname (x := []) rfl (.nil true)
    rw [List.append_nil] at hread
    exact hread.lex_eq
  apply parse_of_lex
  split_ifs with hsep
  · rw [lex_append_blank hy hsep, hread hname]
    simp
  · obtain ⟨x, s, rfl, hstart, hblank, hrest⟩ := exists_of_isName hname
    have hquote : ¬(x = '"' ∨ x = '\'') := by
      rintro (rfl | rfl) <;> cases hstart
    have hnext : Place.gap.next x = .name := by
      simp [Place.next, Place.begun, hquote, hstart, hblank]
    have hlonger : EndsInName s ∧ 128 ≤ y.toNat := by
      rcases endsInName_or s with h | ⟨hgap, -⟩
      · rw [h.separates_eq hnext, decide_eq_true_eq, Nat.not_lt] at hsep
        exact ⟨h, hsep⟩
      · rw [Place.after_cons, hnext, hgap, hrest, List.drop_length] at hsep
        exact absurd rfl hsep
    have hlength : nameRest (s ++ [y]) = (s ++ [y]).length := by
      have hlt := hlonger.1.longer y [] (by simp [isNameStart, hlonger.2])
      have hle := nameRest_le (s ++ [y])
      rw [List.length_append, List.length_singleton] at hle ⊢
      omega
    refine hread ?_
    simp only [isName, hstart, hblank, hlength, List.cons_append, BEq.rfl]
    rfl

/-! ## Blanks in place of others -/

/-- Whether two texts have the same outcome: the same expression, or none. -/
def SameOutcome (s t : Text) : Prop := (parse s).toOption = (parse t).toOption

lemma toOption_parse_iff {s : Text} {e : Expr} : (parse s).toOption = some e ↔ parse s = .ok e := by
  cases parse s <;> simp [Except.toOption]

/-- Texts with the same tokens have the same outcome. -/
lemma sameOutcome_of_lex {s t : Text} (h : lex false s = lex false t) : SameOutcome s t := by
  refine Option.ext fun e => ?_
  rw [toOption_parse_iff, toOption_parse_iff, parse_eq_ok_iff, parse_eq_ok_iff, h]

/-- What comes of one blank in place of another outside literals:

* where both separate what is before them from what is after them, the outcome is the same;
* where a blank does not separate, every expression that is read asks for a name with the blank in it;
* so where only one separates, and the other blank is found nowhere else in the text, the outcome is
  the same only if there is none. -/
theorem parse_blank {c d : Char} (hc : isBlank c = true) (hd : isBlank d = true) {u : Text}
    (hu : ∀ q, Place.gap.after u ≠ .literal q) (v : Text) :
    ((Place.gap.after u).separates c = true → (Place.gap.after u).separates d = true →
      SameOutcome (u ++ c :: v) (u ++ d :: v)) ∧
    ((Place.gap.after u).separates d = false →
      ∀ e, parse (u ++ d :: v) = .ok e → e.mentions d = true) ∧
    ((Place.gap.after u).separates c = true → (Place.gap.after u).separates d = false →
      d ∉ u ++ v → SameOutcome (u ++ c :: v) (u ++ d :: v) →
      (parse (u ++ c :: v)).toOption = none) := by
  have hbeyond : (Place.gap.after u).separates d = false → 128 ≤ d.toNat := by
    intro hsep
    revert hsep hu
    cases Place.gap.after u <;> simp [Place.separates]
  have hmentions : (Place.gap.after u).separates d = false →
      ∀ e, parse (u ++ d :: v) = .ok e → e.mentions d = true := by
    intro hsep e he
    obtain ⟨ts, hts, heq⟩ := mentions_of_parse (hbeyond hsep) he
    rw [heq]
    exact mentions_of_lex hd hu hsep hts
  refine ⟨fun hsepc hsepd => ?_, hmentions, fun hsepc hsepd hfree hsame => ?_⟩
  · apply sameOutcome_of_lex
    rw [lex_append_blank hc hsepc, lex_append_blank hd hsepd]
  · by_contra hsome
    obtain ⟨e, he⟩ := Option.ne_none_iff_exists'.1 hsome
    have hed := hmentions hsepd e (toOption_parse_iff.1 (hsame ▸ he))
    obtain ⟨ts, hts, heq⟩ := mentions_of_parse (hbeyond hsepd) (toOption_parse_iff.1 he)
    have hmem := mem_of_lex hts (heq ▸ hed)
    rw [List.mem_append, List.mem_cons] at hmem
    rcases hmem with hmem | rfl | hmem
    · exact hfree (List.mem_append_left _ hmem)
    · rw [hsepd] at hsepc
      cases hsepc
    · exact hfree (List.mem_append_right _ hmem)

/-- Between a number and an operator a wide blank may stand for a narrow one. -/
theorem parse_wide_blank : isBlank ' ' = true ∧ isBlank '\u3000' = true ∧
    SameOutcome "1 + 2" "1\u3000+ 2" := by
  have hu : ∀ q, Place.gap.after "1" ≠ .literal q := by
    have hgap : Place.gap.after "1" = .gap := by decide +kernel
    rw [hgap]
    nofun
  exact ⟨rfl, rfl, (parse_blank (c := ' ') (d := '\u3000') rfl rfl hu "+ 2").1 rfl rfl⟩

/-- A blank beyond ASCII after a name is read as part of the name, so that it is not the same name. -/
theorem parse_unbreakable_blank : isBlank ' ' = true ∧ isBlank '\u00a0' = true ∧
    (∀ q, Place.gap.after "//p" ≠ .literal q) ∧ ¬SameOutcome "//p " "//p\u00a0" := by
  have hplace : Place.gap.after "//p" = .name := by decide +kernel
  refine ⟨rfl, rfl, by rw [hplace]; nofun, fun hsame => ?_⟩
  have hnarrow : (parse "//p ").toOption.map (·.mentions '\u00a0') = some false := by
    decide +kernel
  have hwide : (parse "//p\u00a0").toOption.map (·.mentions '\u00a0') = some true := by
    decide +kernel
  rw [hsame, hwide] at hnarrow
  cases hnarrow

end WebCrawl.XPath
