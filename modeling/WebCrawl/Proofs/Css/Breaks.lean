import Mathlib.Data.List.DropRight
import Mathlib.Data.List.TakeWhile
import WebCrawl.Proofs.Css.WellFormed

set_option autoImplicit false

/-!
# Lexemes in front of further text

How much a lexeme takes of a text that does not end in a blank does not depend on what follows, as
long as a blank or a comma comes first. Most lexemes do not occur at a blank or a comma at all.

## Main definitions

* `WebCrawl.Css.Breaks` — a text that begins with a blank or a comma.
* `WebCrawl.Css.Tight` — a text that does not end in a blank.
* `WebCrawl.Css.Lexeme.Settled` — a lexeme that takes as much in front of a break as without it.
* `WebCrawl.Css.Lexeme.Inner` — a lexeme that does not occur at a break.
-/

namespace WebCrawl.Css

open Reader Text
open XPath (takeWhile_append_of_stop)

/-! ## Breaks and tight texts -/

/-- The text is empty, or begins with a blank or a comma. -/
def Breaks (t : Text) : Prop := ∀ c ∈ t.head?, isBlank c = true ∨ c = ','

/-- The text does not end in a blank. -/
def Tight (s : Text) : Prop := ∀ c ∈ s.getLast?, isBlank c = false

section Texts

variable {s t r : Text} {c d : Char} {p : Char → Bool}

lemma breaks_nil : Breaks [] := by simp [Breaks]

lemma Tight.of_suffix (hs : Tight s) (h : r <:+ s) : Tight r := by
  intro c hc
  obtain ⟨x, rfl⟩ := h
  refine hs c ?_
  rw [Option.mem_def] at hc ⊢
  rw [List.getLast?_append, hc]
  rfl

/-- A tight text does not consist of blanks. -/
lemma Tight.dropWhile_ne_nil (hs : Tight s) (hne : s ≠ []) : s.dropWhile isBlank ≠ [] := by
  rw [Ne, List.dropWhile_eq_nil_iff]
  intro hall
  have hlast := hs _ (List.getLast?_eq_some_getLast hne)
  rw [hall _ (List.getLast_mem hne)] at hlast
  cases hlast

/-- Blanks that end within a text end there whatever follows. -/
lemma dropWhile_append_of_ne_nil (h : s.dropWhile isBlank ≠ []) :
    (s ++ t).dropWhile isBlank = s.dropWhile isBlank ++ t := by
  rw [List.dropWhile_append, if_neg]
  rwa [List.isEmpty_iff]

lemma run_append_of_ne_nil (h : s.dropWhile isBlank ≠ []) :
    Lexeme.run isBlank (s ++ t) = Lexeme.run isBlank s := by
  have hlength : ∀ x : Text, Lexeme.run isBlank x + (x.dropWhile isBlank).length = x.length := by
    intro x
    rw [Lexeme.run, ← List.length_append, List.takeWhile_append_dropWhile]
  have hwhole := hlength (s ++ t)
  have hpart := hlength s
  rw [dropWhile_append_of_ne_nil h, List.length_append, List.length_append] at hwhole
  omega

/-- The blanks at the beginning of a tight text end within it. -/
lemma Tight.dropWhile_append (hs : Tight s) (hne : s ≠ []) :
    (s ++ t).dropWhile isBlank = s.dropWhile isBlank ++ t :=
  dropWhile_append_of_ne_nil (hs.dropWhile_ne_nil hne)

lemma Tight.run_append (hs : Tight s) (hne : s ≠ []) :
    Lexeme.run isBlank (s ++ t) = Lexeme.run isBlank s :=
  run_append_of_ne_nil (hs.dropWhile_ne_nil hne)

/-! ## Classes of characters -/

/-- Neither blanks nor commas are of the class. -/
def Excludes (p : Char → Bool) : Prop := ∀ c, isBlank c = true ∨ c = ',' → p c = false

lemma Excludes.head (hp : Excludes p) (ht : Breaks t) : ∀ c ∈ t.head?, p c = false :=
  fun c hc => hp c (ht c hc)

lemma Excludes.run_append (hp : Excludes p) (ht : Breaks t) :
    Lexeme.run p (s ++ t) = Lexeme.run p s :=
  congrArg List.length (takeWhile_append_of_stop (hp.head ht))

/-- The code points of blanks beyond ASCII. -/
def blankCodes : List Nat :=
  [0x85, 0xa0, 0x1680, 0x2000, 0x2001, 0x2002, 0x2003, 0x2004, 0x2005, 0x2006, 0x2007, 0x2008,
    0x2009, 0x200a, 0x2028, 0x2029, 0x202f, 0x205f, 0x3000]

/-- No code point of a blank is in the tables of digits and word characters. -/
lemma inRanges_blankCodes :
    ∀ n ∈ blankCodes, inRanges decimalRanges n = false ∧ inRanges wordRanges n = false := by
  decide +kernel

lemma mem_blankCodes (h : isBlank c = true) (hascii : ¬c.toNat < 128) : c.toNat ∈ blankCodes := by
  simp only [isBlank, Bool.or_eq_true, Bool.and_eq_true, decide_eq_true_eq, beq_iff_eq] at h
  simp only [blankCodes, List.mem_cons, List.not_mem_nil, or_false]
  omega

lemma not_isAlphanum_of_break (h : isBlank c = true ∨ c = ',') : c.isAlphanum = false := by
  obtain h | rfl := h
  · have hbounds : '0'.val.toNat = 48 ∧ '9'.val.toNat = 57 ∧ 'A'.val.toNat = 65 ∧
        'Z'.val.toNat = 90 ∧ 'a'.val.toNat = 97 ∧ 'z'.val.toNat = 122 :=
      ⟨rfl, rfl, rfl, rfl, rfl, rfl⟩
    have hval : c.toNat = c.val.toNat := rfl
    simp only [isBlank, Bool.or_eq_true, Bool.and_eq_true, decide_eq_true_eq, beq_iff_eq] at h
    simp only [Char.isAlphanum, Char.isAlpha, Char.isUpper, Char.isLower, Char.isDigit,
      Bool.or_eq_false_iff, Bool.and_eq_false_iff, decide_eq_false_iff_not, ge_iff_le,
      UInt32.le_iff_toNat_le]
    omega
  · rfl

lemma ne_of_break (h : isBlank c = true ∨ c = ',') (hd : isBlank d = false) (hcomma : d ≠ ',') :
    c ≠ d := by
  rintro rfl
  obtain h | h := h
  · rw [hd] at h
    cases h
  · exact hcomma h

lemma excludes_isAlpha : Excludes Char.isAlpha := by
  intro c hc
  have := not_isAlphanum_of_break hc
  rw [Char.isAlphanum, Bool.or_eq_false_iff] at this
  exact this.1

lemma excludes_isDecimal : Excludes isDecimal := by
  intro c hc
  rw [isDecimal]
  split
  case isTrue =>
    have hdigit := not_isAlphanum_of_break hc
    rw [Char.isAlphanum, Bool.or_eq_false_iff] at hdigit
    exact hdigit.2
  case isFalse hascii =>
    obtain hc | rfl := hc
    · exact (inRanges_blankCodes _ (mem_blankCodes hc hascii)).1
    · exact absurd (by decide) hascii

lemma excludes_isWord : Excludes isWord := by
  intro c hc
  rw [isWord]
  split
  case isTrue =>
    rw [not_isAlphanum_of_break hc, Bool.false_or, beq_eq_false_iff_ne]
    exact ne_of_break hc (by decide) (by decide)
  case isFalse hascii =>
    obtain hc | rfl := hc
    · exact (inRanges_blankCodes _ (mem_blankCodes hc hascii)).2
    · exact absurd (by decide) hascii

/-- A class and one character more. -/
lemma Excludes.or_eq (hp : Excludes p) (hd : isBlank d = false) (hcomma : d ≠ ',') :
    Excludes fun c => p c || c == d := by
  intro c hc
  beta_reduce
  rw [hp c hc, Bool.false_or, beq_eq_false_iff_ne]
  exact ne_of_break hc hd hcomma

lemma Excludes.eq_or (hp : Excludes p) (hd : isBlank d = false) (hcomma : d ≠ ',') :
    Excludes fun c => c == d || p c := by
  intro c hc
  beta_reduce
  rw [hp c hc, Bool.or_false, beq_eq_false_iff_ne]
  exact ne_of_break hc hd hcomma

lemma excludes_isNameChar : Excludes Lexeme.isNameChar :=
  excludes_isWord.eq_or rfl (by decide)

lemma excludes_isAttributeChar : Excludes Lexeme.isAttributeChar :=
  (excludes_isNameChar.or_eq rfl (by decide)).or_eq rfl (by decide)

end Texts

/-! ## Lexemes -/

namespace Lexeme

/-- The lexeme takes no more than there is, and of a tight text as much in front of a break as
without it. -/
structure Settled (lexeme : Lexeme) : Prop where
  le : ∀ s, lexeme s ≤ s.length
  append : ∀ ⦃s t⦄, Tight s → s ≠ [] → Breaks t → lexeme (s ++ t) = lexeme s

/-- The lexeme does not occur at a break. -/
def Inner (lexeme : Lexeme) : Prop := ∀ ⦃t⦄, Breaks t → lexeme t = 0

section Lexemes

variable {lexeme : Lexeme} {p first later : Char → Bool} {c : Char} {s t : Text}

lemma Settled.nil (h : Settled lexeme) : lexeme [] = 0 := Nat.le_zero.1 (h.le [])

/-- A lexeme that does not occur at a break takes as much of any tight text in front of one. -/
lemma Settled.append_of_inner (h : Settled lexeme) (hi : Inner lexeme) (hs : Tight s)
    (ht : Breaks t) : lexeme (s ++ t) = lexeme s := by
  by_cases hne : s = []
  · subst hne
    rw [List.nil_append, hi ht, h.nil]
  · exact h.append hs hne ht

lemma run_le (p : Char → Bool) (s : Text) : run p s ≤ s.length :=
  (List.takeWhile_prefix p).length_le

lemma settled_run (hp : Excludes p) : Settled (run p) :=
  ⟨run_le p, fun _ _ _ _ ht => hp.run_append ht⟩

lemma settled_spaces : Settled spaces := ⟨run_le _, fun _ _ hs hne _ => hs.run_append hne⟩

lemma settled_spaced (c : Char) : Settled (spaced c) where
  le s := by
    rw [spaced]
    split
    case isTrue hc =>
      have hlength := congrArg List.length (List.takeWhile_append_dropWhile (p := isBlank) (l := s))
      obtain ⟨r, hr⟩ := List.head?_eq_some_iff.1 hc
      rw [hr, List.length_append, List.length_cons] at hlength
      rw [run]
      omega
    case isFalse => exact Nat.zero_le _
  append s t hs hne ht := by
    obtain ⟨d, r, hr⟩ := List.exists_cons_of_ne_nil (hs.dropWhile_ne_nil hne)
    rw [spaced, spaced, hs.dropWhile_append hne, hs.run_append hne, hr]
    rfl

lemma settled_comma : Settled comma := settled_spaced ','

lemma settled_marked (hc : isBlank c = false) (hcomma : c ≠ ',') (hp : Excludes p) :
    Settled (marked c p) ∧ Inner (marked c p) := by
  refine ⟨⟨fun s => ?_, fun s t _ hne ht => ?_⟩, fun t ht => ?_⟩
  · cases s with
    | nil => exact Nat.le_refl _
    | cons d s =>
      have := run_le p s
      rw [marked, List.length_cons]
      split <;> omega
  · obtain ⟨d, s, rfl⟩ := List.exists_cons_of_ne_nil hne
    rw [List.cons_append, marked, marked, hp.run_append ht]
  · cases t with
    | nil => rfl
    | cons d t => exact if_neg fun h => ne_of_break (ht d rfl) hc hcomma h.1

lemma settled_headed (hfirst : Excludes first) (hlater : Excludes later) :
    Settled (headed first later) ∧ Inner (headed first later) := by
  refine ⟨⟨fun s => ?_, fun s t _ hne ht => ?_⟩, fun t ht => ?_⟩
  · cases s with
    | nil => exact Nat.le_refl _
    | cons d s =>
      have := run_le later s
      rw [headed, List.length_cons]
      split <;> omega
  · obtain ⟨d, s, rfl⟩ := List.exists_cons_of_ne_nil hne
    rw [List.cons_append, headed, headed, hlater.run_append ht]
  · cases t with
    | nil => rfl
    | cons d t => rw [headed, hfirst d (ht d rfl), if_neg Bool.false_ne_true]

/-- A bracket is known by the first character. -/
lemma settled_head (hc : isBlank c = false) (hcomma : c ≠ ',') :
    Settled (fun s => if s.head? = some c then 1 else 0) ∧
      Inner fun s => if s.head? = some c then 1 else 0 := by
  refine ⟨⟨fun s => ?_, fun s t _ hne ht => ?_⟩, fun t ht => ?_⟩
  · cases s with
    | nil => exact Nat.le_refl _
    | cons d s =>
      rw [List.length_cons]
      split <;> omega
  · obtain ⟨d, s, rfl⟩ := List.exists_cons_of_ne_nil hne
    rfl
  · cases t with
    | nil => rfl
    | cons d t =>
      refine if_neg fun h => ne_of_break (ht d rfl) hc hcomma ?_
      simpa using h

lemma settled_className : Settled className ∧ Inner className :=
  settled_marked rfl (by decide) excludes_isNameChar

lemma settled_identifier : Settled identifier ∧ Inner identifier :=
  settled_marked rfl (by decide) excludes_isNameChar

lemma settled_pseudoClass : Settled pseudoClass ∧ Inner pseudoClass :=
  settled_marked rfl (by decide) (excludes_isAlpha.eq_or rfl (by decide))

lemma settled_openBracket : Settled openBracket ∧ Inner openBracket :=
  settled_head rfl (by decide)

lemma settled_closeBracket : Settled closeBracket ∧ Inner closeBracket :=
  settled_head rfl (by decide)

lemma settled_attributeName : Settled attributeName ∧ Inner attributeName := by
  have hfirst : Excludes fun c => c == '-' || c == '_' || c == ':' || c.isAlpha := by
    have := ((excludes_isAlpha.eq_or rfl (by decide : ':' ≠ ',')).eq_or rfl
      (by decide : '_' ≠ ',')).eq_or rfl (by decide : '-' ≠ ',')
    simpa only [Bool.or_assoc] using this
  exact settled_headed hfirst excludes_isAttributeChar

lemma element_cons (hc : c ≠ '*') :
    element (c :: s) = headed (fun c => c == '_' || c.isAlpha) isNameChar (c :: s) := by
  unfold element
  split
  case h_1 h => cases h
  case h_2 h => exact absurd (List.cons.inj h).1 hc
  case h_3 => rfl

lemma settled_element : Settled element ∧ Inner element := by
  obtain ⟨⟨hle, happend⟩, hinner⟩ := settled_headed
    (excludes_isAlpha.eq_or rfl (by decide : '_' ≠ ',')) excludes_isNameChar
  refine ⟨⟨fun s => ?_, fun s t hs hne ht => ?_⟩, fun t ht => ?_⟩
  · cases s with
    | nil => exact Nat.le_refl _
    | cons c s =>
      by_cases hc : c = '*'
      · subst hc
        exact Nat.le_add_left 1 s.length
      · rw [element_cons hc]
        exact hle _
  · obtain ⟨c, s, rfl⟩ := List.exists_cons_of_ne_nil hne
    by_cases hc : c = '*'
    · subst hc
      rfl
    · have := happend hs hne ht
      rw [List.cons_append] at this ⊢
      rw [element_cons hc, element_cons hc, this]
  · cases t with
    | nil => rfl
    | cons c t =>
      rw [element_cons (ne_of_break (ht c rfl) rfl (by decide))]
      exact hinner ht

lemma settled_keyword {word : Text} (hword : ∀ c ∈ word, c.isAlpha = true) :
    Settled (keyword word) := by
  have hle : ∀ s : Text, lower (s.take word.length) = word → word.length ≤ s.length := by
    intro s h
    have hlength := congrArg List.length h
    rw [lower, List.length_map, List.length_take] at hlength
    omega
  refine ⟨fun s => ?_, fun s t _ _ ht => ?_⟩
  · rw [keyword]
    split
    case isTrue h => exact hle s h
    case isFalse => exact Nat.zero_le _
  · by_cases hlong : word.length ≤ s.length
    · rw [keyword, keyword, List.take_append_of_le_length hlong]
    · -- A letter of the word would stand where the further text begins.
      have hsplit : lower ((s ++ t).take word.length) ≠ word := by
        intro h
        rw [List.take_append, lower, List.map_append] at h
        cases t with
        | nil =>
          rw [List.take_nil, List.map_nil, List.append_nil] at h
          exact hlong (hle s h)
        | cons d t =>
          obtain ⟨k, hk⟩ := Nat.exists_eq_add_of_lt (Nat.lt_of_not_le hlong)
          have hmem : d.toLower ∈ word := by
            rw [← h, show word.length - s.length = k + 1 by omega]
            simp
          have hd := excludes_isAlpha d (ht d rfl)
          rw [← Char.isAlpha_toLower_eq_isAlpha, hword _ hmem] at hd
          cases hd
      rw [keyword, keyword, if_neg hsplit, if_neg fun h => hlong (hle s h)]

lemma operator_cons (hc : c ≠ '=') : operator (c :: s) =
    if s.head? = some '=' ∧ c ∈ ['~', '|', '^', '$', '*'] then 2 else 0 := by
  unfold operator
  split
  case h_1 h => exact absurd (List.cons.inj h).1 hc
  case h_2 h =>
    obtain ⟨rfl, rfl⟩ := List.cons.inj h
    simp
  case h_3 hother =>
    refine (if_neg fun h => ?_).symm
    obtain ⟨r, rfl⟩ := List.head?_eq_some_iff.1 h.1
    exact hother c r rfl

lemma settled_operator : Settled operator := by
  refine ⟨fun s => ?_, fun s t _ hne ht => ?_⟩
  · cases s with
    | nil => exact Nat.le_refl _
    | cons c s =>
      by_cases hc : c = '='
      · subst hc
        exact Nat.le_add_left 1 s.length
      · rw [operator_cons hc]
        split
        case isTrue h =>
          obtain ⟨r, rfl⟩ := List.head?_eq_some_iff.1 h.1
          exact Nat.le_add_left 2 r.length
        case isFalse => exact Nat.zero_le _
  · obtain ⟨c, s, rfl⟩ := List.exists_cons_of_ne_nil hne
    by_cases hc : c = '='
    · subst hc
      rfl
    · have hhead : (s ++ t).head? = some '=' ↔ s.head? = some '=' := by
        cases s with
        | nil =>
          refine ⟨fun h => absurd rfl (ne_of_break (ht '=' h) rfl (by decide)), fun h => ?_⟩
          cases h
        | cons d s => exact Iff.rfl
      rw [List.cons_append, operator_cons hc, operator_cons hc]
      exact if_congr (and_congr_left' hhead) rfl rfl

lemma sign_le (s : Text) : sign s ≤ s.length := by
  cases s with
  | nil => exact Nat.le_refl _
  | cons c s =>
    rw [sign, List.length_cons]
    split <;> omega

lemma sign_append (hne : s ≠ []) : sign (s ++ t) = sign s := by
  obtain ⟨c, s, rfl⟩ := List.exists_cons_of_ne_nil hne
  rfl

/-- The digits after a sign end where a break follows. -/
lemma digits_append (hne : s ≠ []) (ht : Breaks t) :
    run isDecimal ((s ++ t).drop (sign (s ++ t))) = run isDecimal (s.drop (sign s)) := by
  rw [sign_append hne, List.drop_append_of_le_length (sign_le s), excludes_isDecimal.run_append ht]

lemma settled_integer : Settled integer := by
  refine ⟨fun s => ?_, fun s t _ hne ht => ?_⟩
  · have hdigits := run_le isDecimal (s.drop (sign s))
    have hsign := sign_le s
    rw [List.length_drop] at hdigits
    rw [integer]
    split <;> omega
  · rw [integer, integer, digits_append hne ht, sign_append hne]

lemma quotedRest_cons {quote : Char} (hc : c ≠ '\\') : quotedRest quote (c :: s) =
    if c = quote then some 1 else (quotedRest quote s).map (· + 1) := by
  rw [quotedRest]
  · rintro rfl
    exact absurd rfl hc
  · rintro d r rfl
    exact absurd rfl hc

/-- A quoted value ends at its closing quote, whatever follows. -/
lemma quotedRest_append {quote : Char} {n : Nat} (h : quotedRest quote s = some n) :
    n ≤ s.length ∧ quotedRest quote (s ++ t) = some n := by
  fun_induction quotedRest quote s generalizing n with
  | case1 => cases h
  | case2 => cases h
  | case3 => cases h
  | case4 c s hc ih =>
    obtain ⟨m, hm, rfl⟩ := Option.map_eq_some_iff.1 h
    obtain ⟨hle, heq⟩ := ih hm
    refine ⟨by simpa using hle, ?_⟩
    rw [List.cons_append, List.cons_append, quotedRest, if_neg hc, heq]
    rfl
  | case5 s hlast hescaped =>
    have hc : quote ≠ '\\' := by
      intro hc
      cases s with
      | nil => exact hlast hc rfl
      | cons d s => exact hescaped d s hc rfl
    obtain rfl := Option.some.inj h
    exact ⟨Nat.le_add_left 1 s.length, (quotedRest_cons hc).trans (if_pos rfl)⟩
  | case6 c s hlast hescaped hquote ih =>
    have hc : c ≠ '\\' := by
      intro hc
      cases s with
      | nil => exact hlast hc rfl
      | cons d s => exact hescaped d s hc rfl
    obtain ⟨m, hm, rfl⟩ := Option.map_eq_some_iff.1 h
    obtain ⟨hle, heq⟩ := ih hm
    refine ⟨Nat.succ_le_succ hle, ?_⟩
    rw [List.cons_append, quotedRest_cons hc, if_neg hquote, heq]
    rfl

lemma quoted_cons : quoted (c :: s) =
    if c = '"' ∨ c = '\'' then (quotedRest c s).elim 0 (· + 1) else 0 := rfl

lemma quoted_append (h : quoted s ≠ 0) : quoted s ≤ s.length ∧ quoted (s ++ t) = quoted s := by
  cases s with
  | nil => exact absurd rfl h
  | cons c s =>
    rw [List.cons_append, quoted_cons, quoted_cons]
    rw [quoted_cons] at h
    by_cases hc : c = '"' ∨ c = '\''
    · rw [if_pos hc] at h ⊢
      obtain hnone | ⟨n, hn⟩ := Option.eq_none_or_eq_some (quotedRest c s)
      · rw [hnone] at h
        exact absurd rfl h
      · obtain ⟨hle, happend⟩ := quotedRest_append (t := t) hn
        rw [if_pos hc, happend, hn]
        exact ⟨Nat.succ_le_succ hle, rfl⟩
    · rw [if_neg hc] at h
      exact absurd rfl h

/-- No value is both quoted and bare. -/
lemma quoted_eq_zero_of_bare (h : bare s ≠ 0) : quoted s = 0 := by
  cases s with
  | nil => rfl
  | cons c s =>
    rw [quoted_cons, if_neg]
    rintro (rfl | rfl) <;> exact h rfl

end Lexemes

end Lexeme

end WebCrawl.Css
