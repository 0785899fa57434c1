import Mathlib
import WebCrawl.Proofs.XPath.Completeness

set_option autoImplicit false

/-!
# Texts that spell phrases

What tokens a text consists of can be said of its parts, provided that a name or a numeral is not
followed by something that would make it longer.

## Main definitions

* `WebCrawl.XPath.lex` — the tokens of a text without the places at which they stand.
* `WebCrawl.XPath.isDelimited` — the text does not make a name before it longer.
* `WebCrawl.XPath.Reads` — the tokens of a text wherever it stands.
* `WebCrawl.XPath.isName` — whether the text is a single name.

## Main results

* `WebCrawl.XPath.lex_induction` — texts by their first tokens.
* `WebCrawl.XPath.parse_eq_ok_iff` — what a text is read as, by way of its tokens.
* `WebCrawl.XPath.Reads.append` — texts one after the other.
-/

namespace WebCrawl.XPath

open Text

/-! ## Tokens without places -/

/-- The tokens that were found, without the places at which they stand. -/
def tokensOf : Except (Fault × Nat) (List Located) → Option (List Token)
  | .ok tokens => some (tokens.map (·.token))
  | .error _ => none

/-- The tokens of a text without the places at which they stand. -/
def lex (afterOperand : Bool) (s : Text) : Option (List Token) :=
  tokensOf (tokensFrom 0 afterOperand s)

/-! ### The first token -/

section First

variable {b : Bool} {c : Char} {s : Text} {n size : Nat}

lemma tokensFrom_nil (n : Nat) (b : Bool) : tokensFrom n b [] = .ok [] := by
  rw [tokensFrom.eq_def]

lemma tokensFrom_blank (hc : isBlank c = true) :
    tokensFrom n b (c :: s) = tokensFrom (n + c.utf8Size) b s := by
  rw [tokensFrom.eq_def]
  simp only [hc, if_true]

lemma tokensFrom_token (hc : isBlank c = false) {t : Token} (h : tokenAt b c s = .ok (t, size)) :
    tokensFrom n b (c :: s) =
      (tokensFrom (n + c.utf8Size + byteSize (s.take size)) t.endsOperand (s.drop size)).map
        (⟨t, n⟩ :: ·) := by
  rw [tokensFrom.eq_def]
  simp only [hc, h, Bool.false_eq_true, if_false]
  rfl

lemma tokensFrom_fault (hc : isBlank c = false) {fault : Fault}
    (h : tokenAt b c s = .error fault) : tokensFrom n b (c :: s) = .error (fault, n) := by
  rw [tokensFrom.eq_def]
  simp only [hc, h, Bool.false_eq_true, if_false]

lemma tokensOf_map_cons (found : Except (Fault × Nat) (List Located)) (t : Located) :
    tokensOf (found.map (t :: ·)) = (tokensOf found).map (t.token :: ·) := by
  cases found <;> rfl

/-- The tokens do not depend on where the text starts. -/
lemma tokensOf_tokensFrom (n : Nat) (b : Bool) (s : Text) :
    tokensOf (tokensFrom n b s) = lex b s := by
  have hall : ∀ m, tokensOf (tokensFrom n b s) = tokensOf (tokensFrom m b s) := by
    fun_induction tokensFrom n b s with
    | case1 => exact fun m => by rw [tokensFrom_nil]
    | case2 n b c s hc ih => exact fun m => by rw [tokensFrom_blank hc, ih]
    | case3 n b c s hc fault h =>
      intro m
      rw [tokensFrom_fault (by simpa using hc) h]
      rfl
    | case4 n b c s hc t size h ih =>
      intro m
      rw [tokensFrom_token (by simpa using hc) h, tokensOf_map_cons, ← ih]
      exact tokensOf_map_cons _ ⟨t, n⟩
  exact hall 0

@[simp] lemma lex_nil (b : Bool) : lex b [] = some [] := by
  rw [lex, tokensFrom_nil]
  rfl

/-- A blank belongs to no token. -/
lemma lex_blank (hc : isBlank c = true) (b : Bool) (s : Text) : lex b (c :: s) = lex b s := by
  rw [lex, tokensFrom_blank hc, tokensOf_tokensFrom]

/-- The tokens of a text begin with the one that is read first. -/
lemma lex_token (hc : isBlank c = false) {t : Token} (h : tokenAt b c s = .ok (t, n)) :
    lex b (c :: s) = (lex t.endsOperand (s.drop n)).map (t :: ·) := by
  rw [lex, tokensFrom_token hc h, tokensOf_map_cons, tokensOf_tokensFrom]

/-- A text with a fault has no tokens. -/
lemma lex_fault (hc : isBlank c = false) {fault : Fault} (h : tokenAt b c s = .error fault) :
    lex b (c :: s) = none := by
  rw [lex, tokensFrom_fault hc h]
  rfl

end First

/-- What holds of the empty text, and goes on to hold with a blank in front, with a character in
front with which no token begins, and with a first token, holds of all texts. -/
lemma lex_induction {motive : Bool → Text → Prop} (nil : ∀ b, motive b [])
    (blank : ∀ b c s, isBlank c = true → motive b s → motive b (c :: s))
    (fault : ∀ b c s fault, isBlank c = false → tokenAt b c s = .error fault → motive b (c :: s))
    (token : ∀ b c s t n, isBlank c = false → tokenAt b c s = .ok (t, n) →
      motive t.endsOperand (s.drop n) → motive b (c :: s)) (b : Bool) (s : Text) : motive b s := by
  induction 0, b, s using tokensFrom.induct with
  | case1 _ b => exact nil b
  | case2 _ b c s hc ih => exact blank b c s hc ih
  | case3 _ b c s hc f h => exact fault b c s f (by simpa using hc) h
  | case4 _ b c s hc t n h ih => exact token b c s t n (by simpa using hc) h ih

/-- A text is read as the expression that its tokens spell. -/
theorem parse_eq_ok_iff {s : Text} {e : Expr} :
    parse s = .ok e ↔ ∃ ts, lex false s = some ts ∧ Spells (.expr .disjunction e) ts := by
  have hlex : lex false s = tokensOf (tokenize s) := rfl
  rw [parse_eq_ok_iff_tokenize, hlex]
  cases tokenize s <;> simp [tokensOf]

/-! ## Delimited names -/

/-- The text does not make a name or a numeral that stands before it longer. -/
def isDelimited : Text → Bool
  | [] => true
  | c :: _ => !(isNameChar c || c == ':' || c == '*')

lemma isDelimited_cons {c : Char} {s : Text} :
    isDelimited (c :: s) = true ↔ isNameChar c = false ∧ c ≠ ':' ∧ c ≠ '*' := by
  simp [isDelimited, and_assoc]

/-- A delimited text does not begin with a character of names. -/
lemma isNameChar_of_isDelimited {s : Text} (h : isDelimited s = true) :
    ∀ c ∈ s.head?, isNameChar c = false := by
  intro c hc
  cases s with
  | nil => cases hc
  | cons d s =>
    obtain rfl : d = c := by simpa using hc
    exact (isDelimited_cons.1 h).1

/-- A text begins as its first part does. -/
lemma isDelimited_append {s t : Text} (hs : isDelimited s = true) (ht : isDelimited t = true) :
    isDelimited (s ++ t) = true := by
  cases s with
  | nil => exact ht
  | cons c s => exact hs

/-- A run of characters ends where the first other one stands. -/
lemma takeWhile_append_of_stop {p : Char → Bool} {s t : Text} (h : ∀ c ∈ t.head?, p c = false) :
    (s ++ t).takeWhile p = s.takeWhile p := by
  induction s with
  | nil =>
    cases t with
    | nil => rfl
    | cons c t => rw [List.nil_append, List.takeWhile_cons_of_neg (by simp [h c rfl]),
        List.takeWhile_nil]
  | cons c s ih =>
    rw [List.cons_append]
    by_cases hc : p c = true
    · rw [List.takeWhile_cons_of_pos hc, List.takeWhile_cons_of_pos hc, ih]
    · rw [List.takeWhile_cons_of_neg hc, List.takeWhile_cons_of_neg hc]

/-- The characters that names begin with are characters of names. -/
lemma isNameChar_of_isNameStart {c : Char} (h : isNameStart c = true) : isNameChar c = true := by
  simp [isNameChar, h]

/-- How many characters a colon in front of a text joins to the name before it. -/
def joined : Text → Nat
  | [] => 0
  | c :: s =>
    if c = '*' then 2 else if isNameStart c then 2 + (s.takeWhile isNameChar).length else 0

/-- How many characters of a text belong to the name before it, if it begins with a colon. -/
def joinedRest : Text → Nat
  | [] => 0
  | c :: s => if c = ':' then joined s else 0

/-- A colon joins what begins like a name, with the run of characters of names behind it. -/
lemma joined_of_isNameStart {c : Char} (h : isNameStart c = true) (s : Text) :
    joined (c :: s) = 2 + (s.takeWhile isNameChar).length := by
  have hstar : c ≠ '*' := by
    rintro rfl
    cases h
  rw [joined, if_neg hstar, if_pos h]

/-- Nothing else is joined, unless it is a star. -/
lemma joined_eq_zero {c : Char} (hstar : c ≠ '*') (h : isNameStart c = false) (s : Text) :
    joined (c :: s) = 0 := by
  rw [joined, if_neg hstar, if_neg (ne_true_of_eq_false h)]

@[simp] lemma joinedRest_colon (s : Text) : joinedRest (':' :: s) = joined s := rfl

/-- Only a colon joins something to a name. -/
lemma joinedRest_of_ne {c : Char} (h : c ≠ ':') (s : Text) : joinedRest (c :: s) = 0 := if_neg h

/-- What is left of a text after a run of characters. -/
lemma drop_length_takeWhile {α : Type} (p : α → Bool) (s : List α) :
    s.drop (s.takeWhile p).length = s.dropWhile p := by
  conv_lhs => arg 2; rw [← List.takeWhile_append_dropWhile (p := p) (l := s)]
  rw [List.drop_left]

/-- A name is a run of its characters and what a colon joins to it. -/
lemma nameRest_eq (s : Text) :
    nameRest s = (s.takeWhile isNameChar).length + joinedRest (s.dropWhile isNameChar) := by
  simp only [nameRest, drop_length_takeWhile]
  generalize s.dropWhile isNameChar = u
  split
  case h_1 => rfl
  case h_2 c r hstar =>
    have hc : c ≠ '*' := by
      rintro rfl
      exact hstar rfl
    rw [joinedRest_colon]
    cases hstart : isNameStart c with
    | true => rw [joined_of_isNameStart hstart, if_pos rfl, Nat.add_assoc]
    | false => rw [joined_eq_zero hc hstart, if_neg nofun, Nat.add_zero]
  case h_3 hstar hjoined =>
    rcases u with _ | ⟨c, _ | ⟨d, r⟩⟩
    · rfl
    · simp [joinedRest, joined]
    · have hc : c ≠ ':' := by
        rintro rfl
        exact hjoined d r rfl
      rw [joinedRest_of_ne hc, Nat.add_zero]

/-- A delimited text joins nothing to what stands before it. -/
lemma joinedRest_append {s t : Text} (ht : isDelimited t = true) :
    joinedRest (s ++ t) = joinedRest s := by
  have hstop := isNameChar_of_isDelimited ht
  match s with
  | [] =>
    cases t with
    | nil => rfl
    | cons c t => exact joinedRest_of_ne (isDelimited_cons.1 ht).2.1 t
  | [c] =>
    have hjoined : joined t = 0 := by
      cases t with
      | nil => rfl
      | cons d t =>
        obtain ⟨hd, -, hstar⟩ := isDelimited_cons.1 ht
        have hstart : isNameStart d = false := by
          by_contra hstart
          rw [Bool.not_eq_false] at hstart
          rw [isNameChar_of_isNameStart hstart] at hd
          cases hd
        exact joined_eq_zero hstar hstart t
    show (if c = ':' then joined t else 0) = if c = ':' then joined [] else 0
    rw [hjoined]
    rfl
  | c :: d :: s =>
    show (if c = ':' then joined (d :: (s ++ t)) else 0) = if c = ':' then joined (d :: s) else 0
    rw [joined, joined, takeWhile_append_of_stop hstop]

/-- How long a name is does not depend on a delimited text after it. -/
lemma nameRest_append {s t : Text} (ht : isDelimited t = true) :
    nameRest (s ++ t) = nameRest s := by
  have hstop := isNameChar_of_isDelimited ht
  have hdrop : joinedRest ((s ++ t).dropWhile isNameChar) =
      joinedRest (s.dropWhile isNameChar) := by
    rw [List.dropWhile_append]
    split
    case isTrue hnil =>
      rw [List.isEmpty_iff.1 hnil]
      cases t with
      | nil => rfl
      | cons c t =>
        rw [List.dropWhile_cons_of_neg (by simp [hstop c rfl])]
        exact joinedRest_of_ne (isDelimited_cons.1 ht).2.1 t
    case isFalse => exact joinedRest_append ht
  rw [nameRest_eq, nameRest_eq, takeWhile_append_of_stop hstop, hdrop]

/-! ## Texts wherever they stand -/

/-- The text consists of the tokens wherever it stands in front of a delimited text. Only an operator
can follow if `b'` holds. -/
def Reads (b : Bool) (x : Text) (ts : List Token) (b' : Bool) : Prop :=
  ∀ s, isDelimited s = true → lex b (x ++ s) = (lex b' s).map (ts ++ ·)

namespace Reads

variable {b b' b'' : Bool} {x y : Text} {ts us : List Token} {t : Token} {c : Char}

lemma nil (b : Bool) : Reads b [] [] b := by
  intro s hs
  simp

/-- Texts one after the other consist of the tokens of both. -/
lemma append (hx : Reads b x ts b') (hy : Reads b' y us b'') (hd : isDelimited y = true) :
    Reads b (x ++ y) (ts ++ us) b'' := by
  intro s hs
  rw [List.append_assoc, hx _ (isDelimited_append hd hs), hy s hs, Option.map_map]
  congr 1
  funext vs
  simp

/-- The tokens of a text on its own. -/
lemma lex_eq (h : Reads b x ts b') : lex b x = some ts := by
  have := h [] rfl
  simpa using this

/-- A blank in front changes nothing. -/
lemma blank (h : Reads b x ts b') : Reads b (' ' :: x) ts b' := by
  intro s hs
  rw [List.cons_append, lex_blank rfl, h s hs]

/-- A first token that is read as itself whatever follows. -/
lemma cons_of_tokenAt {n : Nat} {p : Text} (hc : isBlank c = false)
    (h : ∀ s, tokenAt b c (p ++ s) = .ok (t, n)) (hn : p.length = n)
    (hx : Reads t.endsOperand x ts b') : Reads b (c :: (p ++ x)) (t :: ts) b' := by
  intro s hs
  rw [List.cons_append, List.append_assoc, lex_token hc (h (x ++ s)), ← hn, List.drop_left,
    hx s hs, Option.map_map]
  rfl

end Reads

/-! ## Single tokens -/

/-- The tokens of a single character that never goes together with the next one. -/
def symbol? : Char → Option Token
  | '(' => some .openParen
  | ')' => some .closeParen
  | '[' => some .openBracket
  | ']' => some .closeBracket
  | '@' => some .at
  | ',' => some .comma
  | '|' => some .pipe
  | '+' => some .plus
  | '-' => some .minus
  | '=' => some .equal
  | _ => none

/-- A symbol is read as its token. -/
lemma Reads.symbol {c : Char} {t : Token} {b b' : Bool} {x : Text} {ts : List Token}
    (hc : symbol? c = some t) (h : Reads t.endsOperand x ts b') : Reads b (c :: x) (t :: ts) b' := by
  have htoken : isBlank c = false ∧ ∀ s, tokenAt b c s = .ok (t, 0) := by
    unfold symbol? at hc
    split at hc
    all_goals first | (cases hc; done) | (cases hc; exact ⟨rfl, fun s => rfl⟩)
  exact .cons_of_tokenAt (p := []) htoken.1 htoken.2 rfl h

/-- A star before an operand is read as one. -/
lemma Reads.star {b' : Bool} {x : Text} {ts : List Token} (h : Reads true x ts b') :
    Reads false ('*' :: x) (.star :: ts) b' :=
  .cons_of_tokenAt (p := []) rfl (fun _ => rfl) rfl h

/-- Two colons are read as one token. -/
lemma Reads.doubleColon {b b' : Bool} {x : Text} {ts : List Token} (h : Reads false x ts b') :
    Reads b (':' :: ':' :: x) (.doubleColon :: ts) b' :=
  .cons_of_tokenAt (p := [':']) rfl (fun _ => rfl) rfl h

/-- A slash that is not followed by another is read as one. -/
lemma tokenAt_slash {c : Char} (hc : c ≠ '/') (b : Bool) (s : Text) :
    tokenAt b '/' (c :: s) = .ok (.slash, 0) := by
  unfold tokenAt
  split
  case h_1 heq => exact absurd (List.cons.inj heq).1 hc
  case h_2 => rfl
  all_goals contradiction

/-- How a slash is read does not depend on what stands before it. -/
lemma lex_slash (b b' : Bool) (s : Text) : lex b ('/' :: s) = lex b' ('/' :: s) := by
  have htoken : ∃ t n, tokenAt b '/' s = .ok (t, n) ∧ tokenAt b' '/' s = .ok (t, n) := by
    cases s with
    | nil => exact ⟨.slash, 0, rfl, rfl⟩
    | cons c s =>
      by_cases hc : c = '/'
      · subst hc
        exact ⟨.doubleSlash, 1, rfl, rfl⟩
      · exact ⟨.slash, 0, tokenAt_slash hc b s, tokenAt_slash hc b' s⟩
  obtain ⟨t, n, h, h'⟩ := htoken
  rw [lex_token rfl h, lex_token rfl h']

/-- What is read at a quote. -/
lemma tokenAt_quote {q : Char} (hq : q = '"' ∨ q = '\'') (b : Bool) (s : Text) :
    tokenAt b q s = if (s.takeWhile (· != q)).length = s.length then .error .unterminatedLiteral
      else .ok (.literal (s.takeWhile (· != q)), (s.takeWhile (· != q)).length + 1) := by
  obtain rfl | rfl := hq <;> rfl

/-- A text between quotes that do not occur in it is read as a literal. -/
lemma Reads.literal {q : Char} (hq : q = '"' ∨ q = '\'') {v : Text} (hv : q ∉ v) {b b' : Bool}
    {x : Text} {ts : List Token} (h : Reads true x ts b') :
    Reads b (q :: (v ++ q :: x)) (.literal v :: ts) b' := by
  have hblank : isBlank q = false := by obtain rfl | rfl := hq <;> rfl
  have htoken : ∀ s, tokenAt b q (v ++ [q] ++ s) = .ok (.literal v, v.length + 1) := by
    intro s
    have hall : ∀ c ∈ v, (c != q) = true := by
      intro c hc
      rw [bne_iff_ne]
      rintro rfl
      exact hv hc
    have htake : (v ++ [q] ++ s).takeWhile (· != q) = v := by
      rw [List.append_assoc, List.takeWhile_append_of_pos hall, List.singleton_append,
        List.takeWhile_cons_of_neg (by simp), List.append_nil]
    rw [tokenAt_quote hq, htake, if_neg (by simp)]
  have := cons_of_tokenAt hblank htoken (by simp) h
  simpa using this

/-- Whether the text is a single name. -/
def isName : Text → Bool
  | [] => false
  | c :: s => isNameStart c && !isBlank c && nameRest s == s.length

/-- A name is a character that names begin with, and characters that belong to it. -/
lemma exists_of_isName {name : Text} (h : isName name = true) : ∃ c s, name = c :: s ∧
    isNameStart c = true ∧ isBlank c = false ∧ nameRest s = s.length := by
  cases name with
  | nil => cases h
  | cons c s =>
    simp only [isName, Bool.and_eq_true, Bool.not_eq_true', beq_iff_eq] at h
    exact ⟨c, s, rfl, h.1.1, h.1.2, h.2⟩

/-- No name begins with a digit. -/
lemma isNameStart_of_isDigit {c : Char} (h : c.isDigit = true) : isNameStart c = false := by
  have hrange := Char.isDigit_iff_toNat.1 h
  have hzero : '0'.toNat = 48 := rfl
  have hnine : '9'.toNat = 57 := rfl
  have hscore : c ≠ '_' := by
    rintro rfl
    cases h
  have hval : c.toNat = c.val.toNat := rfl
  have hupper : 'A'.val.toNat = 65 := rfl
  have hlower : 'a'.val.toNat = 97 := rfl
  simp only [isNameStart, Char.isAlpha, Char.isUpper, Char.isLower, Bool.or_eq_false_iff,
    beq_eq_false_iff_ne, Bool.and_eq_false_iff, decide_eq_false_iff_not, ge_iff_le,
    UInt32.le_iff_toNat_le]
  exact ⟨⟨by omega, hscore⟩, by omega⟩

/-- What is read at a character that names begin with. -/
lemma tokenAt_nameStart {c : Char} (hc : isNameStart c = true) (s : Text) :
    tokenAt false c s = .ok (.name (c :: s.take (nameRest s)), nameRest s) := by
  unfold tokenAt
  split
  case h_21 =>
    have hquote : ¬(c = '"' ∨ c = '\'') := by
      rintro (rfl | rfl) <;> cases hc
    have hpoint : c ≠ '.' := by
      rintro rfl
      cases hc
    have hdigit : c.isDigit = false := by
      by_contra hdigit
      rw [isNameStart_of_isDigit (by simpa using hdigit)] at hc
      cases hc
    simp [hquote, hdigit, hpoint, hc]
  all_goals cases hc

/-- A name before an operand is read as one token. -/
lemma Reads.name {name : Text} (hname : isName name = true) {b' : Bool} {x : Text} {ts : List Token}
    (hd : isDelimited x = true) (h : Reads true x ts b') :
    Reads false (name ++ x) (.name name :: ts) b' := by
  obtain ⟨c, s, rfl, hstart, hblank, hrest⟩ := exists_of_isName hname
  intro u hu
  have htoken : tokenAt false c (s ++ (x ++ u)) = .ok (.name (c :: s), s.length) := by
    rw [tokenAt_nameStart hstart, nameRest_append (isDelimited_append hd hu), hrest, List.take_left]
  rw [List.append_assoc, List.cons_append, lex_token hblank htoken, List.drop_left]
  show (lex true (x ++ u)).map _ = _
  rw [h u hu, Option.map_map]
  rfl

/-- A name with two colons after it is read as one token. -/
lemma Reads.axisName {c : Char} {p x : Text} {b' : Bool} {ts : List Token} (hc : isBlank c = false)
    (h : ∀ s, tokenAt false c (p ++ ':' :: ':' :: s) = .ok (.name (c :: p), p.length))
    (hx : Reads false x ts b') :
    Reads false (c :: (p ++ ':' :: ':' :: x)) (.name (c :: p) :: .doubleColon :: ts) b' := by
  intro s hs
  have hcolons := Reads.doubleColon (b := true) hx s hs
  rw [List.cons_append, List.append_assoc, List.cons_append, List.cons_append, lex_token hc (h _),
    List.drop_left]
  show (lex true (':' :: ':' :: (x ++ s))).map _ = _
  rw [List.cons_append, List.cons_append] at hcolons
  rw [hcolons, Option.map_map]
  rfl

/-- How long a numeral without a point is. -/
lemma numeralRest_of_digits {c : Char} (hc : c ≠ '.') {s t : Text}
    (hs : s.all Char.isDigit = true) (ht : isDelimited t = true) :
    numeralRest c (s ++ t) = s.length := by
  have hstop : ∀ d ∈ t.head?, d.isDigit = false := by
    intro d hd
    have hname := isNameChar_of_isDelimited ht d hd
    simp only [isNameChar, Bool.or_eq_false_iff] at hname
    exact hname.1.1.2
  have htake : (s ++ t).takeWhile Char.isDigit = s := by
    have hnil : t.takeWhile Char.isDigit = [] := takeWhile_append_of_stop (s := []) hstop
    rw [List.takeWhile_append_of_pos (List.all_eq_true.1 hs), hnil, List.append_nil]
  unfold numeralRest
  simp only [htake, List.drop_left]
  split
  · rfl
  · cases ht
  · rfl

/-- A numeral of digits is read as a number. -/
lemma Reads.numeral {digits : Text} (hne : digits ≠ []) (hall : digits.all Char.isDigit = true)
    {b b' : Bool} {x : Text} {ts : List Token} (hd : isDelimited x = true)
    (h : Reads true x ts b') :
    Reads b (digits ++ x) (.number (Double.ofNumeral false digits) :: ts) b' := by
  obtain ⟨c, s, rfl⟩ := List.exists_cons_of_ne_nil hne
  rw [List.all_cons, Bool.and_eq_true] at hall
  obtain ⟨hc, hs⟩ := hall
  have hpoint : c ≠ '.' := by
    rintro rfl
    cases hc
  have hquote : ¬(c = '"' ∨ c = '\'') := by
    rintro (rfl | rfl) <;> cases hc
  have hrange := Char.isDigit_iff_toNat.1 hc
  have hzero : '0'.toNat = 48 := rfl
  have hnine : '9'.toNat = 57 := rfl
  have hblank : isBlank c = false := by
    simp only [isBlank, Bool.or_eq_false_iff, Bool.and_eq_false_iff, beq_eq_false_iff_ne,
      decide_eq_false_iff_not]
    omega
  intro u hu
  have htoken : tokenAt b c (s ++ (x ++ u)) =
      .ok (.number (Double.ofNumeral false (c :: s)), s.length) := by
    unfold tokenAt
    split
    case h_21 =>
      simp [hquote, hc, numeralRest_of_digits hpoint hs (isDelimited_append hd hu)]
    all_goals cases hc
  rw [List.append_assoc, List.cons_append, lex_token hblank htoken, List.drop_left]
  show (lex true (x ++ u)).map _ = _
  rw [h u hu, Option.map_map]
  rfl

end WebCrawl.XPath
