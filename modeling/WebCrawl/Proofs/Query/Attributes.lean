import Mathlib.Data.List.Basic
import Mathlib.Tactic.Common
import WebCrawl.Query.Document

set_option autoImplicit false

/-!
# Attributes on their own

An attribute is written in the start tag of its element and, where a query finds it, on its own. On its
own only the double quotes of its value are written as references; in a start tag ampersands and
no-break spaces are so too. So the two agree just where the value has neither, and a value that has the
reference `&quot;` in it is written on its own like one that has a double quote there.

## Main definitions

* `WebCrawl.Query.Document.readQuotes` — a text with its references to double quotes replaced.

## Main results

* `WebCrawl.Html.startTag_eq` — where an attribute stands in a start tag.
* `WebCrawl.Query.Document.escapeQuotes_eq_escapeValue_iff` — the values that are written alike.
* `WebCrawl.Query.Document.escapeQuotes_eq_iff` — the values that cannot be told apart.
* `WebCrawl.Query.Document.markup_attribute` — an attribute on its own and in its start tag.
-/

namespace WebCrawl

namespace Html

/-! ## Start tags -/

/-- An attribute stands in a start tag between those before it and those after it. -/
lemma startTag_eq {name : Text} {attributes : Attributes} {index : Nat} {p : Text × Text}
    (h : attributes[index]? = some p) :
    startTag name attributes =
      "<".toList ++ name ++ (attributes.take index).flatMap attributeMarkup ++
        attributeMarkup p ++
          ((attributes.drop (index + 1)).flatMap attributeMarkup ++ ">".toList) := by
  obtain ⟨hlt, rfl⟩ := List.getElem?_eq_some_iff.1 h
  have hsplit : attributes =
      attributes.take index ++ attributes[index] :: attributes.drop (index + 1) := by
    rw [← List.drop_eq_getElem_cons hlt, List.take_append_drop]
  have hwritten : attributes.flatMap attributeMarkup =
      (attributes.take index).flatMap attributeMarkup ++
        (attributeMarkup attributes[index] ++
          (attributes.drop (index + 1)).flatMap attributeMarkup) := by
    conv_lhs => rw [hsplit]
    rw [List.flatMap_append, List.flatMap_cons]
  rw [startTag, hwritten]
  simp only [List.append_assoc]

/-- An element is written as its start tag and what follows it. -/
lemma Arena.exists_outerMarkup_eq {a : Arena} {id : Nat} {name : Text} {attributes : Attributes}
    (h : a.data? id = some (.element name attributes)) :
    ∃ rest, a.outerMarkup id = startTag name attributes ++ rest := by
  obtain ⟨depth, hdepth⟩ : ∃ depth, a.size = depth + 1 := by
    refine Nat.exists_eq_succ_of_ne_zero fun hsize => ?_
    have hnone : a.nodes[id]? = none := Array.getElem?_eq_none (by rw [size] at hsize; omega)
    rw [data?, hnone] at h
    cases h
  rw [outerMarkup, hdepth, markupUpTo, h]
  dsimp only
  split
  · exact ⟨[], (List.append_nil _).symm⟩
  · exact ⟨_, List.append_assoc _ _ _⟩

end Html

namespace Query.Document

open Html

/-! ## Values -/

/-- A text with its references to double quotes replaced. -/
def readQuotes : Text → Text
  | '&' :: 'q' :: 'u' :: 'o' :: 't' :: ';' :: s => '"' :: readQuotes s
  | c :: s => c :: readQuotes s
  | [] => []

lemma escapeQuotes_cons (c : Char) (s : Text) :
    escapeQuotes (c :: s) = (if c = '"' then "&quot;".toList else [c]) ++ escapeQuotes s :=
  List.flatMap_cons

lemma escapeQuotes_cons_of_ne {c : Char} (h : c ≠ '"') (s : Text) :
    escapeQuotes (c :: s) = c :: escapeQuotes s := by
  rw [escapeQuotes_cons, if_neg h, List.singleton_append]

/-- No double quote is left where quotes are written as references. -/
lemma not_mem_escapeQuotes (s : Text) : '"' ∉ escapeQuotes s := by
  intro h
  obtain ⟨c, -, hc⟩ := List.mem_flatMap.1 h
  split at hc
  case isTrue => exact absurd hc (by decide)
  case isFalse hne => exact hne (List.mem_singleton.1 hc).symm

/-- In a start tag a value is longer by what its ampersands and no-break spaces take. -/
lemma length_escapeValue (v : Text) :
    (escapeValue v).length = (escapeQuotes v).length + 4 * v.count '&' + 5 * v.count '\u00a0' := by
  induction v with
  | nil => rfl
  | cons c v ih =>
    have hone : (escapeValueChar c).length =
        (if c = '"' then "&quot;".toList else [c]).length +
          4 * (if c == '&' then 1 else 0) + 5 * (if c == '\u00a0' then 1 else 0) := by
      unfold escapeValueChar
      split
      · rfl
      · rfl
      · rfl
      · rename_i hamp hnbsp hquote
        rw [if_neg hquote, if_neg (by simpa using hamp), if_neg (by simpa using hnbsp)]
        rfl
    rw [escapeQuotes_cons, escapeValue, List.flatMap_cons, List.length_append, List.length_append,
      ← escapeValue, ih, hone, List.count_cons, List.count_cons]
    omega

/-- A value is written alike on its own and in a start tag exactly if it has neither an ampersand nor a
no-break space in it. -/
lemma escapeQuotes_eq_escapeValue_iff (v : Text) :
    escapeQuotes v = escapeValue v ↔ '&' ∉ v ∧ '\u00a0' ∉ v := by
  constructor
  · intro h
    have hlength := length_escapeValue v
    rw [← h] at hlength
    exact ⟨List.count_eq_zero.1 (by omega), List.count_eq_zero.1 (by omega)⟩
  · rintro ⟨hamp, hnbsp⟩
    refine List.flatMap_congr fun c hc => ?_
    by_cases hquote : c = '"'
    · subst hquote
      rfl
    · rw [if_neg hquote]
      unfold escapeValueChar
      split
      · exact absurd hc hamp
      · exact absurd hc hnbsp
      · exact absurd rfl hquote
      · rfl

/-! ## Values that cannot be told apart -/

/-- A character that begins no reference stands as it did. -/
lemma eq_cons_of_escapeQuotes {c : Char} (hc : c ≠ '&') {s r : Text}
    (h : escapeQuotes s = c :: r) : ∃ t, s = c :: t ∧ escapeQuotes t = r := by
  cases s with
  | nil => cases h
  | cons d s =>
    by_cases hd : d = '"'
    · subst hd
      exact absurd (List.cons.inj h).1.symm hc
    · rw [escapeQuotes_cons_of_ne hd] at h
      obtain ⟨rfl, rfl⟩ := List.cons.inj h
      exact ⟨s, rfl, rfl⟩

/-- A character that begins no reference to a double quote is read as itself. -/
lemma readQuotes_cons {c : Char} {s : Text}
    (h : ∀ r, c :: s ≠ '&' :: 'q' :: 'u' :: 'o' :: 't' :: ';' :: r) :
    readQuotes (c :: s) = c :: readQuotes s := by
  rw [readQuotes.eq_def]
  split
  · rename_i r heq
    exact absurd heq (h r)
  · rename_i heq
    obtain ⟨rfl, rfl⟩ := List.cons.inj heq
    rfl
  · contradiction

/-- Quotes that are written as references are read as quotes, like the references that were there. -/
lemma readQuotes_escapeQuotes (v : Text) : readQuotes (escapeQuotes v) = readQuotes v := by
  induction v using readQuotes.induct with
  | case1 s ih =>
    have hplain : escapeQuotes ('&' :: 'q' :: 'u' :: 'o' :: 't' :: ';' :: s) =
        '&' :: 'q' :: 'u' :: 'o' :: 't' :: ';' :: escapeQuotes s := rfl
    rw [hplain, readQuotes, readQuotes, ih]
  | case2 c s hnone ih =>
    rw [readQuotes_cons fun r heq => hnone r (List.cons.inj heq).1 (List.cons.inj heq).2]
    by_cases hc : c = '"'
    · subst hc
      have hquote : escapeQuotes ('"' :: s) =
          '&' :: 'q' :: 'u' :: 'o' :: 't' :: ';' :: escapeQuotes s := rfl
      rw [hquote, readQuotes, ih]
    · rw [escapeQuotes_cons_of_ne hc, readQuotes_cons, ih]
      -- the rest of a reference is written as it stands, so the reference was there before
      intro r heq
      obtain ⟨rfl, h₀⟩ := List.cons.inj heq
      obtain ⟨s₁, rfl, h₁⟩ := eq_cons_of_escapeQuotes (by decide) h₀
      obtain ⟨s₂, rfl, h₂⟩ := eq_cons_of_escapeQuotes (by decide) h₁
      obtain ⟨s₃, rfl, h₃⟩ := eq_cons_of_escapeQuotes (by decide) h₂
      obtain ⟨s₄, rfl, h₄⟩ := eq_cons_of_escapeQuotes (by decide) h₃
      obtain ⟨s₅, rfl, -⟩ := eq_cons_of_escapeQuotes (by decide) h₄
      exact hnone _ rfl rfl
  | case3 => rfl

/-- References that are read as quotes are written as the same references. -/
lemma escapeQuotes_readQuotes (v : Text) : escapeQuotes (readQuotes v) = escapeQuotes v := by
  induction v using readQuotes.induct with
  | case1 s ih =>
    rw [readQuotes, escapeQuotes_cons, ih]
    rfl
  | case2 c s hnone ih =>
    rw [readQuotes_cons fun r heq => hnone r (List.cons.inj heq).1 (List.cons.inj heq).2,
      escapeQuotes_cons, ih, ← escapeQuotes_cons]
  | case3 => rfl

/-- Two values are written alike on their own exactly if they are the same once every reference to a
double quote is replaced. -/
lemma escapeQuotes_eq_iff (v w : Text) :
    escapeQuotes v = escapeQuotes w ↔ readQuotes v = readQuotes w := by
  constructor
  · intro h
    rw [← readQuotes_escapeQuotes v, h, readQuotes_escapeQuotes]
  · intro h
    rw [← escapeQuotes_readQuotes v, h, escapeQuotes_readQuotes]

/-! ## Attributes -/

/-- Two texts with a mark and something without the mark after it are equal in both parts. -/
lemma eq_of_append_cons_eq {α : Type} {q : α} {s t e f : List α} (he : q ∉ e) (hf : q ∉ f)
    (h : s ++ q :: e = t ++ q :: f) : s = t ∧ e = f := by
  have hlater : ∀ {e f c : List α}, q ∉ e → q :: e = c ++ q :: f → c = [] ∧ e = f := by
    intro e f c he h
    cases c with
    | nil => exact ⟨rfl, (List.cons.inj h).2⟩
    | cons x c =>
      rw [(List.cons.inj h).2] at he
      exact absurd (by simp) he
  rcases List.append_eq_append_iff.1 h with ⟨c, rfl, hc⟩ | ⟨c, rfl, hc⟩
  · obtain ⟨rfl, rfl⟩ := hlater he hc
    exact ⟨(List.append_nil s).symm, rfl⟩
  · obtain ⟨rfl, rfl⟩ := hlater hf hc
    exact ⟨List.append_nil t, rfl⟩

/-- An attribute on its own. -/
lemma markup_attr {d : Document} {owner index : Nat} {name value : Text}
    (h : d.arena.attributeAt? owner index = some (name, value)) :
    d.markup (.attr owner index) = name ++ "=\"".toList ++ escapeQuotes value ++ "\"".toList := by
  rw [markup, h]

/-- Two attributes are written alike on their own exactly if they have the same name and their values
are written alike. -/
lemma written_eq_iff {name name' value value' : Text} :
    name ++ "=\"".toList ++ escapeQuotes value ++ "\"".toList =
        name' ++ "=\"".toList ++ escapeQuotes value' ++ "\"".toList ↔
      name = name' ∧ escapeQuotes value = escapeQuotes value' := by
  constructor
  · intro h
    have hopened : ∀ n v : Text, n ++ "=\"".toList ++ escapeQuotes v =
        (n ++ ['=']) ++ '"' :: escapeQuotes v := fun n v => by simp
    rw [List.append_cancel_right_eq, hopened, hopened] at h
    obtain ⟨hname, hvalue⟩ :=
      eq_of_append_cons_eq (not_mem_escapeQuotes _) (not_mem_escapeQuotes _) h
    exact ⟨List.append_cancel_right hname, hvalue⟩
  · rintro ⟨rfl, h⟩
    rw [h]

/-- **An attribute on its own and in its start tag.** Of every attribute of every element:

* the element is written as a start tag in which the attribute stands, after a blank, between those
  before it and those after it;
* on its own it is written as it stands there exactly if its value has neither an ampersand nor a
  no-break space in it;
* on its own it is written like another attribute exactly if they have the same name, and their values
  are the same once every `&quot;` in them is replaced by a double quote.

**Proof sketch.** In the start tag a value is longer by four characters for each ampersand and by five
for each no-break space. The last two quotes of an attribute on its own enclose its value, which has
none; and a value with its quotes written as references and one with its references read as quotes
determine each other. -/
theorem markup_attribute {d d' : Document} {owner index owner' index' : Nat}
    {name value name' value' : Text}
    (h : d.arena.attributeAt? owner index = some (name, value))
    (h' : d'.arena.attributeAt? owner' index' = some (name', value')) :
    (∃ element rest, d.arena.elementName? owner = some element ∧
      d.arena.outerMarkup owner =
        "<".toList ++ element ++ ((d.arena.attributes owner).take index).flatMap attributeMarkup ++
          attributeMarkup (name, value) ++
            (((d.arena.attributes owner).drop (index + 1)).flatMap attributeMarkup ++ ">".toList) ++
              rest) ∧
      (' ' :: d.markup (.attr owner index) = attributeMarkup (name, value) ↔
        '&' ∉ value ∧ '\u00a0' ∉ value) ∧
      (d.markup (.attr owner index) = d'.markup (.attr owner' index') ↔
        name = name' ∧ readQuotes value = readQuotes value') := by
  refine ⟨?_, ?_, ?_⟩
  · rw [Arena.attributeAt?] at h
    cases hdata : d.arena.data? owner with
    | none => simp [Arena.attributes, hdata] at h
    | some data =>
      cases data with
      | element element attributes =>
        have hattributes : d.arena.attributes owner = attributes := by
          rw [Arena.attributes, hdata]
        have hname : d.arena.elementName? owner = some element := by
          rw [Arena.elementName?, hdata]
        obtain ⟨rest, hrest⟩ := Arena.exists_outerMarkup_eq hdata
        rw [hattributes] at h ⊢
        exact ⟨element, rest, hname, by rw [hrest, startTag_eq h]⟩
      | _ => simp [Arena.attributes, hdata] at h
  · rw [← escapeQuotes_eq_escapeValue_iff, markup_attr h, attributeMarkup]
    simp
  · rw [← escapeQuotes_eq_iff, markup_attr h, markup_attr h', written_eq_iff]

/-- The quoted title of an element, on its own and in its start tag. -/
theorem markup_of_quoted_title :
    let d : Document := .parse "<p title=\"a&quot;b\">x</p>"
    d.arena.attributeAt? 4 0 = some ("title".toList, "a\"b".toList) ∧
      ' ' :: d.markup (.attr 4 0) = attributeMarkup ("title".toList, "a\"b".toList) := by
  intro d
  have hattribute : d.arena.attributeAt? 4 0 = some ("title".toList, "a\"b".toList) := by
    decide +kernel
  exact ⟨hattribute, (markup_attribute hattribute hattribute).2.1.2 (by decide)⟩

/-- The title of one element is not written on its own as it stands in the start tag, and the titles
of two elements are written alike on their own though they have different values. -/
theorem markup_attribute_misleads :
    let d : Document :=
      .parse "<p title=\"a&amp;b\">x</p><p title=\"&quot;\">y</p><p title=\"&amp;quot;\">z</p>"
    (d.arena.attributeAt? 4 0 = some ("title".toList, "a&b".toList) ∧
      d.arena.outerMarkup 4 = "<p title=\"a&amp;b\">x</p>".toList ∧
        d.markup (.attr 4 0) = "title=\"a&b\"".toList) ∧
      d.arena.attributeAt? 6 0 = some ("title".toList, "\"".toList) ∧
        d.arena.attributeAt? 8 0 = some ("title".toList, "&quot;".toList) ∧
          d.markup (.attr 6 0) = d.markup (.attr 8 0) := by
  decide +kernel

end Query.Document

end WebCrawl
