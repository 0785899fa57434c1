import Mathlib.Data.List.Chain
import Mathlib.Tactic.Common
import WebCrawl.Html.Rendering
import WebCrawl.Html.Token

set_option autoImplicit false

/-!
# Markup that is scanned

A scanner of markup goes from one character to the next. It knows start tags with values of attributes
between double quotes, end tags, and texts in between, and replaces the references in values and texts.
In a text that is written no character can be taken for the beginning of a tag, and in a value that is
written none for its end. So the scanner finds the tags and texts that were written, each in one piece,
as long as no text is empty or right after another.

## Main definitions

* `WebCrawl.Html.Scanner` — where a scanner is, and what it has found.
* `WebCrawl.Html.scan` — the tags and texts of markup.
* `WebCrawl.Html.Token.written` — a tag or text as it is written.
* `WebCrawl.Html.Token.Fits`, `WebCrawl.Html.Token.Apart` — which of them can be told apart.

## Main results

* `WebCrawl.Html.resolve_escapeText`, `WebCrawl.Html.resolve_escapeValue` — what is written as a
  reference is read as the character.
* `WebCrawl.Html.scan_written` — tags and texts that are written are found again.
-/

namespace WebCrawl.Html

/-! ## References -/

/-- A reference begins with an ampersand. -/
lemma reference?_eq_none {c : Char} (h : c ≠ '&') (s : Text) : reference? (c :: s) = none := by
  have hnamed : ∀ p ∈ namedReferences, ¬ Text.startsWith (c :: s) p.1 := by
    simp [namedReferences, Text.startsWith, Ne.symm h]
  rw [reference?, List.find?_eq_none.2 hnamed]
  exact fun _ _ heq => h (List.cons.inj heq).1

/-- A character that is no ampersand is read as itself. -/
lemma resolve_cons {c : Char} (h : c ≠ '&') (s : Text) : resolve (c :: s) = c :: resolve s := by
  rw [resolve, reference?_eq_none h]

/-- A reference is read as its character. -/
lemma resolve_of_reference {c d : Char} {n : Nat} {s : Text} (h : reference? (c :: s) = some (d, n)) :
    resolve (c :: s) = d :: resolve (s.drop (n - 1)) := by
  rw [resolve, h]

lemma resolve_escapeTextChar (c : Char) (s : Text) :
    resolve (escapeTextChar c ++ s) = c :: resolve s := by
  unfold escapeTextChar
  split
  · exact resolve_of_reference (n := 5) rfl
  · exact resolve_of_reference (n := 6) rfl
  · exact resolve_of_reference (n := 4) rfl
  · exact resolve_of_reference (n := 4) rfl
  · rename_i hamp _ _ _
    exact resolve_cons hamp s

lemma resolve_escapeValueChar (c : Char) (s : Text) :
    resolve (escapeValueChar c ++ s) = c :: resolve s := by
  unfold escapeValueChar
  split
  · exact resolve_of_reference (n := 5) rfl
  · exact resolve_of_reference (n := 6) rfl
  · exact resolve_of_reference (n := 6) rfl
  · rename_i hamp _ _
    exact resolve_cons hamp s

/-- Where every character is read as it was meant, so is a text. -/
lemma resolve_flatMap {write : Char → Text} (h : ∀ c s, resolve (write c ++ s) = c :: resolve s)
    (s : Text) : resolve (s.flatMap write) = s := by
  induction s with
  | nil => rw [List.flatMap_nil, resolve]
  | cons c s ih => rw [List.flatMap_cons, h, ih]

/-- A text is read as it was written. -/
lemma resolve_escapeText (s : Text) : resolve (escapeText s) = s :=
  resolve_flatMap resolve_escapeTextChar s

/-- A value is read as it was written. -/
lemma resolve_escapeValue (v : Text) : resolve (escapeValue v) = v :=
  resolve_flatMap resolve_escapeValueChar v

/-- No bracket that opens a tag stands in a text that is written. -/
lemma not_mem_escapeText (s : Text) : '<' ∉ escapeText s := by
  intro h
  obtain ⟨c, -, hc⟩ := List.mem_flatMap.1 h
  unfold escapeTextChar at hc
  split at hc
  · exact absurd hc (by decide)
  · exact absurd hc (by decide)
  · exact absurd hc (by decide)
  · exact absurd hc (by decide)
  · rename_i hopen _
    exact hopen (List.mem_singleton.1 hc).symm

/-- No double quote stands in a value that is written. -/
lemma not_mem_escapeValue (v : Text) : '"' ∉ escapeValue v := by
  intro h
  obtain ⟨c, -, hc⟩ := List.mem_flatMap.1 h
  unfold escapeValueChar at hc
  split at hc
  · exact absurd hc (by decide)
  · exact absurd hc (by decide)
  · exact absurd hc (by decide)
  · rename_i hquote
    exact hquote (List.mem_singleton.1 hc).symm

/-- A text is not empty where it is written. -/
lemma escapeText_ne_nil {s : Text} (h : s ≠ []) : escapeText s ≠ [] := by
  intro hnil
  have hread := resolve_escapeText s
  rw [hnil, resolve] at hread
  exact h hread.symm

/-! ## The scanner -/

/-- The characters of names: letters and digits of ASCII and the hyphen. -/
def isPlainChar (c : Char) : Bool := c.isAlphanum || c == '-'

/-- The name has plain characters only. -/
def PlainName (name : Text) : Prop := ∀ c ∈ name, isPlainChar c = true

instance (name : Text) : Decidable (PlainName name) :=
  decidable_of_iff (name.all isPlainChar = true) List.all_eq_true

/-- Where a scanner is, and what it has read there. -/
inductive Mode where
  /-- Between tags. -/
  | content (read : Text)
  /-- In the name of a start tag. -/
  | startName (name : Text)
  /-- In the name of an end tag. -/
  | endName (name : Text)
  /-- In the name of an attribute, after some other attributes of the tag. -/
  | attributeName (tag : Text) (attributes : Attributes) (name : Text)
  /-- After the equals sign of an attribute. -/
  | equals (tag : Text) (attributes : Attributes) (name : Text)
  /-- In the value of an attribute. -/
  | value (tag : Text) (attributes : Attributes) (name read : Text)
  /-- After the value of an attribute. -/
  | afterValue (tag : Text) (attributes : Attributes)

/-- What a scanner has found, and where it is. -/
structure Scanner where
  /-- The tags and texts so far. -/
  tokens : List Token
  /-- Where it is. -/
  mode : Mode

/-- The text that has been read between tags, if there is any. -/
def textRead (read : Text) : List Token := if read = [] then [] else [.text (resolve read)]

namespace Scanner

/-- A start tag goes on with an attribute after a blank, or ends. -/
def goOn (tokens : List Token) (tag : Text) (attributes : Attributes) (c : Char) : Option Scanner :=
  if c = ' ' then some ⟨tokens, .attributeName tag attributes []⟩
  else if c = '>' then some ⟨tokens ++ [.startTag tag attributes], .content []⟩
  else none

/-- The scanner after one more character. -/
def step : Scanner → Char → Option Scanner
  | ⟨tokens, .content read⟩, c =>
    if c = '<' then some ⟨tokens ++ textRead read, .startName []⟩
    else some ⟨tokens, .content (read ++ [c])⟩
  | ⟨tokens, .startName name⟩, c =>
    if isPlainChar c then some ⟨tokens, .startName (name ++ [c])⟩
    else if c = '/' ∧ name = [] then some ⟨tokens, .endName []⟩
    else goOn tokens name [] c
  | ⟨tokens, .endName name⟩, c =>
    if isPlainChar c then some ⟨tokens, .endName (name ++ [c])⟩
    else if c = '>' then some ⟨tokens ++ [.endTag name], .content []⟩
    else none
  | ⟨tokens, .attributeName tag attributes name⟩, c =>
    if isPlainChar c then some ⟨tokens, .attributeName tag attributes (name ++ [c])⟩
    else if c = '=' then some ⟨tokens, .equals tag attributes name⟩
    else none
  | ⟨tokens, .equals tag attributes name⟩, c =>
    if c = '"' then some ⟨tokens, .value tag attributes name []⟩ else none
  | ⟨tokens, .value tag attributes name read⟩, c =>
    if c = '"' then some ⟨tokens, .afterValue tag (attributes ++ [(name, resolve read)])⟩
    else some ⟨tokens, .value tag attributes name (read ++ [c])⟩
  | ⟨tokens, .afterValue tag attributes⟩, c => goOn tokens tag attributes c

/-- The scanner after a text. -/
def run (s : Scanner) (t : Text) : Option Scanner := t.foldlM step s

/-- What has been found when the markup ends. It cannot end within a tag. -/
def result : Scanner → Option (List Token)
  | ⟨tokens, .content read⟩ => some (tokens ++ textRead read)
  | _ => none

end Scanner

/-- The tags and texts of markup, if it is nothing else. -/
def scan (markup : Text) : Option (List Token) :=
  (Scanner.run ⟨[], .content []⟩ markup).bind Scanner.result

/-! ## Runs of characters -/

namespace Scanner

variable {tokens : List Token} {tag name : Text} {attributes : Attributes}

lemma run_cons (s : Scanner) (c : Char) (t : Text) : s.run (c :: t) = (s.step c).bind (run · t) :=
  List.foldlM_cons

lemma run_append (s : Scanner) (t u : Text) : s.run (t ++ u) = (s.run t).bind (run · u) :=
  List.foldlM_append

/-- A run of characters that a mode only collects. -/
lemma run_collect (mode : Text → Mode) {p : Char → Prop}
    (h : ∀ read c, p c → step ⟨tokens, mode read⟩ c = some ⟨tokens, mode (read ++ [c])⟩)
    {t : Text} (ht : ∀ c ∈ t, p c) (read : Text) :
    run ⟨tokens, mode read⟩ t = some ⟨tokens, mode (read ++ t)⟩ := by
  induction t generalizing read with
  | nil =>
    rw [List.append_nil]
    rfl
  | cons c t ih =>
    obtain ⟨hc, ht⟩ := List.forall_mem_cons.1 ht
    rw [run_cons, h read c hc, Option.bind_some, ih ht, List.append_assoc, List.singleton_append]

/-- Between tags all is text up to the next tag. -/
lemma run_content {t : Text} (ht : '<' ∉ t) (read : Text) :
    run ⟨tokens, .content read⟩ t = some ⟨tokens, .content (read ++ t)⟩ :=
  run_collect .content (p := (· ≠ '<')) (fun _ _ hc => if_neg hc)
    (fun _ hc => ne_of_mem_of_not_mem hc ht) read

lemma run_startName {t : Text} (ht : PlainName t) (read : Text) :
    run ⟨tokens, .startName read⟩ t = some ⟨tokens, .startName (read ++ t)⟩ :=
  run_collect .startName (fun _ _ hc => if_pos hc) ht read

lemma run_endName {t : Text} (ht : PlainName t) (read : Text) :
    run ⟨tokens, .endName read⟩ t = some ⟨tokens, .endName (read ++ t)⟩ :=
  run_collect .endName (fun _ _ hc => if_pos hc) ht read

lemma run_attributeName {t : Text} (ht : PlainName t) (read : Text) :
    run ⟨tokens, .attributeName tag attributes read⟩ t =
      some ⟨tokens, .attributeName tag attributes (read ++ t)⟩ :=
  run_collect (.attributeName tag attributes) (fun _ _ hc => if_pos hc) ht read

/-- In a value all is value up to the next double quote. -/
lemma run_value {t : Text} (ht : '"' ∉ t) (read : Text) :
    run ⟨tokens, .value tag attributes name read⟩ t =
      some ⟨tokens, .value tag attributes name (read ++ t)⟩ :=
  run_collect (.value tag attributes name) (p := (· ≠ '"')) (fun _ _ hc => if_neg hc)
    (fun _ hc => ne_of_mem_of_not_mem hc ht) read

/-! ## Tags -/

/-- A tag with some attributes has been read, and more attributes may follow. -/
def Within (tag : Text) (attributes : Attributes) : Mode → Prop
  | .startName name => name = tag ∧ attributes = []
  | .afterValue name more => name = tag ∧ more = attributes
  | _ => False

lemma within_startName (name : Text) : Within name [] (.startName name) := ⟨rfl, rfl⟩

lemma within_afterValue (tag : Text) (attributes : Attributes) :
    Within tag attributes (.afterValue tag attributes) := ⟨rfl, rfl⟩

/-- Within a tag a blank or a bracket does the same after the name and after a value. -/
lemma step_of_within {mode : Mode} (h : Within tag attributes mode) {c : Char}
    (hc : c = ' ' ∨ c = '>') : step ⟨tokens, mode⟩ c = goOn tokens tag attributes c := by
  cases mode with
  | startName name =>
    obtain ⟨rfl, rfl⟩ := h
    rcases hc with rfl | rfl
    · rfl
    · rfl
  | afterValue name more =>
    obtain ⟨rfl, rfl⟩ := h
    rfl
  | _ => exact h.elim

/-- An attribute that is written is found within a tag. -/
lemma run_attributeMarkup {mode : Mode} (h : Within tag attributes mode) (hname : PlainName name)
    (value : Text) :
    run ⟨tokens, mode⟩ (attributeMarkup (name, value)) =
      some ⟨tokens, .afterValue tag (attributes ++ [(name, value)])⟩ := by
  have hblank : run ⟨tokens, mode⟩ " ".toList = some ⟨tokens, .attributeName tag attributes []⟩ := by
    rw [show " ".toList = [' '] from rfl, run_cons, step_of_within h (.inl rfl)]
    rfl
  have hequals : run ⟨tokens, .attributeName tag attributes name⟩ "=\"".toList =
      some ⟨tokens, .value tag attributes name []⟩ := rfl
  have hquote : run ⟨tokens, .value tag attributes name (escapeValue value)⟩ "\"".toList =
      some ⟨tokens, .afterValue tag (attributes ++ [(name, resolve (escapeValue value))])⟩ := rfl
  rw [attributeMarkup, run_append, run_append, run_append, run_append, hblank, Option.bind_some,
    run_attributeName hname, List.nil_append, Option.bind_some, hequals, Option.bind_some,
    run_value (not_mem_escapeValue value), List.nil_append, Option.bind_some, hquote,
    resolve_escapeValue]

/-- A start tag is found from its attributes on. -/
lemma run_attributes {mode : Mode} (h : Within tag attributes mode) {more : Attributes}
    (hmore : ∀ p ∈ more, PlainName p.1) :
    run ⟨tokens, mode⟩ (more.flatMap attributeMarkup ++ ">".toList) =
      some ⟨tokens ++ [.startTag tag (attributes ++ more)], .content []⟩ := by
  induction more generalizing mode attributes with
  | nil =>
    rw [List.flatMap_nil, List.nil_append, List.append_nil, show ">".toList = ['>'] from rfl,
      run_cons, step_of_within h (.inr rfl)]
    rfl
  | cons p more ih =>
    obtain ⟨name, value⟩ := p
    obtain ⟨hp, hmore⟩ := List.forall_mem_cons.1 hmore
    rw [List.flatMap_cons, List.append_assoc, run_append, run_attributeMarkup h hp, Option.bind_some,
      ih (within_afterValue _ _) hmore, List.append_assoc, List.singleton_append]

/-- A start tag that is written is found, after the text before it. -/
lemma run_startTag (hname : PlainName name) (hattributes : ∀ p ∈ attributes, PlainName p.1)
    (read : Text) :
    run ⟨tokens, .content read⟩ (startTag name attributes) =
      some ⟨tokens ++ textRead read ++ [.startTag name attributes], .content []⟩ := by
  have hopened : run ⟨tokens, .content read⟩ "<".toList =
      some ⟨tokens ++ textRead read, .startName []⟩ := rfl
  rw [startTag, List.append_assoc, run_append, run_append, hopened, Option.bind_some,
    run_startName hname, List.nil_append, Option.bind_some,
    run_attributes (within_startName name) hattributes, List.nil_append]

/-- An end tag that is written is found, after the text before it. -/
lemma run_endTag (hname : PlainName name) (read : Text) :
    run ⟨tokens, .content read⟩ (endTag name) =
      some ⟨tokens ++ textRead read ++ [.endTag name], .content []⟩ := by
  have hopened : run ⟨tokens, .content read⟩ "</".toList =
      some ⟨tokens ++ textRead read, .endName []⟩ := rfl
  have hclosed : run ⟨tokens ++ textRead read, .endName name⟩ ">".toList =
      some ⟨tokens ++ textRead read ++ [.endTag name], .content []⟩ := rfl
  rw [endTag, run_append, run_append, hopened, Option.bind_some, run_endName hname, List.nil_append,
    Option.bind_some, hclosed]

end Scanner

/-! ## Tags and texts -/

namespace Token

/-- A tag or text as it is written. -/
def written : Token → Text
  | startTag name attributes => Html.startTag name attributes
  | endTag name => Html.endTag name
  | text content => escapeText content
  | comment content => "<!--".toList ++ content ++ "-->".toList
  | doctype name => "<!DOCTYPE ".toList ++ name ++ ">".toList

lemma written_startTag (name : Text) (attributes : Attributes) :
    (startTag name attributes).written = Html.startTag name attributes := rfl

lemma written_endTag (name : Text) : (endTag name).written = Html.endTag name := rfl

lemma written_text (content : Text) : (text content).written = escapeText content := rfl

/-- A tag with plain names, or a text that is not empty. -/
def Fits : Token → Prop
  | startTag name attributes => PlainName name ∧ ∀ p ∈ attributes, PlainName p.1
  | endTag name => PlainName name
  | text content => content ≠ []
  | _ => False

/-- Whether the token is a text. -/
def isText : Token → Bool
  | text _ => true
  | _ => false

/-- One of two tokens is no text. -/
def Apart (x y : Token) : Prop := x.isText = false ∨ y.isText = false

end Token

/-- Tags and texts that are written after a text are found after it. -/
lemma Scanner.run_written {parts : List Token} (hfits : ∀ x ∈ parts, x.Fits)
    (hapart : parts.IsChain Token.Apart) {read : Text}
    (hread : read = [] ∨ ∀ x ∈ parts.head?, x.isText = false) (tokens : List Token) :
    (run ⟨tokens, .content read⟩ (parts.flatMap Token.written)).bind result =
      some (tokens ++ textRead read ++ parts) := by
  induction parts generalizing read tokens with
  | nil =>
    rw [List.append_nil]
    rfl
  | cons x parts ih =>
    obtain ⟨hx, hmore⟩ := List.forall_mem_cons.1 hfits
    obtain ⟨hnext, hchain⟩ := List.isChain_cons.1 hapart
    have hempty : textRead [] = [] := rfl
    rw [List.flatMap_cons, run_append]
    cases x with
    | startTag name attributes =>
      rw [Token.written_startTag, run_startTag hx.1 hx.2, Option.bind_some, ih hmore hchain (.inl rfl),
        hempty, List.append_nil, List.append_assoc _ [_], List.singleton_append]
    | endTag name =>
      rw [Token.written_endTag, run_endTag hx, Option.bind_some, ih hmore hchain (.inl rfl), hempty,
        List.append_nil, List.append_assoc _ [_], List.singleton_append]
    | text content =>
      -- no text was read before, and none comes next
      obtain rfl : read = [] := hread.resolve_right fun h => Bool.noConfusion (h _ rfl)
      have hafter : ∀ y ∈ parts.head?, y.isText = false := fun y hy =>
        (hnext y hy).resolve_left Bool.noConfusion
      have htext : textRead (escapeText content) = [.text content] := by
        rw [textRead, if_neg (escapeText_ne_nil hx), resolve_escapeText]
      rw [Token.written_text, run_content (not_mem_escapeText content), Option.bind_some,
        List.nil_append, ih hmore hchain (.inr hafter), hempty, htext, List.append_nil,
        List.append_assoc, List.singleton_append]
    | comment content => exact hx.elim
    | doctype name => exact hx.elim

/-- Tags and texts that are written are found again, if their names are plain and no text is empty or
right after another. -/
theorem scan_written {parts : List Token} (hfits : ∀ x ∈ parts, x.Fits)
    (hapart : parts.IsChain Token.Apart) : scan (parts.flatMap Token.written) = some parts :=
  Scanner.run_written hfits hapart (.inl rfl) []

end WebCrawl.Html
