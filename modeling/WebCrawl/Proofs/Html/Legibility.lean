import WebCrawl.Proofs.Html.Flattening
import WebCrawl.Proofs.Html.Scanning

set_option autoImplicit false

/-!
# Markup that is read back

What is written of a node as markup is read back as the tree below the node, as long as the tree is
made of elements that have an end tag and content that is markup, and of texts that can be told apart.
The tags and texts of the markup are those of the tree, in its order, and a stack of open elements puts
them together again. The text of an element whose content is no markup is written as it is, so that
such a text on its own is taken for another one.

## Main definitions

* `WebCrawl.Html.OrderedTree.Plain` — a tree of plain elements and of texts that are not empty.
* `WebCrawl.Html.OrderedTree.tokens` — the tags and texts of a tree.
* `WebCrawl.Html.readMarkup` — the trees that markup stands for.
* `WebCrawl.Html.Arena.Legible` — what stands at a node can be read back.

## Main results

* `WebCrawl.Html.OrderedTree.Plain.scan_written` — the tags and texts of a plain tree are found again.
* `WebCrawl.Html.OrderedTree.Plain.assemble_tokens` — they are put together to the tree.
* `WebCrawl.Html.Arena.markupUpTo_eq` — a node is written as the tags and texts of the tree below it.
* `WebCrawl.Html.Arena.outerMarkup_read_back` — markup is read back, and tells nodes apart.
-/

namespace WebCrawl.Html

namespace OrderedTree

/-! ## Plain trees -/

/-- Whether the root of the tree is a text. -/
def isText : OrderedTree → Bool
  | .node (.text _) _ => true
  | _ => false

/-- One of two trees is no text. -/
def Apart (t u : OrderedTree) : Prop := t.isText = false ∨ u.isText = false

/-- The tree is made of elements with plain names, an end tag and content that is markup, and of texts
that are not empty and not right after one another. -/
inductive Plain : OrderedTree → Prop
  | element {name : Text} {attributes : Attributes} {children : List OrderedTree}
    (name_plain : PlainName name) (attributes_plain : ∀ p ∈ attributes, PlainName p.1)
    (not_void : name ∉ voidElements) (not_raw : name ∉ rawTextElements)
    (children_plain : ∀ t ∈ children, t.Plain) (children_apart : children.IsChain Apart) :
    Plain (.node (.element name attributes) children)
  | text {content : Text} (not_empty : content ≠ []) : Plain (.node (.text content) [])

/-! ## Tags and texts -/

mutual

/-- The tags and texts of a tree, in its order. -/
def tokens : OrderedTree → List Token
  | .node (.element name attributes) children =>
    .startTag name attributes :: (tokensBelow children ++ [.endTag name])
  | .node (.text content) _ => [.text content]
  | .node (.comment content) _ => [.comment content]
  | .node (.doctype name) _ => [.doctype name]
  | .node .document children => tokensBelow children
  | .node .other _ => []

/-- The tags and texts of some trees, one after the other. -/
def tokensBelow : List OrderedTree → List Token
  | [] => []
  | t :: ts => t.tokens ++ tokensBelow ts

end

/-- The tags and texts of a plain tree begin and end with a text exactly if the tree is one. -/
lemma Plain.ends {t : OrderedTree} (h : t.Plain) :
    ∃ first last, t.tokens.head? = some first ∧ t.tokens.getLast? = some last ∧
      first.isText = t.isText ∧ last.isText = t.isText := by
  cases h with
  | @element name attributes children =>
    refine ⟨.startTag name attributes, .endTag name, rfl, ?_, rfl, rfl⟩
    rw [tokens, ← List.cons_append, List.getLast?_concat]
  | @text content => exact ⟨.text content, .text content, rfl, rfl, rfl, rfl⟩

mutual

/-- The tags and texts of a plain tree can be told apart where they are written. -/
lemma Plain.tokens_fit : ∀ {t : OrderedTree}, t.Plain →
    (∀ x ∈ t.tokens, x.Fits) ∧ t.tokens.IsChain Token.Apart
  | .node (.element name attributes) children, h => by
    cases h with
    | element hname hattributes _ _ hplain hapart =>
      obtain ⟨hfits, hchain⟩ := tokensBelow_fit hplain hapart
      rw [tokens]
      refine ⟨?_, List.isChain_cons.2 ⟨fun y _ => .inl rfl, List.isChain_append.2
        ⟨hchain, List.isChain_singleton _, fun x _ y hy => ?_⟩⟩⟩
      · rw [List.forall_mem_cons, List.forall_mem_append, List.forall_mem_singleton]
        exact ⟨⟨hname, hattributes⟩, hfits, hname⟩
      · obtain rfl := Option.mem_some.1 hy
        exact .inr rfl
  | .node (.text content) _, h => by
    cases h with
    | text hempty =>
      rw [tokens, List.forall_mem_singleton]
      exact ⟨hempty, List.isChain_singleton _⟩

lemma tokensBelow_fit : ∀ {ts : List OrderedTree}, (∀ t ∈ ts, t.Plain) → ts.IsChain Apart →
    (∀ x ∈ tokensBelow ts, x.Fits) ∧ (tokensBelow ts).IsChain Token.Apart
  | [], _, _ => ⟨nofun, .nil⟩
  | t :: ts, hplain, hapart => by
    obtain ⟨ht, hts⟩ := List.forall_mem_cons.1 hplain
    obtain ⟨hnext, hrest⟩ := List.isChain_cons.1 hapart
    obtain ⟨hfit, hchain⟩ := ht.tokens_fit
    obtain ⟨hfits, hchains⟩ := tokensBelow_fit hts hrest
    rw [tokensBelow, List.forall_mem_append, List.isChain_append]
    refine ⟨⟨hfit, hfits⟩, hchain, hchains, fun x hx y hy => ?_⟩
    -- the last token of a tree and the first one of the next are texts only if both trees are
    cases ts with
    | nil => cases hy
    | cons u us =>
      obtain ⟨-, last, -, hlast, -, hlastText⟩ := ht.ends
      obtain ⟨first, -, hfirst, -, hfirstText, -⟩ := (List.forall_mem_cons.1 hts).1.ends
      obtain rfl : last = x := Option.some.inj (hlast.symm.trans hx)
      rw [tokensBelow, List.head?_append, hfirst] at hy
      obtain rfl : first = y := Option.some.inj hy
      rw [Token.Apart, hlastText, hfirstText]
      exact hnext u rfl

end

/-- The tags and texts of a plain tree that are written are found again. -/
lemma Plain.scan_written {t : OrderedTree} (h : t.Plain) :
    scan (t.tokens.flatMap Token.written) = some t.tokens :=
  Html.scan_written h.tokens_fit.1 h.tokens_fit.2

end OrderedTree

/-! ## Putting trees together -/

/-- Where the putting together of trees is: in some open elements, after some trees. -/
structure Assembly where
  /-- The open elements, the innermost first, each with the trees before it. -/
  outer : List (Text × Attributes × List OrderedTree)
  /-- The trees so far in the innermost open element. -/
  trees : List OrderedTree

namespace Assembly

/-- After one more tag or text. An end tag has to be that of the innermost open element. -/
def step : Assembly → Token → Option Assembly
  | ⟨outer, trees⟩, .startTag name attributes => some ⟨(name, attributes, trees) :: outer, []⟩
  | ⟨outer, trees⟩, .text content => some ⟨outer, trees ++ [.node (.text content) []]⟩
  | ⟨(opened, attributes, before) :: outer, trees⟩, .endTag name =>
    if opened = name then some ⟨outer, before ++ [.node (.element opened attributes) trees]⟩ else none
  | _, _ => none

/-- The trees, if no element is open any more. -/
def result : Assembly → Option (List OrderedTree)
  | ⟨[], trees⟩ => some trees
  | _ => none

end Assembly

/-- The trees that tags and texts stand for. -/
def assemble (tokens : List Token) : Option (List OrderedTree) :=
  (tokens.foldlM Assembly.step ⟨[], []⟩).bind Assembly.result

/-- The trees that markup stands for, if it is made of tags and texts only and each element is closed
in order. -/
def readMarkup (markup : Text) : Option (List OrderedTree) := (scan markup).bind assemble

namespace OrderedTree

mutual

/-- After the tags and texts of a plain tree there is one tree more. -/
lemma Plain.foldlM_tokens : ∀ {t : OrderedTree}, t.Plain →
    ∀ (outer : List (Text × Attributes × List OrderedTree)) (before : List OrderedTree),
      t.tokens.foldlM Assembly.step ⟨outer, before⟩ = some ⟨outer, before ++ [t]⟩
  | .node (.element name attributes) children, h, outer, before => by
    cases h with
    | element _ _ _ _ hplain _ =>
      have hopened : Assembly.step ⟨outer, before⟩ (.startTag name attributes) =
          some ⟨(name, attributes, before) :: outer, []⟩ := rfl
      have hclosed : Assembly.step ⟨(name, attributes, before) :: outer, children⟩ (.endTag name) =
          some ⟨outer, before ++ [.node (.element name attributes) children]⟩ := if_pos rfl
      rw [tokens, List.foldlM_cons, hopened, Option.bind_eq_bind, Option.bind_some,
        List.foldlM_append, foldlM_tokensBelow hplain, List.nil_append, Option.bind_eq_bind,
        Option.bind_some, List.foldlM_cons, hclosed]
      rfl
  | .node (.text content) _, h, outer, before => by
    cases h with
    | text _ => rfl

lemma foldlM_tokensBelow : ∀ {ts : List OrderedTree}, (∀ t ∈ ts, t.Plain) →
    ∀ (outer : List (Text × Attributes × List OrderedTree)) (before : List OrderedTree),
      (tokensBelow ts).foldlM Assembly.step ⟨outer, before⟩ = some ⟨outer, before ++ ts⟩
  | [], _, outer, before => by
    rw [List.append_nil]
    rfl
  | t :: ts, hplain, outer, before => by
    obtain ⟨ht, hts⟩ := List.forall_mem_cons.1 hplain
    rw [tokensBelow, List.foldlM_append, ht.foldlM_tokens, Option.bind_eq_bind, Option.bind_some,
      foldlM_tokensBelow hts, List.append_assoc, List.singleton_append]

end

/-- The tags and texts of a plain tree are put together to the tree. -/
lemma Plain.assemble_tokens {t : OrderedTree} (h : t.Plain) : assemble t.tokens = some [t] := by
  rw [assemble, h.foldlM_tokens]
  rfl

end OrderedTree

namespace Arena

variable {a : Arena}

/-! ## Nodes as markup -/

mutual

/-- A node is written as the tags and texts of the plain tree below it, if it is no text that is
written as it is. -/
lemma markupUpTo_eq : ∀ {t : OrderedTree}, t.Plain →
    ∀ {fuel id index : Nat} {parent : Option Nat}, t.size ≤ fuel →
      a.Shows id (t.entries id parent index) → (t.isText = true → a.isRaw id = false) →
        a.markupUpTo fuel id = t.tokens.flatMap Token.written
  | .node data ts, _, 0, id, index, parent, hsize, _, _ => absurd hsize (Nat.not_succ_le_zero _)
  | .node (.element name attributes) children, h, fuel + 1, id, index, parent, hsize, hshows, _ => by
    cases h with
    | element _ _ hvoid hraw hplain _ =>
      obtain ⟨hid, hbelow⟩ := shows_cons hshows
      obtain ⟨-, hchildren, -⟩ := reads_of_getElem? hid
      have hdata : a.data? id = some (.element name attributes) := by rw [data?, hid, Option.map_some]
      have hname : a.elementName? id = some name := by rw [elementName?, hdata]
      have hinner := flatMap_markupUpTo_eq hplain (Nat.le_of_succ_le_succ hsize) hbelow hname hraw
      rw [markupUpTo, hdata]
      dsimp only
      rw [if_neg (by simpa using hvoid), hchildren, hinner, OrderedTree.tokens, List.flatMap_cons,
        List.flatMap_append, List.flatMap_singleton, List.append_assoc, Token.written_startTag,
        Token.written_endTag]
  | .node (.text content) _, h, fuel + 1, id, index, parent, _, hshows, hescaped => by
    cases h with
    | text _ =>
      obtain ⟨hid, -⟩ := shows_cons hshows
      have hdata : a.data? id = some (.text content) := by rw [data?, hid, Option.map_some]
      rw [markupUpTo, hdata]
      dsimp only
      rw [hescaped rfl, OrderedTree.tokens, List.flatMap_singleton, Token.written_text]
      rfl

lemma flatMap_markupUpTo_eq : ∀ {ts : List OrderedTree}, (∀ t ∈ ts, t.Plain) →
    ∀ {fuel start parent index : Nat} {name : Text}, OrderedTree.sizes ts ≤ fuel →
      a.Shows start (OrderedTree.entriesBelow start parent index ts) →
        a.elementName? parent = some name → name ∉ rawTextElements →
          (OrderedTree.indices start ts).flatMap (a.markupUpTo fuel) =
            (OrderedTree.tokensBelow ts).flatMap Token.written
  | [], _, _, _, _, _, _, _, _, _, _ => rfl
  | t :: ts, hplain, fuel, start, parent, index, name, hsize, hshows, hname, hraw => by
    obtain ⟨ht, hts⟩ := List.forall_mem_cons.1 hplain
    obtain ⟨htree, hrest⟩ := shows_append hshows
    rw [t.length_entries] at hrest
    rw [OrderedTree.sizes] at hsize
    have hescaped : a.isRaw start = false := by
      obtain ⟨data, children⟩ := t
      obtain ⟨hparent, -⟩ := reads_of_getElem? (shows_cons htree).1
      rw [isRaw, hparent, Option.bind_some, hname, Option.any_some]
      simpa using hraw
    rw [OrderedTree.indices, List.flatMap_cons, OrderedTree.tokensBelow, List.flatMap_append,
      markupUpTo_eq ht (by omega) htree fun _ => hescaped,
      flatMap_markupUpTo_eq hts (by omega) hrest hname hraw]

end

/-! ## The tree below a node -/

mutual

/-- Every node of a tree that stands in an arena has a tree below it that stands there. -/
lemma exists_subtree : ∀ (t : OrderedTree) {id index i : Nat} {parent : Option Nat},
    a.Shows id (t.entries id parent index) → id ≤ i → i < id + t.size →
      ∃ (s : OrderedTree) (above : Option Nat) (place : Nat),
        s.size ≤ t.size ∧ a.Shows i (s.entries i above place)
  | .node data ts, id, index, i, parent, hshows, hle, hlt => by
    obtain rfl | hbelow := Nat.eq_or_lt_of_le hle
    · exact ⟨_, parent, index, Nat.le_refl _, hshows⟩
    · rw [OrderedTree.size] at hlt ⊢
      obtain ⟨s, above, place, hsize, hs⟩ :=
        exists_subtree_below ts (shows_cons hshows).2 hbelow (by omega)
      exact ⟨s, above, place, Nat.le_succ_of_le hsize, hs⟩

lemma exists_subtree_below : ∀ (ts : List OrderedTree) {start parent index i : Nat},
    a.Shows start (OrderedTree.entriesBelow start parent index ts) → start ≤ i →
      i < start + OrderedTree.sizes ts →
        ∃ (s : OrderedTree) (above : Option Nat) (place : Nat),
          s.size ≤ OrderedTree.sizes ts ∧ a.Shows i (s.entries i above place)
  | [], start, _, _, i, _, hle, hlt => absurd hlt (Nat.not_lt.2 hle)
  | t :: ts, start, parent, index, i, hshows, hle, hlt => by
    obtain ⟨htree, hrest⟩ := shows_append hshows
    rw [t.length_entries] at hrest
    rw [OrderedTree.sizes] at hlt ⊢
    rcases Nat.lt_or_ge i (start + t.size) with hin | hafter
    · obtain ⟨s, above, place, hsize, hs⟩ := exists_subtree t htree hle hin
      exact ⟨s, above, place, by omega, hs⟩
    · obtain ⟨s, above, place, hsize, hs⟩ :=
        exists_subtree_below ts hrest hafter (by omega)
      exact ⟨s, above, place, by omega, hs⟩

end

/-- Every node of a tree that is laid out has a tree below it, which is read back from the arena. -/
lemma exists_readTree?_eq {whole : OrderedTree} {id : Nat} (hid : id < (laidOut whole).size) :
    ∃ (t : OrderedTree) (above : Option Nat) (place : Nat),
      t.size ≤ (laidOut whole).size ∧ (laidOut whole).Shows id (t.entries id above place) ∧
        (laidOut whole).readTree? (laidOut whole).size id = some t := by
  rw [laidOut_eq, size_ofTree] at *
  obtain ⟨t, above, place, hsize, hshows⟩ :=
    exists_subtree whole (shows_ofTree _) (Nat.zero_le id) (by omega)
  exact ⟨t, above, place, hsize, hshows, readTree?_eq t hsize hshows⟩

/-- Only a node of the arena has a tree below it. -/
lemma lt_size_of_readTree? {fuel id : Nat} {t : OrderedTree} (h : a.readTree? fuel id = some t) :
    id < a.size := by
  rcases Nat.lt_or_ge id a.size with hlt | hle
  · exact hlt
  · have hnone : a.data? id = none := by
      rw [data?, Array.getElem?_eq_none hle, Option.map_none]
    cases fuel with
    | zero => cases h
    | succ fuel =>
      rw [readTree?, hnone] at h
      cases h

/-! ## Reading back -/

/-- What stands at a node can be read back: the tree below it is plain, and it is no text that is
written as it is. -/
structure Legible (a : Arena) (id : Nat) (t : OrderedTree) : Prop where
  /-- The tree below the node. -/
  subtree : a.readTree? a.size id = some t
  /-- It is plain. -/
  plain : t.Plain
  /-- A text is not that of an element whose content is no markup. -/
  escaped : t.isText = true → a.isRaw id = false

/-- A legible node is written as the tags and texts of the tree below it. -/
lemma Legible.outerMarkup_eq {whole : OrderedTree} {id : Nat} {t : OrderedTree}
    (h : (laidOut whole).Legible id t) :
    (laidOut whole).outerMarkup id = t.tokens.flatMap Token.written := by
  obtain ⟨s, above, place, hsize, hshows, hs⟩ := exists_readTree?_eq (lt_size_of_readTree? h.subtree)
  obtain rfl : s = t := Option.some.inj (hs.symm.trans h.subtree)
  exact markupUpTo_eq h.plain hsize hshows h.escaped

/-- A legible node is read back from its markup. -/
lemma Legible.readMarkup_eq {whole : OrderedTree} {id : Nat} {t : OrderedTree}
    (h : (laidOut whole).Legible id t) :
    readMarkup ((laidOut whole).outerMarkup id) = some [t] := by
  rw [h.outerMarkup_eq, readMarkup, h.plain.scan_written, Option.bind_some, h.plain.assemble_tokens]

/-- **Markup is read back.** Every node of every tree that is laid out, and so of every document, has a
tree below it. If this is made of elements that have an end tag and content that is markup, their names and those of their attributes of
letters, digits and hyphens, and of texts that are not empty and not right after one another, and if
the node is not itself the text of an element whose text is written as it is, then:

* the tags and texts that a scanner finds in the markup of the node are those of the tree, each text in
  one piece and each value in its tag: none of them, whatever its characters, makes up a tag;
* reading the markup gives the tree, with names, attributes in order, values and texts;
* no other tree below such a node of any tree that is laid out has the same markup.

**Proof sketch.** A node is written as the tags and texts of the tree below it, by induction on the
tree. Where they are written, a text has no bracket that opens a tag and a value no quote, so that the
scanner stays in them to their end, and what is written as a reference is read as its character. An end
tag closes the element of the start tag that opened it, as the tags in between are closed, by induction
on the tree again. -/
theorem outerMarkup_read_back :
    (∀ (whole : OrderedTree) (id : Nat), id < (laidOut whole).size →
      ∃ t, (laidOut whole).readTree? (laidOut whole).size id = some t) ∧
    (∀ (whole : OrderedTree) (id : Nat) (t : OrderedTree), (laidOut whole).Legible id t →
      scan ((laidOut whole).outerMarkup id) = some t.tokens ∧
      readMarkup ((laidOut whole).outerMarkup id) = some [t] ∧
      ∀ (other : OrderedTree) (id' : Nat) (t' : OrderedTree), (laidOut other).Legible id' t' →
        (laidOut other).outerMarkup id' = (laidOut whole).outerMarkup id → t' = t) ∧
    ∀ forest : List Tree, ofForest forest = laidOut (documentTree forest) := by
  refine ⟨fun whole id hid => ?_, fun whole id t h => ⟨?_, h.readMarkup_eq, ?_⟩, fun forest => ?_⟩
  · obtain ⟨t, -, -, -, -, ht⟩ := exists_readTree?_eq hid
    exact ⟨t, ht⟩
  · rw [h.outerMarkup_eq]
    exact h.plain.scan_written
  · intro other id' t' h' hsame
    have hread := h'.readMarkup_eq
    rw [hsame, h.readMarkup_eq] at hread
    exact (List.singleton_inj.1 (Option.some.inj hread)).symm
  · rw [laidOut_eq, ofForest_eq]

/-- A paragraph with a quote in a value, an angle bracket in a text and an element in it is read back
from its markup. -/
theorem read_back_of_paragraph :
    let a := ofForest [.element "p" [("class", "a\"b")] [.text "x < y", .element "b" [] [.text "z"]]]
    let t := OrderedTree.node (.element "p" [("class", "a\"b")])
      [.node (.text "x < y") [], .node (.element "b" []) [.node (.text "z") []]]
    a.Legible 1 t ∧
      a.outerMarkup 1 = "<p class=\"a&quot;b\">x &lt; y<b>z</b></p>".toList ∧
        readMarkup (a.outerMarkup 1) = some [t] := by
  intro a t
  have hplain : t.Plain := by
    refine .element (by decide) (by decide) (by decide) (by decide) ?_
      (List.isChain_pair.2 (.inr rfl))
    rintro u hu
    rcases List.mem_pair.1 hu with rfl | rfl
    · exact .text (by decide)
    · refine .element (by decide) (by decide) (by decide) (by decide) ?_ (List.isChain_singleton _)
      rintro v hv
      obtain rfl := List.mem_singleton.1 hv
      exact .text (by decide)
  have hlegible : a.Legible 1 t := ⟨rfl, hplain, nofun⟩
  obtain ⟨-, hread, hlaidOut⟩ := outerMarkup_read_back
  have ha : a = laidOut _ := hlaidOut _
  refine ⟨hlegible, rfl, ?_⟩
  rw [ha] at hlegible ⊢
  exact (hread _ 1 t hlegible).2.1

/-- The text of a script and the text of a paragraph are written alike though they are different texts,
so that no reader can tell which of them was written. -/
theorem raw_text_ambiguous :
    let a := ofForest [.element "script" [] [.text "&lt;"], .element "p" [] [.text "<"]]
    let t := OrderedTree.node (.text "&lt;") []
    let u := OrderedTree.node (.text "<") []
    (a.readTree? a.size 2 = some t ∧ t.Plain) ∧ (a.readTree? a.size 4 = some u ∧ u.Plain) ∧
      t ≠ u ∧ a.outerMarkup 2 = a.outerMarkup 4 := by
  intro a t u
  refine ⟨⟨rfl, .text (by decide)⟩, ⟨rfl, .text (by decide)⟩, ?_, rfl⟩
  intro h
  exact absurd (congrArg OrderedTree.data h) (by decide)

end Arena

end WebCrawl.Html
