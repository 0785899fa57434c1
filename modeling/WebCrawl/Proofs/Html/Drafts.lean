import Mathlib
import WebCrawl.Proofs.Html.Arena
import WebCrawl.Query.Document

set_option autoImplicit false

/-!
# Documents that were read

Whatever a text is, the document that it spells has one `html` element with only comments and
doctypes beside it, and no element has two attributes of one name. Names are read in lower case, so
the names of two attributes differ in more than the case of their letters.

## Main definitions

* `WebCrawl.Html.ProperAttributes`, `WebCrawl.Html.Tree.Proper` — names in lower case, none twice.
* `WebCrawl.Html.Draft.Sound` — what every draft keeps to.
* `WebCrawl.Html.Arena.IsDocumentElement` — the element right below the root and above all others.

## Main results

* `WebCrawl.Html.Draft.Sound.add` — one more piece of markup leaves a draft sound.
* `WebCrawl.Html.exists_parse_eq` — the shape of the document that a text spells.
* `WebCrawl.Html.Arena.distinctNames_ofForest`, `WebCrawl.Html.Arena.exists_documentElement` — what
  that says of its arena.
-/

namespace WebCrawl.Html

open Text

/-! ## Proper trees -/

/-- The names are in lower case, and none is there twice. -/
def ProperAttributes (attributes : Attributes) : Prop :=
  (∀ p ∈ attributes, lower p.1 = p.1) ∧ attributes.Pairwise fun p q => p.1 ≠ q.1

/-- The attributes of the tree and of all below it are proper, and no document stands within it. -/
inductive Tree.Proper : Tree → Prop
  | element {name : Text} {attributes : Attributes} {children : List Tree}
    (attributes_proper : ProperAttributes attributes) (children_proper : ∀ t ∈ children, t.Proper) :
    Proper (.element name attributes children)
  | text (content : Text) : Proper (.text content)
  | comment (content : Text) : Proper (.comment content)
  | doctype (name : Text) : Proper (.doctype name)
  | other : Proper .other

/-- Whether the root of the tree is neither an element nor a document. -/
def Tree.isLeaf : Tree → Bool
  | .element _ _ _ | .fragment _ => false
  | _ => true

/-- A tree that is a leaf has no attributes. -/
lemma Tree.Proper.of_isLeaf : ∀ {t : Tree}, t.isLeaf = true → t.Proper
  | .element _ _ _, h => by cases h
  | .fragment _, h => by cases h
  | .text content, _ => .text content
  | .comment content, _ => .comment content
  | .doctype name, _ => .doctype name
  | .other, _ => .other

/-- The attributes of a tag are proper. -/
def Token.Proper : Token → Prop
  | .startTag _ attributes => ProperAttributes attributes
  | _ => True

/-! ## Attributes -/

/-- No two attributes of a proper list have names that are equal up to the case of letters. -/
lemma ProperAttributes.pairwise {attributes : Attributes} (h : ProperAttributes attributes) :
    attributes.Pairwise fun p q => sameLetters p.1 q.1 = false := by
  refine (List.Pairwise.and_mem.1 h.2).imp fun {p q} hpq => ?_
  obtain ⟨hp, hq, hne⟩ := hpq
  simpa [sameLetters, h.1 p hp, h.1 q hq] using hne

lemma properAttributes_nil : ProperAttributes [] := ⟨nofun, .nil⟩

/-- A new attribute with a name in lower case leaves the attributes proper, kept or not. -/
lemma ProperAttributes.keepFirst {kept : Attributes} (h : ProperAttributes kept) {p : Text × Text}
    (hp : lower p.1 = p.1) : ProperAttributes (keepFirst kept p) := by
  unfold Html.keepFirst
  split
  · exact h
  · rename_i hnew
    simp only [List.any_eq_true, not_exists, not_and, beq_iff_eq] at hnew
    refine ⟨fun q hq => ?_, List.pairwise_append.2 ⟨h.2, List.pairwise_singleton .., ?_⟩⟩
    · rcases List.mem_append.1 hq with hq | hq
      · exact h.1 q hq
      · obtain rfl := List.mem_singleton.1 hq
        exact hp
    · intro q hq q' hq'
      obtain rfl := List.mem_singleton.1 hq'
      exact hnew q hq

/-- Attributes with names in lower case are arranged to proper ones. -/
lemma properAttributes_arrange {attributes : Attributes}
    (h : ∀ p ∈ attributes, lower p.1 = p.1) : ProperAttributes (arrange attributes) := by
  have hkept : ∀ (attributes kept : Attributes), (∀ p ∈ attributes, lower p.1 = p.1) →
      ProperAttributes kept → ProperAttributes (attributes.foldl Html.keepFirst kept) := by
    intro attributes
    induction attributes with
    | nil => exact fun _ _ hkept => hkept
    | cons p attributes ih =>
      intro kept hlower hkept
      obtain ⟨hp, hlower⟩ := List.forall_mem_cons.1 hlower
      exact ih _ hlower (hkept.keepFirst hp)
  obtain ⟨hlower, hdistinct⟩ := hkept attributes [] h properAttributes_nil
  have hperm := List.mergeSort_perm (attributes.foldl Html.keepFirst [])
    fun a b => !List.lex b.1 a.1 (· < ·)
  exact ⟨fun p hp => hlower p (List.mem_mergeSort.1 hp),
    (hperm.pairwise_iff fun hne => hne.symm).2 hdistinct⟩

/-- The attributes of two tags for one element together. -/
lemma ProperAttributes.merge {attributes more : Attributes} (h : ProperAttributes attributes)
    (hmore : ProperAttributes more) : ProperAttributes (merge attributes more) := by
  refine properAttributes_arrange fun p hp => ?_
  rcases List.mem_append.1 hp with hp | hp
  · exact h.1 p hp
  · exact hmore.1 p hp

/-- A text in lower case stays as it is. -/
lemma lower_lower (s : Text) : lower (lower s) = lower s := by simp [lower, Function.comp_def]

/-- The names of attributes are read in lower case. -/
lemma lower_of_attributesFrom {fuel : Nat} {s : Text} {attributes : Attributes} {rest : Text}
    (h : attributesFrom fuel s = some (attributes, rest)) : ∀ p ∈ attributes, lower p.1 = p.1 := by
  induction fuel generalizing s attributes rest with
  | zero => cases h
  | succ fuel ih =>
    unfold attributesFrom at h
    split at h
    · cases h
    · obtain ⟨rfl, -⟩ := Prod.mk.inj (Option.some.inj h)
      exact nofun
    · dsimp only at h
      obtain ⟨⟨more, t⟩, hmore, heq⟩ := Option.map_eq_some_iff.1 h
      obtain ⟨rfl, -⟩ := Prod.mk.inj heq
      exact List.forall_mem_cons.2 ⟨lower_lower _, ih hmore⟩

/-! ## Pieces of markup -/

/-- What follows a start tag holds no tag. -/
lemma proper_afterStartTag {name s : Text} : ∀ t ∈ (afterStartTag name s).1, t.Proper := by
  have htext : ∀ content : Text, ∀ t ∈ (if content.isEmpty then [] else [Token.text content]),
      t.Proper := by
    intro content
    split
    · exact nofun
    · exact List.forall_mem_singleton.2 trivial
  unfold afterStartTag
  split
  · exact htext _
  · split
    · exact nofun
    · exact nofun

/-- The tags in markup are proper. -/
lemma proper_markup (s : Text) : ∀ t ∈ (markup s).1, t.Proper := by
  have hstray : ∀ s : Text, ∀ t ∈ (strayComment s).1, t.Proper :=
    fun s => List.forall_mem_singleton.2 trivial
  unfold markup
  split
  · split
    · dsimp only
      split
      · exact List.forall_mem_singleton.2 trivial
      · exact nofun
    · split
      · exact nofun
      · exact hstray _
  · split
    · exact List.forall_mem_singleton.2 trivial
    · split
      · exact List.forall_mem_singleton.2 trivial
      · exact hstray _
  · exact hstray _
  · dsimp only
    split
    · rename_i hattributes
      exact List.forall_mem_cons.2
        ⟨properAttributes_arrange (lower_of_attributesFrom hattributes), proper_afterStartTag⟩
    · exact nofun
  · exact nofun

/-- The tags in a text are proper. -/
lemma proper_tokens (s : Text) : ∀ t ∈ tokens s, t.Proper := by
  have hupTo : ∀ (fuel : Nat) (s : Text), ∀ t ∈ tokensUpTo fuel s, t.Proper := by
    intro fuel s
    fun_induction tokensUpTo fuel s with
    | case1 => exact nofun
    | case2 => exact nofun
    | case3 fuel s hne hmarkup pieces rest heq ih =>
      intro t ht
      rcases List.mem_append.1 ht with ht | ht
      · have hpieces : pieces = (markup s).1 := by rw [heq]
        exact proper_markup s t (hpieces ▸ ht)
      · exact ih t ht
    | case4 fuel s hne hmarkup content rest heq ih =>
      exact List.forall_mem_cons.2 ⟨trivial, ih⟩
  exact hupTo _ _

/-! ## Drafts -/

/-- What is put to the end of a list of nodes, joined to a text or not, has what texts, the node and
the nodes of the list have. -/
lemma forall_mem_append {P : Tree → Prop} {nodes : List Tree} {node : Tree}
    (text : ∀ s, P (.text s)) (hnodes : ∀ t ∈ nodes, P t) (hnode : P node) :
    ∀ t ∈ append nodes node, P t := by
  unfold append
  split
  · exact hnodes
  · exact List.forall_mem_cons.2 ⟨text _, (List.forall_mem_cons.1 hnodes).2⟩
  · exact List.forall_mem_cons.2 ⟨hnode, hnodes⟩

namespace Draft

/-- Beside the `html` element there are no elements, and all attributes so far are proper. -/
structure Sound (d : Draft) : Prop where
  preamble : ∀ t ∈ d.preamble, t.isLeaf = true
  epilogue : ∀ t ∈ d.epilogue, t.isLeaf = true
  htmlAttributes : ProperAttributes d.htmlAttributes
  headAttributes : ProperAttributes d.headAttributes
  bodyAttributes : ProperAttributes d.bodyAttributes
  beforeHead : ∀ t ∈ d.beforeHead, t.Proper
  head : ∀ t ∈ d.head, t.Proper
  afterHead : ∀ t ∈ d.afterHead, t.Proper
  body : ∀ t ∈ d.body, t.Proper
  afterBody : ∀ t ∈ d.afterBody, t.Proper
  openElements : ∀ e ∈ d.openElements, ProperAttributes e.attributes ∧ ∀ t ∈ e.children, t.Proper

lemma sound_empty : Sound {} where
  preamble := nofun
  epilogue := nofun
  htmlAttributes := properAttributes_nil
  headAttributes := properAttributes_nil
  bodyAttributes := properAttributes_nil
  beforeHead := nofun
  head := nofun
  afterHead := nofun
  body := nofun
  afterBody := nofun
  openElements := nofun

namespace Sound

variable {d : Draft} {name : Text} {attributes : Attributes}

lemma place (h : d.Sound) {node : Tree} (hnode : node.Proper) : (d.place node).Sound := by
  unfold Draft.place
  split
  · rename_i e outer hopen
    have hopened := h.openElements
    rw [hopen] at hopened
    obtain ⟨he, houter⟩ := List.forall_mem_cons.1 hopened
    refine { h with openElements := List.forall_mem_cons.2 ⟨⟨he.1, ?_⟩, houter⟩ }
    exact forall_mem_append .text he.2 hnode
  · split
    · exact { h with head := forall_mem_append .text h.head hnode }
    · exact { h with head := forall_mem_append .text h.head hnode }
    · exact { h with body := forall_mem_append .text h.body hnode }

lemma closeOne (h : d.Sound) : d.closeOne.Sound := by
  unfold Draft.closeOne
  split
  · exact h
  · rename_i e outer hopen
    have hopened := h.openElements
    rw [hopen] at hopened
    obtain ⟨he, houter⟩ := List.forall_mem_cons.1 hopened
    have houterSound : Sound { d with openElements := outer } := { h with openElements := houter }
    exact houterSound.place (.element he.1 fun t ht => he.2 t (List.mem_reverse.1 ht))

lemma close (h : d.Sound) (n : Nat) : (Draft.close n d).Sound := by
  induction n generalizing d with
  | zero => exact h
  | succ n ih => exact ih h.closeOne

lemma closeAll (h : d.Sound) : d.closeAll.Sound := h.close _

lemma openElement (h : d.Sound) (hattributes : ProperAttributes attributes) :
    (d.openElement name attributes).Sound := by
  unfold Draft.openElement
  split
  · exact h.place (.element hattributes nofun)
  · exact { h with openElements := List.forall_mem_cons.2 ⟨⟨hattributes, nofun⟩, h.openElements⟩ }

lemma closeElement (h : d.Sound) : (d.closeElement name).Sound := by
  unfold Draft.closeElement
  split
  · exact h.close _
  · exact h

/-- Another tag for the `html` element. -/
lemma mergeHtml (h : d.Sound) (hattributes : ProperAttributes attributes) :
    Sound { d with htmlAttributes := merge d.htmlAttributes attributes } :=
  { h with htmlAttributes := h.htmlAttributes.merge hattributes }

/-- One more node before the `html` element. -/
lemma addPreamble (h : d.Sound) {node : Tree} (hnode : node.isLeaf = true) :
    Sound { d with preamble := append d.preamble node } :=
  { h with preamble := forall_mem_append (fun _ => rfl) h.preamble hnode }

/-- One more node after the `html` element. -/
lemma addEpilogue (h : d.Sound) {node : Tree} (hnode : node.isLeaf = true) :
    Sound { d with epilogue := append d.epilogue node } :=
  { h with epilogue := forall_mem_append (fun _ => rfl) h.epilogue hnode }

variable {token : Token}

lemma addInBody (h : d.Sound) (ht : token.Proper) : (d.addInBody token).Sound := by
  cases token with
  | text t => exact h.place (.text t)
  | comment t => exact h.place (.comment t)
  | doctype name => exact h
  | startTag name attributes =>
    unfold Draft.addInBody
    dsimp only
    split
    · exact h.mergeHtml ht
    · split
      · exact { h with bodyAttributes := h.bodyAttributes.merge ht }
      · split
        · exact h
        · exact h.openElement ht
  | endTag name =>
    unfold Draft.addInBody
    dsimp only
    split
    · exact { h.closeAll with }
    · split
      · exact { h.closeAll with }
      · exact h.closeElement

lemma addAfterHead (h : d.Sound) (ht : token.Proper) : (d.addAfterHead token).Sound := by
  have hbody : Sound { d with phase := .inBody } := { h with }
  cases token with
  | text t =>
    have htext : Sound { d with afterHead := append d.afterHead (.text (t.takeWhile isSpace)) } :=
      { h with afterHead := forall_mem_append .text h.afterHead (.text _) }
    unfold Draft.addAfterHead
    dsimp only
    split
    · exact htext
    · exact addInBody { htext with } trivial
  | comment t => exact { h with afterHead := forall_mem_append .text h.afterHead (.comment t) }
  | doctype name => exact h
  | startTag name attributes =>
    unfold Draft.addAfterHead
    dsimp only
    split
    · exact h.mergeHtml ht
    · split
      · exact { hbody with bodyAttributes := ht }
      · split
        · exact h
        · split
          · exact h.openElement ht
          · exact hbody.addInBody ht
  | endTag name =>
    unfold Draft.addAfterHead
    dsimp only
    split
    · exact hbody.addInBody trivial
    · exact h

lemma addInHead (h : d.Sound) (ht : token.Proper) : (d.addInHead token).Sound := by
  have hafter : Sound { d with phase := .afterHead } := { h with }
  cases token with
  | text t =>
    have htext := h.place (.text (t.takeWhile isSpace))
    unfold Draft.addInHead
    dsimp only
    split
    · exact htext
    · exact addAfterHead { htext with } trivial
  | comment t => exact h.place (.comment t)
  | doctype name => exact h
  | startTag name attributes =>
    unfold Draft.addInHead
    dsimp only
    split
    · exact h.mergeHtml ht
    · split
      · exact h
      · split
        · exact h.openElement ht
        · exact hafter.addAfterHead ht
  | endTag name =>
    unfold Draft.addInHead
    dsimp only
    split
    · exact hafter
    · split
      · exact hafter.addAfterHead trivial
      · exact h

lemma addBeforeHead (h : d.Sound) (ht : token.Proper) : (d.addBeforeHead token).Sound := by
  have hin : Sound { d with phase := .inHead } := { h with }
  cases token with
  | text t =>
    unfold Draft.addBeforeHead
    dsimp only
    split
    · exact h
    · exact hin.addInHead trivial
  | comment t => exact { h with beforeHead := forall_mem_append .text h.beforeHead (.comment t) }
  | doctype name => exact h
  | startTag name attributes =>
    unfold Draft.addBeforeHead
    dsimp only
    split
    · exact h.mergeHtml ht
    · split
      · exact { hin with headAttributes := ht }
      · exact hin.addInHead ht
  | endTag name =>
    unfold Draft.addBeforeHead
    dsimp only
    split
    · exact hin.addInHead trivial
    · exact h

lemma addBeforeHtml (h : d.Sound) (ht : token.Proper) : (d.addBeforeHtml token).Sound := by
  have hbefore : Sound { d with phase := .beforeHead } := { h with }
  cases token with
  | text t =>
    unfold Draft.addBeforeHtml
    dsimp only
    split
    · exact h
    · exact hbefore.addBeforeHead trivial
  | comment t => exact h.addPreamble rfl
  | doctype name => exact h.addPreamble rfl
  | startTag name attributes =>
    unfold Draft.addBeforeHtml
    dsimp only
    split
    · exact { hbefore with htmlAttributes := ht }
    · exact hbefore.addBeforeHead ht
  | endTag name => exact hbefore.addBeforeHead ht

lemma addAfterBody (h : d.Sound) (ht : token.Proper) : (d.addAfterBody token).Sound := by
  have hbody : Sound { d with phase := .inBody } := { h with }
  cases token with
  | text t =>
    unfold Draft.addAfterBody
    dsimp only
    split
    · exact h.place (.text t)
    · exact hbody.addInBody trivial
  | comment t =>
    unfold Draft.addAfterBody
    dsimp only
    split
    · exact h.addEpilogue rfl
    · exact { h with afterBody := forall_mem_append .text h.afterBody (.comment t) }
  | doctype name => exact h
  | startTag name attributes =>
    unfold Draft.addAfterBody
    dsimp only
    split
    · exact h.mergeHtml ht
    · exact hbody.addInBody ht
  | endTag name =>
    unfold Draft.addAfterBody
    dsimp only
    split
    · exact { h with }
    · exact hbody.addInBody trivial

/-- One more piece of markup leaves a draft sound. -/
theorem add (h : d.Sound) (ht : token.Proper) : (d.add token).Sound := by
  unfold Draft.add
  split
  · split
    · exact h.addBeforeHtml ht
    · exact h.addBeforeHead ht
    · exact h.addInHead ht
    · exact h.addAfterHead ht
    · exact h.addInBody ht
    · exact h.addAfterBody ht
    · exact h.addAfterBody ht
  · exact h.addInBody ht

/-- The document that is put together from a sound draft. -/
lemma exists_finish_eq (h : d.Sound) :
    ∃ before after attributes children,
      d.finish = before ++ .element "html" attributes children :: after ∧
      (∀ t ∈ before ++ after, t.isLeaf = true) ∧ ∀ t ∈ d.finish, t.Proper := by
  have hclosed := h.closeAll
  have hbeside : ∀ t ∈ d.closeAll.preamble.reverse ++ d.closeAll.epilogue.reverse,
      t.isLeaf = true := by
    intro t ht
    rcases List.mem_append.1 ht with ht | ht
    · exact hclosed.preamble t (List.mem_reverse.1 ht)
    · exact hclosed.epilogue t (List.mem_reverse.1 ht)
  refine ⟨_, _, _, _, rfl, hbeside, fun t ht => ?_⟩
  rcases List.mem_append.1 ht with ht | ht
  · exact .of_isLeaf (hbeside t (List.mem_append_left _ ht))
  · rcases List.mem_cons.1 ht with rfl | ht
    · refine .element hclosed.htmlAttributes fun t ht => ?_
      simp only [List.mem_append, List.mem_cons, List.mem_reverse] at ht
      obtain (ht | rfl | ht) | rfl | ht := ht
      · exact hclosed.beforeHead t ht
      · exact .element hclosed.headAttributes fun t ht => hclosed.head t (List.mem_reverse.1 ht)
      · exact hclosed.afterHead t ht
      · exact .element hclosed.bodyAttributes fun t ht => hclosed.body t (List.mem_reverse.1 ht)
      · exact hclosed.afterBody t ht
    · exact .of_isLeaf (hbeside t (List.mem_append_right _ ht))

end Sound

end Draft

/-- The document that a text spells has one `html` element and no other element beside it, and all
its attributes are proper. -/
theorem exists_parse_eq (s : Text) :
    ∃ before after attributes children,
      parse s = before ++ .element "html" attributes children :: after ∧
      (∀ t ∈ before ++ after, t.isLeaf = true) ∧ ∀ t ∈ parse s, t.Proper := by
  have hfold : ∀ (tokens : List Token) (d : Draft), (∀ t ∈ tokens, t.Proper) → d.Sound →
      (tokens.foldl Draft.add d).Sound := by
    intro tokens
    induction tokens with
    | nil => exact fun _ _ hd => hd
    | cons t tokens ih =>
      intro d ht hd
      obtain ⟨ht, htokens⟩ := List.forall_mem_cons.1 ht
      exact ih _ htokens (hd.add ht)
  exact (hfold (tokens s) {} (proper_tokens s) Draft.sound_empty).exists_finish_eq

/-! ## Arenas of documents that were read -/

mutual

/-- The elements of a proper tree have proper attributes. -/
lemma Tree.Proper.of_mem_nodesFrom :
    ∀ {t : Tree}, t.Proper → ∀ (id parent index : Nat), ∀ n ∈ t.nodesFrom id parent index,
      ∀ name attributes, n.data = .element name attributes → ProperAttributes attributes
  | .element name attributes children, h, id, parent, index => by
    obtain ⟨hattributes, hchildren⟩ : ProperAttributes attributes ∧ ∀ t ∈ children, t.Proper := by
      cases h with
      | element hattributes hchildren => exact ⟨hattributes, hchildren⟩
    rintro n hn name' attributes' hdata
    rcases List.mem_cons.1 hn with rfl | hn
    · cases hdata
      exact hattributes
    · exact properAttributes_of_mem_forestNodesFrom hchildren _ _ _ n hn name' attributes' hdata
  | .text _, _, _, _, _ => by simp [Tree.nodesFrom]
  | .comment _, _, _, _, _ => by simp [Tree.nodesFrom]
  | .doctype _, _, _, _, _ => by simp [Tree.nodesFrom]
  | .other, _, _, _, _ => by simp [Tree.nodesFrom]

lemma properAttributes_of_mem_forestNodesFrom :
    ∀ {ts : List Tree}, (∀ t ∈ ts, t.Proper) → ∀ (start parent index : Nat),
      ∀ n ∈ forestNodesFrom start parent index ts, ∀ name attributes,
        n.data = .element name attributes → ProperAttributes attributes
  | [], _, _, _, _ => nofun
  | t :: ts, h, start, parent, index => by
    obtain ⟨ht, hts⟩ := List.forall_mem_cons.1 h
    rintro n hn name attributes hdata
    rcases List.mem_append.1 hn with hn | hn
    · exact ht.of_mem_nodesFrom _ _ _ n hn name attributes hdata
    · exact properAttributes_of_mem_forestNodesFrom hts _ _ _ n hn name attributes hdata

end

mutual

/-- No document stands within a proper tree. -/
lemma Tree.Proper.isWhole : ∀ {t : Tree}, t.Proper → t.isWhole = true
  | .element _ _ children, h => by
    cases h with
    | element _ hchildren => exact forestIsWhole_of_proper hchildren
  | .fragment _, h => by cases h
  | .text _, _ => rfl
  | .comment _, _ => rfl
  | .doctype _, _ => rfl
  | .other, _ => rfl

lemma forestIsWhole_of_proper :
    ∀ {ts : List Tree}, (∀ t ∈ ts, t.Proper) → forestIsWhole ts = true
  | [], _ => rfl
  | t :: ts, h => by
    obtain ⟨ht, hts⟩ := List.forall_mem_cons.1 h
    rw [forestIsWhole, ht.isWhole, forestIsWhole_of_proper hts, Bool.and_self]

end

/-- The first node of a tree is its root. -/
lemma Tree.exists_nodesFrom_eq_cons (t : Tree) (id parent index : Nat) :
    ∃ n nodes, t.nodesFrom id parent index = n :: nodes ∧ n.data = t.data := by
  cases t <;> exact ⟨_, _, rfl, rfl⟩

/-- Where a tree of a forest has its root. -/
lemma getElem?_forestNodesFrom (before : List Tree) (t : Tree) (after : List Tree)
    (start parent index : Nat) :
    ∃ n, (forestNodesFrom start parent index (before ++ t :: after))[forestSize before]? = some n ∧
      n.data = t.data := by
  induction before generalizing start index with
  | nil =>
    obtain ⟨n, nodes, hnodes, hdata⟩ := t.exists_nodesFrom_eq_cons start parent index
    refine ⟨n, ?_, hdata⟩
    rw [List.nil_append, forestNodesFrom, hnodes]
    rfl
  | cons b before ih =>
    obtain ⟨n, hn, hdata⟩ := ih (start + b.size) (index + 1)
    refine ⟨n, ?_, hdata⟩
    have hlength := b.length_nodesFrom start parent index
    rw [List.cons_append, forestNodesFrom, forestSize, List.getElem?_append_right (by omega),
      hlength, Nat.add_sub_cancel_left, hn]

/-- The roots of a forest stand where the trees before them end. -/
lemma mem_rootIndices_iff {start x : Nat} {ts : List Tree} :
    x ∈ rootIndices start ts ↔
      ∃ before t after, ts = before ++ t :: after ∧ x = start + forestSize before := by
  induction ts generalizing start with
  | nil => simp [rootIndices]
  | cons t ts ih =>
    rw [rootIndices, List.mem_cons, ih]
    constructor
    · rintro (rfl | ⟨before, u, after, rfl, rfl⟩)
      · exact ⟨[], t, ts, rfl, rfl⟩
      · exact ⟨t :: before, u, after, rfl, Nat.add_assoc ..⟩
    · rintro ⟨_ | ⟨b, before⟩, u, after, heq, rfl⟩
      · exact .inl rfl
      · obtain ⟨rfl, rfl⟩ := List.cons.inj heq
        exact .inr ⟨before, u, after, rfl, (Nat.add_assoc ..).symm⟩

namespace Arena

/-- In the arena of proper trees no element has two attributes of one name. -/
theorem distinctNames_ofForest {forest : List Tree} (h : ∀ t ∈ forest, t.Proper) :
    (ofForest forest).DistinctNames := by
  intro id
  unfold attributes
  split
  · rename_i name attributes hdata
    obtain ⟨n, hn, helement⟩ := Option.map_eq_some_iff.1 hdata
    cases id with
    | zero =>
      obtain rfl : _ = n := by simpa [ofForest] using hn
      cases helement
    | succ id =>
      rw [ofForest, List.getElem?_toArray, List.getElem?_cons_succ] at hn
      exact (properAttributes_of_mem_forestNodesFrom h 1 0 0 n (List.mem_of_getElem? hn) _ _
        helement).pairwise
  · exact .nil

/-- The nodes right below the root of a document are the roots of its trees. -/
lemma isParent_root_iff {forest : List Tree} {x : Nat} :
    (ofForest forest).IsParent root x ↔
      ∃ before t after, forest = before ++ t :: after ∧ x = 1 + forestSize before := by
  rw [← (wellFormed_ofForest forest).mem_children_iff, ← mem_rootIndices_iff]
  rfl

/-- What is read where a tree has its root. -/
lemma data?_of_forest (before : List Tree) (t : Tree) (after : List Tree) :
    (ofForest (before ++ t :: after)).data? (1 + forestSize before) = some t.data := by
  obtain ⟨n, hn, hdata⟩ := getElem?_forestNodesFrom before t after 1 0 0
  have hnode : (ofForest (before ++ t :: after)).nodes[1 + forestSize before]? = some n := by
    rw [ofForest, List.getElem?_toArray, Nat.add_comm, List.getElem?_cons_succ, hn]
  rw [data?, hnode, Option.map_some, hdata]

/-- A tree is no leaf if an element is read at its root. -/
lemma isLeaf_of_elementName? {before after : List Tree} {t : Tree}
    (h : ((ofForest (before ++ t :: after)).elementName? (1 + forestSize before)).isSome) :
    t.isLeaf = false := by
  rw [elementName?, data?_of_forest] at h
  cases t with
  | element => rfl
  | _ => cases h

/-- An element right below the root, which is none itself, and above all other elements. -/
structure IsDocumentElement (a : Arena) (x : Nat) : Prop where
  root : a.elementName? Arena.root = none
  below : a.IsParent Arena.root x
  element : (a.elementName? x).isSome
  above : ∀ y, (a.elementName? y).isSome → y = x ∨ a.IsAncestor x y

/-- Where elements stand below elements, the only one right below the root is above all others. -/
lemma isDocumentElement_of_only {a : Arena} {x : Nat} (hwf : a.WellFormed) (hnested : a.ElementsNested)
    (hroot : a.elementName? Arena.root = none) (hbelow : a.IsParent Arena.root x)
    (helement : (a.elementName? x).isSome)
    (honly : ∀ y, a.IsParent Arena.root y → (a.elementName? y).isSome → y = x) :
    a.IsDocumentElement x := by
  refine ⟨hroot, hbelow, helement, fun y => ?_⟩
  induction y using Nat.strong_induction_on with
  | _ y ih =>
    intro hy
    have hpos : 0 < y := Nat.pos_of_ne_zero fun hzero => by
      obtain rfl : y = Arena.root := hzero
      rw [hroot] at hy
      cases hy
    obtain ⟨p, hp⟩ := hwf.exists_parent y hpos (lt_size_of_isElement hy)
    by_cases hp0 : p = Arena.root
    · exact .inl (honly y (hp0 ▸ hp) hy)
    · obtain rfl | hxp := ih p (hwf.lt_of_isParent hp) (hnested y p hy hp hp0)
      · exact .inr (.single hp)
      · exact .inr (.tail hxp hp)

/-- The document that a text spells has an `html` element right below its root and above all other
elements. -/
theorem exists_documentElement (s : Text) :
    ∃ x, (ofForest (parse s)).IsDocumentElement x ∧
      (ofForest (parse s)).elementName? x = some "html".toList := by
  obtain ⟨before, after, attributes, children, hparse, hbeside, hproper⟩ := exists_parse_eq s
  rw [hparse]
  have hname : (ofForest (before ++ .element "html" attributes children :: after)).elementName?
      (1 + forestSize before) = some "html".toList := by
    rw [elementName?, data?_of_forest]
    rfl
  refine ⟨1 + forestSize before, isDocumentElement_of_only (wellFormed_ofForest _)
    (elementsNested_ofForest (forestIsWhole_of_proper (hparse ▸ hproper))) rfl
    (isParent_root_iff.2 ⟨before, _, after, rfl, rfl⟩) (by rw [hname]; rfl) ?_, hname⟩
  intro y hy helement
  obtain ⟨before', t, after', heq, rfl⟩ := isParent_root_iff.1 hy
  rw [heq] at helement
  have ht := isLeaf_of_elementName? helement
  -- the root is that of the element itself, or of a tree beside it
  obtain ⟨as, rfl, has⟩ | ⟨bs, rfl, hbs⟩ := List.append_eq_append_iff.1 heq
  · cases as with
    | nil => rw [List.append_nil]
    | cons u as =>
      obtain ⟨-, rfl⟩ := List.cons.inj has
      cases ht.symm.trans (hbeside t (by simp))
  · cases bs with
    | nil => rw [List.append_nil]
    | cons u bs =>
      obtain ⟨rfl, -⟩ := List.cons.inj hbs
      cases ht.symm.trans (hbeside t (by simp))

end Arena

end WebCrawl.Html

namespace WebCrawl.Query.Document

open Html

/-- The arena of a document that was read is well formed, its elements are nested, and their
attributes have distinct names. -/
lemma arena_parse (markup : Text) :
    (Document.parse markup).arena.WellFormed ∧ (Document.parse markup).arena.ElementsNested ∧
      (Document.parse markup).arena.DistinctNames := by
  obtain ⟨-, -, -, -, -, -, hproper⟩ := Html.exists_parse_eq markup
  exact ⟨Arena.wellFormed_ofForest _, Arena.elementsNested_ofForest (forestIsWhole_of_proper hproper),
    Arena.distinctNames_ofForest hproper⟩

end WebCrawl.Query.Document
