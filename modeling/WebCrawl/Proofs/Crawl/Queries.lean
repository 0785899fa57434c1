import WebCrawl.Crawl.Request
import WebCrawl.Proofs.Url.Forms

set_option autoImplicit false

/-!
# Arguments in the query

A request that fetches an address with arguments has the arguments in its query, after the pairs that
are there already. They are added to the end of the address, so this is so of an address that ends
with its query or its path. At the end of a fragment the arguments become part of the fragment, which
is no part of what a request asks for.

## Main definitions

* `WebCrawl.Url.Parts` — the parts of the text of a URL, as they are written.
* `WebCrawl.Crawl.Request.CarriesArguments` — a request has the address with the arguments after the
  pairs of its query, and all other parts of the address as they were.

## Main results

* `WebCrawl.Url.Parts.toText_ofText` — the parts are all there is in the text.
* `WebCrawl.Url.Parts.ofText_addQuery` — the parts of an address with more at its end.
* `WebCrawl.Crawl.Request.carriesArguments_iff` — the request carries the arguments exactly if there
  are none or the address has no fragment.
-/

namespace WebCrawl

namespace Url

open Text

/-! ## The parts of a text -/

/-- The text before the first occurrence of a character, and the text after it if there is one. -/
def cut (c : Char) (s : Text) : Text × Option Text :=
  if c ∈ s then (s.takeWhile (· ≠ c), some ((s.dropWhile (· ≠ c)).drop 1)) else (s, none)

/-- A text that may be there, after the mark that it is there. -/
def marked (mark : Char) : Option Text → Text
  | some s => mark :: s
  | none => []

section Cut

variable {c : Char} {s : Text}

/-- A text is cut at its first mark. -/
lemma cut_append_marked (h : c ∉ s) (t? : Option Text) : cut c (s ++ marked c t?) = (s, t?) := by
  have hs : ∀ d ∈ s, decide (d ≠ c) = true := fun d hd => by
    simpa using ne_of_mem_of_not_mem hd h
  cases t? with
  | none => simp [cut, marked, h]
  | some t =>
    rw [cut, marked, if_pos (by simp), List.takeWhile_append_of_pos hs,
      List.dropWhile_append_of_pos hs]
    simp

/-- Every text is one without the mark and what may follow a mark. -/
lemma exists_eq_append_marked (c : Char) (s : Text) : ∃ t t?, c ∉ t ∧ s = t ++ marked c t? := by
  by_cases h : c ∈ s
  · obtain ⟨t, rest, rfl, ht⟩ := List.eq_append_cons_of_mem h
    exact ⟨t, some rest, ht, rfl⟩
  · exact ⟨s, none, h, by simp [marked]⟩

end Cut

/-- The scheme that a place begins with, if it does, and the rest. -/
def takeScheme (place : Text) : Option Text × Text :=
  match cut ':' place with
  | (scheme, some rest) => if scheme ≠ [] ∧ '/' ∉ scheme then (some scheme, rest) else (none, place)
  | (_, none) => (none, place)

/-- The authority that a text begins with, if it does, and the rest. -/
def takeAuthority (s : Text) : Option Text × Text :=
  match s with
  | '/' :: '/' :: r => (some (r.takeWhile (· ≠ '/')), r.dropWhile (· ≠ '/'))
  | _ => (none, s)

/-- A scheme as it is written. -/
def schemeText : Option Text → Text
  | some scheme => scheme ++ [':']
  | none => []

/-- An authority as it is written. -/
def authorityText : Option Text → Text
  | some authority => '/' :: '/' :: authority
  | none => []

/-- A scheme and the rest are the place they were taken from. -/
lemma schemeText_append (place : Text) :
    schemeText (takeScheme place).1 ++ (takeScheme place).2 = place := by
  obtain ⟨s, t?, hs, rfl⟩ := exists_eq_append_marked ':' place
  rw [takeScheme, cut_append_marked hs]
  cases t? with
  | none => rfl
  | some t =>
    dsimp only
    split_ifs <;> simp [schemeText, marked]

/-- An authority and the rest are the text they were taken from. -/
lemma authorityText_append (s : Text) :
    authorityText (takeAuthority s).1 ++ (takeAuthority s).2 = s := by
  rw [takeAuthority.eq_def]
  split
  · rw [authorityText, List.cons_append, List.cons_append, List.takeWhile_append_dropWhile]
  · rfl

/-- The parts of the text of a URL, as they are written. -/
structure Parts where
  /-- The scheme, without its colon. -/
  scheme? : Option Text
  /-- The authority, without its two slashes. -/
  authority? : Option Text
  /-- The path. -/
  path : Text
  /-- The query, without its question mark. -/
  query? : Option Text
  /-- The fragment, without its number sign. -/
  fragment? : Option Text
deriving DecidableEq, Repr

namespace Parts

/-- The parts of a place with a query and a fragment. -/
def ofPlace (place : Text) (query? fragment? : Option Text) : Parts :=
  let (scheme?, rest) := takeScheme place
  let (authority?, path) := takeAuthority rest
  { scheme?, authority?, path, query?, fragment? }

/-- The parts of a text: the fragment is what follows the first number sign, the query what follows
the first question mark before that. -/
def ofText (u : Text) : Parts :=
  let (resource, fragment?) := cut '#' u
  let (place, query?) := cut '?' resource
  ofPlace place query? fragment?

/-- The text that has the parts. -/
def toText (p : Parts) : Text :=
  schemeText p.scheme? ++ authorityText p.authority? ++ p.path ++ marked '?' p.query? ++ marked '#' p.fragment?

variable {place : Text} {query? : Option Text}

/-- The parts of a text whose marks are known. -/
lemma ofText_append (hquery : '?' ∉ place) (hfragment : '#' ∉ place ++ marked '?' query?)
    (fragment? : Option Text) :
    ofText (place ++ marked '?' query? ++ marked '#' fragment?) =
      ofPlace place query? fragment? := by
  rw [ofText, cut_append_marked hfragment]
  dsimp only
  rw [cut_append_marked hquery]

/-- Every text is a place, a query and a fragment. -/
lemma exists_ofText_eq (u : Text) : ∃ place query? fragment?,
    '?' ∉ place ∧ '#' ∉ place ++ marked '?' query? ∧
    u = place ++ marked '?' query? ++ marked '#' fragment? := by
  obtain ⟨resource, fragment?, hfragment, rfl⟩ := exists_eq_append_marked '#' u
  obtain ⟨place, query?, hquery, rfl⟩ := exists_eq_append_marked '?' resource
  exact ⟨place, query?, fragment?, hquery, hfragment, rfl⟩

/-- Nothing is lost of a place that is taken apart. -/
lemma toText_ofPlace (place : Text) (query? fragment? : Option Text) :
    (ofPlace place query? fragment?).toText =
      place ++ marked '?' query? ++ marked '#' fragment? := by
  rw [ofPlace, toText]
  dsimp only
  rw [List.append_assoc (schemeText _), authorityText_append, schemeText_append]

/-- Nothing is lost of a text that is taken apart. -/
theorem toText_ofText (u : Text) : (ofText u).toText = u := by
  obtain ⟨place, query?, fragment?, hquery, hfragment, rfl⟩ := exists_ofText_eq u
  rw [ofText_append hquery hfragment, toText_ofPlace]

/-! ## More at the end -/

/-- The parts with a query added to the last of them. It goes to the query unless there is a
fragment. -/
def withQuery (p : Parts) (query : Text) : Parts :=
  match p.fragment? with
  | none =>
    { p with
      query? := some (match p.query? with
        | some own => own ++ '&' :: query
        | none => query) }
  | some fragment =>
    { p with
      fragment? := some (fragment ++
        (if p.query?.isSome ∨ '?' ∈ fragment then '&' else '?') :: query) }

/-- The parts of an address with a query added to its end. -/
theorem ofText_addQuery {u query : Text} (hne : query ≠ []) (hfree : '#' ∉ query) :
    ofText (Crawl.Request.addQuery u query) = (ofText u).withQuery query := by
  obtain ⟨place, query?, fragment?, hquery, hfragment, rfl⟩ := exists_ofText_eq u
  have hadd : ∀ s, Crawl.Request.addQuery s query =
      s ++ (if '?' ∈ s then '&' else '?') :: query := fun s => by
    rw [Crawl.Request.addQuery, if_neg (by simpa using hne)]
  rw [ofText_append hquery hfragment, hadd]
  cases fragment? with
  | some fragment =>
    have hmark : '?' ∈ place ++ marked '?' query? ++ marked '#' (some fragment) ↔
        query?.isSome ∨ '?' ∈ fragment := by
      cases query? <;> simp [marked, hquery]
    simp only [hmark]
    rw [List.append_assoc, marked, List.cons_append]
    exact ofText_append hquery hfragment (some (fragment ++ _ :: query))
  | none =>
    cases query? with
    | none =>
      have hend : '#' ∉ place ++ marked '?' (some query) := by
        simp only [marked, List.append_nil] at hfragment
        simp [marked, hfree, hfragment]
      rw [if_neg (by simp [marked, hquery])]
      simpa [marked, withQuery, ofPlace] using ofText_append hquery hend none
    | some own =>
      have hend : '#' ∉ place ++ marked '?' (some (own ++ '&' :: query)) := by
        simp only [marked, List.mem_append, List.mem_cons, not_or] at hfragment
        simp [marked, hfree, hfragment]
      rw [if_pos (by simp [marked])]
      simpa [marked, withQuery, ofPlace] using ofText_append hquery hend none

end Parts

end Url

namespace Crawl.Request

open Url

variable {κ : Type}

/-! ## Requests with arguments -/

/-- The request has an address with arguments: its query stands for the pairs of the address and the
arguments after them, and all other parts are those of the address, which is as it was without
arguments. -/
def CarriesArguments (r : Request κ) (u : Text) (arguments : List (Text × Text)) : Prop :=
  let given := Parts.ofText u
  let asked := Parts.ofText r.url
  formDecode (asked.query?.getD []) = formDecode (given.query?.getD []) ++ arguments ∧
    asked.scheme? = given.scheme? ∧ asked.authority? = given.authority? ∧
    asked.path = given.path ∧ asked.fragment? = given.fragment? ∧
    (arguments = [] → r.url = u)

/-- An address that is taken apart with arguments:

* the arguments come to the end of the query, or to the end of the fragment if there is one; without
  arguments the address is as it was;
* so the request carries the arguments exactly if there are none or the address has no fragment. -/
theorem carriesArguments_iff (u : Text) (arguments : List (Text × Text)) :
    let r : Request κ := getWithArguments u arguments
    Parts.ofText r.url = (if arguments = [] then Parts.ofText u
      else (Parts.ofText u).withQuery (formEncode arguments)) ∧
    (r.CarriesArguments u arguments ↔ arguments = [] ∨ (Parts.ofText u).fragment? = none) := by
  intro r
  have hurl : r.url = addQuery u (formEncode arguments) := rfl
  by_cases hnone : arguments = []
  · have hsame : r.url = u := by
      rw [hurl, hnone]
      rfl
    simp [CarriesArguments, hsame, hnone]
  · have hparts : Parts.ofText r.url = (Parts.ofText u).withQuery (formEncode arguments) :=
      Parts.ofText_addQuery (mt formEncode_eq_nil_iff.1 hnone)
        (not_mem_formEncode (by decide) arguments)
    refine ⟨by rw [if_neg hnone, hparts], ?_⟩
    unfold CarriesArguments
    rw [hparts]
    cases hfragment : (Parts.ofText u).fragment? with
    | some fragment => simp [Parts.withQuery, hfragment, hnone]
    | none =>
      cases hquery : (Parts.ofText u).query? with
      | none =>
        have hempty : formDecode [] = [] := by decide
        simp [Parts.withQuery, hfragment, hquery, hnone, formDecode_formEncode, hempty]
      | some own =>
        simp [Parts.withQuery, hfragment, hquery, hnone, formDecode_append, formDecode_formEncode]

/-- An argument for an address with a fragment does not come to the query. -/
theorem argument_in_fragment :
    ¬(getWithArguments "http://example.com/s#top" [("q", "1")] : Request Unit).CarriesArguments
      "http://example.com/s#top" [("q".toList, "1".toList)] := by
  have hparts : Parts.ofText
      (getWithArguments "http://example.com/s#top" [("q", "1")] : Request Unit).url =
      ⟨some "http".toList, some "example.com".toList, "/s".toList, none,
        some "top?q=1".toList⟩ := by decide +kernel
  intro h
  have hquery := h.1
  rw [hparts] at hquery
  exact absurd hquery (by decide +kernel)

end Crawl.Request

end WebCrawl
