import Mathlib.Algebra.BigOperators.Group.List.Basic
import Mathlib.Algebra.GroupWithZero.Nat
import WebCrawl.Crawl.Wire
import WebCrawl.Proofs.Http.Fields
import WebCrawl.Proofs.Text.Utf8

set_option autoImplicit false

/-!
# Cookies on the wire

A caller gives cookies to a request in two ways: as values of a header, of which there can be
several, and by name. Values of the header are sent as they are if there are no cookies by name.
If there are some, one line is sent in place of all values: the first of these, if it is a text in
ASCII, and then the cookies by name. So further values, and one that is not in ASCII, are not sent.

## Main definitions

* `WebCrawl.Crawl.Wire.givenCookies` — all cookies that the caller gave.
* `WebCrawl.Crawl.Wire.KeepsCookies` — none of them is lost on the wire.
* `WebCrawl.Crawl.Wire.sentCookies` — the cookies that are sent.

## Main results

* `WebCrawl.Crawl.Wire.foldlM_addHeader` — the values of a name before cookies, host and user agent
  are added are those that the caller set.
* `WebCrawl.Crawl.Wire.sent_cookie_iff` — which cookies are sent, and when none is lost.
* `WebCrawl.Crawl.Wire.second_cookie_lost` — a second value of the header is lost.
* `WebCrawl.Crawl.Request.pairwise_withCookies` — cookies by name are in the order of their names.
-/

namespace WebCrawl.Crawl

/-! ## Cookies by name -/

namespace Request

variable {κ : Type}

lemma comesBefore_trans : ∀ {s t u : Text}, comesBefore s t = true → comesBefore t u = true →
    comesBefore s u = true := by
  intro s
  induction s with
  | nil =>
    intro t u hst htu
    cases t with
    | nil => cases hst
    | cons b t =>
      cases u with
      | nil => cases htu
      | cons c u => rfl
  | cons a s ih =>
    intro t u hst htu
    cases t with
    | nil => cases hst
    | cons b t =>
      cases u with
      | nil => cases htu
      | cons c u =>
        simp only [comesBefore] at hst htu ⊢
        by_cases hab : a = b
        · subst hab
          by_cases hac : a = c
          · simp only [hac, if_true] at hst htu ⊢
            exact ih hst htu
          · simpa [hac] using htu
        · by_cases hbc : b = c
          · subst hbc
            simpa [hab] using hst
          · simp only [hab, hbc, if_false, decide_eq_true_eq] at hst htu
            have hne : a ≠ c := by
              rintro rfl
              omega
            simp only [hne, if_false, decide_eq_true_eq]
            omega

/-- A cookie is put where its name belongs. -/
lemma pairwise_withCookie {r : Request κ}
    (h : r.cookies.Pairwise fun p q => comesBefore p.1 q.1 = true) (name value : Text) :
    (r.withCookie name value).cookies.Pairwise fun p q => comesBefore p.1 q.1 = true := by
  simp only [withCookie, assignSorted, List.pairwise_append, List.pairwise_cons, List.mem_cons,
    List.mem_filter]
  refine ⟨h.filter _, ⟨fun q hq => hq.2, h.filter _⟩, ?_⟩
  rintro p ⟨-, hp⟩ q (rfl | ⟨-, hq⟩)
  · exact hp
  · exact comesBefore_trans hp hq

/-- Cookies by name are in the order of their names. -/
theorem pairwise_withCookies {r : Request κ}
    (h : r.cookies.Pairwise fun p q => comesBefore p.1 q.1 = true) (cookies : List (Text × Text)) :
    (r.withCookies cookies).cookies.Pairwise fun p q => comesBefore p.1 q.1 = true := by
  unfold withCookies
  induction cookies generalizing r with
  | nil => exact h
  | cons cookie cookies ih => exact ih (pairwise_withCookie h cookie.1 cookie.2)

end Request

namespace Wire

open Http Text

/-! ## Fields from headers -/

/-- Two computations after one another succeed if both do. -/
lemma exists_of_bind_eq_ok {ε α β : Type} {x : Except ε α} {f : α → Except ε β} {b : β}
    (h : (x >>= f) = .ok b) : ∃ a, x = .ok a ∧ f a = .ok b := by
  cases x with
  | error e => cases h
  | ok a => exact ⟨a, rfl, h⟩

/-- A text that can be sent is sent as its bytes. -/
lemma value_eq_ok {what s : Text} {bytes : List UInt8} (h : value what s = .ok bytes) :
    bytes = encode s ∧ bytes.all isValueByte = true := by
  unfold value textValue? fieldValue? at h
  split at h
  · rename_i hsome
    obtain ⟨hall, hbytes⟩ := Option.ite_none_right_eq_some.1 hsome
    obtain rfl := Option.some.inj hbytes
    cases h
    exact ⟨rfl, hall⟩
  · cases h

/-- A header becomes one more value of its name in small letters. -/
lemma addHeader_eq_ok {fields fields' : Fields} {header : Text × Text}
    (h : addHeader fields header = .ok fields') :
    fields' = fields.append header.1.lower (encode header.2) ∧
      (encode header.2).all isValueByte = true := by
  unfold addHeader fieldName? at h
  split at h
  · cases h
  · rename_i name hname
    obtain ⟨-, hlower⟩ := Option.ite_none_right_eq_some.1 hname
    obtain rfl := Option.some.inj hlower
    obtain ⟨bytes, hbytes, h⟩ := exists_of_bind_eq_ok h
    obtain ⟨rfl, hall⟩ := value_eq_ok hbytes
    cases h
    exact ⟨rfl, hall⟩

/-- The values of a name that stand in some entries. -/
def valuesIn (entries : List (Text × Text)) (name : Text) : List Text :=
  (entries.filter (Headers.named name)).map (·.2)

/-- Headers become values of their names, which can all be sent, and each name has one place. -/
lemma foldlM_addHeader {entries : List (Text × Text)} {fields fields' : Fields}
    (h : entries.foldlM addHeader fields = .ok fields') (hd : fields.Distinct) (name : Text) :
    fields'.Distinct ∧
      fields'.getAll name.lower = fields.getAll name.lower ++ (valuesIn entries name).map encode ∧
      ∀ v ∈ valuesIn entries name, (encode v).all isValueByte = true := by
  induction entries generalizing fields with
  | nil =>
    cases h
    exact ⟨hd, by simp [valuesIn], by simp [valuesIn]⟩
  | cons e entries ih =>
    rw [List.foldlM_cons] at h
    obtain ⟨middle, hmiddle, h⟩ := exists_of_bind_eq_ok h
    obtain ⟨rfl, hall⟩ := addHeader_eq_ok hmiddle
    obtain ⟨hdistinct, hvalues, hsendable⟩ := ih h (hd.append _)
    refine ⟨hdistinct, ?_⟩
    rw [hvalues, Fields.getAll_append]
    by_cases hname : e.1.lower = name.lower
    · have hin : valuesIn (e :: entries) name = e.2 :: valuesIn entries name := by
        simp [valuesIn, Headers.named, sameLetters, hname]
      rw [hin, if_pos hname.symm, hname]
      exact ⟨by simp, List.forall_mem_cons.2 ⟨hall, hsendable⟩⟩
    · have hout : valuesIn (e :: entries) name = valuesIn entries name := by
        simp [valuesIn, Headers.named, sameLetters, hname]
      rw [hout, if_neg (Ne.symm hname)]
      exact ⟨rfl, hsendable⟩

/-! ## Texts in ASCII -/

/-- A text that can be sent is read back if it is in ASCII. -/
lemma plainText?_encode {s : Text} (h : (encode s).all isValueByte = true) :
    plainText? (encode s) = if isAscii s then some s else none := by
  cases hs : isAscii s with
  | true =>
    have hlow : ∀ c ∈ s, (UInt8.ofNat c.toNat).toNat = c.toNat ∧ c.toNat < 128 := by
      intro c hc
      have hc : c.toNat < 128 := by simpa using List.all_eq_true.1 hs c hc
      exact ⟨by simp only [UInt8.toNat_ofNat']; omega, hc⟩
    rw [encode_of_isAscii hs] at h ⊢
    have hplain : (s.map fun c => UInt8.ofNat c.toNat).all isPlainByte = true := by
      simp only [List.all_map, List.all_eq_true, Function.comp_apply] at h ⊢
      intro c hc
      have hvalue := h c hc
      obtain ⟨hbyte, hc⟩ := hlow c hc
      simp only [isValueByte, isPlainByte, Bool.or_eq_true, Bool.and_eq_true, decide_eq_true_eq,
        beq_iff_eq, bne_iff_ne, ne_eq, ← UInt8.toNat_inj, UInt8.le_iff_toNat_le,
        UInt8.lt_iff_toNat_lt, hbyte, UInt8.reduceToNat] at hvalue ⊢
      omega
    rw [plainText?, if_pos hplain, List.map_map, if_pos rfl]
    refine congrArg some ((List.map_congr_left fun c hc => ?_).trans (List.map_id s))
    simp only [Function.comp_apply, (hlow c hc).1, Char.ofNat_toNat, id_eq]
  | false =>
    obtain ⟨c, hc, hbig⟩ := List.all_eq_false.1 hs
    have hbig : 128 ≤ c.toNat := by simpa using hbig
    obtain ⟨b, hb⟩ := List.exists_mem_of_ne_nil _ (String.utf8EncodeChar_ne_nil (c := c))
    have hnot : (encode s).all isPlainByte = false := by
      refine List.all_eq_false.2 ⟨b, List.mem_flatMap.2 ⟨c, hc, hb⟩, ?_⟩
      have hbyte := le_of_mem_utf8EncodeChar hbig b hb
      simp only [isPlainByte, Bool.or_eq_true, Bool.and_eq_true, decide_eq_true_eq, beq_iff_eq,
        ← UInt8.toNat_inj, UInt8.le_iff_toNat_le, UInt8.lt_iff_toNat_lt, UInt8.reduceToNat]
      omega
    rw [plainText?, hnot]
    rfl

/-! ## Cookies, host and user agent -/

/-- A cookie by name. -/
def cookiePiece (cookie : Text × Text) : Text := cookie.1 ++ '=' :: cookie.2

/-- All cookies that the caller gave: the values of the header in their order, and then the cookies
by name in the order of the names. -/
def givenCookies {κ : Type} (r : Request κ) : List Text :=
  r.headers.getAll "Cookie" ++ r.cookies.map cookiePiece

/-- The value of the header that is sent in one line with cookies by name, if there is one. -/
def firstCookie (values : List Text) : List Text := (values.head?.filter isAscii).toList

lemma firstCookie_cons (v : Text) (values : List Text) :
    firstCookie (v :: values) = if isAscii v then [v] else [] := by
  cases hv : isAscii v <;> simp [firstCookie, Option.filter, hv]

/-- The cookies that are sent in one line, if there are some by name. -/
def sentCookies {κ : Type} (r : Request κ) : List Text :=
  firstCookie (r.headers.getAll "Cookie") ++ r.cookies.map cookiePiece

/-- No cookie is lost: without cookies by name the values of the header are sent as they are, and
with some, all that were given are sent in one line. -/
def KeepsCookies {κ : Type} (r : Request κ) (w : Wire) : Prop :=
  w.fields.sent "cookie" =
    if r.cookies = [] then (r.headers.getAll "Cookie").map encode
    else [encode (join "; " (givenCookies r))]

section Fields

variable {fields fields' : Fields}

/-- With cookies by name, one line is sent in place of all values of the header. -/
lemma addCookies_eq_ok {cookies : List (Text × Text)} {values : List Text}
    (h : addCookies fields cookies = .ok fields') (hd : fields.Distinct)
    (hvalues : fields.getAll "cookie" = values.map encode)
    (hsendable : ∀ v ∈ values, (encode v).all isValueByte = true) :
    fields'.Distinct ∧ fields'.getAll "cookie" =
      if cookies = [] then values.map encode
      else [encode (join "; " (firstCookie values ++ cookies.map cookiePiece))] := by
  unfold addCookies at h
  cases cookies with
  | nil =>
    cases h
    exact ⟨hd, hvalues⟩
  | cons cookie cookies =>
    obtain ⟨bytes, hbytes, h⟩ := exists_of_bind_eq_ok h
    obtain ⟨rfl, -⟩ := value_eq_ok hbytes
    cases h
    refine ⟨hd.insert _, ?_⟩
    rw [Fields.getAll_insert, if_pos rfl, if_neg (List.cons_ne_nil _ _)]
    refine congrArg (fun s => [encode s]) ?_
    rw [Fields.get?, hvalues]
    cases values with
    | nil => rfl
    | cons v values =>
      have hplain := plainText?_encode (hsendable v (List.mem_cons_self ..))
      rw [List.map_cons, List.head?_cons, Option.bind_some, hplain, firstCookie_cons]
      cases isAscii v with
      | true => exact List.intercalate_cons_cons.symm
      | false => rfl

/-- To name a host changes the values of no other name. -/
lemma addHost_eq_ok {host : Option Text} (h : addHost fields host = .ok fields')
    (hd : fields.Distinct) :
    fields'.Distinct ∧ fields'.getAll "cookie" = fields.getAll "cookie" := by
  cases host with
  | none =>
    cases h
    exact ⟨hd, rfl⟩
  | some host =>
    obtain ⟨bytes, -, h⟩ := exists_of_bind_eq_ok h
    cases h
    exact ⟨hd.insert _, by rw [Fields.getAll_insert, if_neg (by decide)]⟩

/-- To name a user agent changes the values of no other name. -/
lemma addAgent_eq_ok {agent : Option Text} (h : addAgent fields agent = .ok fields')
    (hd : fields.Distinct) :
    fields'.Distinct ∧ fields'.getAll "cookie" = fields.getAll "cookie" := by
  cases agent with
  | none =>
    cases h
    exact ⟨hd, rfl⟩
  | some agent =>
    simp only [addAgent] at h
    split at h
    · cases h
      exact ⟨hd, rfl⟩
    · obtain ⟨bytes, -, h⟩ := exists_of_bind_eq_ok h
      cases h
      exact ⟨hd.insert _, by rw [Fields.getAll_insert, if_neg (by decide)]⟩

end Fields

variable {κ : Type} {r : Request κ} {s : Settings} {w : Wire}

/-- The cookies of the fields of a request. -/
lemma fieldsOf_eq_ok {fields : Fields} (h : fieldsOf r s = .ok fields) :
    fields.Distinct ∧ fields.getAll "cookie" =
      if r.cookies = [] then (r.headers.getAll "Cookie").map encode
      else [encode (join "; " (sentCookies r))] := by
  obtain ⟨own, hown, h⟩ := exists_of_bind_eq_ok h
  obtain ⟨withCookies, hcookies, h⟩ := exists_of_bind_eq_ok h
  obtain ⟨withHost, hhost, hagent⟩ := exists_of_bind_eq_ok h
  obtain ⟨hd, hvalues, hsendable⟩ := foldlM_addHeader hown Fields.distinct_empty "Cookie"
  obtain ⟨hd, hsent⟩ := addCookies_eq_ok hcookies hd hvalues hsendable
  obtain ⟨hd, hsame⟩ := addHost_eq_ok hhost hd
  obtain ⟨hd, hsame'⟩ := addAgent_eq_ok hagent hd
  exact ⟨hd, hsame'.trans (hsame.trans hsent)⟩

/-- The fields of a request that can be sent. -/
lemma ofRequest_eq_ok (h : ofRequest r s = .ok w) : fieldsOf r s = .ok w.fields := by
  unfold ofRequest at h
  cases ha : assemble r s with
  | error reason => rw [ha] at h; cases h
  | ok w' =>
    obtain rfl : w' = w := by
      rw [ha] at h
      exact Except.ok.inj h
    unfold assemble at ha
    dsimp only at ha
    split at ha
    case isFalse => cases ha
    obtain ⟨method, -, ha⟩ := exists_of_bind_eq_ok ha
    obtain ⟨url, -, ha⟩ := exists_of_bind_eq_ok ha
    obtain ⟨fields, hfields, ha⟩ := exists_of_bind_eq_ok ha
    obtain ⟨proxy, -, ha⟩ := exists_of_bind_eq_ok ha
    cases ha
    exact hfields

/-! ## Which cookies are lost -/

/-- The sizes of pieces add up to that of the line. -/
lemma length_join {pieces : List Text} (h : pieces ≠ []) :
    (join "; " pieces).length + 2 = (pieces.map fun p => p.length + 2).sum := by
  obtain ⟨p, pieces, rfl⟩ := List.exists_cons_of_ne_nil h
  induction pieces generalizing p with
  | nil => simp [join, List.intercalate]
  | cons q pieces ih =>
    have hrest := ih q (List.cons_ne_nil _ _)
    rw [join, List.intercalate_cons_cons, ← join, List.map_cons, List.sum_cons, ← hrest]
    simp only [List.length_append, String.length_toList]
    have : "; ".length = 2 := rfl
    omega

/-- The value that is sent in one line is the only one if it is all that were given. -/
lemma firstCookie_eq_iff {values : List Text} :
    firstCookie values = values ↔ values.length ≤ 1 ∧ ∀ v ∈ values, isAscii v = true := by
  rcases values with _ | ⟨v, _ | ⟨v', values⟩⟩
  · simp [firstCookie]
  · cases hv : isAscii v <;> simp [firstCookie_cons, hv]
  · cases hv : isAscii v <;> simp [firstCookie_cons, hv]

/-- What is sent of the values is shorter than all of them, unless it is all of them. -/
lemma firstCookie_eq_of_sum_eq {values : List Text}
    (h : ((firstCookie values).map fun p => p.length + 2).sum =
      (values.map fun p => p.length + 2).sum) : firstCookie values = values := by
  rcases values with _ | ⟨v, values⟩
  · rfl
  · rw [firstCookie_cons] at h ⊢
    cases hv : isAscii v with
    | true =>
      rw [hv, if_pos rfl] at h
      rcases values with _ | ⟨v', values⟩
      · rfl
      · simp only [List.map_cons, List.map_nil, List.sum_cons, List.sum_nil] at h
        omega
    | false =>
      rw [hv, if_neg (by decide)] at h
      simp only [List.map_cons, List.map_nil, List.sum_cons, List.sum_nil] at h
      omega

/-- The line holds all cookies that were given if the first value of the header is the only one and
is in ASCII. -/
lemma sentCookies_join_iff (hne : r.cookies ≠ []) :
    encode (join "; " (sentCookies r)) = encode (join "; " (givenCookies r)) ↔
      (r.headers.getAll "Cookie").length ≤ 1 ∧
        ∀ v ∈ r.headers.getAll "Cookie", isAscii v = true := by
  rw [← firstCookie_eq_iff]
  constructor
  · intro h
    have hjoin : join "; " (sentCookies r) = join "; " (givenCookies r) := by
      rw [← decodeLossy_encode (join "; " (sentCookies r)), h, decodeLossy_encode]
    have hsent : sentCookies r ≠ [] := by simp [sentCookies, hne]
    have hgiven : givenCookies r ≠ [] := by simp [givenCookies, hne]
    have hsum := (length_join hsent).symm.trans
      ((congrArg (fun s => s.length + 2) hjoin).trans (length_join hgiven))
    simp only [sentCookies, givenCookies, List.map_append, List.sum_append] at hsum
    exact firstCookie_eq_of_sum_eq (Nat.add_right_cancel hsum)
  · intro h
    rw [sentCookies, givenCookies, h]

/-- The cookies of a request that is sent:

* without cookies by name, the values of the header are sent as they are; with some, one line is
  sent, which holds the first value of the header, if that is in ASCII, and the cookies by name;
* so no cookie is lost exactly if there are none by name, or if the header has no more than one
  value and that is in ASCII. -/
theorem sent_cookie_iff (h : ofRequest r s = .ok w) :
    w.fields.sent "cookie" =
        (if r.cookies = [] then (r.headers.getAll "Cookie").map encode
        else [encode (join "; " (sentCookies r))]) ∧
      (KeepsCookies r w ↔ r.cookies = [] ∨
        (r.headers.getAll "Cookie").length ≤ 1 ∧
          ∀ v ∈ r.headers.getAll "Cookie", isAscii v = true) := by
  obtain ⟨hd, hsent⟩ := fieldsOf_eq_ok (ofRequest_eq_ok h)
  have hlines := (Fields.sent_eq_getAll hd "cookie").trans hsent
  refine ⟨hlines, ?_⟩
  unfold KeepsCookies
  rw [hlines]
  by_cases hnone : r.cookies = []
  · simp [hnone]
  · rw [if_neg hnone, if_neg hnone]
    simp only [List.cons.injEq, and_true, hnone, false_or]
    exact sentCookies_join_iff hnone

/-- A value of the header and two cookies by name, which come in one line. -/
theorem cookies_of_session :
    ∃ (r : Request Unit) (s : Settings) (w : Wire), ofRequest r s = .ok w ∧ r.cookies ≠ [] ∧
      w.fields.sent "cookie" = [encode "session=1; a=1; b=2"] ∧ KeepsCookies r w := by
  let r : Request Unit := ((Request.get "http://a/").withHeader "Cookie" "session=1").withCookies
    [("b".toList, "2".toList), ("a".toList, "1".toList)]
  have hsent : ∃ w, ofRequest r {} = .ok w ∧
      encode (join "; " (sentCookies r)) = encode "session=1; a=1; b=2" := by
    with_unfolding_all exact ⟨_, rfl, by decide +kernel⟩
  obtain ⟨w, hw, hline⟩ := hsent
  have hne : r.cookies ≠ [] := by decide +kernel
  obtain ⟨hlines, hkeeps⟩ := sent_cookie_iff hw
  refine ⟨r, {}, w, hw, hne, ?_, hkeeps.2 (.inr ⟨by decide +kernel, by decide +kernel⟩)⟩
  rw [hlines, if_neg hne, hline]

/-- Of two values of the header the second one is lost if there is a cookie by name. -/
theorem second_cookie_lost :
    ∃ (r : Request Unit) (s : Settings) (w : Wire), ofRequest r s = .ok w ∧ ¬KeepsCookies r w := by
  let r : Request Unit :=
    { ((Request.get "http://a/").withHeader "Cookie" "a=1").withCookie "c" "3" with
      headers := (Headers.empty.append "Cookie" "a=1").append "cookie" "b=2" }
  have hsent : ∃ w, ofRequest r {} = .ok w ∧ w.fields.sent "cookie" = [encode "a=1; c=3"] := by
    with_unfolding_all exact ⟨_, rfl, by decide +kernel⟩
  obtain ⟨w, hw, hlines⟩ := hsent
  refine ⟨r, {}, w, hw, ?_⟩
  unfold KeepsCookies
  rw [hlines]
  decide +kernel

end Wire

end WebCrawl.Crawl
