import Mathlib.Data.List.Dedup
import Mathlib.Data.List.Induction
import WebCrawl.Proofs.Query.Calls

set_option autoImplicit false

/-!
# Which queries are kept

A cache keeps the queries of the sources that were asked for last, as many as it has room for. So
whether a call is answered with the query that an earlier one was answered with is a matter of how
many other sources were asked for in between.

## Main definitions

* `WebCrawl.Query.Cache.compiles` — whether a source can be compiled.
* `WebCrawl.Query.Cache.recency` — the sources of a sequence of calls that can be compiled, the one
  asked for last first.

## Main results

* `WebCrawl.Query.Cache.keys_after` — the cache keeps the first of these, as many as it has room for.
* `WebCrawl.Query.Cache.keeps_most_recent` — what is kept, which calls share a query, and that a call
  that fails changes nothing.
-/

namespace WebCrawl.Query.Cache

/-- Whether a source can be compiled. -/
def compiles (source : Source) : Bool := (compile source).isOk

/-- The sources of some calls that can be compiled, the one asked for last first. Of equal ones the
last is taken. -/
def recency (calls : List Source) : List Source := (calls.filter compiles).dedup.reverse

/-- The sources of the queries that are kept, the one asked for last first. -/
def keys (c : Cache) : List Source := c.entries.map (·.1)

lemma compiles_of_ok {source : Source} {query : Compiled} (h : compile source = .ok query) :
    compiles source = true := by rw [compiles, h]; rfl

lemma compiles_of_error {source : Source} {e : Error} (h : compile source = .error e) :
    compiles source = false := by rw [compiles, h]; rfl

/-! ## The order of the calls -/

/-- Without repetitions, an entry that is added at the end moves there. -/
lemma dedup_concat {α : Type} [DecidableEq α] (l : List α) (a : α) :
    (l ++ [a]).dedup = l.dedup.filter (· != a) ++ [a] := by
  induction l with
  | nil => rfl
  | cons b l ih =>
    by_cases hb : b ∈ l
    · rw [List.cons_append, List.dedup_cons_of_mem (List.mem_append_left _ hb), ih,
        List.dedup_cons_of_mem hb]
    · rw [List.dedup_cons_of_notMem hb]
      by_cases hba : b = a
      · subst hba
        rw [List.cons_append, List.dedup_cons_of_mem (List.mem_append_right _ (by simp)), ih,
          List.filter_cons_of_neg (by simp)]
      · rw [List.cons_append, List.dedup_cons_of_notMem (by simp [hb, hba]), ih,
          List.filter_cons_of_pos (by simpa using hba), List.cons_append]

/-- A source that can be compiled comes first after it was asked for. -/
lemma recency_concat {source : Source} (h : compiles source = true) (calls : List Source) :
    recency (calls ++ [source]) = source :: (recency calls).filter (· != source) := by
  rw [recency, List.filter_append, List.filter_cons_of_pos h, List.filter_nil, dedup_concat,
    List.reverse_concat, recency, List.filter_reverse]

/-- A source that cannot be compiled changes nothing. -/
lemma recency_concat_of_not {source : Source} (h : compiles source = false) (calls : List Source) :
    recency (calls ++ [source]) = recency calls := by
  rw [recency, List.filter_append, List.filter_cons_of_neg (by simp [h]), List.filter_nil,
    List.append_nil, recency]

lemma nodup_recency (calls : List Source) : (recency calls).Nodup :=
  List.nodup_reverse.2 (List.nodup_dedup _)

lemma mem_recency_iff {calls : List Source} {source : Source} :
    source ∈ recency calls ↔ source ∈ calls ∧ compiles source = true := by
  rw [recency, List.mem_reverse, List.mem_dedup, List.mem_filter]

/-- Before a source stand those that were asked for after it. -/
lemma recency_append {source : Source} (h : compiles source = true) {between : List Source}
    (hs : source ∉ between) (before : List Source) :
    ∃ earlier, recency (before ++ source :: between) = recency between ++ source :: earlier := by
  have hs' : source ∉ between.filter compiles := fun hmem => hs (List.mem_filter.1 hmem).1
  obtain ⟨zs, hzs⟩ := List.suffix_union_right (before.filter compiles)
    (source :: (between.filter compiles).dedup)
  refine ⟨zs.reverse, ?_⟩
  rw [recency, List.filter_append, List.filter_cons_of_pos h, List.dedup_append,
    List.dedup_cons_of_notMem hs', ← hzs, List.reverse_append, List.reverse_cons, recency,
    List.append_assoc, List.singleton_append]

/-! ## What is kept -/

/-- Room for so many entries is enough to see where an entry moves to the front of so many. -/
lemma take_filter_take {α : Type} [DecidableEq α] {l : List α} (h : l.Nodup) (a : α) (k : Nat) :
    ((l.take (k + 1)).filter (· != a)).take k = (l.filter (· != a)).take k := by
  induction l generalizing k with
  | nil => rfl
  | cons b l ih =>
    obtain ⟨hb, hl⟩ := List.nodup_cons.1 h
    rw [List.take_succ_cons]
    by_cases hba : b = a
    · subst hba
      have hfilter : ∀ {l' : List α}, l' ⊆ l → l'.filter (· != b) = l' := by
        intro l' hsub
        exact List.filter_eq_self.2 fun x hx => by simpa using ne_of_mem_of_not_mem (hsub hx) hb
      rw [List.filter_cons_of_neg (by simp), List.filter_cons_of_neg (by simp),
        hfilter (List.take_subset ..), hfilter (List.Subset.refl _), List.take_take, Nat.min_self]
    · have hkept : (b != a) = true := by simpa using hba
      rw [List.filter_cons_of_pos (p := (· != a)) hkept, List.filter_cons_of_pos (p := (· != a)) hkept]
      cases k with
      | zero => rfl
      | succ k => rw [List.take_succ_cons, List.take_succ_cons, ih hl k]

/-- Moving an entry to the front and giving up what there is no room for, from the entries for which
there was room, is the same as from all entries. -/
lemma take_cons_filter_take {α : Type} [DecidableEq α] {l : List α} (h : l.Nodup) (a : α) (k : Nat) :
    (a :: (l.take k).filter (· != a)).take k = (a :: l.filter (· != a)).take k := by
  cases k with
  | zero => rfl
  | succ k => rw [List.take_succ_cons, List.take_succ_cons, take_filter_take h]

variable {c : Cache} {source : Source}

/-- Nothing is found for a source if and only if it is not among the keys. -/
lemma lookup_eq_none_iff : c.entries.lookup source = none ↔ source ∉ c.keys := by
  simp only [List.lookup_eq_none_iff, keys, List.mem_map, not_exists, not_and, bne_iff_ne]
  exact forall₂_congr fun _ _ => ne_comm

/-- A call leaves the capacity as it is. -/
lemma capacity_request (c : Cache) (source : Source) :
    (c.request source).2.capacity = c.capacity := by
  unfold request
  split
  · rfl
  · split <;> rfl

/-- A call that succeeds moves its source to the front, and what there is no room for is given up. -/
lemma keys_request (hroom : c.size ≤ c.capacity) {query : Compiled}
    (hquery : compile source = .ok query) :
    (c.request source).2.keys = (source :: c.keys.filter (· != source)).take c.capacity := by
  have hothers : (others source c.entries).map (·.1) = c.keys.filter (· != source) := by
    rw [keys, List.filter_map]
    rfl
  unfold request
  cases hfound : c.entries.lookup source with
  | some found =>
    have hmem : source ∈ c.keys := List.mem_map.2 ⟨_, mem_of_lookup hfound, rfl⟩
    have hlt : (c.keys.filter (· != source)).length < c.keys.length :=
      List.length_filter_lt_length_iff_exists.2 ⟨source, hmem, by simp⟩
    have hlength : c.keys.length = c.size := List.length_map ..
    change source :: (others source c.entries).map (·.1) = _
    rw [hothers, List.take_of_length_le]
    simp only [List.length_cons]
    omega
  | none =>
    have hself : c.keys.filter (· != source) = c.keys := by
      refine List.filter_eq_self.2 fun x hx => ?_
      simpa using ne_of_mem_of_not_mem hx (lookup_eq_none_iff.1 hfound)
    rw [hquery, hself]
    exact List.map_take

/-- A call that fails changes nothing. -/
lemma Faithful.request_of_error (h : c.Faithful) {e : Error} (he : compile source = .error e) :
    c.request source = (.error e, c) := by
  unfold Cache.request
  cases hfound : c.entries.lookup source with
  | some found => simp [h source found (mem_of_lookup hfound)] at he
  | none => rw [he]

/-- The cache keeps the sources asked for last, as many as it has room for.

**Proof sketch.** Induction on the calls, from the last. A call moves its source to the front of what
is kept as it does in the order of all calls. -/
theorem keys_after (capacity : Nat) (calls : List Source) :
    ((empty capacity).after calls).keys = (recency calls).take capacity ∧
      ((empty capacity).after calls).capacity = capacity := by
  induction calls using List.reverseRecOn with
  | nil => exact ⟨List.take_nil.symm, rfl⟩
  | append_singleton calls source ih =>
    obtain ⟨hkeys, hcapacity⟩ := ih
    rw [after_concat]
    refine ⟨?_, (capacity_request _ source).trans hcapacity⟩
    cases hcompile : compile source with
    | error e =>
      rw [(faithful_after capacity calls).request_of_error hcompile,
        recency_concat_of_not (compiles_of_error hcompile), hkeys]
    | ok query =>
      have hroom : ((empty capacity).after calls).size ≤ ((empty capacity).after calls).capacity := by
        rw [size, ← List.length_map (f := (·.1)), hcapacity]
        change ((empty capacity).after calls).keys.length ≤ capacity
        rw [hkeys]
        exact List.length_take_le ..
      rw [keys_request hroom hcompile, hkeys, hcapacity, take_cons_filter_take (nodup_recency calls),
        recency_concat (compiles_of_ok hcompile)]

/-! ## Which calls share a query -/

/-- What is kept for a source that was not asked for was kept before. -/
lemma mem_of_mem_request {other : Source} {issued : Issued}
    (h : (other, issued) ∈ (c.request source).2.entries) (hne : other ≠ source) :
    (other, issued) ∈ c.entries := by
  unfold request at h
  split at h
  · rcases List.mem_cons.1 h with heq | h
    · exact absurd (Prod.mk.inj heq).1 hne
    · exact (List.mem_filter.1 h).1
  · split at h
    · exact h
    · rcases List.mem_cons.1 (List.mem_of_mem_take h) with heq | h
      · exact absurd (Prod.mk.inj heq).1 hne
      · exact h

/-- What is kept for a source that none of some calls asked for was kept before these. -/
lemma mem_of_mem_after {issued : Issued} {calls : List Source}
    (h : (source, issued) ∈ (c.after calls).entries) (hs : source ∉ calls) :
    (source, issued) ∈ c.entries := by
  induction calls generalizing c with
  | nil => exact h
  | cons other calls ih =>
    have hne : source ≠ other := fun heq => hs (heq ▸ List.mem_cons_self ..)
    exact mem_of_mem_request (ih h fun hmem => hs (List.mem_cons_of_mem _ hmem)) hne

/-- After a call, what is kept for its source is what the call was answered with. -/
lemma eq_of_mem_request {issued first : Issued}
    (h : (source, issued) ∈ (c.request source).2.entries)
    (hfirst : (c.request source).1 = .ok first) : issued = first := by
  unfold request at h hfirst
  cases hfound : c.entries.lookup source with
  | some found =>
    rw [hfound] at h hfirst
    rcases List.mem_cons.1 h with heq | h
    · exact (Prod.mk.inj heq).2.trans (Except.ok.inj hfirst)
    · simp [others] at h
  | none =>
    have hnone := lookup_eq_none_iff.1 hfound
    rw [hfound] at h hfirst
    cases hcompile : compile source with
    | error e => simp [hcompile] at hfirst
    | ok query =>
      rw [hcompile] at h hfirst
      rcases List.mem_cons.1 (List.mem_of_mem_take h) with heq | h
      · exact (Prod.mk.inj heq).2.trans (Except.ok.inj hfirst)
      · exact absurd (List.mem_map_of_mem h) hnone

/-- The register goes on while calls are made. -/
lemma Registered.after {register : List Source} (h : Registered c register) (calls : List Source) :
    ∃ register', register <+: register' ∧ Registered (c.after calls) register' := by
  induction calls generalizing c register with
  | nil => exact ⟨register, List.prefix_refl _, h⟩
  | cons source calls ih =>
    obtain ⟨register₁, hprefix₁, h₁, -⟩ := h.request source
    obtain ⟨register₂, hprefix₂, h₂⟩ := ih h₁
    exact ⟨register₂, hprefix₁.trans hprefix₂, h₂⟩

/-- A query that was handed out before some calls is older than every compilation after them. -/
lemma Registered.serial_lt {register : List Source} (h : Registered c register) {first : Issued}
    (hfirst : (c.request source).1 = .ok first) (calls : List Source) :
    first.serial < ((c.request source).2.after calls).compilations := by
  obtain ⟨register₁, -, h₁, hanswer⟩ := h.request source
  obtain ⟨register₂, hprefix, h₂⟩ := h₁.after calls
  have hentry := getElem?_of_prefix hprefix (hanswer first hfirst)
  exact h₂.length ▸ (List.getElem?_eq_some_iff.1 hentry).1

/-- A call for which nothing is kept is answered with a new compilation. -/
lemma serial_of_lookup_none (hfound : c.entries.lookup source = none) {issued : Issued}
    (h : (c.request source).1 = .ok issued) : issued.serial = c.compilations := by
  unfold request at h
  rw [hfound] at h
  cases hcompile : compile source with
  | error e => simp [hcompile] at h
  | ok query =>
    rw [hcompile] at h
    exact congrArg Issued.serial (Except.ok.inj h).symm

/-- A call for which something is kept is answered with that. -/
lemma eq_of_lookup_some {found issued : Issued} (hfound : c.entries.lookup source = some found)
    (h : (c.request source).1 = .ok issued) : issued = found := by
  unfold request at h
  rw [hfound] at h
  exact (Except.ok.inj h).symm

/-- A source that can be compiled is kept after calls for others if and only if these were fewer than
there is room for. -/
lemma mem_keys_iff (capacity : Nat) (before between : List Source) (hok : compiles source = true)
    (hs : source ∉ between) :
    source ∈ ((empty capacity).after (before ++ source :: between)).keys ↔
      (recency between).length < capacity := by
  obtain ⟨earlier, hrecency⟩ := recency_append hok hs before
  have hnot : source ∉ recency between := fun hmem => hs (mem_recency_iff.1 hmem).1
  rw [(keys_after capacity _).1, hrecency]
  constructor
  · intro hmem
    by_contra hle
    rw [List.take_append_of_le_length (by omega)] at hmem
    exact hnot (List.mem_of_mem_take hmem)
  · intro hlt
    obtain ⟨k, rfl⟩ : ∃ k, capacity = (recency between).length + (k + 1) :=
      ⟨capacity - (recency between).length - 1, by omega⟩
    rw [List.take_length_add_append, List.take_succ_cons]
    exact List.mem_append_right _ (List.mem_cons_self ..)

/-- Two calls for one source, with none for it in between, are answered with the same compilation if
and only if fewer other sources were asked for in between than there is room for. -/
lemma serial_eq_iff (capacity : Nat) {before between : List Source} (hs : source ∉ between)
    {first second : Issued}
    (hfirst : (((empty capacity).after before).request source).1 = .ok first)
    (hsecond : (((empty capacity).after (before ++ source :: between)).request source).1 =
      .ok second) :
    (second.serial = first.serial ↔ (recency between).length < capacity) ∧
      (second.serial = first.serial → second = first) := by
  have hquery : compile source = .ok first.query := by
    rw [← (faithful_after capacity before).request_eq source, hfirst]
    rfl
  have hkeys := mem_keys_iff capacity before between (compiles_of_ok hquery) hs
  rw [after_append, after_cons] at hkeys hsecond
  obtain ⟨register, -, hregister⟩ := (registered_empty capacity).after before
  have hlt := hregister.serial_lt hfirst between
  cases hfound : (((((empty capacity).after before).request source).2.after between).entries.lookup
    source) with
  | some found =>
    have hmem := mem_of_lookup hfound
    have hsame : second = first := by
      rw [eq_of_lookup_some hfound hsecond]
      exact eq_of_mem_request (mem_of_mem_after hmem hs) hfirst
    have hkept := hkeys.1 (List.mem_map_of_mem hmem)
    exact ⟨⟨fun _ => hkept, fun _ => congrArg Issued.serial hsame⟩, fun _ => hsame⟩
  | none =>
    have hne : second.serial ≠ first.serial := by
      rw [serial_of_lookup_none hfound hsecond]
      exact Nat.ne_of_gt hlt
    have hgone := mt hkeys.2 (lookup_eq_none_iff.1 hfound)
    exact ⟨⟨fun heq => absurd heq hne, fun hkept => absurd hkept hgone⟩, fun heq => absurd heq hne⟩

/-- After any calls a cache keeps the sources asked for last among those that can be compiled, as
many as it has room for, in that order. A call for a source is answered with the very query that the
last call for it was answered with if and only if fewer other sources that can be compiled were asked
for in between than there is room for. A call that fails changes nothing.

**Proof sketch.** What is kept is the beginning of the order of all calls (`keys_after`). The sources
asked for after a source stand before it in that order, so it is kept as long as there is room for
them and for itself. A query that is kept for it is still that of its last call, and one that is
compiled anew has a number that no earlier one has. -/
theorem keeps_most_recent (capacity : Nat) :
    (∀ calls : List Source,
      ((empty capacity).after calls).entries.map (·.1) = (recency calls).take capacity ∧
      ((empty capacity).after calls).size = min capacity (recency calls).length) ∧
    (∀ (before between : List Source) (source : Source) (first second : Issued),
      source ∉ between →
      (((empty capacity).after before).request source).1 = .ok first →
      (((empty capacity).after (before ++ source :: between)).request source).1 = .ok second →
      (second.serial = first.serial ↔ (recency between).length < capacity) ∧
        (second.serial = first.serial → second = first)) ∧
    ∀ (calls : List Source) (source : Source) (e : Error), compile source = .error e →
      ((empty capacity).after calls).request source = (.error e, (empty capacity).after calls) := by
  refine ⟨fun calls => ?_, fun before between source first second hs hfirst hsecond => ?_,
    fun calls source e he => (faithful_after capacity calls).request_of_error he⟩
  · have hkeys := (keys_after capacity calls).1
    refine ⟨hkeys, ?_⟩
    calc ((empty capacity).after calls).size
        = ((empty capacity).after calls).keys.length := (List.length_map ..).symm
      _ = min capacity (recency calls).length := by rw [hkeys, List.length_take]
  · exact serial_eq_iff capacity hs hfirst hsecond

example :
    ((empty 2).after [.xpath "//a", .xpath "//b", .xpath "//a", .xpath "//c"]).keys =
      [.xpath "//c", .xpath "//a"] := by decide +kernel

end WebCrawl.Query.Cache
