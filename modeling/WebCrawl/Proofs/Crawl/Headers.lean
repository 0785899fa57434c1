import Mathlib.Algebra.BigOperators.Group.List.Lemmas
import Mathlib.Algebra.GroupWithZero.Nat
import Mathlib.Data.List.Dedup
import Mathlib.Logic.Function.Basic
import WebCrawl.Crawl.Request

set_option autoImplicit false

/-!
# Headers as a list of values for each name

Headers stand in one row, and every operation goes through all of it. Seen from outside they are a
list of values for each name, letters of either case being one: whatever is done to the headers, alone
or through a request, does to these lists what its name says, and does nothing to the entries of other
names.

## Main definitions

* `WebCrawl.Http.ValueLists` — a list of values for each name in lower case, and how it changes.
* `WebCrawl.Http.Headers.lists` — the lists that headers hold.
* `WebCrawl.Crawl.HeaderCall` — what can be done to the headers of a request.
* `WebCrawl.Crawl.HeaderCall.run` — one such call after the other, with what each gives back.

## Main results

* `WebCrawl.Http.Headers.lists_append`, `lists_remove`, `lists_set`, `lists_extend`, `lists_setAll` —
  what each operation does to the lists.
* `WebCrawl.Crawl.HeaderCall.others_apply` — what it leaves alone.
* `WebCrawl.Crawl.HeaderCall.headers_hold_lists` — all of that after any number of calls.
-/

namespace WebCrawl.Http

open Text

/-! ## A list of values for each name -/

/-- A list of values for each name in lower case. -/
abbrev ValueLists := Text → List Text

namespace ValueLists

variable (l : ValueLists)

/-- One more value at the end of the list of a name. -/
def append (name value : Text) : ValueLists :=
  Function.update l name.lower (l name.lower ++ [value])

/-- The list of a name emptied. -/
def remove (name : Text) : ValueLists := Function.update l name.lower []

/-- One value as the whole list of a name. -/
def set (name value : Text) : ValueLists := Function.update l name.lower [value]

/-- One more value for each of a list of names. -/
def extend (entries : List (Text × Text)) : ValueLists :=
  entries.foldl (fun l (name, value) => l.append name value) l

/-- One value as the whole list for each of a list of names, one after the other. -/
def setAll (entries : List (Text × Text)) : ValueLists :=
  entries.foldl (fun l (name, value) => l.set name value) l

end ValueLists

namespace Headers

variable (h : Headers) (name value : Text)

/-- The values of each name in lower case, in order. -/
def lists : ValueLists := fun n => (h.entries.filter fun e => e.1.lower == n).map (·.2)

/-- The names in lower case, each once. -/
def names : List Text := (h.entries.map (·.1.lower)).dedup

/-! ## Looking at headers -/

/-- The values of a name are the list of the name in lower case. -/
lemma getAll_eq_lists : h.getAll name = h.lists name.lower := rfl

/-- The first value of a name is the first of its list. -/
lemma get?_eq_head? : h.get? name = (h.lists name.lower).head? := by
  rw [← getAll_eq_lists, get?, getAll, List.head?_map, List.head?_filter]

/-- A name has a value if its list is not empty. -/
lemma contains_eq_not_isEmpty : h.contains name = !(h.lists name.lower).isEmpty := by
  rw [contains, get?_eq_head?]
  cases h.lists name.lower <;> rfl

/-- As many values are counted as the list of the name has. -/
lemma count_eq_length : h.count name = (h.lists name.lower).length := by
  rw [← getAll_eq_lists, count, getAll, List.length_map, List.countP_eq_length_filter]

/-- What is removed is what was counted. -/
lemma size_remove_add_count : (h.remove name).size + h.count name = h.size := by
  have hsplit := List.length_eq_countP_add_countP (Headers.named name) (l := h.entries)
  rw [remove, size, size, count, hsplit, List.countP_eq_length_filter, Nat.add_comm,
    List.countP_eq_length_filter]
  simp

/-- The length of a list is how often its name stands there. -/
lemma length_lists (n : Text) :
    (h.lists n).length = (h.entries.map (·.1.lower)).countP (· = n) := by
  rw [lists, List.length_map, ← List.countP_eq_length_filter, List.countP_map]
  exact List.countP_congr fun e _ => by simp

/-- The names are those that have values. -/
lemma mem_names_iff (n : Text) : n ∈ h.names ↔ h.lists n ≠ [] := by
  rw [names, List.mem_dedup, ← List.length_pos_iff, length_lists, List.countP_pos_iff]
  simp

/-- There are as many entries as values in all lists together. -/
lemma size_eq_sum : h.size = (h.names.map fun n => (h.lists n).length).sum := by
  have hsum := List.sum_map_count_dedup_eq_length (h.entries.map (·.1.lower))
  rw [List.length_map] at hsum
  simp only [length_lists, names, size]
  exact hsum.symm

/-! ## Changing headers -/

/-- One more value goes to the end of the list of its name. -/
lemma lists_append : (h.append name value).lists = h.lists.append name value := by
  funext n
  by_cases hn : n = name.lower
  · subst hn
    simp [lists, append, ValueLists.append]
  · have hne : (name.lower == n) = false := by simpa using Ne.symm hn
    simp [lists, append, ValueLists.append, hn, hne]

/-- The list of a name that is removed is empty. -/
lemma lists_remove : (h.remove name).lists = h.lists.remove name := by
  funext n
  unfold lists remove named sameLetters
  rw [List.filter_filter, ValueLists.remove]
  by_cases hn : n = name.lower
  · subst hn
    simp
  · rw [Function.update_of_ne hn]
    have hkept : ∀ e ∈ h.entries, (e.1.lower == n && !(e.1.lower == name.lower)) = (e.1.lower == n) := by
      intro e _
      by_cases he : e.1.lower = n
      · simp [he, hn]
      · simp [he]
    rw [List.filter_congr hkept]

/-- A value that is set is the whole list of its name. -/
lemma lists_set : (h.set name value).lists = h.lists.set name value := by
  rw [set, lists_append, lists_remove, ValueLists.append, ValueLists.remove, ValueLists.set,
    Function.update_idem, Function.update_self, List.nil_append]

/-- Some more values go to the ends of their lists. -/
lemma lists_extend (entries : List (Text × Text)) :
    (h.extend entries).lists = h.lists.extend entries := by
  induction entries generalizing h with
  | nil => rw [extend, List.append_nil]; rfl
  | cons e entries ih =>
    have hsplit : h.extend (e :: entries) = (h.append e.1 e.2).extend entries := by
      rw [extend, extend, append, List.append_assoc, List.singleton_append]
    rw [hsplit, ih, lists_append]
    rfl

/-- Values that are set one after the other are the whole lists of their names. -/
lemma lists_setAll (entries : List (Text × Text)) :
    (h.setAll entries).lists = h.lists.setAll entries := by
  induction entries generalizing h with
  | nil => rfl
  | cons e entries ih =>
    have hsplit : h.setAll (e :: entries) = (h.set e.1 e.2).setAll entries := rfl
    rw [hsplit, ih, lists_set]
    rfl

/-! ## Other names -/

/-- The entries, in order, whose names are none of the given ones. -/
def others (touched : List Text) : List (Text × Text) :=
  h.entries.filter fun e => touched.all fun name => !sameLetters e.1 name

/-- Entries whose names are among the given ones can come and go. -/
lemma others_append {touched : List Text} {entries : List (Text × Text)}
    (hnames : ∀ e ∈ entries, e.1 ∈ touched) :
    Headers.others ⟨h.entries ++ entries⟩ touched = h.others touched := by
  have hnone : (entries.filter fun e => touched.all fun name => !sameLetters e.1 name) = [] := by
    refine List.filter_eq_nil_iff.2 fun e he hall => ?_
    have hself := List.all_eq_true.1 hall e.1 (hnames e he)
    simp [sameLetters] at hself
  rw [others, List.filter_append, hnone, List.append_nil, others]

lemma others_remove {touched : List Text} {name : Text} (hname : name ∈ touched) :
    (h.remove name).others touched = h.others touched := by
  unfold others remove
  rw [List.filter_filter]
  refine List.filter_congr fun e _ => ?_
  rw [Bool.and_eq_left_iff_imp]
  exact fun hall => List.all_eq_true.1 hall name hname

lemma others_set {touched : List Text} {name : Text} (hname : name ∈ touched) (value : Text) :
    (h.set name value).others touched = h.others touched := by
  have hnew : ∀ e ∈ [(name, value)], e.1 ∈ touched := by simpa using hname
  rw [set, append, others_append _ hnew, others_remove _ hname]

lemma others_setAll {touched : List Text} {entries : List (Text × Text)}
    (hnames : ∀ e ∈ entries, e.1 ∈ touched) :
    (h.setAll entries).others touched = h.others touched := by
  induction entries generalizing h with
  | nil => rfl
  | cons e entries ih =>
    obtain ⟨he, hnames⟩ := List.forall_mem_cons.1 hnames
    have hsplit : h.setAll (e :: entries) = (h.set e.1 e.2).setAll entries := rfl
    rw [hsplit, ih _ hnames, others_set _ he]

end Headers

end WebCrawl.Http

namespace WebCrawl.Crawl

open Http

variable {κ : Type}

/-! ## Calls -/

/-- What can be done to the headers of a request, to them alone or through the request. -/
inductive HeaderCall where
  | set (name value : Text)
  | append (name value : Text)
  | extend (entries : List (Text × Text))
  | remove (name : Text)
  | withHeader (name value : Text)
  | withHeaders (headers : List (Text × Text))

namespace HeaderCall

/-- The names that a call is about. -/
def names : HeaderCall → List Text
  | set name _ | append name _ | remove name | withHeader name _ => [name]
  | extend entries | withHeaders entries => entries.map (·.1)

/-- The request after a call. -/
def apply (r : Request κ) : HeaderCall → Request κ
  | set name value => { r with headers := r.headers.set name value }
  | append name value => { r with headers := r.headers.append name value }
  | extend entries => { r with headers := r.headers.extend entries }
  | remove name => { r with headers := r.headers.remove name }
  | withHeader name value => r.withHeader name value
  | withHeaders headers => r.withHeaders headers

/-- What a call gives back: the removal of a name, how many values it had. -/
def answer (r : Request κ) : HeaderCall → Option Nat
  | remove name => some (r.headers.count name)
  | _ => none

/-- The lists of values after a call. -/
def applyLists (l : ValueLists) : HeaderCall → ValueLists
  | set name value | withHeader name value => l.set name value
  | append name value => l.append name value
  | extend entries => l.extend entries
  | remove name => l.remove name
  | withHeaders headers => l.setAll headers

/-- What a call gives back by the lists of values. -/
def answerLists (l : ValueLists) : HeaderCall → Option Nat
  | remove name => some (l name.lower).length
  | _ => none

/-- One call after the other, with what each gives back. -/
def run {σ : Type} (apply : σ → HeaderCall → σ) (answer : σ → HeaderCall → Option Nat) :
    σ → List HeaderCall → σ × List (Option Nat)
  | s, [] => (s, [])
  | s, call :: calls =>
    let (t, answers) := run apply answer (apply s call) calls
    (t, answer s call :: answers)

/-! ## One call -/

/-- A call does to the lists of the headers what its name says. -/
lemma lists_apply (r : Request κ) (call : HeaderCall) :
    (apply r call).headers.lists = applyLists r.headers.lists call := by
  cases call with
  | set name value => exact r.headers.lists_set name value
  | append name value => exact r.headers.lists_append name value
  | extend entries => exact r.headers.lists_extend entries
  | remove name => exact r.headers.lists_remove name
  | withHeader name value => exact r.headers.lists_set name value
  | withHeaders headers => exact r.headers.lists_setAll headers

/-- A call gives back what the lists say. -/
lemma answer_eq (r : Request κ) (call : HeaderCall) :
    answer r call = answerLists r.headers.lists call := by
  cases call with
  | remove name => exact congrArg some (r.headers.count_eq_length name)
  | _ => rfl

/-- A call leaves the entries of all other names as they were, and in their order. -/
lemma others_apply (r : Request κ) {touched : List Text} {call : HeaderCall}
    (hnames : ∀ name ∈ call.names, name ∈ touched) :
    (apply r call).headers.others touched = r.headers.others touched := by
  cases call with
  | set name value => exact r.headers.others_set (hnames name List.mem_cons_self) value
  | append name value =>
    exact r.headers.others_append fun e he => by
      obtain rfl := List.mem_singleton.1 he
      exact hnames name List.mem_cons_self
  | extend entries =>
    exact r.headers.others_append fun e he => hnames e.1 (List.mem_map_of_mem he)
  | remove name => exact r.headers.others_remove (hnames name List.mem_cons_self)
  | withHeader name value => exact r.headers.others_set (hnames name List.mem_cons_self) value
  | withHeaders headers =>
    exact r.headers.others_setAll fun e he => hnames e.1 (List.mem_map_of_mem he)

/-! ## Any number of calls -/

/-- Calls do to the lists of the headers, and give back, what they do to the lists alone. -/
lemma run_lists (r : Request κ) (calls : List HeaderCall) :
    ((run apply answer r calls).1.headers.lists, (run apply answer r calls).2) =
      run applyLists answerLists r.headers.lists calls := by
  induction calls generalizing r with
  | nil => rfl
  | cons call calls ih =>
    have hrest := ih (apply r call)
    rw [lists_apply] at hrest
    rw [run, run, ← hrest, answer_eq]

/-- Calls leave the entries of the names that none of them is about as they were. -/
lemma run_others (r : Request κ) {touched : List Text} {calls : List HeaderCall}
    (hnames : ∀ call ∈ calls, ∀ name ∈ call.names, name ∈ touched) :
    (run apply answer r calls).1.headers.others touched = r.headers.others touched := by
  induction calls generalizing r with
  | nil => rfl
  | cons call calls ih =>
    obtain ⟨hcall, hcalls⟩ := List.forall_mem_cons.1 hnames
    exact (ih (apply r call) hcalls).trans (others_apply r hcall)

/-- **Headers hold a list of values for each name.** Whatever the headers of a request are, and
whatever is done to them, alone or through the request, call after call:

* the values of a name are those that its list has after the same calls on the lists alone, the first
  value is the first of these, and the name is there if there are any;
* each call gives back what it gives back for the lists, and a removal takes away as many entries as it
  says;
* the entries of all names that no call is about are the same as before and in the same order;
* there are as many entries as values in all the lists.

**Proof sketch.** One call does to the lists of the headers what it does to lists alone, and does
nothing to the entries of other names, which is seen for each kind of call; the rest is induction on
the calls. -/
theorem headers_hold_lists (r : Request κ) (calls : List HeaderCall) :
    let headers := (run apply answer r calls).1.headers
    let answers := (run apply answer r calls).2
    let lists := (run applyLists answerLists r.headers.lists calls).1
    (∀ name, headers.getAll name = lists name.lower ∧
      headers.get? name = (lists name.lower).head? ∧
      headers.contains name = !(lists name.lower).isEmpty) ∧
    (answers = (run applyLists answerLists r.headers.lists calls).2 ∧
      ∀ name, (headers.remove name).size + headers.count name = headers.size) ∧
    headers.others (calls.flatMap names) = r.headers.others (calls.flatMap names) ∧
    headers.size = (headers.names.map fun n => (lists n).length).sum ∧
      headers.names.Nodup ∧ ∀ n, n ∈ headers.names ↔ lists n ≠ [] := by
  intro headers answers lists
  have hrun := run_lists r calls
  have hlists : headers.lists = lists := congrArg Prod.fst hrun
  have hanswers : answers = (run applyLists answerLists r.headers.lists calls).2 :=
    congrArg Prod.snd hrun
  rw [← hlists]
  refine ⟨fun name => ⟨headers.getAll_eq_lists name, headers.get?_eq_head? name,
    headers.contains_eq_not_isEmpty name⟩, ⟨hanswers, headers.size_remove_add_count⟩,
    run_others r fun call hcall name hname => ?_, headers.size_eq_sum, List.nodup_dedup _,
    headers.mem_names_iff⟩
  exact List.mem_flatMap.2 ⟨call, hcall, hname⟩

end HeaderCall

end WebCrawl.Crawl
