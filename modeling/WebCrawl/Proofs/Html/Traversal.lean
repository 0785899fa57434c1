import Mathlib.Data.List.Basic
import Mathlib.Tactic.Common
import WebCrawl.Proofs.Html.Arena

set_option autoImplicit false

/-!
# Laying out a tree with a stack

The nodes of a tree can be laid out without knowing how large the trees below them are: the trees that
are still to come stand on a stack, and the one on top is laid out next. Its root is entered below its
parent, and the trees below it go on the stack, the last one first. How far each node reaches is filled
in afterwards, from the last node to the first. What comes of it is the arena of the tree.

## Main definitions

* `WebCrawl.Html.visit`, `WebCrawl.Html.traverse` — laying out one tree of the stack, and all of them.
* `WebCrawl.Html.reachBack` — how far the nodes reach, filled in from the last node on.
* `WebCrawl.Html.Arena.laidOut` — the arena of a tree that is laid out in this way.

## Main results

* `WebCrawl.Html.traverse_tree` — laying out a tree enters its nodes and nothing else.
* `WebCrawl.Html.Arena.WellFormed.lastDescendant_eq` — a node reaches as far as its last child.
* `WebCrawl.Html.Arena.laidOut_eq` — a tree that is laid out with a stack is its arena.
-/

namespace WebCrawl.Html

/-! ## The traversal -/

/-- A node with some more nodes below it. -/
def Node.adopt (ids : List Nat) (n : Node) : Node := { n with children := n.children ++ ids }

/-- The number of nodes directly below a node of the list. -/
def childCount (nodes : List Node) (id : Nat) : Nat :=
  ((nodes[id]?).map (·.children.length)).getD 0

/-- The nodes after the root of one more tree is entered below its parent, if it has one. It reaches
no further than itself as yet, and has nothing below it. -/
def visit (nodes : List Node) (parent : Option Nat) (t : OrderedTree) : List Node :=
  match parent with
  | some p =>
    nodes.modify p (Node.adopt [nodes.length]) ++
      [⟨t.data, some p, [], childCount nodes p, nodes.length⟩]
  | none => nodes ++ [⟨t.data, none, [], 0, nodes.length⟩]

/-- A stack of trees that are still to be laid out, each with the node above it. -/
abbrev Pending := List (Option Nat × OrderedTree)

/-- The stack after trees below one node are put on it, the last one first. -/
def push (parent : Nat) (ts : List OrderedTree) (stack : Pending) : Pending :=
  ts.reverse.foldl (fun stack t => (some parent, t) :: stack) stack

lemma push_eq (parent : Nat) (ts : List OrderedTree) (stack : Pending) :
    push parent ts stack = ts.map (some parent, ·) ++ stack := by
  rw [push, List.foldl_reverse]
  induction ts with
  | nil => rfl
  | cons t ts ih => rw [List.foldr_cons, ih]; rfl

/-- The number of nodes of the trees on a stack. -/
def stackSize : Pending → Nat
  | [] => 0
  | (_, t) :: stack => t.size + stackSize stack

lemma stackSize_push (parent : Nat) (ts : List OrderedTree) (stack : Pending) :
    stackSize (push parent ts stack) = OrderedTree.sizes ts + stackSize stack := by
  rw [push_eq]
  induction ts with
  | nil => rw [OrderedTree.sizes, Nat.zero_add]; rfl
  | cons t ts ih =>
    rw [List.map_cons, List.cons_append, stackSize, ih, OrderedTree.sizes, Nat.add_assoc]

/-- The nodes after all trees on a stack are laid out, the one on top first. -/
def traverse (nodes : List Node) (stack : Pending) : List Node :=
  match stack with
  | [] => nodes
  | (parent, t) :: stack =>
    traverse (visit nodes parent t) (push nodes.length t.children stack)
termination_by stackSize stack
decreasing_by
  obtain ⟨data, ts⟩ := t
  rw [stackSize_push, OrderedTree.children, stackSize, OrderedTree.size]
  omega

@[simp] lemma traverse_nil (nodes : List Node) : traverse nodes [] = nodes := by rw [traverse]

lemma traverse_cons (nodes : List Node) (parent : Option Nat) (t : OrderedTree) (stack : Pending) :
    traverse nodes ((parent, t) :: stack) =
      traverse (visit nodes parent t) (push nodes.length t.children stack) := by rw [traverse]

/-- The nodes after one of them is told how far it reaches: as far as its last child. -/
def reachTo (nodes : List Node) (id : Nat) : List Node :=
  nodes.modify id fun n =>
    match n.children.getLast? with
    | some last => { n with lastDescendant := ((nodes[last]?).map (·.lastDescendant)).getD last }
    | none => n

/-- The nodes after all of them are told how far they reach, from the last node to the first. -/
def reachBack (nodes : List Node) : List Node := (List.range nodes.length).reverse.foldl reachTo nodes

/-- The arena of a tree that is laid out with a stack. -/
def Arena.laidOut (t : OrderedTree) : Arena := ⟨(reachBack (traverse [] [(none, t)])).toArray⟩

/-! ## Laying out one tree -/

/-- Nodes in a row from an index on that reach no further than themselves as yet. -/
def unreached (start : Nat) : List Node → List Node
  | [] => []
  | n :: ns => { n with lastDescendant := start } :: unreached (start + 1) ns

@[simp] lemma length_unreached (start : Nat) (ns : List Node) :
    (unreached start ns).length = ns.length := by
  induction ns generalizing start with
  | nil => rfl
  | cons n ns ih => simp [unreached, ih]

lemma unreached_append (start : Nat) (ns ms : List Node) :
    unreached start (ns ++ ms) = unreached start ns ++ unreached (start + ns.length) ms := by
  induction ns generalizing start with
  | nil => rfl
  | cons n ns ih =>
    rw [List.cons_append, unreached, ih, unreached, List.cons_append, List.length_cons,
      Nat.add_right_comm, Nat.add_assoc]

lemma adopt_adopt (ids more : List Nat) (n : Node) :
    Node.adopt more (Node.adopt ids n) = Node.adopt (ids ++ more) n := by
  simp [Node.adopt]

lemma adopt_nil (n : Node) : Node.adopt [] n = n := by simp [Node.adopt]

/-- A node is modified where it stands, whatever follows. -/
lemma modify_append {nodes : List Node} {i : Nat} (h : i < nodes.length) (f : Node → Node)
    (more : List Node) : (nodes ++ more).modify i f = nodes.modify i f ++ more := by
  induction nodes generalizing i with
  | nil => exact absurd h (Nat.not_lt_zero i)
  | cons n nodes ih =>
    cases i with
    | zero => rfl
    | succ i =>
      rw [List.cons_append, List.modify_succ_cons, ih (Nat.lt_of_succ_lt_succ h),
        List.modify_succ_cons, List.cons_append]

/-- The first node after some others is modified at their number. -/
lemma modify_length_append (nodes : List Node) (f : Node → Node) (n : Node) (more : List Node) :
    (nodes ++ n :: more).modify nodes.length f = nodes ++ f n :: more := by
  induction nodes with
  | nil => rfl
  | cons m nodes ih =>
    rw [List.cons_append, List.length_cons, List.modify_succ_cons, ih, List.cons_append]

/-- A node that is there has as many children more as it adopts. -/
lemma childCount_adopt {nodes more : List Node} {parent : Nat} (h : parent < nodes.length)
    (ids : List Nat) :
    childCount (nodes.modify parent (Node.adopt ids) ++ more) parent =
      childCount nodes parent + ids.length := by
  have hlength : parent < (nodes.modify parent (Node.adopt ids)).length := by simpa using h
  simp [childCount, List.getElem?_append_left hlength, h, Node.adopt]

/-- The last node adopts nodes where it stands. -/
lemma modify_visit (nodes : List Node) (parent : Option Nat) (t : OrderedTree) (ids : List Nat) :
    (visit nodes parent t).modify nodes.length (Node.adopt ids) =
      match parent with
      | some p => nodes.modify p (Node.adopt [nodes.length]) ++
          [⟨t.data, some p, ids, childCount nodes p, nodes.length⟩]
      | none => nodes ++ [⟨t.data, none, ids, 0, nodes.length⟩] := by
  cases parent with
  | none => exact modify_length_append nodes (Node.adopt ids) _ []
  | some p =>
    have hlast := modify_length_append (nodes.modify p (Node.adopt [nodes.length])) (Node.adopt ids)
      ⟨t.data, some p, [], childCount nodes p, nodes.length⟩ []
    rw [List.length_modify] at hlast
    exact hlast

@[simp] lemma length_visit (nodes : List Node) (parent : Option Nat) (t : OrderedTree) :
    (visit nodes parent t).length = nodes.length + 1 := by
  cases parent <;> simp [visit]

/-- The last node has no children as yet. -/
lemma childCount_visit (nodes : List Node) (parent : Option Nat) (t : OrderedTree) :
    childCount (visit nodes parent t) nodes.length = 0 := by
  cases parent <;> simp [childCount, visit]

mutual

/-- Laying out the tree on top of the stack enters its nodes, with its root below its parent.

**Proof sketch.** Induction on the tree. Its root is entered without children, which the trees below
it then become one after the other. -/
lemma traverse_tree :
    ∀ (t : OrderedTree) (nodes : List Node) (p : Nat) (stack : Pending),
      p < nodes.length → traverse nodes ((some p, t) :: stack) =
        traverse (nodes.modify p (Node.adopt [nodes.length]) ++
          unreached nodes.length (t.entries nodes.length (some p) (childCount nodes p))) stack
  | .node data ts, nodes, p, stack, _ => by
    have hforest := traverse_forest ts (visit nodes (some p) (.node data ts)) nodes.length stack
      (by simp)
    rw [traverse_cons, push_eq]
    refine hforest.trans ?_
    rw [childCount_visit, modify_visit, length_visit, List.append_assoc]
    rfl

lemma traverse_forest :
    ∀ (ts : List OrderedTree) (nodes : List Node) (p : Nat) (stack : Pending),
      p < nodes.length → traverse nodes (ts.map (some p, ·) ++ stack) =
        traverse (nodes.modify p (Node.adopt (OrderedTree.indices nodes.length ts)) ++
          unreached nodes.length (OrderedTree.entriesBelow nodes.length p (childCount nodes p) ts))
          stack
  | [], nodes, p, stack, _ => by
    have hsame : nodes.modify p (Node.adopt []) = nodes := by
      rw [show Node.adopt [] = id from funext adopt_nil, List.modify_id]
    rw [OrderedTree.indices, OrderedTree.entriesBelow, unreached, hsame, List.append_nil]
    rfl
  | t :: ts, nodes, p, stack, h => by
    have hlength := t.length_entries nodes.length (some p) (childCount nodes p)
    have hp : p < (nodes.modify p (Node.adopt [nodes.length])).length := by simpa
    rw [List.map_cons, List.cons_append, traverse_tree t nodes p _ h,
      traverse_forest ts _ p stack (by simp; omega), childCount_adopt h, modify_append hp,
      List.modify_modify_eq, OrderedTree.indices, OrderedTree.entriesBelow, unreached_append]
    simp only [List.length_append, List.length_modify, length_unreached, hlength, List.append_assoc,
      List.length_singleton, Function.comp_def, adopt_adopt, List.singleton_append]

end

/-- Laying out a whole tree enters its nodes and nothing else. -/
lemma traverse_whole (t : OrderedTree) :
    traverse [] [(none, t)] = unreached 0 (t.entries 0 none 0) := by
  obtain ⟨data, ts⟩ := t
  have hforest := traverse_forest ts (visit [] none (.node data ts)) 0 [] Nat.zero_lt_one
  rw [traverse_cons, push_eq]
  refine hforest.trans ?_
  rw [traverse_nil, show (0 : Nat) = ([] : List Node).length from rfl, childCount_visit,
    modify_visit, length_visit]
  rfl

/-! ## How far nodes reach -/

namespace Arena

variable {a : Arena}

/-- A node reaches as far as its last child, or no further than itself if it has none. -/
theorem WellFormed.lastDescendant_eq (h : a.WellFormed) {x : Nat} (hx : x < a.size) :
    a.lastDescendant x =
      match (a.children x).getLast? with
      | some last => a.lastDescendant last
      | none => x := by
  obtain ⟨hle, -⟩ := h.last x (Nat.zero_le _) hx
  -- what a node reaches beyond itself is one of its children or below one of them
  have hchild : x < a.lastDescendant x → ∃ c ∈ a.children x, a.lastDescendant x ≤ a.lastDescendant c := by
    intro hlt
    obtain ⟨c, hc, hbelow⟩ := Relation.TransGen.head'_iff.1 (h.isAncestor_of_le hx hlt (Nat.le_refl _))
    refine ⟨c, h.mem_children_iff.2 hc, ?_⟩
    rcases Relation.reflTransGen_iff_eq_or_transGen.1 hbelow with heq | hbelow
    · exact heq ▸ (h.last _ (Nat.zero_le _) (heq ▸ hc.lt_size)).1
    · exact h.le_lastDescendant hbelow
  cases hlast : (a.children x).getLast? with
  | none =>
    rw [List.getLast?_eq_none_iff] at hlast
    show a.lastDescendant x = x
    by_contra hne
    obtain ⟨c, hc, -⟩ := hchild (by omega)
    rw [hlast] at hc
    cases hc
  | some last =>
    have hmem := List.mem_of_getLast? hlast
    have hparent : a.IsParent x last := h.mem_children_iff.1 hmem
    have hup := (h.parent last x (Nat.zero_le _) hparent.lt_size hparent (Nat.zero_le _)).2.2
    show a.lastDescendant x = a.lastDescendant last
    refine Nat.le_antisymm ?_ hup
    have hself := (h.last last (Nat.zero_le _) hparent.lt_size).1
    obtain ⟨c, hc, hreach⟩ := hchild (by have := h.lt_of_isParent hparent; omega)
    refine Nat.le_trans hreach (Nat.le_of_not_lt fun hbeyond => ?_)
    -- a child that reaches beyond the last one would have it below itself
    have hclast : c ≤ last := by
      obtain ⟨before, hsplit⟩ := List.getLast?_eq_some_iff.1 hlast
      have hsorted := h.sorted_children x
      rw [hsplit, List.pairwise_append] at hsorted
      rw [hsplit, List.mem_append, List.mem_singleton] at hc
      rcases hc with hc | rfl
      · exact Nat.le_of_lt (hsorted.2.2 c hc last (List.mem_singleton_self _))
      · exact Nat.le_refl _
    have hcparent : a.IsParent x c := h.mem_children_iff.1 hc
    have hlt : c < last := Nat.lt_of_le_of_ne hclast fun heq => absurd hbeyond (by rw [heq]; omega)
    have hbelow := h.isAncestor_of_le hcparent.lt_size hlt (by omega)
    obtain ⟨p, hcp, hp⟩ := Relation.TransGen.tail'_iff.1 hbelow
    obtain rfl : p = x := Option.some.inj (hp.symm.trans hparent)
    have := h.lt_of_isParent hcparent
    rcases Relation.reflTransGen_iff_eq_or_transGen.1 hcp with heq | hcp
    · omega
    · have := h.lt_of_isAncestor hcp
      omega

/-- A node whose last child is already told how far it reaches is told so itself. -/
lemma WellFormed.reachTo_eq (h : a.WellFormed) {i : Nat} {n : Node} {before : List Node}
    (hn : a.nodes.toList[i]? = some n) (hbefore : before.length = i) :
    reachTo (before ++ { n with lastDescendant := i } :: a.nodes.toList.drop (i + 1)) i =
      before ++ n :: a.nodes.toList.drop (i + 1) := by
  have hread : a.nodes[i]? = some n := by rw [← Array.getElem?_toList, hn]
  have hi : i < a.size := (Array.getElem?_eq_some_iff.1 hread).1
  obtain ⟨-, hchildren, -, hlast⟩ := reads_of_getElem? hread
  have hreach := h.lastDescendant_eq hi
  subst hbefore
  rw [reachTo, modify_length_append]
  refine congrArg (fun m => before ++ m :: _) ?_
  rw [hchildren, hlast] at hreach
  cases hc : n.children.getLast? with
  | none =>
    rw [hc] at hreach
    simp only [← hreach]
  | some c =>
    rw [hc] at hreach
    -- the child comes later, where the nodes are told already
    have hparent : a.IsParent before.length c :=
      h.mem_children_iff.1 (hchildren ▸ List.mem_of_getLast? hc)
    have hlt := h.lt_of_isParent hparent
    have hstands : (before ++ { n with lastDescendant := before.length } ::
        a.nodes.toList.drop (before.length + 1))[c]? = a.nodes[c]? := by
      rw [List.getElem?_append_right (Nat.le_of_lt hlt),
        show c - before.length = c - (before.length + 1) + 1 by omega, List.getElem?_cons_succ,
        List.getElem?_drop, Nat.add_sub_cancel' hlt, Array.getElem?_toList]
    have hsame : n.lastDescendant = ((a.nodes[c]?).map (·.lastDescendant)).getD c := hreach
    simp only [hstands, ← hsame]

/-- The nodes of a well-formed arena are told how far they reach, from the last one on.

**Proof sketch.** When a node is told how far it reaches, its last child has been told already. -/
lemma WellFormed.reachBack_eq (h : a.WellFormed) :
    reachBack (unreached 0 a.nodes.toList) = a.nodes.toList := by
  have hall : ∀ i ≤ a.nodes.toList.length, (List.range i).reverse.foldl reachTo
      (unreached 0 (a.nodes.toList.take i) ++ a.nodes.toList.drop i) = a.nodes.toList := by
    intro i
    induction i with
    | zero => intro _; simp [unreached]
    | succ i ih =>
      intro hi
      rw [List.range_succ, List.reverse_append, List.foldl_append]
      obtain ⟨n, hn⟩ : ∃ n, a.nodes.toList[i]? = some n := ⟨_, List.getElem?_eq_getElem hi⟩
      have htake : a.nodes.toList.take (i + 1) = a.nodes.toList.take i ++ [n] := by
        rw [List.take_add_one, hn, Option.toList_some]
      have hdrop : a.nodes.toList.drop i = n :: a.nodes.toList.drop (i + 1) :=
        List.drop_eq_getElem?_toList_append.trans (by rw [hn]; rfl)
      have hlength : (unreached 0 (a.nodes.toList.take i)).length = i := by
        rw [length_unreached, List.length_take, Nat.min_eq_left (Nat.le_of_succ_le hi)]
      refine Eq.trans (congrArg (fun nodes => (List.range i).reverse.foldl reachTo nodes) ?_)
        (ih (Nat.le_of_succ_le hi))
      have hfirst : unreached 0 (a.nodes.toList.take (i + 1)) =
          unreached 0 (a.nodes.toList.take i) ++ [{ n with lastDescendant := i }] := by
        rw [htake, unreached_append, Nat.zero_add, List.length_take,
          Nat.min_eq_left (Nat.le_of_succ_le hi)]
        rfl
      rw [hfirst, hdrop, List.append_assoc]
      exact h.reachTo_eq hn hlength
  have hwhole := hall _ (Nat.le_refl _)
  rw [List.take_length, List.drop_length, List.append_nil] at hwhole
  rw [reachBack, length_unreached]
  exact hwhole

/-- A tree that is laid out with a stack is its arena. -/
theorem laidOut_eq (t : OrderedTree) : laidOut t = ofTree t := by
  have hnodes : traverse [] [(none, t)] = unreached 0 (ofTree t).nodes.toList := traverse_whole t
  rw [laidOut, hnodes, (wellFormed_ofTree t).reachBack_eq]

end Arena

end WebCrawl.Html
