import Mathlib.Data.List.Forall2
import Mathlib.Tactic.Common
import WebCrawl.Css.Expression
import WebCrawl.Proofs.Css.WellFormed
import WebCrawl.Proofs.Text.Searching
import WebCrawl.Proofs.XPath.Writing

set_option autoImplicit false

/-!
# Selectors as expressions

The text that a selector is translated to is read as an expression whose structure is that of the
selector: an alternative is a path, a compound a step or two, a qualifier a conjunct or two of a
predicate. A place among siblings of one type begins a predicate of its own.

## Main definitions

* `WebCrawl.Css.Qualifier.conjuncts` — the expressions that a qualifier stands for.
* `WebCrawl.Css.gather` — conjuncts put together to predicates.
* `WebCrawl.Css.Group.expr` — the expression of a selector group.
* `WebCrawl.Css.Group.attributeNames` — the names of the attributes that it asks for.

## Main results

* `WebCrawl.Css.Group.writes_toXPath` — the text of a selector group is read as its expression.
-/

namespace WebCrawl.Css

open Text
open XPath (Expr Step Writes Separates integerExpr)

/-! ## Literals -/

/-- The expression of a text. -/
def literalExpr (text : Text) : Expr :=
  if '"' ∉ text ∨ '\'' ∉ text then .literal text
  else .call .concat ((splitAt '"' text).map .literal |>.intersperse (.literal ['"']))

/-- The pieces of a text do not contain the character at which it was split. -/
lemma not_mem_of_mem_splitAt {c : Char} {s piece : Text} (h : piece ∈ splitAt c s) :
    c ∉ piece := fun hmem => by
  have hclean := (mem_splitOnP_iff.1 h).1 c hmem
  simp at hclean

/-- A text that contains a character is split at it. -/
lemma two_le_length_splitAt {c : Char} {s : Text} (h : c ∈ s) : 2 ≤ (splitAt c s).length := by
  obtain ⟨t, u, rfl⟩ := List.append_of_mem h
  have ht := List.length_pos_iff.2 (List.splitOn_ne_nil c t)
  have hu := List.length_pos_iff.2 (List.splitOn_ne_nil c u)
  rw [splitAt, List.splitOn_append_cons_self, List.length_append]
  omega

/-- Two arguments or more can be put together. -/
lemma takes_concat {n : Nat} (h : 2 ≤ n) : XPath.Function.concat.takes n = true := by
  rw [XPath.Function.takes, List.any_eq_true]
  exact ⟨("concat", .concat, 2, none), by simp [XPath.Function.table], by simp [h]⟩

/-- A text between double quotes, as a piece of a longer one. -/
def quotedPiece (piece : Text) : Text := "\"".toList ++ piece ++ "\"".toList

/-- The pieces of a text as arguments. -/
lemma writes_pieces {pieces : List Text} (h : ∀ p ∈ pieces, '"' ∉ p) (hne : pieces ≠ []) :
    ∃ (e : Expr) (es : List Expr) (x y : Text),
      (pieces.map Expr.literal).intersperse (.literal ['"']) = e :: es ∧
      join ", '\"', " (pieces.map quotedPiece) = x ++ y ∧ Writes (.expr .disjunction e) x ∧
      Writes (.arguments es) y ∧ (2 ≤ pieces.length → 2 ≤ es.length) := by
  induction pieces with
  | nil => exact absurd rfl hne
  | cons p pieces ih =>
    have hp : Writes (.expr .disjunction (.literal p)) (quotedPiece p) := by
      have := Writes.literal (q := '"') (.inl rfl) (h p (by simp))
      exact .of_primary (by simpa [quotedPiece] using this)
    cases pieces with
    | nil =>
      exact ⟨.literal p, [], quotedPiece p, [], rfl, by simp [join, List.intercalate], hp,
        .noArguments, by simp⟩
    | cons q pieces =>
      obtain ⟨e, es, x, y, hes, hjoin, hx, hy, -⟩ := ih (fun r hr => h r (by simp [hr])) (by simp)
      have hquote : Writes (.expr .disjunction (.literal ['"'])) "'\"'".toList :=
        .of_primary (.literal (q := '\'') (.inr rfl) (by decide))
      refine ⟨.literal p, .literal ['"'] :: e :: es, quotedPiece p, _, ?_, ?_, hp,
        .argument hquote (.argument hx hy), by simp⟩
      · rw [List.map_cons, List.map_cons, List.intersperse_cons_cons, ← hes, List.map_cons]
      · have htail : join ", '\"', " ((q :: pieces).map quotedPiece) = x ++ y := hjoin
        rw [join, List.map_cons, List.intercalate_cons_of_ne_nil (by simp), ← join, htail]
        simp

/-- A literal is read as the text that it was made for. -/
lemma writes_literal {l : XPath.Level} (text : Text) :
    Writes (.expr l (literalExpr text)) (literal text) := by
  by_cases hdouble : '"' ∈ text
  · by_cases hsingle : '\'' ∈ text
    · have hexpr : literalExpr text = .call .concat
          ((splitAt '"' text).map .literal |>.intersperse (.literal ['"'])) := by
        rw [literalExpr, if_neg (by simp [hdouble, hsingle])]
      have htext : literal text = "concat(".toList ++
          join ", '\"', " ((splitAt '"' text).map quotedPiece) ++ ")".toList := by
        rw [literal, if_neg (by simp [hdouble]), if_neg (by simp [hsingle])]
        rfl
      have hne : splitAt '"' text ≠ [] := List.splitOn_ne_nil _ _
      obtain ⟨e, es, x, y, hes, hjoin, hx, hy, hlength⟩ :=
        writes_pieces (fun p hp => not_mem_of_mem_splitAt hp) hne
      have htakes : XPath.Function.concat.takes (es.length + 1) = true :=
        takes_concat (Nat.le_succ_of_le (hlength (two_le_length_splitAt hdouble)))
      have hcall := Writes.call "concat" rfl rfl hx hy htakes
      rw [hexpr, htext, hes, hjoin]
      exact .of_primary (by simpa using hcall)
    · have hexpr : literalExpr text = .literal text := by
        rw [literalExpr, if_pos (.inr hsingle)]
      have htext : literal text = '\'' :: (text ++ ['\'']) := by
        rw [literal, if_neg (by simp [hdouble]), if_pos hsingle]
        rfl
      rw [hexpr, htext]
      exact .of_primary (.literal (.inr rfl) hsingle)
  · have hexpr : literalExpr text = .literal text := by
      rw [literalExpr, if_pos (.inl hdouble)]
    have htext : literal text = '"' :: (text ++ ['"']) := by
      rw [literal, if_pos hdouble]
      rfl
    rw [hexpr, htext]
    exact .of_primary (.literal (.inl rfl) hdouble)

/-! ## Attributes -/

/-- The attribute of a name. -/
def attributeExpr (name : Text) : Expr := .path false [.mk .attributes (.name name) []]

/-- A natural number. -/
def numberExpr (n : Nat) : Expr := integerExpr (.ofNat n)

/-- The text with a blank on either side. -/
def paddedExpr (e : Expr) : Expr := .call .concat [.literal [' '], e, .literal [' ']]

/-- The expression of the condition that a test makes on the attribute `name`. -/
def AttributeTest.expr (name : Text) : AttributeTest → Expr
  | .present => attributeExpr name
  | .equals v => .compare .equal (attributeExpr name) (literalExpr v)
  | .includes v =>
    .call .contains [paddedExpr (attributeExpr name), paddedExpr (literalExpr v)]
  | .dashMatch v =>
    .or (.compare .equal (attributeExpr name) (literalExpr v))
      (.call .startsWith [attributeExpr name, .call .concat [literalExpr v, .literal ['-']]])
  | .beginsWith v => .call .startsWith [attributeExpr name, literalExpr v]
  | .endsWith v =>
    .compare .equal
      (.call .substring [attributeExpr name,
        .arithmetic .add
          (.arithmetic .sub (.call .stringLength [attributeExpr name])
            (.call .stringLength [literalExpr v]))
          (numberExpr 1)])
      (literalExpr v)
  | .contains v => .call .contains [attributeExpr name, literalExpr v]

section Attributes

variable {l : XPath.Level} {name : Text}

lemma writes_attribute (hname : XPath.isName name = true) :
    Writes (.expr l (attributeExpr name)) ('@' :: name) :=
  .of_step (.attributeNamed hname)

lemma writes_number (n : Nat) (hl : l.rank ≤ XPath.Level.negation.rank) :
    Writes (.expr l (numberExpr n)) (ofNat n) :=
  .of_rank_le hl (.integer (.ofNat n))

/-- A text without double quotes is written between such. -/
lemma writes_quoted {v : Text} (hv : '"' ∉ v) :
    Writes (.expr l (.literal v)) ('"' :: (v ++ ['"'])) :=
  .of_primary (.literal (.inl rfl) hv)

lemma writes_padded {e : Expr} {x : Text} (hx : Writes (.expr .disjunction e) x) :
    Writes (.expr l (paddedExpr e)) ("concat(\" \", ".toList ++ x ++ ", \" \")".toList) := by
  have hblank : Writes (.expr .disjunction (.literal [' '])) ['"', ' ', '"'] :=
    writes_quoted (by decide)
  have := Writes.call₃ "concat" rfl rfl rfl hblank hx hblank
  exact .of_primary (by simpa [paddedExpr] using this)

/-- The condition that a test makes is read as its expression. -/
lemma AttributeTest.writes_condition (hname : XPath.isName name = true) (test : AttributeTest) :
    Writes (.expr .equality (test.expr name)) (test.condition name) := by
  delta AttributeTest.expr AttributeTest.condition
  cases test with
  | present => exact writes_attribute hname
  | equals v =>
    have := Writes.binary (l := .equality) rfl .equal (writes_attribute hname) (writes_literal v)
    simpa using this
  | includes v =>
    have := Writes.call₂ "contains" rfl rfl rfl
      (writes_padded (writes_attribute hname)) (writes_padded (writes_literal v))
    exact .of_primary (by simpa using this)
  | dashMatch v =>
    have hequal := Writes.binary (l := .equality) rfl .equal (writes_attribute hname)
      (writes_literal v)
    have hconcat := Writes.call₂ "concat" rfl rfl rfl (writes_literal v)
      (writes_quoted (v := ['-']) (by decide))
    have hstarts := Writes.call₂ "starts-with" rfl rfl rfl (writes_attribute hname)
      (.of_primary hconcat)
    have hor := Writes.binary (l := .disjunction) rfl .or (.of_rank_le (by decide) hequal)
      (.of_primary hstarts)
    exact .of_primary (by simpa using Writes.parens hor)
  | beginsWith v =>
    have := Writes.call₂ "starts-with" rfl rfl rfl (writes_attribute hname)
      (writes_literal v)
    exact .of_primary (by simpa using this)
  | endsWith v =>
    have hname' := Writes.call₁ "string-length" rfl rfl rfl (writes_attribute hname)
    have hvalue := Writes.call₁ "string-length" rfl rfl rfl (writes_literal v)
    have hsub := Writes.binary (l := .additive) rfl .sub (.of_primary hname') (.of_primary hvalue)
    have hadd := Writes.binary (l := .additive) rfl .add hsub (writes_number 1 (by decide))
    have hcall := Writes.call₂ "substring" rfl rfl rfl (writes_attribute hname)
      (.of_rank_le (by decide) hadd)
    have := Writes.binary (l := .equality) rfl .spacedEqual (.of_primary hcall) (writes_literal v)
    simpa [show ofNat 1 = ['1'] from rfl] using this
  | contains v =>
    have := Writes.call₂ "contains" rfl rfl rfl (writes_attribute hname)
      (writes_literal v)
    exact .of_primary (by simpa using this)

end Attributes

/-! ## Places -/

/-- The position of a node. -/
def positionExpr : Expr := .call .position []

/-- The number of nodes. -/
def lastExpr : Expr := .call .last []

/-- The position compared with another number. -/
def positionIs (comparison : XPath.Comparison) (e : Expr) : Expr :=
  .compare comparison positionExpr e

/-- The distance of the position from `b`. -/
def distanceExpr (b : Int) : Expr :=
  if b = 0 then positionExpr
  else if 0 < b then .arithmetic .sub positionExpr (integerExpr b)
  else .arithmetic .add positionExpr (integerExpr (-b))

/-- A number leaves a remainder when it is divided by another. -/
def remainderIs (e divisor : Expr) (remainder : Nat) : Expr :=
  .compare .equal (.arithmetic .mod e divisor) (numberExpr remainder)

/-- The expressions of the condition that the position is `a * k + b` for some natural number
`k`. -/
def progressionConjuncts (a b : Int) : List Expr :=
  if a = 0 then [positionIs .equal (integerExpr b)]
  else if 0 < a then
    if 1 < b then
      [positionIs .greaterEqual (integerExpr b), remainderIs (distanceExpr b) (integerExpr a) 0]
    else [remainderIs (distanceExpr b) (integerExpr a) 0]
  else
    [positionIs .lessEqual (integerExpr b),
      remainderIs (.arithmetic .sub (integerExpr b) positionExpr) (integerExpr (-a)) 0]

/-- The expressions of the condition that an index argument makes. -/
def Nth.conjuncts : Nth → List Expr
  | .even => [remainderIs positionExpr (numberExpr 2) 0]
  | .odd => [remainderIs positionExpr (numberExpr 2) 1]
  | .progression a b => progressionConjuncts a b
  | .only b => [positionIs .equal (integerExpr b)]

/-- The expressions of the condition that a place makes. -/
def Place.conjuncts : Place → List Expr
  | .first => [positionIs .equal (numberExpr 1)]
  | .last => [positionIs .equal lastExpr]
  | .sole => [positionIs .equal (numberExpr 1), positionIs .equal lastExpr]
  | .nth argument => argument.conjuncts

/-! ## Conjunctions -/

/-- Expressions put together by conjunction from the left. -/
def conjunction : List Expr → Expr
  | [] => .literal []
  | e :: es => es.foldl .and e

/-- The conjunction of more expressions. -/
lemma conjunction_append {es : List Expr} (h : es ≠ []) (es' : List Expr) :
    conjunction (es ++ es') = es'.foldl .and (conjunction es) := by
  cases es with
  | nil => exact absurd rfl h
  | cons e es => exact List.foldl_append

/-- The text is that of the expressions as conjuncts, on its own or after others. -/
structure Conjoins (es : List Expr) (x : Text) : Prop where
  ne_nil : es ≠ []
  alone : Writes (.expr .conjunction (conjunction es)) x
  after : ∀ {e : Expr} {y : Text}, Writes (.expr .conjunction e) y →
    Writes (.expr .conjunction (es.foldl .and e)) (y ++ (" and ".toList ++ x))

namespace Conjoins

variable {es es' : List Expr} {e e' : Expr} {x y : Text}

lemma single (h : Writes (.expr .equality e) x) : Conjoins [e] x where
  ne_nil := by simp
  alone := .of_rank_le (by decide) h
  after hy := Writes.binary (l := .conjunction) rfl .and hy h

lemma append (hx : Conjoins es x) (hy : Conjoins es' y) :
    Conjoins (es ++ es') (x ++ (" and ".toList ++ y)) where
  ne_nil := by simp [hx.ne_nil]
  alone := by
    rw [conjunction_append hx.ne_nil]
    exact hy.after hx.alone
  after h := by
    rw [List.foldl_append]
    simpa only [List.append_assoc] using hy.after (hx.after h)

lemma pair (hx : Writes (.expr .equality e) x) (hy : Writes (.expr .equality e') y) :
    Conjoins [e, e'] (x ++ (" and ".toList ++ y)) := (single hx).append (single hy)

end Conjoins

/-! ### Places as conjuncts -/

section Places

variable {l : XPath.Level}

lemma writes_position : Writes (.primary positionExpr) "position()".toList :=
  .callNone "position" rfl rfl rfl

lemma writes_last : Writes (.primary lastExpr) "last()".toList :=
  .callNone "last" rfl rfl rfl

/-- The position compared with an integer. -/
lemma writes_positionIs (b : Int) : Writes (.expr .equality (positionIs .equal (integerExpr b)))
    ("position() = ".toList ++ ofInt b) := by
  have := Writes.binary (l := .equality) rfl .spacedEqual (.of_primary writes_position)
    (.of_rank_le (by decide) (.integer b))
  simpa [positionIs] using this

/-- A number that leaves a remainder. -/
lemma writes_remainderIs {e divisor : Expr} {x y : Text} (hx : Writes (.primary e) x)
    (hy : Writes (.expr .negation divisor) y) (n : Nat) :
    Writes (.expr .equality (remainderIs e divisor n))
      (x ++ (" mod ".toList ++ y) ++ (" = ".toList ++ ofNat n)) := by
  have hmod := Writes.binary (l := .multiplicative) rfl .mod (.of_primary hx) hy
  exact Writes.binary (l := .equality) rfl .spacedEqual (.of_rank_le (by decide) hmod)
    (writes_number n (by decide))

/-- The distance of the position is read as its expression. -/
lemma writes_distance (b : Int) : Writes (.primary (distanceExpr b)) (distance b) := by
  unfold distanceExpr
  delta distance
  split
  case isTrue => exact writes_position
  case isFalse =>
    split
    case isTrue =>
      have := Writes.binary (l := .additive) rfl .sub (.of_primary writes_position)
        (.of_rank_le (by decide) (.integer b))
      simpa using Writes.parens (.of_rank_le (by decide) this)
    case isFalse =>
      have := Writes.binary (l := .additive) rfl .add (.of_primary writes_position)
        (.of_rank_le (by decide) (.integer (-b)))
      simpa using Writes.parens (.of_rank_le (by decide) this)

/-- The condition of a progression is read as its conjuncts. -/
lemma conjoins_progression (a b : Int) :
    Conjoins (progressionConjuncts a b) (progressionCondition a b) := by
  have hzero : ofNat 0 = ['0'] := rfl
  unfold progressionConjuncts
  delta progressionCondition
  split
  case isTrue => exact .single (writes_positionIs b)
  case isFalse =>
    have hmod := writes_remainderIs (writes_distance b) (.integer a) 0
    split
    case isTrue =>
      split
      case isTrue =>
        have hleast := Writes.binary (l := .order) rfl .atLeast (.of_primary writes_position)
          (.of_rank_le (by decide) (.integer b))
        have := Conjoins.pair (.of_rank_le (by decide) hleast) hmod
        simpa [positionIs, hzero] using this
      case isFalse =>
        have := Conjoins.single hmod
        simpa [positionIs, hzero] using this
    case isFalse =>
      have hmost := Writes.binary (l := .order) rfl .atMost (.of_primary writes_position)
        (.of_rank_le (by decide) (.integer b))
      have hsub := Writes.binary (l := .additive) rfl .sub (.of_rank_le (by decide) (.integer b))
        (.of_primary writes_position)
      have hmod := writes_remainderIs (.parens (.of_rank_le (by decide) hsub)) (.integer (-a)) 0
      have := Conjoins.pair (.of_rank_le (by decide) hmost) hmod
      simpa [positionIs, hzero] using this

/-- The condition of an index argument is read as its conjuncts. -/
lemma Nth.conjoins (argument : Nth) : Conjoins argument.conjuncts argument.condition := by
  have hdigits : ofNat 0 = ['0'] ∧ ofNat 1 = ['1'] ∧ ofNat 2 = ['2'] := ⟨rfl, rfl, rfl⟩
  have heven := fun n =>
    Conjoins.single (writes_remainderIs writes_position (writes_number 2 (by decide)) n)
  delta Nth.conjuncts Nth.condition
  cases argument with
  | even => simpa [hdigits] using heven 0
  | odd => simpa [hdigits] using heven 1
  | progression a b => exact conjoins_progression a b
  | only b => exact .single (writes_positionIs b)

/-- The condition of a place is read as its conjuncts. -/
lemma Place.conjoins (place : Place) : Conjoins place.conjuncts place.condition := by
  have hone : ofNat 1 = ['1'] := rfl
  have hfirst := Writes.binary (l := .equality) rfl .equal (.of_primary writes_position)
    (writes_number 1 (by decide))
  have hlast := Writes.binary (l := .equality) rfl .equal (.of_primary writes_position)
    (.of_primary writes_last)
  delta Place.conjuncts Place.condition
  cases place with
  | first => simpa [positionIs, hone] using Conjoins.single hfirst
  | last => simpa [positionIs] using Conjoins.single hlast
  | sole =>
    have hfirst := Writes.binary (l := .equality) rfl .spacedEqual (.of_primary writes_position)
      (writes_number 1 (by decide))
    have hlast := Writes.binary (l := .equality) rfl .spacedEqual (.of_primary writes_position)
      (.of_primary writes_last)
    simpa [positionIs, hone] using Conjoins.pair hfirst hlast
  | nth argument => exact argument.conjoins

end Places

/-! ## Qualifiers -/

/-- The expression of the condition that a node is of a type. -/
def typeExpr (name : Text) : Expr :=
  .path false [.mk .self (if name = ['*'] then .anyName else .name name) []]

/-- The expressions of the condition on the type of an element. -/
def typeConjuncts (type : Option Text) : List Expr := type.toList.map typeExpr

/-- The expression of the condition that an element carries a class. -/
def classExpr (name : Text) : Expr :=
  .call .contains [paddedExpr (attributeExpr "class"), .literal (' ' :: (name ++ [' ']))]

mutual

/-- The expressions of the condition that a qualifier makes. -/
def Qualifier.conjuncts : Qualifier → List Expr
  | .className name => [classExpr name]
  | .identifier name => [.compare .equal (attributeExpr "id") (literalExpr name)]
  | .attr name test => [test.expr name]
  | .place _ place => place.conjuncts
  | .negation type qualifiers =>
    [.call .not [conjunction (typeConjuncts type ++ conjunctsOf qualifiers)]]

/-- The expressions of the conditions that qualifiers make. -/
def conjunctsOf : List Qualifier → List Expr
  | [] => []
  | q :: qs => q.conjuncts ++ conjunctsOf qs

end

mutual

/-- The names of the attributes that a qualifier asks for in brackets. -/
def Qualifier.attributeNames : Qualifier → List Text
  | .attr name _ => [name]
  | .negation _ qualifiers => attributeNamesOf qualifiers
  | _ => []

/-- The names of the attributes that qualifiers ask for in brackets. -/
def attributeNamesOf : List Qualifier → List Text
  | [] => []
  | q :: qs => q.attributeNames ++ attributeNamesOf qs

end

lemma conjunctsOf_eq (qs : List Qualifier) : conjunctsOf qs = qs.flatMap Qualifier.conjuncts := by
  induction qs with
  | nil => rfl
  | cons q qs ih => rw [conjunctsOf, ih, List.flatMap_cons]

lemma mem_attributeNamesOf {name : Text} {qs : List Qualifier} :
    name ∈ attributeNamesOf qs ↔ ∃ q ∈ qs, name ∈ q.attributeNames := by
  induction qs with
  | nil => simp [attributeNamesOf]
  | cons q qs ih => simp [attributeNamesOf, ih]

lemma qualifierConditions_eq (qs : List Qualifier) :
    qualifierConditions qs = qs.map fun q => (q.connective, q.condition) := by
  induction qs with
  | nil => rfl
  | cons q qs ih =>
    show (q.connective, q.condition) :: qualifierConditions qs = _
    rw [ih, List.map_cons]

/-! ## Conditions in a row -/

/-- A condition with its connective stands for conjuncts that begin a predicate or go on with the
one before. -/
def StandsFor (condition : Text × Text) (part : Bool × List Expr) : Prop :=
  condition.1 = (if part.1 then "][".toList else " and ".toList) ∧ Conjoins part.2 condition.2

/-- Conjuncts that begin predicates or go on with the one before, put together to predicates. -/
def gather (current : List Expr) : List (Bool × List Expr) → List Expr
  | [] => [conjunction current]
  | (true, es) :: more => conjunction current :: gather es more
  | (false, es) :: more => gather (current ++ es) more

/-- The predicates of conditions in a row. -/
def predicatesOf : List (Bool × List Expr) → List Expr
  | [] => []
  | (_, es) :: more => gather es more

/-- Conditions in a row between brackets are read as predicates. -/
lemma writes_gather {current : List Expr} {x : Text} (hx : Conjoins current x)
    {conditions : List (Text × Text)} {parts : List (Bool × List Expr)}
    (h : List.Forall₂ StandsFor conditions parts) :
    Writes (.predicates (gather current parts))
      ('[' :: (x ++ (conditions.flatMap fun (connective, c) => connective ++ c) ++ [']'])) := by
  induction h generalizing current x with
  | nil => simpa [gather] using Writes.predicate (.of_rank_le (by decide) hx.alone) .noPredicates
  | @cons condition part conditions parts hhead htail ih =>
    obtain ⟨connective, c⟩ := condition
    obtain ⟨opens, es⟩ := part
    obtain ⟨hconnective, hc⟩ := hhead
    cases opens with
    | true =>
      obtain rfl : connective = [']', '['] := by simpa using hconnective
      simpa [gather] using Writes.predicate (.of_rank_le (by decide) hx.alone) (ih hc)
    | false =>
      obtain rfl : connective = " and ".toList := hconnective
      simpa [gather] using ih (hx.append hc)

lemma writes_predicatesOf {conditions : List (Text × Text)} {parts : List (Bool × List Expr)}
    (h : List.Forall₂ StandsFor conditions parts) (hne : conditions ≠ []) :
    Writes (.predicates (predicatesOf parts)) ('[' :: (joinConditions conditions ++ [']'])) := by
  cases h with
  | nil => exact absurd rfl hne
  | cons hhead htail => simpa [predicatesOf, joinConditions] using writes_gather hhead.2 htail

/-- Conditions none of which begins a predicate are conjuncts together. -/
lemma conjoins_joinConditions {conditions : List (Text × Text)}
    {parts : List (Bool × List Expr)} (h : List.Forall₂ StandsFor conditions parts)
    (hne : conditions ≠ []) (hopens : ∀ part ∈ parts, part.1 = false) :
    Conjoins (parts.flatMap (·.2)) (joinConditions conditions) := by
  have hmore : ∀ {es : List Expr} {x : Text}, Conjoins es x →
      ∀ {conditions : List (Text × Text)} {parts : List (Bool × List Expr)},
      List.Forall₂ StandsFor conditions parts → (∀ part ∈ parts, part.1 = false) →
      Conjoins (es ++ parts.flatMap (·.2))
        (x ++ conditions.flatMap fun (connective, c) => connective ++ c) := by
    intro es x hx conditions parts h hopens
    induction h generalizing es x with
    | nil => simpa using hx
    | @cons condition part conditions parts hhead htail ih =>
      obtain ⟨connective, c⟩ := condition
      obtain ⟨opens, es'⟩ := part
      obtain ⟨hconnective, hc⟩ := hhead
      obtain rfl : opens = false := hopens (opens, es') (by simp)
      obtain rfl : connective = " and ".toList := hconnective
      simpa using ih (hx.append hc) fun p hp => hopens p (by simp [hp])
  cases h with
  | nil => exact absurd rfl hne
  | @cons condition part conditions parts hhead htail =>
    simpa [joinConditions] using hmore hhead.2 htail fun p hp => hopens p (by simp [hp])

/-! ## Compounds -/

/-- The type of an element as a part of a predicate. -/
def typeParts (type : Option Text) : List (Bool × List Expr) :=
  type.toList.map fun name => (false, [typeExpr name])

/-- A qualifier as a part of predicates. -/
def Qualifier.part (q : Qualifier) : Bool × List Expr := (q.isTypeRelative, q.conjuncts)

/-- The conjuncts of a type and of qualifiers. -/
lemma flatMap_parts (type : Option Text) (qs : List Qualifier) :
    (typeParts type ++ qs.map Qualifier.part).flatMap (·.2) =
      typeConjuncts type ++ conjunctsOf qs := by
  rw [List.flatMap_append, conjunctsOf_eq, List.flatMap_map]
  cases type <;> rfl

/-- The condition that a combinator makes of its own, as a part of a predicate. -/
def Combinator.parts : Combinator → List (Bool × List Expr)
  | .adjacent => [(false, [positionIs .equal (numberExpr 1)])]
  | _ => []

/-- The predicates of a compound reached by a combinator. -/
def Compound.predicates (combinator : Combinator) (c : Compound) : List Expr :=
  predicatesOf (combinator.parts ++ typeParts c.type ++ c.qualifiers.map Qualifier.part)

/-- The condition on a type stands for its conjunct. -/
lemma typeConditions_standFor {type : Option Text} (h : ∀ t ∈ type, IsTypeName t) :
    List.Forall₂ StandsFor (typeConditions type) (typeParts type) := by
  cases type with
  | none => exact .nil
  | some name =>
    refine .cons ⟨rfl, .single ?_⟩ .nil
    obtain rfl | hname := h name rfl
    · exact .of_step .selfAny
    · have hstar : name ≠ ['*'] := by
        rintro rfl
        cases hname
      rw [typeExpr, if_neg hstar]
      exact .of_step (.selfNamed hname)

/-- The conditions of qualifiers stand for their conjuncts when each of them does. -/
lemma qualifierConditions_standFor {qs : List Qualifier}
    (h : ∀ q ∈ qs, Conjoins q.conjuncts q.condition) :
    List.Forall₂ StandsFor (qualifierConditions qs) (qs.map Qualifier.part) := by
  rw [qualifierConditions_eq, List.forall₂_map_left_iff, List.forall₂_map_right_iff,
    List.forall₂_same]
  exact fun q hq => ⟨rfl, h q hq⟩

/-- The condition that a qualifier makes is read as its conjuncts.

**Proof sketch.** By induction on how the qualifier is formed. Within a negation no condition begins
a predicate of its own, so that all of them are conjuncts of its argument. -/
lemma Qualifier.conjoins {q : Qualifier} (hq : q.WellFormed)
    (hnames : ∀ name ∈ q.attributeNames, XPath.isName name = true) :
    Conjoins q.conjuncts q.condition := by
  induction hq with
  | @className name hne h =>
    have hname : '"' ∉ name := fun hmem => by cases h _ hmem
    have hquote : '"' ∉ ' ' :: (name ++ [' ']) := by simp [hname]
    have := Writes.call₂ "contains" rfl rfl rfl
      (writes_padded (writes_attribute (show XPath.isName "class".toList = true from rfl))) (writes_quoted hquote)
    have htext : (Qualifier.className name).condition =
      "contains(concat(\" \", @class, \" \"), \" ".toList ++ name ++ " \")".toList := rfl
    rw [htext]
    exact .single (.of_primary (by simpa [classExpr] using this))
  | identifier name =>
    have := Writes.binary (l := .equality) rfl .equal (writes_attribute (show XPath.isName "id".toList = true from rfl))
      (writes_literal name)
    have htext : (Qualifier.identifier name).condition = "@id=".toList ++ literal name := rfl
    rw [htext]
    exact .single (by simpa using this)
  | @attr name h test =>
    exact .single (test.writes_condition (hnames name (by simp [attributeNames])))
  | place peers place => exact place.conjoins
  | @negation type qs htype hsome hqs hrelative ih =>
    have hparts := List.rel_append (typeConditions_standFor htype)
      (qualifierConditions_standFor fun q hq => ih q hq fun name hname =>
        hnames name (mem_attributeNamesOf.2 ⟨q, hq, hname⟩))
    have hne : typeConditions type ++ qualifierConditions qs ≠ [] := by
      rw [qualifierConditions_eq]
      cases type <;> cases qs <;> simp_all [typeConditions]
    have hopens : ∀ part ∈ typeParts type ++ qs.map Qualifier.part, part.1 = false := by
      intro part hpart
      rw [List.mem_append] at hpart
      obtain hpart | hpart := hpart
      · obtain ⟨name, -, rfl⟩ := List.mem_map.1 hpart
        rfl
      · obtain ⟨q, hq, rfl⟩ := List.mem_map.1 hpart
        exact hrelative q hq
    have harg := (conjoins_joinConditions hparts hne hopens).alone
    rw [flatMap_parts] at harg
    have := Writes.call₁ "not" rfl rfl rfl (.of_rank_le (by decide) harg)
    have htext : (Qualifier.negation type qs).condition = "not(".toList ++
      joinConditions (typeConditions type ++ qualifierConditions qs) ++ ")".toList := rfl
    rw [htext]
    exact .single (.of_primary (by simpa [conjuncts] using this))

/-! ## Alternatives and groups -/

/-- The steps to a compound with the given predicates. -/
def Combinator.steps (predicates : List Expr) : Combinator → List Step
  | .descendant => [.mk .descendantOrSelf .anyName [], .mk .child .anyName predicates]
  | .child => [.mk .child .anyName predicates]
  | .adjacent | .sibling => [.mk .followingSibling .anyName predicates]

/-- The steps of an alternative. -/
def Complex.steps (c : Complex) : List Step :=
  c.flatMap fun (combinator, compound) => combinator.steps (compound.predicates combinator)

/-- The path of an alternative. -/
def Complex.expr (scope : Scope) (c : Complex) : Expr :=
  match scope with
  | .document => .path true (Complex.steps c)
  | .node => .path false (.here :: Complex.steps c)

/-- The expression of a selector group. -/
def Group.expr (scope : Scope) : Group → Expr
  | [] => .literal []
  | c :: g => g.foldl (fun e c => .union e (Complex.expr scope c)) (Complex.expr scope c)

/-- The names of the attributes that an alternative asks for in brackets. -/
def Complex.attributeNames (c : Complex) : List Text :=
  c.flatMap fun (_, compound) => attributeNamesOf compound.qualifiers

/-- The names of the attributes that a selector group asks for in brackets. -/
def Group.attributeNames (g : Group) : List Text := g.flatMap Complex.attributeNames

/-- The attribute that a selector group asks for is one of a qualifier in it. -/
lemma Group.exists_of_mem_attributeNames {g : Group} {name : Text}
    (h : name ∈ Group.attributeNames g) :
    ∃ c ∈ g, ∃ part ∈ c, ∃ q ∈ part.2.qualifiers, name ∈ q.attributeNames := by
  obtain ⟨c, hc, h⟩ := List.mem_flatMap.1 h
  obtain ⟨part, hpart, h⟩ := List.mem_flatMap.1 h
  exact ⟨c, hc, part, hpart, mem_attributeNamesOf.1 h⟩

/-- The condition that a combinator makes of its own stands for its conjunct. -/
lemma Combinator.conditions_standFor (combinator : Combinator) :
    List.Forall₂ StandsFor combinator.conditions combinator.parts := by
  cases combinator with
  | adjacent => exact .cons ⟨rfl, Place.first.conjoins⟩ .nil
  | _ => exact .nil

/-- The condition of a compound is read as its predicates. -/
lemma Compound.writes_condition (combinator : Combinator) {c : Compound} (hc : c.WellFormed)
    (hnames : ∀ name ∈ attributeNamesOf c.qualifiers, XPath.isName name = true) :
    Writes (.predicates (c.predicates combinator))
      ('[' :: (c.condition combinator ++ [']'])) := by
  have hqualifiers : ∀ q ∈ c.qualifiers, Conjoins q.conjuncts q.condition := fun q hq =>
    Qualifier.conjoins (hc.qualifiers q hq) fun name hname =>
      hnames name (mem_attributeNamesOf.2 ⟨q, hq, hname⟩)
  refine writes_predicatesOf (List.rel_append (List.rel_append combinator.conditions_standFor
    (typeConditions_standFor hc.type)) (qualifierConditions_standFor hqualifiers)) ?_
  have hsome := hc.some
  rw [qualifierConditions_eq]
  cases htype : c.type <;> cases hqs : c.qualifiers <;> simp_all [typeConditions]

/-- The step to a compound is read as the steps of its combinator. -/
lemma writes_stepText (combinator : Combinator) {c : Compound} (hc : c.WellFormed)
    (hnames : ∀ name ∈ attributeNamesOf c.qualifiers, XPath.isName name = true) :
    Writes (.steps (combinator.steps (c.predicates combinator))) (stepText combinator c) := by
  have hps := c.writes_condition combinator hc hnames
  delta stepText Combinator.axis Combinator.steps
  cases combinator with
  | descendant =>
    have hthroughout := Writes.onAxis .descendantOrSelf (c := 'd')
      (p := "escendant-or-self".toList) rfl (fun _ => rfl) rfl .noPredicates
    have := (Writes.slash (by decide) hthroughout).steps_append
      (.slash (by decide) (.children hps))
    simpa using this
  | child =>
    have := Writes.slash (by decide) (.onAxis .child (c := 'c') (p := "hild".toList) rfl
      (fun _ => rfl) rfl hps)
    simpa using this
  | adjacent =>
    have := Writes.slash (by decide) (.onAxis .followingSibling (c := 'f')
      (p := "ollowing-sibling".toList) rfl (fun _ => rfl) rfl hps)
    simpa using this
  | sibling =>
    have := Writes.slash (by decide) (.onAxis .followingSibling (c := 'f')
      (p := "ollowing-sibling".toList) rfl (fun _ => rfl) rfl hps)
    simpa using this

/-- A step to a compound begins with a slash. -/
lemma exists_stepText (combinator : Combinator) (c : Compound) :
    ∃ x, stepText combinator c = '/' :: x := by
  cases combinator <;> exact ⟨_, rfl⟩

/-- The steps to compounds are read as the steps of an alternative. -/
lemma Complex.writes_steps {c : Complex} (hc : ∀ part ∈ c, part.2.WellFormed)
    (hnames : ∀ name ∈ Complex.attributeNames c, XPath.isName name = true) :
    Writes (.steps (Complex.steps c))
      (c.flatMap fun (combinator, compound) => stepText combinator compound) := by
  induction c with
  | nil => exact .noSteps
  | cons part c ih =>
    obtain ⟨combinator, compound⟩ := part
    rw [List.forall_mem_cons] at hc
    have hhead := writes_stepText combinator hc.1 fun name hname =>
      hnames name (by simp [attributeNames, hname])
    refine hhead.steps_append (ih hc.2 fun name hname => hnames name ?_)
    rw [attributeNames, List.flatMap_cons, List.mem_append]
    exact .inr hname

/-- The path of an alternative is read as its expression. -/
lemma Complex.writes_toXPath {l : XPath.Level} (scope : Scope) {c : Complex}
    (hc : Complex.WellFormed c)
    (hnames : ∀ name ∈ Complex.attributeNames c, XPath.isName name = true) :
    Writes (.expr l (Complex.expr scope c)) (Complex.toXPath scope c) := by
  obtain ⟨hne, hparts⟩ := hc
  have hsteps := Complex.writes_steps hparts hnames
  obtain ⟨⟨combinator, compound⟩, c, rfl⟩ := List.exists_cons_of_ne_nil hne
  obtain ⟨x, hx⟩ := exists_stepText combinator compound
  have htext : (((combinator, compound) :: c).flatMap fun (combinator, compound) =>
      stepText combinator compound) =
        '/' :: (x ++ c.flatMap fun (combinator, compound) => stepText combinator compound) := by
    rw [List.flatMap_cons]
    show stepText combinator compound ++ _ = _
    rw [hx, List.cons_append]
  rw [htext] at hsteps
  rw [Complex.toXPath, htext]
  cases scope with
  | document =>
    refine Writes.absolute ?_ hsteps
    cases combinator <;> simp [Complex.steps, Combinator.steps]
  | node => exact Writes.fromHere hsteps

/-- The paths of the alternatives of a group, one after the other. -/
lemma Group.toXPath_cons (scope : Scope) (c : Complex) (g : Group) :
    Group.toXPath scope (c :: g) =
      Complex.toXPath scope c ++ g.flatMap fun c => " | ".toList ++ Complex.toXPath scope c := by
  induction g generalizing c with
  | nil => simp [Group.toXPath, join, List.intercalate]
  | cons d g ih =>
    have hd := ih d
    rw [Group.toXPath, join] at hd ⊢
    rw [List.map_cons, List.intercalate_cons_of_ne_nil (by simp), hd, List.flatMap_cons]
    simp

/-- The text of a selector group is read as its expression. -/
theorem Group.writes_toXPath (scope : Scope) {g : Group} (hg : Group.WellFormed g)
    (hnames : ∀ name ∈ Group.attributeNames g, XPath.isName name = true) :
    Writes (.expr .union (Group.expr scope g)) (Group.toXPath scope g) := by
  obtain ⟨hne, halternatives⟩ := hg
  have hwrites : ∀ c ∈ g, ∀ {l : XPath.Level},
      Writes (.expr l (Complex.expr scope c)) (Complex.toXPath scope c) := fun c hc l =>
    Complex.writes_toXPath scope (halternatives c hc) fun name hname =>
      hnames name (List.mem_flatMap.2 ⟨c, hc, hname⟩)
  have hmore : ∀ (cs : Group), (∀ c ∈ cs, ∀ {l : XPath.Level},
      Writes (.expr l (Complex.expr scope c)) (Complex.toXPath scope c)) → ∀ {e : Expr} {x : Text},
      Writes (.expr .union e) x →
      Writes (.expr .union (cs.foldl (fun e c => .union e (Complex.expr scope c)) e))
        (x ++ cs.flatMap fun c => " | ".toList ++ Complex.toXPath scope c) := by
    intro cs
    induction cs with
    | nil => intro _ e x hx; simpa using hx
    | cons c cs ih =>
      intro hcs e x hx
      rw [List.forall_mem_cons] at hcs
      have := ih hcs.2 (Writes.binary (l := .union) rfl .union hx hcs.1)
      simpa only [List.append_assoc, List.flatMap_cons, List.foldl_cons] using this
  obtain ⟨c, cs, rfl⟩ := List.exists_cons_of_ne_nil hne
  rw [List.forall_mem_cons] at hwrites
  rw [Group.toXPath_cons]
  exact hmore cs hwrites.2 hwrites.1

end WebCrawl.Css
