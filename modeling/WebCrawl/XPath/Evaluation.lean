import WebCrawl.XPath.Axes
import WebCrawl.XPath.Value

/-!
# Evaluation of XPath expressions

An expression has a value at a focus: a location, its position among the locations looked at, and
their number. Evaluation does not fail.

## Main definitions

* `WebCrawl.XPath.Focus` — where an expression is evaluated.
* `WebCrawl.XPath.Function.apply` — the value of a function at its arguments.
* `WebCrawl.XPath.Expr.value` — the value of an expression.
* `WebCrawl.XPath.evaluate` — its value at a location on its own.
-/

set_option autoImplicit false

namespace WebCrawl.XPath

open Html

/-- Where an expression is evaluated. -/
structure Focus where
  /-- The location. -/
  location : Location
  /-- Its position among the locations looked at, the first being one. -/
  position : Nat
  /-- The number of locations looked at. -/
  size : Nat

/-! ## Functions -/

/-- The characters of `text` whose positions are at least `start` and less than `stop`. -/
def substring (text : Text) (start stop : Double) : Text :=
  (text.zipIdx 1).filterMap fun (c, i) =>
    let position := Double.ofNat i
    if Double.le start position && Double.lt position stop then some c else none

/-- The text with the characters of `source` replaced by those of `target` at the same places;
those that have none there are left out. -/
def translate (text source target : Text) : Text :=
  text.filterMap fun c =>
    match source.findIdx? (· == c) with
    | some i => target[i]?
    | none => some c

/-- The words of a text with single spaces between them. -/
def normalizeSpace (text : Text) : Text := Text.join [' '] (Text.words text)

/-- The text before the first occurrence of another, empty if there is none. -/
def substringBefore (text sought : Text) : Text := ((Text.find? text sought).map (·.1)).getD []

/-- The text after the first occurrence of another, empty if there is none. -/
def substringAfter (text sought : Text) : Text := ((Text.find? text sought).map (·.2)).getD []

/-- The part of a name after its last colon. -/
def localPart (name : Text) : Text := (name.reverse.takeWhile (· != ':')).reverse

/-- The sum of numbers from left to right. The sum of none is the negative zero. -/
def sum (numbers : List Double) : Double := numbers.foldl (· + ·) (-0)

section Apply

variable (a : Arena) (f : Focus) (arguments : List Value)

/-- The argument as a text; one that is not given is the text at the focus. -/
def textArgument (i : Nat) : Text :=
  match arguments[i]? with
  | some v => v.toText a
  | none => a.textAt f.location

/-- The argument as a number; one that is not given is the number that the text at the focus is
written as. -/
def numberArgument (i : Nat) : Double :=
  match arguments[i]? with
  | some v => v.toNumber a
  | none => numberOfText (a.textAt f.location)

/-- The locations of the first argument. -/
def locationsArgument : List Location := (arguments.head?.map Value.locations).getD []

/-- The truth value of the first argument. -/
def truthArgument : Bool := (arguments.head?.map Value.toBool).getD false

/-- The name at the first location of the first argument, or at the focus if it is not given. -/
def nameArgument : Text :=
  let location := match arguments.head? with
    | some v => v.locations.head?
    | none => some f.location
  (location.bind a.nameAt?).getD []

/-- The value of a function at its arguments. -/
def Function.apply : Function → Value
  | last => .number (.ofNat f.size)
  | position => .number (.ofNat f.position)
  | count => .number (.ofNat (locationsArgument arguments).length)
  | not => .boolean (!truthArgument arguments)
  | true => .boolean .true
  | false => .boolean .false
  | boolean => .boolean (truthArgument arguments)
  | number => .number (numberArgument a f arguments 0)
  | string => .string (textArgument a f arguments 0)
  | concat => .string (arguments.flatMap (Value.toText a))
  | contains =>
    .boolean (Text.contains (textArgument a f arguments 0) (textArgument a f arguments 1))
  | startsWith =>
    .boolean (Text.startsWith (textArgument a f arguments 0) (textArgument a f arguments 1))
  | endsWith =>
    .boolean (Text.endsWith (textArgument a f arguments 0) (textArgument a f arguments 1))
  | substring =>
    let start := roundHalfUp (numberArgument a f arguments 1)
    let stop := if arguments.length ≤ 2 then Double.infinity .false
      else start + roundHalfUp (numberArgument a f arguments 2)
    .string (XPath.substring (textArgument a f arguments 0) start stop)
  | substringBefore =>
    .string (XPath.substringBefore (textArgument a f arguments 0) (textArgument a f arguments 1))
  | substringAfter =>
    .string (XPath.substringAfter (textArgument a f arguments 0) (textArgument a f arguments 1))
  | stringLength => .number (.ofNat (textArgument a f arguments 0).length)
  | normalizeSpace => .string (XPath.normalizeSpace (textArgument a f arguments 0))
  | translate =>
    .string (XPath.translate (textArgument a f arguments 0) (textArgument a f arguments 1)
      (textArgument a f arguments 2))
  | name => .string (nameArgument a f arguments)
  | localName => .string (localPart (nameArgument a f arguments))
  | sum =>
    .number (XPath.sum ((locationsArgument arguments).map fun x => numberOfText (a.textAt x)))
  | floor => .number (numberArgument a f arguments 0).floor
  | ceiling => .number (numberArgument a f arguments 0).ceiling
  | round => .number (roundHalfUp (numberArgument a f arguments 0))

end Apply

/-- The result of an arithmetic operator. -/
def Arithmetic.apply (x y : Double) : Arithmetic → Double
  | add => x + y
  | sub => x - y
  | mul => x * y
  | div => x / y
  | mod => x.remainder y

/-! ## Expressions -/

/-- Whether a predicate with the value `v` keeps the location at a position: a number has to be the
position, any other value has to be true. -/
def keeps (position : Nat) : Value → Bool
  | .number x => x.eq (.ofNat position)
  | v => v.toBool

/-- The locations at which a predicate holds, numbered in the order of the list. -/
def keep (predicate : Focus → Value) (locations : List Location) : List Location :=
  ((locations.zipIdx 1).filter fun (x, i) =>
    keeps i (predicate ⟨x, i, locations.length⟩)).map (·.1)

variable (a : Arena)

mutual

/-- The value of an expression at a focus. -/
def Expr.value : Expr → Focus → Value
  | .or l r, f => .boolean ((l.value f).toBool || (r.value f).toBool)
  | .and l r, f => .boolean ((l.value f).toBool && (r.value f).toBool)
  | .compare c l r, f => .boolean (XPath.compare a c (l.value f) (r.value f))
  | .arithmetic op l r, f => .number (op.apply ((l.value f).toNumber a) ((r.value f).toNumber a))
  | .negate e, f => .number (-(e.value f).toNumber a)
  | .union l r, f => .nodes (Location.arrange ((l.value f).locations ++ (r.value f).locations))
  | .path absolute steps, f =>
    .nodes (walk steps [if absolute then .node Arena.root else f.location])
  | .filter primary predicates steps, f =>
    .nodes (walk steps (keepAll predicates (primary.value f).locations))
  | .literal text, _ => .string text
  | .number x, _ => .number x
  | .call function arguments, f => function.apply a f (argumentValues arguments f)

/-- The values of a list of expressions. -/
def argumentValues : List Expr → Focus → List Value
  | [], _ => []
  | e :: es, f => e.value f :: argumentValues es f

/-- The locations that each of the predicates keeps of those that the ones before it have kept. -/
def keepAll : List Expr → List Location → List Location
  | [], xs => xs
  | p :: ps, xs => keepAll ps (keep (fun f => p.value f) xs)

/-- The locations that a step leads to from one location. -/
def Step.reach : Step → Location → List Location
  | .mk axis test predicates, x =>
    keepAll predicates ((axis.locations a x).filter (test.passes a))

/-- The locations that a path leads to. -/
def walk : List Step → List Location → List Location
  | [], xs => xs
  | s :: ss, xs => walk ss (Location.arrange (xs.flatMap fun x => s.reach x))

end

/-- The value of an expression at a location on its own. -/
def evaluate (e : Expr) (context : Location) : Value := e.value a ⟨context, 1, 1⟩

end WebCrawl.XPath
