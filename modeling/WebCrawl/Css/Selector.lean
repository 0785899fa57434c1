import WebCrawl.Text.Basic

/-!
# CSS selectors

A selector group is a list of alternatives. Each alternative is a chain of compounds, every one
reached from the one before by a combinator; the first is reached from the node that the query
starts from. A compound asks for a type of element and any number of further qualities.

## Main definitions

* `WebCrawl.Css.Qualifier`, `WebCrawl.Css.Compound` — what a single element is asked for.
* `WebCrawl.Css.Complex`, `WebCrawl.Css.Group` — chains of compounds and their alternatives.
* `WebCrawl.Css.Fault` — why a text is no selector.
-/

set_option autoImplicit false

namespace WebCrawl.Css

/-! ## Selectors -/

/-- How an element stands to the element reached before it. -/
inductive Combinator where
  /-- Anywhere below it. -/
  | descendant
  /-- Directly below it. -/
  | child
  /-- The next element with the same parent. -/
  | adjacent
  /-- Any later element with the same parent. -/
  | sibling
deriving DecidableEq, Repr

/-- What is asked of the value of an attribute. -/
inductive AttributeTest where
  /-- The attribute is there. -/
  | present
  /-- The value is the given text. -/
  | equals (value : Text)
  /-- The given text is one of the words of the value. -/
  | includes (value : Text)
  /-- The value is the given text, or begins with it and a hyphen. -/
  | dashMatch (value : Text)
  /-- The value begins with the given text. -/
  | beginsWith (value : Text)
  /-- The value ends with the given text. -/
  | endsWith (value : Text)
  /-- The given text occurs in the value. -/
  | contains (value : Text)
deriving DecidableEq, Repr

/-- The indices that a numeric argument picks out. -/
inductive Nth where
  /-- The even ones. -/
  | even
  /-- The odd ones. -/
  | odd
  /-- Those of the form `a * k + b` for some natural number `k`. -/
  | progression (a b : Int)
  /-- The one given. -/
  | only (b : Int)
deriving DecidableEq, Repr

/-- What is asked of the place of an element among its siblings. -/
inductive Place where
  /-- It is the first. -/
  | first
  /-- It is the last. -/
  | last
  /-- It is the only one. -/
  | sole
  /-- Its index is among those given. -/
  | nth (argument : Nth)
deriving DecidableEq, Repr

/-- Which siblings a place is counted among. -/
inductive Peers where
  /-- All of them. -/
  | all
  /-- Those of the same type. -/
  | sameType
deriving DecidableEq, Repr

/-- One quality asked of an element, besides its type. -/
inductive Qualifier where
  /-- It carries a class. -/
  | className (name : Text)
  /-- It carries an identifier. -/
  | identifier (name : Text)
  /-- One of its attributes passes a test. -/
  | attr (name : Text) (test : AttributeTest)
  /-- It stands at a place among its peers. -/
  | place (peers : Peers) (place : Place)
  /-- It has not all the qualities of a compound. -/
  | negation (type : Option Text) (qualifiers : List Qualifier)
deriving Repr

/-- The type asked of an element, if any, and its further qualities. -/
structure Compound where
  /-- The name of the type, or a star for every type. -/
  type : Option Text
  /-- The further qualities, in the order written. -/
  qualifiers : List Qualifier
deriving Repr

/-- A chain of compounds, each with the combinator that leads to it. -/
abbrev Complex := List (Combinator × Compound)

/-- The alternatives of a selector. -/
abbrev Group := List Complex

/-- Where a selector starts to match. -/
inductive Scope where
  /-- At the root of the document. -/
  | document
  /-- At the node that the query is put to. -/
  | node
deriving DecidableEq, Repr

/-- Whether the qualifier counts places among siblings of one type. -/
def Qualifier.isTypeRelative : Qualifier → Bool
  | .place .sameType _ => true
  | _ => false

/-! ## Faults -/

/-- Why a text is no selector. -/
inductive Fault where
  | emptySelector
  | unexpectedInput
  | expectedCompound
  | typeRelativeNegation
  | missingNthArgument
  | invalidNthArgument
  | unterminatedNthArgument
  | integerOutOfRange
  | missingNegationArgument
  | unterminatedNegationArgument
  | missingAttributeName
  | missingAttributeOperator
  | missingAttributeValue
  | unterminatedAttribute
  /-- The pseudo-class, colon included, is none of those that are known. -/
  | unsupportedPseudoClass (name : Text)
deriving DecidableEq, Repr

/-- The wording of a fault. -/
def Fault.reason : Fault → Text
  | .emptySelector => "empty selector"
  | .unexpectedInput => "unexpected input"
  | .expectedCompound => "expected an element or a qualifier"
  | .typeRelativeNegation => "type-relative pseudo-classes cannot be negated"
  | .missingNthArgument => ":nth-child and :nth-of-type require a parenthesized argument"
  | .invalidNthArgument => "invalid argument to :nth-child or :nth-of-type"
  | .unterminatedNthArgument => "unterminated argument to :nth-child or :nth-of-type"
  | .integerOutOfRange => "integer out of range"
  | .missingNegationArgument => ":not requires a parenthesized argument"
  | .unterminatedNegationArgument => "unterminated argument to :not"
  | .missingAttributeName => "attribute selector requires an attribute name"
  | .missingAttributeOperator => "missing operator in attribute selector"
  | .missingAttributeValue => "missing value in attribute selector"
  | .unterminatedAttribute => "unterminated attribute selector"
  | .unsupportedPseudoClass name => name

end WebCrawl.Css
