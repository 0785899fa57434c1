import WebCrawl.Css.Reading
import WebCrawl.Css.Expression
import WebCrawl.Query.Error
import WebCrawl.XPath.Evaluation
import WebCrawl.XPath.Reading

/-!
# Compiled queries

A query is compiled from an XPath expression, or from a selector by way of the expression that
stands for it.

## Main definitions

* `WebCrawl.Query.Source` — what a query is compiled from.
* `WebCrawl.Query.expressionOf` — the expression that stands for a selector.
* `WebCrawl.Query.Compiled` — a query with the text of its expression.
* `WebCrawl.Query.compile` — the query of a source.
* `WebCrawl.Query.Compiled.select` — the locations that a query finds.
-/

set_option autoImplicit false

namespace WebCrawl.Query

open Html

/-- What a query is compiled from. -/
inductive Source where
  /-- An expression. -/
  | xpath (expression : Text)
  /-- A selector and where it starts to match. -/
  | css (selector : Text) (scope : Css.Scope)
deriving DecidableEq, Repr

/-- A query with the text of its expression. -/
structure Compiled where
  /-- The text of the expression. -/
  text : Text
  /-- The expression. -/
  expression : XPath.Expr

/-- The expression that stands for a selector. -/
def expressionOf (selector : Text) (scope : Css.Scope) : Except Error Text :=
  match Css.parse selector with
  | .ok g => .ok (Css.Group.toXPath scope g)
  | .error (.unsupportedPseudoClass name, _) => .error (.unsupportedPseudoClass name)
  | .error (fault, offset) => .error (.invalidCss selector offset fault.reason)

/-- The query of an expression. -/
def ofXPath (text : Text) : Except Error Compiled :=
  match XPath.parse text with
  | .ok e => .ok ⟨text, e⟩
  | .error (fault, offset) => .error (.invalidXPath text offset fault.reason)

/-- The query of a source. -/
def compile : Source → Except Error Compiled
  | .xpath expression => ofXPath expression
  | .css selector scope => expressionOf selector scope >>= ofXPath

namespace Compiled

/-- The value of a query at a location. -/
def evaluate (q : Compiled) (a : Arena) (context : Location) : XPath.Value :=
  XPath.evaluate a q.expression context

/-- The locations that a query finds; an expression with a value of another kind finds none. -/
def select (q : Compiled) (a : Arena) (context : Location) : List Location :=
  (q.evaluate a context).locations

end Compiled

end WebCrawl.Query
