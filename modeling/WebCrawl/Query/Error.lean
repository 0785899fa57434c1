import WebCrawl.Text.Quoted

/-!
# Errors of queries

A selector or an expression that cannot be compiled is reported with its text, the byte at which
the fault was found, and the reason.

## Main definitions

* `WebCrawl.Query.Error` — the errors.
* `WebCrawl.Query.Error.message` — their wording.
-/

set_option autoImplicit false

namespace WebCrawl.Query

/-- Why a query cannot be compiled. -/
inductive Error where
  /-- The text is no selector. -/
  | invalidCss (selector : Text) (offset : Nat) (reason : Text)
  /-- A pseudo-class for which there is no expression, with its colon. -/
  | unsupportedPseudoClass (name : Text)
  /-- The text is no expression. -/
  | invalidXPath (expression : Text) (offset : Nat) (reason : Text)
deriving DecidableEq, Repr

/-- The wording of an error. -/
def Error.message : Error → Text
  | .invalidCss selector offset reason =>
    "invalid CSS selector " ++ Text.quoted selector ++ " at offset " ++ Text.ofNat offset ++ ": " ++
      reason
  | .unsupportedPseudoClass name =>
    "cannot convert CSS pseudo-class " ++ Text.quoted name ++ " to XPath"
  | .invalidXPath expression offset reason =>
    "invalid XPath expression " ++ Text.quoted expression ++ " at offset " ++ Text.ofNat offset ++
      ": " ++ reason

end WebCrawl.Query
