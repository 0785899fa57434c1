import WebCrawl.Crawl.Error
import WebCrawl.Crawl.Request
import WebCrawl.Crawl.Settings
import WebCrawl.Http.Fields
import WebCrawl.Url.Basic

/-!
# Requests on the wire

A request is sent only if all its parts can be. Cookies, the host and the user agent become header
fields beside those that the caller set.

## Main definitions

* `WebCrawl.Crawl.Wire` — a request as it is sent.
* `WebCrawl.Crawl.Wire.ofRequest` — the form of a request in which it is sent.
-/

set_option autoImplicit false

namespace WebCrawl.Crawl

/-- A request as it is sent. -/
structure Wire where
  /-- The method. -/
  method : Text
  /-- The address. -/
  url : Url
  /-- The header fields. -/
  fields : Http.Fields
  /-- What is sent along. -/
  body : ByteArray
  /-- How long the exchange may take. -/
  timeout : Duration
  /-- The address of the proxy. -/
  proxy : Option Url

namespace Wire

/-- The reason that is given for a method that cannot be sent. -/
def badMethod : Text := "invalid method: invalid HTTP method"

/-- The reason that is given for a header name that cannot be sent. -/
def badName : Text := "invalid HTTP header name"

/-- The reason that is given for a value that cannot be sent. -/
def badValue : Text := "failed to parse header value"

/-- A text as the value of a field, or the reason why it cannot be sent. -/
def value (what s : Text) : Except Text (List UInt8) :=
  match Http.textValue? s with
  | some bytes => .ok bytes
  | none => .error (what ++ ": " ++ badValue)

/-- One more header. -/
def addHeader (fields : Http.Fields) (header : Text × Text) : Except Text Http.Fields :=
  match Http.fieldName? header.1 with
  | none => .error ("invalid header name " ++ Text.quoted header.1 ++ ": " ++ badName)
  | some name => do
    let bytes ← value ("invalid value for header " ++ name) header.2
    return fields.append name bytes

/-- The cookies as one text. -/
def cookieText (cookies : List (Text × Text)) : Text :=
  Text.join "; " (cookies.map fun (name, value) => name ++ '=' :: value)

/-- The cookies after the first value that the field has already, if that is plain. -/
def addCookies (fields : Http.Fields) (cookies : List (Text × Text)) : Except Text Http.Fields :=
  if cookies.isEmpty then .ok fields
  else do
    let text := match (fields.get? "cookie").bind Http.plainText? with
      | some given => given ++ "; " ++ cookieText cookies
      | none => cookieText cookies
    let bytes ← value "invalid cookie" text
    return fields.insert "cookie" bytes

/-- The host in place of any other. -/
def addHost (fields : Http.Fields) : Option Text → Except Text Http.Fields
  | none => .ok fields
  | some host => do return fields.insert "host" (← value "invalid host" host)

/-- The user agent, unless there is one. -/
def addAgent (fields : Http.Fields) : Option Text → Except Text Http.Fields
  | none => .ok fields
  | some agent =>
    if fields.contains "user-agent" then .ok fields
    else do return fields.insert "user-agent" (← value "invalid user agent" agent)

/-- All header fields of a request. -/
def fieldsOf {κ : Type} (r : Request κ) (s : Settings) : Except Text Http.Fields := do
  let fields ← r.headers.entries.foldlM addHeader .empty
  let fields ← addCookies fields r.cookies
  let fields ← addHost fields r.host
  addAgent fields s.userAgent

/-- A text as an address, or the reason why it is none. -/
def address (what s : Text) : Except Text Url :=
  match Url.parse s with
  | .ok url => .ok url
  | .error e => .error (what ++ ": " ++ e.message)

/-- The form in which a request is sent, or the reason why it cannot be. -/
def assemble {κ : Type} (r : Request κ) (s : Settings) : Except Text Wire := do
  let method ← if Http.isToken r.method then .ok r.method else .error badMethod
  let url ← address "invalid url" r.url
  let fields ← fieldsOf r s
  let proxy ← r.proxy?.mapM (address "invalid proxy url")
  return ⟨method, url, fields, r.body, r.timeout.getD s.requestTimeout, proxy⟩

/-- The form in which a request is sent. -/
def ofRequest {κ : Type} (r : Request κ) (s : Settings) : Except Error Wire :=
  (assemble r s).mapError (Error.build r.method r.url)

end Wire

end WebCrawl.Crawl
