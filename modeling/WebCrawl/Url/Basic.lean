import WebCrawl.Url.Host

/-!
# URLs

A URL has a scheme, perhaps an authority, a path, and perhaps a query and a fragment. The parts are
kept as they are written in the text of the URL.

## Main definitions

* `WebCrawl.Url` — a URL by its parts.
* `WebCrawl.Url.toText` — the text of a URL.
* `WebCrawl.Url.parse` — the URL of a text.
* `WebCrawl.Url.resolve` — the URL of a text that may be relative to another.
* `WebCrawl.Url.join` — the same on texts.
-/

set_option autoImplicit false

namespace WebCrawl

namespace Url

open Text

/-- Who is asked, under which name. -/
structure Authority where
  /-- The user name with the password, if one is given. -/
  user : Text
  /-- The host. -/
  host : Text
  /-- The port, if it is not the one of the scheme. -/
  port : Option Nat
deriving DecidableEq, Repr

/-- What is asked for. -/
inductive Path where
  /-- A text without structure. -/
  | plain (text : Text)
  /-- The pieces between slashes. -/
  | segments (pieces : List Text)
deriving DecidableEq, Repr

end Url

/-- A URL by its parts. -/
structure Url where
  /-- The scheme, without its colon. -/
  scheme : Text
  /-- The authority, if there is one. -/
  authority : Option Url.Authority
  /-- The path. -/
  path : Url.Path
  /-- The query, without its question mark. -/
  query : Option Text
  /-- The fragment, without its number sign. -/
  fragment : Option Text
deriving DecidableEq, Repr

namespace Url

open Text

/-! ## Text -/

/-- The text of an authority. -/
def Authority.toText (a : Authority) : Text :=
  (if a.user.isEmpty then [] else a.user ++ ['@']) ++ a.host ++
    (match a.port with
     | some n => ':' :: ofNat n
     | none => [])

/-- The text of a path. -/
def Path.toText : Path → Text
  | .plain text => text
  | .segments pieces => pieces.flatMap ('/' :: ·)

/-- The text of a URL. A path that would look like an authority is set off by a dot. -/
def toText (u : Url) : Text :=
  let path := u.path.toText
  u.scheme ++ [':'] ++
    (match u.authority with
     | some a => "//".toList ++ a.toText
     | none => if startsWith path "//" then "/.".toList else []) ++
    path ++
    (match u.query with
     | some q => '?' :: q
     | none => []) ++
    (match u.fragment with
     | some f => '#' :: f
     | none => [])

/-! ## Schemes -/

/-- The schemes whose URLs always have a host and a path, with their ports. -/
def specialSchemes : List (Text × Option Nat) :=
  [("http".toList, some 80), ("https".toList, some 443), ("ftp".toList, some 21),
   ("ws".toList, some 80), ("wss".toList, some 443), ("file".toList, none)]

/-- Whether a scheme is special. -/
def isSpecial (scheme : Text) : Bool := (specialSchemes.lookup scheme).isSome

/-- The port of a scheme. -/
def defaultPort? (scheme : Text) : Option Nat := (specialSchemes.lookup scheme).join

/-- Whether the scheme is that of files. -/
def isFile (scheme : Text) : Bool := scheme == "file".toList

/-- Whether the character may stand in a scheme. -/
def isSchemeChar (c : Char) : Bool := c.isAlphanum || c == '+' || c == '-' || c == '.'

/-- The scheme at the start of a text, and what follows its colon. -/
def schemeOf? (s : Text) : Option (Text × Text) :=
  if s.head?.any Char.isAlpha then
    match s.dropWhile isSchemeChar with
    | ':' :: r => some (lower (s.takeWhile isSchemeChar), r)
    | _ => none
  else none

/-! ## Pieces of a text -/

/-- The text without what surrounds and interrupts a URL: control characters and spaces at its ends,
and tabs and line breaks anywhere. -/
def clean (s : Text) : Text :=
  let outer (c : Char) : Bool := c.toNat ≤ 32
  (((s.dropWhile outer).reverse.dropWhile outer).reverse).filter
    fun c => c != '\t' && c != '\n' && c != '\r'

/-- Whether the character ends an authority. -/
def endsAuthority (special : Bool) (c : Char) : Bool :=
  c == '/' || c == '?' || c == '#' || (special && c == '\\')

/-- Whether the character divides the segments of a path. -/
def isSlash (special : Bool) (c : Char) : Bool := c == '/' || (special && c == '\\')

/-- The text before its first question mark or number sign, and the rest. -/
def splitPath (s : Text) : Text × Text := s.span fun c => c != '?' && c != '#'

/-- The query and the fragment in what follows a path. -/
def queryAndFragment (special : Bool) (s : Text) : Option Text × Option Text :=
  let kept := if special then keptInSpecialQuery else keptInQuery
  let fragmentOf (r : Text) : Option Text :=
    match r with
    | '#' :: f => some (percentEncode keptInFragment f)
    | _ => none
  match s with
  | '?' :: r =>
    let (q, r) := r.span (· != '#')
    (some (percentEncode kept q), fragmentOf r)
  | r => (none, fragmentOf r)

/-! ## Paths -/

/-- The pieces of a text between slashes. -/
def pieces (special : Bool) (s : Text) : List Text :=
  match s with
  | [] => [[]]
  | c :: r =>
    if isSlash special c then [] :: pieces special r
    else match pieces special r with
      | [] => [[c]]
      | p :: ps => (c :: p) :: ps

/-- Whether a segment stands for the one it is in. -/
def isSingleDot (segment : Text) : Bool :=
  [".".toList, "%2e".toList].contains (lower segment)

/-- Whether a segment stands for the one above. -/
def isDoubleDot (segment : Text) : Bool :=
  ["..".toList, ".%2e".toList, "%2e.".toList, "%2e%2e".toList].contains (lower segment)

/-- Segments put below others, which are in reverse. Dots are followed; where they come last, the
path ends in a slash. -/
def descend (above : List Text) : List Text → List Text
  | [] => above.reverse
  | s :: more =>
    let last := more.isEmpty
    if isDoubleDot s then
      descend (if last then [] :: above.tail else above.tail) more
    else if isSingleDot s then descend (if last then [] :: above else above) more
    else descend (s :: above) more

/-- The path of a text below other segments, which are in reverse. -/
def pathBelow (above : List Text) (special : Bool) (s : Text) : Path :=
  .segments (descend above ((pieces special s).map (percentEncode keptInPath)))

/-- Segments without the empty ones that others follow at the start. -/
def withoutLeadingEmpty : List Text → List Text
  | [] :: s :: more => withoutLeadingEmpty (s :: more)
  | segments => segments

/-- A path that starts with one slash only, as those of files do. -/
def Path.ofFile : Path → Path
  | .segments pieces => .segments (withoutLeadingEmpty pieces)
  | .plain text => .plain text

/-- A path as the scheme has it. -/
def Path.under (scheme : Text) (p : Path) : Path := if isFile scheme then p.ofFile else p

/-- The path that follows an authority. Under a special scheme there always is one. -/
def pathAfterAuthority (special : Bool) (s : Text) : Path :=
  match s with
  | [] => if special then .segments [[]] else .segments []
  | c :: r => pathBelow [] special (if isSlash special c then r else c :: r)

/-! ## Authorities -/

/-- The user name and password of an authority, and the host and port after them. -/
def userOf (s : Text) : Option Text × Text :=
  let host := (s.reverse.takeWhile (· != '@')).reverse
  if host.length = s.length then (none, s) else (some (s.take (s.length - host.length - 1)), host)

/-- A user name and password as they are written: an empty password has no colon. -/
def userText (s : Text) : Text :=
  let (name, password) := s.span (· != ':')
  let name := percentEncode keptInUser name
  match password with
  | [] => name
  | [_] => name
  | _ :: p => name ++ ':' :: percentEncode keptInUser p

/-- The host and, after it, the port with its colon. A colon within brackets belongs to the
host. -/
def splitPort (inBrackets : Bool) : Text → Text × Text
  | [] => ([], [])
  | c :: r =>
    if c = ':' ∧ !inBrackets then ([], c :: r)
    else
      let (host, port) := splitPort (c = '[' || (inBrackets && c != ']')) r
      (c :: host, port)

/-- The port in the text after a host, none if it is that of the scheme or not given. -/
def portOf (scheme : Text) (s : Text) : Except Error (Option Nat) :=
  match s with
  | [] => .ok none
  | _ :: digits =>
    let n := natOfDigits digits
    if !digits.all Char.isDigit || 65535 < n then .error .invalidPort
    else if digits.isEmpty || some n = defaultPort? scheme then .ok none
    else .ok (some n)

/-- The authority that a text spells. Without a host there is no user and no port, and where more
follows the authority it is not a lone at sign. -/
def authorityOf (scheme : Text) (s : Text) (followed : Bool) : Except Error Authority := do
  let special := isSpecial scheme
  let (user, r) := userOf s
  let (host, port) := splitPort false r
  let written := userText (user.getD [])
  let lone := user == some [] && r.isEmpty && followed
  if host.isEmpty && (special || lone || written != [] || !port.isEmpty) then .error .emptyHost
  else
    let host ← if special then specialHost host else opaqueHost host
    return ⟨written, host, ← portOf scheme port⟩

/-- The URL whose authority is at the start of a text. -/
def withAuthority (scheme : Text) (s : Text) : Except Error Url := do
  let special := isSpecial scheme
  let (authority, r) := s.span (!endsAuthority special ·)
  let authority ← authorityOf scheme authority (!r.isEmpty)
  let (path, r) := splitPath r
  let (query, fragment) := queryAndFragment special r
  return ⟨scheme, some authority, pathAfterAuthority special path, query, fragment⟩

/-! ## Files -/

/-- The host of a URL of a file; the local host has no name. -/
def fileHost (host : Text) : Except Error Text :=
  if host.isEmpty then .ok []
  else do
    let host ← specialHost host
    return if host = "localhost".toList then [] else host

/-- The URL of a file after its scheme. -/
def fileUrl (s : Text) : Except Error Url := do
  let scheme := "file".toList
  let (host, r) := match s with
    | a :: b :: r =>
      if isSlash true a && isSlash true b then r.span (!endsAuthority true ·) else ([], s)
    | _ => ([], s)
  let host ← fileHost host
  let (path, r) := splitPath r
  let (query, fragment) := queryAndFragment true r
  return ⟨scheme, some ⟨[], host, none⟩, (pathAfterAuthority true path).ofFile, query, fragment⟩

/-! ## Reading -/

/-- The URL with a scheme and what follows its colon. -/
def withScheme (scheme : Text) (s : Text) : Except Error Url :=
  if isFile scheme then fileUrl s
  else if isSpecial scheme then withAuthority scheme (s.dropWhile (isSlash true))
  else match s with
    | '/' :: '/' :: r => withAuthority scheme r
    | _ =>
      let (path, r) := splitPath s
      let (query, fragment) := queryAndFragment false r
      let path := match path with
        | '/' :: p => pathBelow [] false p
        | p => .plain (percentEncode keptInOpaque p)
      .ok ⟨scheme, none, path, query, fragment⟩

/-- The URL of a text. -/
def parse (s : Text) : Except Error Url :=
  match schemeOf? (clean s) with
  | some (scheme, r) => withScheme scheme r
  | none => .error .relativeWithoutBase

/-- The segments of a path without the last, in reverse. -/
def Path.above : Path → List Text
  | .segments pieces => pieces.dropLast.reverse
  | .plain _ => []

/-- A reference below the path of a URL. -/
def belowPath (base : Url) (s : Text) : Url :=
  let special := isSpecial base.scheme
  let (path, r) := splitPath s
  let (query, fragment) := queryAndFragment special r
  { base with path := (pathBelow base.path.above special path).under base.scheme, query, fragment }

/-- A reference from the root of a URL. -/
def fromRoot (base : Url) (s : Text) : Url :=
  let special := isSpecial base.scheme
  let (path, r) := splitPath s
  let (query, fragment) := queryAndFragment special r
  { base with path := (pathBelow [] special path).under base.scheme, query, fragment }

/-- A reference without a scheme, resolved against a URL. -/
def relativeTo (base : Url) (s : Text) : Except Error Url :=
  let special := isSpecial base.scheme
  match s with
  | '#' :: _ => .ok { base with fragment := (queryAndFragment special s).2 }
  | _ =>
    match base.path with
    | .plain _ => .error .relativeToOpaque
    | .segments _ =>
      match s with
      | [] => .ok { base with fragment := none }
      | '?' :: _ =>
        let (query, fragment) := queryAndFragment special s
        .ok { base with query, fragment }
      | a :: r =>
        if isSlash true a then
          match r with
          | b :: t =>
            if isSlash true b then
              if isFile base.scheme then fileUrl s
              else if a = '/' ∧ b = '/' then withAuthority base.scheme t
              else withAuthority base.scheme (t.dropWhile (isSlash true))
            else .ok (fromRoot base r)
          | [] => .ok (fromRoot base r)
        else .ok (belowPath base s)

/-- The URL of a reference: its own if it has a scheme, else relative to a base. -/
def resolve (base reference : Text) : Except Error Url :=
  match parse reference with
  | .error .relativeWithoutBase => do relativeTo (← parse base) (clean reference)
  | result => result

/-- The text of the URL of a reference. -/
def join (base reference : Text) : Except Error Text := (resolve base reference).map toText

end Url

end WebCrawl
