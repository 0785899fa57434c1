import WebCrawl.Html.Tree

/-!
# Tags, texts and comments

Markup is cut into start tags, end tags, texts, comments and doctypes. Names of tags and attributes
are in lower case, the attributes of a tag are sorted by name and of two with one name the first
counts. The content of some elements is text up to their end tag.

## Main definitions

* `WebCrawl.Html.Token` — the pieces of markup.
* `WebCrawl.Html.resolve` — a text with its character references replaced.
* `WebCrawl.Html.tokens` — the pieces of a text.
-/

set_option autoImplicit false

namespace WebCrawl.Html

open Text

/-- A piece of markup. -/
inductive Token where
  | startTag (name : Text) (attributes : Attributes)
  | endTag (name : Text)
  | text (content : Text)
  | comment (content : Text)
  | doctype (name : Text)

/-! ## Characters -/

/-- The white space of markup. -/
def isSpace (c : Char) : Bool :=
  c == ' ' || c == '\n' || c == '\t' || c == '\r' || c == '\x0c'

/-- A text in which every line ends with a line feed. -/
def normalizeLines : Text → Text
  | [] => []
  | '\r' :: '\n' :: s => '\n' :: normalizeLines s
  | '\r' :: s => '\n' :: normalizeLines s
  | c :: s => c :: normalizeLines s

/-! ## Character references -/

/-- The characters that code points between 0x80 and 0x9f stand for. -/
def legacyCodes : List (Nat × Nat) :=
  [(0x80, 0x20ac), (0x82, 0x201a), (0x83, 0x0192), (0x84, 0x201e), (0x85, 0x2026), (0x86, 0x2020),
   (0x87, 0x2021), (0x88, 0x02c6), (0x89, 0x2030), (0x8a, 0x0160), (0x8b, 0x2039), (0x8c, 0x0152),
   (0x8e, 0x017d), (0x91, 0x2018), (0x92, 0x2019), (0x93, 0x201c), (0x94, 0x201d), (0x95, 0x2022),
   (0x96, 0x2013), (0x97, 0x2014), (0x98, 0x02dc), (0x99, 0x2122), (0x9a, 0x0161), (0x9b, 0x203a),
   (0x9c, 0x0153), (0x9e, 0x017e), (0x9f, 0x0178)]

/-- The character of a numeric reference. A number that is no character stands for the replacement
character. -/
def numericCharacter (n : Nat) : Char :=
  let code := (legacyCodes.lookup n).getD n
  if code = 0 ∨ 0x10ffff < code ∨ (0xd800 ≤ code ∧ code ≤ 0xdfff) then '\ufffd'
  else Char.ofNat code

/-- The named references, from the ampersand to the semicolon. -/
def namedReferences : List (Text × Char) :=
  [("&lt;".toList, '<'), ("&gt;".toList, '>'), ("&amp;".toList, '&'), ("&quot;".toList, '"'),
   ("&nbsp;".toList, '\u00a0')]

/-- The character of a reference at the start of a text, and how many characters the reference
takes. -/
def reference? (s : Text) : Option (Char × Nat) :=
  match namedReferences.find? fun (name, _) => startsWith s name with
  | some (name, c) => some (c, name.length)
  | none =>
    match s with
    | '&' :: '#' :: x :: r =>
      if x = 'x' ∨ x = 'X' then
        let digits := r.takeWhile isHexDigit
        if digits.isEmpty || r[digits.length]? != some ';' then none
        else
          let n := digits.foldl (fun n c => 16 * n + (hexValue? c).getD 0) 0
          some (numericCharacter n, digits.length + 4)
      else
        let digits := (x :: r).takeWhile Char.isDigit
        if digits.isEmpty || (x :: r)[digits.length]? != some ';' then none
        else some (numericCharacter (natOfDigits digits), digits.length + 3)
    | _ => none

/-- The text with its character references replaced. -/
def resolve (s : Text) : Text :=
  match s with
  | [] => []
  | c :: cs =>
    match reference? (c :: cs) with
    | some (d, n) => d :: resolve (cs.drop (n - 1))
    | none => c :: resolve cs
termination_by s.length
decreasing_by all_goals (simp only [List.length_cons, List.length_drop]; omega)

/-! ## Attributes -/

/-- Whether the character ends the name of a tag or an unquoted value. -/
def endsWord (c : Char) : Bool := isSpace c || c == '>'

/-- The value of an attribute after its name, if there is one, and what follows it. -/
def attributeValue (s : Text) : Text × Text :=
  match s.dropWhile isSpace with
  | '=' :: r =>
    match r.dropWhile isSpace with
    | '"' :: v => (resolve (v.takeWhile (· != '"')), (v.dropWhile (· != '"')).drop 1)
    | '\'' :: v => (resolve (v.takeWhile (· != '\'')), (v.dropWhile (· != '\'')).drop 1)
    | v => (resolve (v.takeWhile (!endsWord ·)), v.dropWhile (!endsWord ·))
  | _ => ([], s)

/-- The attributes of a tag and what follows its closing bracket; none if it is not closed. Each
attribute takes up at least one character. -/
def attributesFrom : Nat → Text → Option (Attributes × Text)
  | 0, _ => none
  | fuel + 1, s =>
    match s.dropWhile fun c => isSpace c || c == '/' with
    | [] => none
    | '>' :: r => some ([], r)
    | c :: r =>
      let ends (d : Char) : Bool := endsWord d || d == '/' || d == '='
      let name := c :: r.takeWhile (!ends ·)
      let (value, rest) := attributeValue (r.dropWhile (!ends ·))
      (attributesFrom fuel rest).map fun (more, t) => ((lower name, value) :: more, t)

/-- The attributes that are kept when another one follows: of two with one name the first counts. -/
def keepFirst (kept : Attributes) (p : Text × Text) : Attributes :=
  if kept.any (·.1 == p.1) then kept else kept ++ [p]

/-- The attributes in the order of their names; of several with one name the first counts. -/
def arrange (attributes : Attributes) : Attributes :=
  (attributes.foldl keepFirst []).mergeSort fun a b => !List.lex b.1 a.1 (· < ·)

/-! ## Pieces of markup -/

/-- The content and the rest of a comment, after its opening. -/
def commentFrom (s : Text) : Text × Text :=
  match s with
  | '>' :: r => ([], r)
  | '-' :: '>' :: r => ([], r)
  | _ => (find? s "-->").getD (s, [])

/-- Whether the end tag of the named element stands at the start of a text. -/
def atEndTag (name : Text) (s : Text) : Bool :=
  startsWith s "</" && lower ((s.drop 2).take name.length) == name &&
    ((s.drop (name.length + 2)).head?.any fun c => isSpace c || c == '/' || c == '>')

/-- The text before the end tag of the named element, and the rest. -/
def contentOf (name : Text) : Text → Text × Text
  | [] => ([], [])
  | c :: s =>
    if atEndTag name (c :: s) then ([], c :: s)
    else let (content, rest) := contentOf name s; (c :: content, rest)

/-- Whether the text begins with markup rather than with a character of text. -/
def atMarkup : Text → Bool
  | '<' :: c :: _ => c.isAlpha || c == '/' || c == '!' || c == '?'
  | _ => false

/-- The text up to the next markup, and the rest. -/
def textFrom : Text → Text × Text
  | [] => ([], [])
  | c :: s =>
    if atMarkup (c :: s) then ([], c :: s)
    else let (content, rest) := textFrom s; (c :: content, rest)

/-- The content of an element that holds text only, as a token if it is not empty. -/
def textContent (name : Text) (s : Text) : List Token × Text :=
  let (content, rest) := contentOf name s
  let content := if rawTextElements.contains name then content else resolve content
  let content := if lineFeedElements.contains name && content.head? == some '\n'
    then content.drop 1 else content
  (if content.isEmpty then [] else [.text content], rest)

/-- What follows a start tag: the content of an element that holds text only, and for some elements
a line feed that is passed over. -/
def afterStartTag (name : Text) (s : Text) : List Token × Text :=
  if rawTextElements.contains name || referenceTextElements.contains name then textContent name s
  else if lineFeedElements.contains name && s.head? == some '\n' then ([], s.drop 1)
  else ([], s)

/-- A comment for markup that is neither a tag nor a proper comment. -/
def strayComment (s : Text) : List Token × Text :=
  ([.comment (s.takeWhile (· != '>'))], (s.dropWhile (· != '>')).drop 1)

/-- The tokens of the markup at the start of a text and what follows them. Markup that is not
closed yields nothing. -/
def markup (s : Text) : List Token × Text :=
  match s with
  | '<' :: '/' :: c :: r =>
    if c.isAlpha then
      let ends (d : Char) : Bool := endsWord d || d == '/'
      let name := (c :: r).takeWhile (!ends ·)
      match attributesFrom (r.length + 1) ((c :: r).dropWhile (!ends ·)) with
      | some (_, rest) => ([.endTag (lower name)], rest)
      | none => ([], [])
    else if c = '>' then ([], r)
    else strayComment (c :: r)
  | '<' :: '!' :: r =>
    if startsWith r "--" then
      let (content, rest) := commentFrom (r.drop 2)
      ([.comment content], rest)
    else if lower (r.take 7) == "doctype".toList then
      let name := ((r.drop 7).dropWhile isSpace).takeWhile (!endsWord ·)
      ([.doctype (lower name)], (r.dropWhile (· != '>')).drop 1)
    else strayComment r
  | '<' :: '?' :: r => strayComment ('?' :: r)
  | '<' :: r =>
    let ends (d : Char) : Bool := endsWord d || d == '/'
    let name := lower (r.takeWhile (!ends ·))
    match attributesFrom (r.length + 1) (r.dropWhile (!ends ·)) with
    | some (attributes, rest) =>
      let (content, rest) := afterStartTag name rest
      (.startTag name (arrange attributes) :: content, rest)
    | none => ([], [])
  | _ => ([], [])

/-- At most `fuel` pieces of a text. -/
def tokensUpTo : Nat → Text → List Token
  | 0, _ => []
  | _, [] => []
  | fuel + 1, s =>
    if atMarkup s then
      let (pieces, rest) := markup s
      pieces ++ tokensUpTo fuel rest
    else
      let (content, rest) := textFrom s
      .text (resolve content) :: tokensUpTo fuel rest

/-- The pieces of a text. Each takes up at least one character. A byte order mark at the start is
no part of the text. -/
def tokens (s : Text) : List Token :=
  let s := match s with
    | '\ufeff' :: r => r
    | _ => s
  tokensUpTo (s.length + 1) (normalizeLines s)

end WebCrawl.Html
