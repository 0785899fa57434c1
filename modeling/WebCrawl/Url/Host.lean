import WebCrawl.Url.Percent

/-!
# Hosts

The host of a URL is a domain, an address of four numbers, or an address of eight groups in square
brackets; it is kept in its normal form. Under a scheme that is not special any text without
delimiters is a host.

## Main definitions

* `WebCrawl.Url.Error` — why a text is no URL.
* `WebCrawl.Url.domain` — the normal form of a domain.
* `WebCrawl.Url.ipv4?`, `WebCrawl.Url.ipv6?` — numeric addresses.
* `WebCrawl.Url.specialHost`, `WebCrawl.Url.opaqueHost` — the hosts of the two kinds of schemes.
-/

set_option autoImplicit false

namespace WebCrawl.Url

open Text

/-- Why a text is no URL. -/
inductive Error where
  | emptyHost
  | invalidDomain
  | invalidPort
  | invalidIpv4
  | invalidIpv6
  | invalidHostCharacter
  | relativeWithoutBase
  | relativeToOpaque
deriving DecidableEq, Repr

/-- The wording of an error. -/
def Error.message : Error → Text
  | .emptyHost => "empty host"
  | .invalidDomain => "invalid international domain name"
  | .invalidPort => "invalid port number"
  | .invalidIpv4 => "invalid IPv4 address"
  | .invalidIpv6 => "invalid IPv6 address"
  | .invalidHostCharacter => "invalid domain character"
  | .relativeWithoutBase => "relative URL without a base"
  | .relativeToOpaque => "relative URL with a cannot-be-a-base base"

/-! ## Domains -/

/-- The digit of a number below 36 in encoded labels. -/
def labelDigit (n : Nat) : Char :=
  if n < 26 then Char.ofNat ('a'.toNat + n) else Char.ofNat ('0'.toNat + (n - 26))

/-- How the bias falls while a difference is large. -/
def biasSteps : Nat → Nat → Nat → Nat
  | 0, delta, k => k + 36 * delta / (delta + 38)
  | fuel + 1, delta, k =>
    if 455 < delta then biasSteps fuel (delta / 35) (k + 36)
    else k + 36 * delta / (delta + 38)

/-- The bias after a difference was written. -/
def adaptBias (delta count : Nat) (first : Bool) : Nat :=
  let delta := if first then delta / 700 else delta / 2
  biasSteps delta (delta + delta / count) 0

/-- The digits of a difference, each in a base that depends on its place. -/
def differenceDigits (bias : Nat) : Nat → Nat → Nat → Text
  | 0, _, q => [labelDigit (q % 36)]
  | fuel + 1, k, q =>
    let t := if k ≤ bias then 1 else if bias + 26 ≤ k then 26 else k - bias
    if q < t then [labelDigit q]
    else labelDigit (t + (q - t) % (36 - t)) ::
      differenceDigits bias fuel (k + 36) ((q - t) / (36 - t))

/-- The state of the encoding of a label. -/
structure LabelState where
  /-- The difference not yet written. -/
  delta : Nat
  /-- The bias of the digits. -/
  bias : Nat
  /-- How many characters are written. -/
  written : Nat
  /-- The digits so far. -/
  digits : Text

/-- Writes the places of the character with the code point `n`. -/
def encodeLabelAt (basic n : Nat) (s : LabelState) (c : Char) : LabelState :=
  if c.toNat < n then { s with delta := s.delta + 1 }
  else if c.toNat = n then
    { delta := 0, bias := adaptBias s.delta (s.written + 1) (s.written == basic),
      written := s.written + 1,
      digits := s.digits ++ differenceDigits s.bias s.delta 36 s.delta }
  else s

/-- A label beyond ASCII as a label of ASCII letters and digits. -/
def encodeLabel (label : Text) : Text :=
  let ascii := label.filter (·.toNat < 128)
  let codes := ((label.filter (128 ≤ ·.toNat)).map Char.toNat).mergeSort.eraseDups
  let start : LabelState := ⟨0, 72, ascii.length, []⟩
  let (s, _) := codes.foldl (fun (s, previous) n =>
    let s := { s with delta := s.delta + (n - previous) * (s.written + 1) }
    let s := label.foldl (encodeLabelAt ascii.length n) s
    ({ s with delta := s.delta + 1 }, n + 1)) (start, 128)
  "xn--".toList ++ ascii ++ (if ascii.isEmpty then [] else ['-']) ++ s.digits

/-- The characters that no domain has. -/
def isForbiddenInDomain (c : Char) : Bool :=
  c.toNat ≤ 32 || c.toNat = 127 ||
    ['%', '#', '/', ':', '<', '>', '?', '@', '[', '\\', ']', '^', '|'].contains c

/-- The normal form of a domain: in lower case, with the labels beyond ASCII encoded. -/
def domain (host : Text) : Except Error Text :=
  match decode? (percentDecode host) with
  | none => .error .invalidDomain
  | some s =>
    let s := lower s
    if s.any isForbiddenInDomain then .error .invalidDomain
    else .ok (join ['.'] ((splitAt '.' s).map fun label =>
      if label.all (·.toNat < 128) then label else encodeLabel label))

/-! ## Addresses of four numbers -/

/-- A number of an address: hexadecimal, octal or decimal by how it begins. -/
def ipv4Number? (s : Text) : Option Nat :=
  match s with
  | [] => none
  | '0' :: x :: digits =>
    if x = 'x' ∨ x = 'X' then
      if digits.all isHexDigit then
        some (digits.foldl (fun n c => n * 16 + (hexValue? c).getD 0) 0)
      else none
    else if (x :: digits).all fun c => '0' ≤ c && c ≤ '7' then
      some ((x :: digits).foldl (fun n c => n * 8 + digitValue c) 0)
    else none
  | _ => if s.all Char.isDigit then some (natOfDigits s) else none

/-- The parts of a domain; an empty part at the end does not count. -/
def domainParts (s : Text) : List Text :=
  let parts := splitAt '.' s
  if 1 < parts.length ∧ parts.getLast? = some [] then parts.dropLast else parts

/-- Whether a domain ends in a number, so that it has to be an address. -/
def endsInNumber (s : Text) : Bool :=
  match (domainParts s).getLast? with
  | some part => part != [] && (part.all Char.isDigit || (ipv4Number? part).isSome)
  | none => false

/-- The address that the parts of a domain spell: the last number fills the places that are left. -/
def ipv4? (s : Text) : Option Nat := do
  let parts := domainParts s
  if 4 < parts.length then none
  else
    let numbers ← parts.mapM ipv4Number?
    let last ← numbers.getLast?
    let first := numbers.dropLast
    if first.any (255 < ·) || Nat.pow 256 (4 - first.length) ≤ last then none
    else some (first.zipIdx.foldl (fun n (x, i) => n + x * Nat.pow 256 (3 - i)) last)

/-- An address as four numbers. -/
def ipv4Text (n : Nat) : Text :=
  join ['.'] ((List.range 4).map fun i => ofNat (n / Nat.pow 256 (3 - i) % 256))

/-! ## Addresses of eight groups -/

/-- A group of an address. -/
def ipv6Group? (s : Text) : Option Nat :=
  if s.isEmpty || 4 < s.length || !s.all isHexDigit then none
  else some (s.foldl (fun n c => n * 16 + (hexValue? c).getD 0) 0)

/-- A number of the address of four numbers that ends an address of eight groups. -/
def embeddedNumber? (s : Text) : Option Nat :=
  if s.isEmpty || !s.all Char.isDigit || (s.head? == some '0' && 1 < s.length) then none
  else if natOfDigits s ≤ 255 then some (natOfDigits s) else none

/-- The two groups of the address of four numbers that ends an address of eight groups. -/
def embeddedGroups? (s : Text) : Option (List Nat) := do
  match ← (splitAt '.' s).mapM embeddedNumber? with
  | [a, b, c, d] => some [a * 256 + b, c * 256 + d]
  | _ => none

/-- Groups with colons between them; the last may be an address of four numbers. -/
def ipv6Groups? (s : Text) : Option (List Nat) :=
  if s.isEmpty then some []
  else do
    let parts := splitAt ':' s
    let last ← parts.getLast?
    let first ← parts.dropLast.mapM ipv6Group?
    if '.' ∈ last then return first ++ (← embeddedGroups? last)
    else return first ++ [← ipv6Group? last]

/-- The eight groups of an address. A double colon stands for the zeros that are missing. -/
def ipv6? (s : Text) : Option (List Nat) :=
  match find? s "::" with
  | some (before, after) => do
    if '.' ∈ before then none
    else
      let left ← ipv6Groups? before
      let right ← ipv6Groups? after
      if 7 < left.length + right.length then none
      else some (left ++ List.replicate (8 - left.length - right.length) 0 ++ right)
  | none => do
    let groups ← ipv6Groups? s
    if groups.length = 8 then some groups else none

/-- The length of the run of zeros at the start of a list. -/
def zeroRun (groups : List Nat) : Nat := (groups.takeWhile (· == 0)).length

/-- The place and length of the first longest run of zeros. -/
def longestZeroRun (groups : List Nat) : Nat × Nat :=
  (List.range groups.length).foldl (fun (place, size) i =>
    if size < zeroRun (groups.drop i) then (i, zeroRun (groups.drop i)) else (place, size)) (0, 0)

/-- An address of eight groups in brackets; the first longest run of at least two zeros is written
as a double colon. -/
def ipv6Text (groups : List Nat) : Text :=
  let (place, size) := longestZeroRun groups
  let write (gs : List Nat) : Text := join [':'] (gs.map fun g => Nat.toDigits 16 g)
  let body :=
    if size < 2 then write groups
    else write (groups.take place) ++ "::".toList ++ write (groups.drop (place + size))
  '[' :: body ++ [']']

/-- The address in brackets that a host begins as. -/
def bracketedHost (host : Text) : Except Error Text :=
  if host.getLast? = some ']' then
    match ipv6? (host.drop 1).dropLast with
    | some groups => .ok (ipv6Text groups)
    | none => .error .invalidIpv6
  else .error .invalidIpv6

/-! ## Hosts -/

/-- The normal form of a host under a special scheme. -/
def specialHost (host : Text) : Except Error Text :=
  if host.head? = some '[' then bracketedHost host
  else do
    let s ← domain host
    if s.isEmpty then .error .emptyHost
    else if endsInNumber s then
      match ipv4? s with
      | some n => .ok (ipv4Text n)
      | none => .error .invalidIpv4
    else .ok s

/-- The characters that no host has. -/
def isForbiddenInHost (c : Char) : Bool :=
  ['\x00', '\t', '\n', '\r', ' ', '#', '/', ':', '<', '>', '?', '@', '[', '\\', ']', '^', '|'].contains c

/-- The normal form of a host under any other scheme. -/
def opaqueHost (host : Text) : Except Error Text :=
  if host.head? = some '[' then bracketedHost host
  else if host.any isForbiddenInHost then .error .invalidHostCharacter
  else .ok (percentEncode keptInOpaque host)

end WebCrawl.Url
