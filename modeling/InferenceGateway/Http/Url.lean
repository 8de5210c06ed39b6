import InferenceGateway.Http.Host
import InferenceGateway.Text.Base64

/-!
# Addresses

The address of a provider in its normal form: scheme and host in lower case, the port left
out where it is the usual one of its scheme, the steps `.` and `..` of the path taken, and
the characters that cannot stand in an address percent-encoded. In addresses of the web a
backslash is a slash, and at least a host must follow the scheme. A user before the host is
taken out of the address, and told in a header.
-/

namespace InferenceGateway.Http

/-- An address. -/
structure Url where
  scheme : String
  host : Option String
  /-- The normal form of the address. -/
  text : String
  /-- The user and the password, where a user is taken out of the address. -/
  login : Option (String × String)
deriving DecidableEq, Repr

namespace Url

/-- The schemes of the web, with their usual ports. -/
def usualPorts : List (String × Nat) := [("http", 80), ("https", 443), ("ftp", 21), ("ws", 80),
  ("wss", 443)]

/-- Whether a character may stand in a scheme after its first letter. -/
def isSchemeChar (c : Char) : Bool := c.isAlphanum || c == '+' || c == '-' || c == '.'

/-- The scheme of an address in lower case, and what follows its colon. -/
def scheme? (s : List Char) : Option (String × List Char) :=
  let name := s.takeWhile isSchemeChar
  match s.drop name.length with
  | ':' :: rest =>
    if name.head?.any Char.isAlpha then some ((String.ofList name).toLower, rest) else none
  | _ => none

/-! ## Hosts -/

/-- The host that is written, and what follows it. -/
def host? (written : List Char) : Option (String × List Char) :=
  match written with
  | '[' :: inner =>
    if inner.contains ']' then
      (Host.bracketed? (inner.takeWhile (· ≠ ']'))).map
        (·, (inner.dropWhile (· ≠ ']')).drop 1)
    else none
  | written => (Host.plain? (written.takeWhile (· ≠ ':'))).map (·, written.dropWhile (· ≠ ':'))

/-- The host and the port after it. -/
def hostAndPort? (scheme : String) (written : List Char) : Option (String × String) := do
  let (host, port) ← host? written
  match port with
  | [] => some (host, "")
  | ':' :: digits =>
    if !digits.all Char.isDigit then none
    else
      let n := digits.foldl (fun n c => 10 * n + (c.toNat - 48)) 0
      if 65535 < n then none
      else if digits.isEmpty || usualPorts.lookup scheme == some n then some (host, "")
      else some (host, ":" ++ toString n)
  | _ => none

/-! ## Paths -/

/-- A byte percent-encoded. -/
def encodeByte (b : UInt8) : List Char :=
  ['%', (Nat.digitChar (b.toNat / 16)).toUpper, (Nat.digitChar (b.toNat % 16)).toUpper]

/-- Characters with those percent-encoded that cannot stand in their part of an address. -/
def encode (forbidden : List Char) (cs : List Char) : List Char :=
  cs.flatMap fun c =>
    if c.toNat ≤ 0x20 || 0x7F ≤ c.toNat || forbidden.contains c then
      (String.utf8EncodeChar c).flatMap encodeByte
    else [c]

/-- The characters that cannot stand in a path. -/
def forbiddenInPath : List Char := ['"', '#', '<', '>', '?', '\x60', '\x7b', '\x7d']

/-- The characters that cannot stand in a query. -/
def forbiddenInQuery : List Char := ['"', '#', '<', '>', '\'']

/-- The characters that cannot stand in a fragment. -/
def forbiddenInFragment : List Char := ['"', '<', '>', '\x60']

/-- Characters with each percent-encoded point as a point. -/
def points : List Char → List Char
  | '%' :: '2' :: 'e' :: rest => '.' :: points rest
  | c :: rest => c :: points rest
  | [] => []

/-- A step of a path, with its points as they may be percent-encoded. -/
def stepOf (segment : String) : String := String.ofList (points segment.toLower.toList)

/-- The segments of a path with the steps `.` and `..` taken. A step at the end leaves an
    empty segment. -/
def walk (kept : List String) : List String → List String
  | [] => kept.reverse
  | segment :: rest =>
    let step := stepOf segment
    let kept := if step == ".." then kept.drop 1 else if step == "." then kept
      else segment :: kept
    if rest.isEmpty && (step == ".." || step == ".") then ("" :: kept).reverse
    else walk kept rest

/-- The normal form of a path, whose first slash is left out. -/
def path (written : List Char) : String :=
  let segments := (Text.splitAt '/' written).map String.ofList
  "/" ++ "/".intercalate ((walk [] segments).map fun s =>
    String.ofList (encode forbiddenInPath s.toList))

/-- The query and the fragment after a path. -/
def tail (written : List Char) : String :=
  let query := written.takeWhile (· ≠ '#')
  let fragment := written.dropWhile (· ≠ '#')
  String.ofList (encode forbiddenInQuery query)
    ++ (if fragment.isEmpty then ""
      else "#" ++ String.ofList (encode forbiddenInFragment (fragment.drop 1)))

/-! ## Users -/

/-- The characters that cannot stand in a user or a password. -/
def forbiddenInUser : List Char :=
  forbiddenInPath ++ ['/', ':', ';', '=', '@', '[', '\\', ']', '^', '|']

/-- What is written before the first colon, and what is written after it. -/
def atColon (written : List Char) : List Char × List Char :=
  (written.takeWhile (· ≠ ':'), (written.dropWhile (· ≠ ':')).drop 1)

/-- The text that is written percent-encoded. -/
def decoded? (written : List Char) : Option String :=
  (Text.decodeSegment (String.ofList written)).toOption

/-- The user and the password that are written before a host, if there is one of them. A password
    that is no text is none. -/
def login? (written : List Char) : Option (String × String) := do
  let (name, password) := atColon written
  let user ← decoded? name
  let password := (decoded? password).getD ""
  if user.isEmpty && password.isEmpty then none else some (user, password)

/-- What stays in the address of a user and a password: all of it if they cannot be taken out. -/
def keptUser (written : List Char) : String :=
  let (name, password) := atColon written
  if (login? written).isSome || (name.isEmpty && password.isEmpty) then ""
  else
    let secret := if password.isEmpty then [] else ':' :: encode forbiddenInUser password
    String.ofList (encode forbiddenInUser name ++ secret ++ ['@'])

/-- The header that tells a user and a password. -/
def authorization (u : Url) : List (String × String) :=
  u.login.toList.map fun (user, password) => ("authorization", "Basic " ++
    Text.Utf8.decodeLenient (Text.Base64.encode (Text.Utf8.encode (user ++ ":" ++ password))))

/-! ## Addresses -/

/-- The part of an address before a slash, a question mark or a number sign. -/
def isAuthorityChar (c : Char) : Bool := c ≠ '/' && c ≠ '?' && c ≠ '#'

/-- What follows the last of some characters, if one occurs. -/
def afterLast (c : Char) (cs : List Char) : List Char :=
  if cs.contains c then (cs.reverse.takeWhile (· ≠ c)).reverse else cs

/-- What stands before the last of some characters; nothing if none occurs. -/
def beforeLast (c : Char) (cs : List Char) : List Char :=
  cs.take (cs.length - (afterLast c cs).length - 1)

/-- An address from its user or its host on. Only in the web a host must be there, and only
    there a path is always written. -/
def withHost (scheme : String) (s : List Char) : Option Url := do
  let authority := s.takeWhile isAuthorityChar
  let rest := s.drop authority.length
  let web := (usualPorts.lookup scheme).isSome
  let (host, port) ←
    if authority.isEmpty && !web then pure (none, "")
    else (hostAndPort? scheme (afterLast '@' authority)).map fun (h, p) => (some h, p)
  let written := rest.takeWhile fun c => c ≠ '?' && c ≠ '#'
  let walked := if web || !written.isEmpty then path (written.drop 1) else ""
  let user := beforeLast '@' authority
  return ⟨scheme, host, scheme ++ "://" ++ keptUser user ++ host.getD "" ++ port ++ walked ++
    tail (rest.drop written.length), login? user⟩

/-- The address that a text writes, if it has a scheme and is well formed. -/
def parse (text : String) : Option Url := do
  let trimmed := (text.toList.dropWhile (·.toNat ≤ 0x20)).reverse.dropWhile (·.toNat ≤ 0x20)
  let s := trimmed.reverse.filter fun c => c ≠ '\t' && c ≠ '\n' && c ≠ '\r'
  let (scheme, rest) ← scheme? s
  if (usualPorts.lookup scheme).isSome then
    let query := rest.dropWhile fun c => c ≠ '?' && c ≠ '#'
    let front := (rest.take (rest.length - query.length)).map fun c => if c = '\\' then '/' else c
    withHost scheme (front.dropWhile (· = '/') ++ query)
  else match rest with
    | '/' :: '/' :: after => withHost scheme after
    | rest => return ⟨scheme, none, scheme ++ ":" ++ String.ofList (encode [] rest), none⟩

end Url

end InferenceGateway.Http
