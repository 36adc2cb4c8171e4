/-!
# Request targets

The path of a call has to be the target of a request: a path with a query, a
single asterisk, an authority alone, or a full address. A fragment is not part
of the target. The classes of characters are those of the URI syntax, with a
few more that are let through in paths and queries.
-/

namespace InternetPrinting.Http

/-- Why a text is no request target. -/
inductive TargetFault
  | empty
  | tooLong
  | invalidCharacter
  | invalidAuthority
  | invalidFormat
  | schemeTooLong
deriving DecidableEq, Repr

def TargetFault.message : TargetFault → String
  | .empty => "empty string"
  | .tooLong => "uri too long"
  | .invalidCharacter => "invalid uri character"
  | .invalidAuthority => "invalid authority"
  | .invalidFormat => "invalid format"
  | .schemeTooLong => "scheme too long"

namespace Target

/-- The longest target, in bytes. -/
def limit : Nat := 65534

/-- The longest scheme. -/
def schemeLimit : Nat := 64

/-- The most colons in a row of address parts. -/
def colonLimit : Nat := 8

/-- A character that paths and queries let through as it is. The last code of
ASCII is a control character and not among them. -/
def isBeyondAscii (c : Char) : Bool :=
  0x80 ≤ c.toNat

/-- A character that may stand in a path. -/
def isPathChar (c : Char) : Bool :=
  let n := c.toNat
  n == 0x21 || (0x24 ≤ n && n ≤ 0x3B) || n == 0x3D || (0x40 ≤ n && n ≤ 0x5F) ||
    (0x61 ≤ n && n ≤ 0x7A) || n == 0x7C || n == 0x7E || isBeyondAscii c ||
    c == '"' || c == '\x7b' || c == '\x7d'

/-- A character that may stand in a query. -/
def isQueryChar (c : Char) : Bool :=
  let n := c.toNat
  n == 0x21 || (0x24 ≤ n && n ≤ 0x3B) || n == 0x3D || (0x3F ≤ n && n ≤ 0x7E) ||
    isBeyondAscii c

/-- A character that may stand in a scheme. -/
def isSchemeChar (c : Char) : Bool :=
  c.isAlphanum || c == '+' || c == '-' || c == '.' || c == '~'

/-- A character of an authority without a meaning for its form. -/
def isPlainAuthorityChar (c : Char) : Bool :=
  c.isAlphanum || "!$&'()*+,-.;=_~".toList.contains c

/-- A character behind the authority. -/
def endsAuthority (c : Char) : Bool :=
  c == '/' || c == '?' || c == '#'

/-- What has been seen of an authority. -/
structure AuthorityScan where
  colons : Nat := 0
  opened : Bool := false
  closed : Bool := false
  percent : Bool := false
  endsInAt : Bool := false
deriving DecidableEq, Repr

namespace AuthorityScan

/-- See one character. Behind a bracketed address or a user name the colons
and percent signs before it no longer count. -/
def step (s : AuthorityScan) (c : Char) : Except TargetFault AuthorityScan :=
  if c = ':' then
    if colonLimit ≤ s.colons then .error .invalidAuthority
    else .ok { s with colons := s.colons + 1, endsInAt := false }
  else if c = '[' then
    if s.percent || s.opened then .error .invalidAuthority
    else .ok { s with opened := true, endsInAt := false }
  else if c = ']' then
    if !s.opened || s.closed then .error .invalidAuthority
    else .ok { s with closed := true, colons := 0, percent := false, endsInAt := false }
  else if c = '@' then .ok { s with colons := 0, percent := false, endsInAt := true }
  else if c = '%' then .ok { s with percent := true, endsInAt := false }
  else if isPlainAuthorityChar c then .ok { s with endsInAt := false }
  else .error .invalidCharacter

/-- Whether what was seen is an authority: brackets are paired, a port has one
colon, a host follows a user name, and no percent sign is left in it. -/
def isWhole (s : AuthorityScan) : Bool :=
  s.opened == s.closed && s.colons ≤ 1 && !s.endsInAt && !s.percent

end AuthorityScan

/-- See the characters of the authority at the front, and give the rest. -/
def scanAuthority (s : AuthorityScan) :
    List Char → Except TargetFault (AuthorityScan × List Char)
  | [] => .ok (s, [])
  | c :: rest =>
    if endsAuthority c then .ok (s, c :: rest)
    else
      match s.step c with
      | .error fault => .error fault
      | .ok s => scanAuthority s rest

/-- What follows the authority at the front, which may be empty. -/
def afterAuthority (cs : List Char) : Except TargetFault (List Char) :=
  match scanAuthority {} cs with
  | .error fault => .error fault
  | .ok (seen, rest) => if seen.isWhole then .ok rest else .error .invalidAuthority

/-- A path with its query, up to a fragment. -/
def pathAndQuery (cs : List Char) : Except TargetFault (List Char) :=
  let path := cs.takeWhile fun c => c ≠ '?' && c ≠ '#'
  let behind := cs.dropWhile fun c => c ≠ '?' && c ≠ '#'
  let query := if behind.head? = some '?' then behind.takeWhile (· ≠ '#') else []
  if path.all isPathChar && (query.drop 1).all isQueryChar then .ok (path ++ query)
  else .error .invalidCharacter

/-- The scheme at the front and what follows its mark. It may be empty, but
the mark by itself is no scheme. -/
def scheme? (cs : List Char) : Except TargetFault (Option (List Char × List Char)) :=
  match cs.dropWhile isSchemeChar with
  | ':' :: '/' :: '/' :: rest =>
    let scheme := cs.takeWhile isSchemeChar
    if scheme.isEmpty && rest.isEmpty then .ok none
    else if schemeLimit < scheme.length then .error .schemeTooLong
    else .ok (some (scheme, rest))
  | _ => .ok none

/-- The two schemes of the web are written in lower case, others as they are. -/
def schemeText (scheme : List Char) : List Char :=
  let lower := scheme.map Char.toLower
  if lower = "http".toList ∨ lower = "https".toList then lower else scheme

/-- The address behind a scheme: an authority, which has to be there, and a
path with its query. -/
def absolute (scheme address : List Char) : Except TargetFault (List Char) :=
  if address.isEmpty then .error .empty
  else
    match afterAuthority address with
    | .error fault => .error fault
    | .ok rest =>
      let authority := address.take (address.length - rest.length)
      if authority.isEmpty then .error .invalidFormat
      else
        (pathAndQuery rest).map fun path =>
          schemeText scheme ++ "://".toList ++ authority ++
            if path.head? = some '/' then path else '/' :: path

/-- A full address, or an authority alone. -/
def full (cs : List Char) : Except TargetFault (List Char) :=
  match scheme? cs with
  | .error fault => .error fault
  | .ok (some (scheme, address)) => absolute scheme address
  | .ok none =>
    match afterAuthority cs with
    | .error fault => .error fault
    | .ok rest => if rest.isEmpty then .ok cs else .error .invalidFormat

/-- The target that a path stands for. -/
def parse (path : String) : Except TargetFault String :=
  if limit < path.utf8ByteSize then .error .tooLong
  else
    match path.toList with
    | [] => .error .empty
    | ['*'] => .ok path
    | '/' :: _ => (pathAndQuery path.toList).map String.ofList
    | [c] =>
      match afterAuthority [c] with
      | .error fault => .error fault
      | .ok rest => if rest.isEmpty then .ok path else .error .invalidCharacter
    | cs => (full cs).map String.ofList

end Target

end InternetPrinting.Http
