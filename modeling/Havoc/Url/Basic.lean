import Havoc.Url.Host

/-! # Addresses

    An address has a scheme, perhaps an authority with a user, a host and a port, a path, a query
    and a fragment.  Every part is held as it is written, so that printing is joining. -/

namespace Havoc

/-- Who is asked: user, password, host and port. -/
structure Url.Authority where
  username : List Char := []
  password : List Char := []
  /-- The host as written; it may be empty for a scheme that is not special. -/
  host : List Char
  port : Option Nat := none
  deriving DecidableEq, Repr

/-- An address. -/
structure Url where
  scheme : List Char
  authority : Option Url.Authority
  path : List Char
  query : Option (List Char)
  fragment : Option (List Char)
  deriving DecidableEq, Repr

namespace Url

open Text

/-- The schemes with rules of their own, each with the port it stands for. -/
def specialPorts : List (String × Option Nat) :=
  [("http", some 80), ("https", some 443), ("ws", some 80), ("wss", some 443), ("ftp", some 21),
    ("file", none)]

/-- Whether a scheme has rules of its own. -/
def isSpecial (scheme : List Char) : Bool := (specialPorts.lookup (String.ofList scheme)).isSome

/-- The port that a scheme stands for. -/
def defaultPort? (scheme : List Char) : Option Nat :=
  (specialPorts.lookup (String.ofList scheme)).join

/-- The user and password with the sign that ends them. -/
def Authority.userinfo (a : Authority) : List Char :=
  if a.username.isEmpty && a.password.isEmpty then []
  else a.username ++ (if a.password.isEmpty then [] else ':' :: a.password) ++ ['@']

/-- The authority as written. -/
def Authority.chars (a : Authority) : List Char :=
  a.userinfo ++ a.host ++ a.port.elim [] fun p => ':' :: Number.digits p

/-- The address as written. -/
def chars (u : Url) : List Char :=
  u.scheme ++ ':' :: u.authority.elim [] (fun a => '/' :: '/' :: a.chars) ++ u.path ++
    u.query.elim [] ('?' :: ·) ++ u.fragment.elim [] ('#' :: ·)

/-- The address as a string. -/
def render (u : Url) : String := String.ofList u.chars

/-- The host, if there is one that is not empty. -/
def host? (u : Url) : Option (List Char) :=
  u.authority.bind fun a => if a.host.isEmpty then none else some a.host

/-! ## Paths -/

/-- A piece of a path that stands for the piece itself. -/
def isSingleDot (s : List Char) : Bool :=
  [".", "%2e"].any (·.toList = asciiLower s)

/-- A piece of a path that takes the piece before it away. -/
def isDoubleDot (s : List Char) : Bool :=
  ["..", ".%2e", "%2e.", "%2e%2e"].any (·.toList = asciiLower s)

/-- A letter with a colon or a bar, which a path keeps. -/
def isDrive (s : List Char) : Bool :=
  match s with
  | [c, d] => c.isAlpha && (d = ':' || d = '|')
  | _ => false

/-- Takes the last piece away, unless it is a drive. The pieces are in reverse. -/
def dropPiece : List (List Char) → List (List Char)
  | [] => []
  | p :: rest => if isDrive p then p :: rest else rest

/-- The pieces of a path without the dots, in reverse. -/
def settlePieces (done : List (List Char)) : List (List Char) → List (List Char)
  | [] => done
  | [p] =>
    if isDoubleDot p then [] :: dropPiece done
    else if isSingleDot p then [] :: done
    else p :: done
  | p :: rest =>
    if isDoubleDot p then settlePieces (dropPiece done) rest
    else if isSingleDot p then settlePieces done rest
    else settlePieces (p :: done) rest

/-- The path with the given pieces, each encoded and without dots. -/
def pathOf (pieces : List (List Char)) : List Char :=
  '/' :: joinWith '/' (settlePieces [] (pieces.map (encode inPath))).reverse

end Url

end Havoc
