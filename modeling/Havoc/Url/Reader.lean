import Havoc.Text.Blank
import Havoc.Url.Basic

/-! # Reading addresses

    Only absolute addresses are read.  Controls and spaces around the text do not count, and tabs
    and line breaks count nowhere.  A special scheme takes any number of slashes, either way
    round, before its authority; any other scheme takes exactly two, or has no authority. -/

namespace Havoc.Url

open Havoc.Text

/-- The text without the characters that do not count. -/
def cleaned (s : List Char) : List Char :=
  (trimWhile (fun c => c.toNat ≤ 0x20) s).filter fun c => !(c = '\t' || c = '\n' || c = '\r')

/-- The scheme in lower case and what follows its colon. -/
def scheme? (s : List Char) : Option (List Char × List Char) :=
  match cutAt ':' s with
  | some (name, rest) =>
    match name with
    | c :: more =>
      if c.isAlpha && more.all (fun c => c.isAlphanum || c = '+' || c = '-' || c = '.') then
        some (asciiLower name, rest)
      else none
    | [] => none
  | none => none

/-- Whether a character ends an authority. -/
def endsAuthority (special : Bool) (c : Char) : Bool :=
  c = '/' || c = '?' || c = '#' || (special && c = '\\')

/-- The host and the rest; a colon in brackets belongs to the host. -/
def hostPart : Bool → List Char → List Char × List Char
  | _, [] => ([], [])
  | inside, c :: rest =>
    if c = ':' ∧ !inside then ([], c :: rest)
    else
      let inside := if c = '[' then true else if c = ']' then false else inside
      let (host, rest) := hostPart inside rest
      (c :: host, rest)

/-- The port behind the host. -/
def port? (scheme : List Char) (s : List Char) : Except UrlError (Option Nat) :=
  let n := Number.valueOf s
  if !s.all Char.isDigit then .error .invalidPort
  else if s.isEmpty then .ok none
  else if 65535 < n then .error .invalidPort
  else .ok (if defaultPort? scheme = some n then none else some n)

/-- The user and the password of a text before the last `@`. -/
def userinfoOf (s : List Char) : List Char × List Char :=
  match cutAt ':' s with
  | some (user, password) => (encode inUserinfo user, encode inUserinfo password)
  | none => (encode inUserinfo s, [])

/-- Reads an authority; `followed` tells whether anything comes after it. -/
def authority? (scheme : List Char) (followed : Bool) (s : List Char) :
    Except UrlError Authority := do
  let special := isSpecial scheme
  let (info, rest) := match cutAtLast '@' s with
    | some (info, rest) => (some info, rest)
    | none => (none, s)
  if info = some [] ∧ rest.isEmpty ∧ followed then throw .emptyHost
  let (username, password) := info.elim ([], []) userinfoOf
  let (hostText, portText) := hostPart false rest
  if special ∧ hostText.isEmpty then throw .emptyHost
  let host ← if special then specialHost hostText else opaqueHost hostText
  if host.isEmpty ∧ !portText.isEmpty then throw .emptyHost
  let port ← port? scheme (portText.drop 1)
  if host.isEmpty ∧ !(username.isEmpty && password.isEmpty) then throw .emptyHost
  return { username, password, host, port }

/-- The pieces of a path; a special scheme takes either slash. -/
def pathPieces (special : Bool) (s : List Char) : List (List Char) :=
  splitOn '/' (if special then s.map (fun c => if c = '\\' then '/' else c) else s)

/-- The path behind an authority. -/
def pathAfter (special : Bool) (s : List Char) : List Char :=
  match s with
  | [] => if special then ['/'] else []
  | c :: rest =>
    if c = '/' || (special && c = '\\') then pathOf (pathPieces special rest)
    else pathOf (pathPieces special s)

/-- The query and the fragment off the end. -/
def tailOf (special : Bool) (s : List Char) : List Char × Option (List Char) × Option (List Char) :=
  let (s, fragment) := match cutAt '#' s with
    | some (before, after) => (before, some (encode inFragment after))
    | none => (s, none)
  let (s, query) := match cutAt '?' s with
    | some (before, after) => (before, some (encode (if special then inSpecialQuery else inQuery) after))
    | none => (s, none)
  (s, query, fragment)

/-- Reads what follows the slashes of an authority. -/
def withAuthority (scheme s : List Char) : Except UrlError Url := do
  let special := isSpecial scheme
  let inAuthority := s.takeWhile fun c => !endsAuthority special c
  let rest := s.dropWhile fun c => !endsAuthority special c
  let authority ← authority? scheme (!rest.isEmpty) inAuthority
  let (path, query, fragment) := tailOf special rest
  return { scheme, authority := some authority, path := pathAfter special path, query, fragment }

/-- Reads what follows the colon of a scheme without an authority. -/
def withoutAuthority (scheme s : List Char) : Url :=
  let (path, query, fragment) := tailOf false s
  let path := if path.head? = some '/' then pathAfter false path else encode controls path
  { scheme, authority := none, path, query, fragment }

/-- Reads an address. -/
def parse (s : String) : Except UrlError Url :=
  match scheme? (cleaned s.toList) with
  | none => .error .relative
  | some (scheme, rest) =>
    if scheme = "file".toList then .ok (withoutAuthority scheme rest)
    else if isSpecial scheme then
      withAuthority scheme (rest.dropWhile fun c => c = '/' || c = '\\')
    else
      match after? ['/', '/'] rest with
      | some rest => withAuthority scheme rest
      | none => .ok (withoutAuthority scheme rest)

/-! ## Changing parts -/

/-- The address with a part of its authority changed; only one with a host can be. -/
def withAuthorityChanged (u : Url) (change : Authority → Authority) : Option Url :=
  match u.authority with
  | some a => if a.host.isEmpty then none else some { u with authority := some (change a) }
  | none => none

/-- The address with another port. -/
def withPort (u : Url) (port : Nat) : Option Url :=
  u.withAuthorityChanged fun a =>
    { a with port := if defaultPort? u.scheme = some port then none else some port }

/-- The address with another user. -/
def withUsername (u : Url) (name : List Char) : Option Url :=
  u.withAuthorityChanged fun a => { a with username := encode inUserinfo name }

/-- The address with another password. -/
def withPassword (u : Url) (password : List Char) : Option Url :=
  u.withAuthorityChanged fun a => { a with password := encode inUserinfo password }

/-- The address with another path, given behind its first slash. -/
def withPath (u : Url) (path : List Char) : Url :=
  { u with path := pathOf (pathPieces (isSpecial u.scheme)
      (path.filter fun c => !(c = '\t' || c = '\n' || c = '\r'))) }

/-- The address with another query. -/
def withQuery (u : Url) (query : List Char) : Url :=
  { u with query := some (encode (if isSpecial u.scheme then inSpecialQuery else inQuery) query) }

end Havoc.Url
