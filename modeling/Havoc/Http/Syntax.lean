import Havoc.Text.Cut

/-! # What a request may be written with

    Methods and header names are tokens, header values hold no controls, and the target of a
    request is a path with a query, an absolute address, an authority or a star.  A target is read
    byte by byte: nothing beyond ASCII may stand in it, and a fragment is left out. -/

namespace Havoc.Http

open Havoc.Text

/-- A character that a token may hold. -/
def isTokenChar (c : Char) : Bool :=
  c.isAlphanum || "!#$%&'*+-.^_\x60|~".toList.contains c

/-- Whether a text is a token. -/
def isToken (s : List Char) : Bool := !s.isEmpty && s.all isTokenChar

/-- A byte that a header value may hold. -/
def isValueByte (b : UInt8) : Bool := (32 ≤ b && b ≠ 127) || b = 9

/-- A byte that a header value may hold to be read as text. -/
def isVisible (b : UInt8) : Bool := (32 ≤ b && b < 127) || b = 9

/-- A header value as text, if it is ASCII throughout. -/
def visibleText? (value : List UInt8) : Option String :=
  if value.all isVisible then some (String.ofList (value.map fun b => Char.ofNat b.toNat)) else none

/-! ## Targets -/

/-- The target of a request. -/
structure Target where
  authority : Option String
  path : String
  query : Option String
  deriving DecidableEq, Repr

/-- The longest target in bytes. -/
def longestTarget : Nat := 65534

/-- A character that a path may hold. -/
def isPathChar (c : Char) : Bool :=
  0x21 ≤ c.toNat && c.toNat ≤ 0x7E && !"#<>?\x60".toList.contains c

/-- A character that a query may hold. -/
def isQueryChar (c : Char) : Bool :=
  0x21 ≤ c.toNat && c.toNat ≤ 0x7E && !"\"#<>".toList.contains c

/-- A character that an authority may hold. -/
def isAuthorityChar (c : Char) : Bool :=
  c.isAlphanum || "!#$&'()*+,-./:;=?@[]_~".toList.contains c

/-- A character that a scheme may hold. -/
def isSchemeChar (c : Char) : Bool := c.isAlphanum || "+-.~".toList.contains c

/-- Reads a path, a query and a fragment; the fragment is left out. -/
def pathAndQuery? (s : List Char) : Option (String × Option String) :=
  let path := s.takeWhile fun c => c ≠ '?' && c ≠ '#'
  let rest := s.dropWhile fun c => c ≠ '?' && c ≠ '#'
  if !path.all isPathChar then none
  else
    let pathText := if path.isEmpty then "/" else String.ofList path
    match rest with
    | '?' :: rest =>
      let query := rest.takeWhile (· ≠ '#')
      if query.all isQueryChar then some (pathText, some (String.ofList query)) else none
    | _ => some (pathText, none)

/-- What has been seen of an authority. -/
structure AuthorityScan where
  colons : Nat := 0
  opened : Bool := false
  closed : Bool := false
  percent : Bool := false
  /-- Whether the last character was the sign after the user. -/
  endsWithAt : Bool := false

/-- Looks at one more character of an authority. -/
def AuthorityScan.look (a : AuthorityScan) (c : Char) : Option AuthorityScan :=
  let a := { a with endsWithAt := false }
  if c = ':' then if 8 ≤ a.colons then none else some { a with colons := a.colons + 1 }
  else if c = '[' then if a.percent || a.opened then none else some { a with opened := true }
  else if c = ']' then
    if !a.opened || a.closed then none
    else some { a with closed := true, colons := 0, percent := false }
  else if c = '@' then some { a with colons := 0, percent := false, endsWithAt := true }
  else if c = '%' then some { a with percent := true }
  else if isAuthorityChar c then some a
  else none

/-- Whether a text may stand as an authority: brackets come in pairs, there is at most one colon
    outside of them and the user, and something follows the user. -/
def isAuthority (s : List Char) : Bool :=
  match s.foldlM AuthorityScan.look {} with
  | some a => a.opened = a.closed && a.colons ≤ 1 && !a.endsWithAt && !a.percent
  | none => false

/-- What follows the scheme of an absolute address and its slashes. -/
def afterScheme? (s : List Char) : Option (List Char) :=
  match after? [':', '/', '/'] (s.dropWhile isSchemeChar) with
  | some rest => if 3 < s.length then some rest else none
  | none => none

/-- The longest scheme. -/
def longestScheme : Nat := 64

/-- Reads a target. -/
def Target.read? (text : String) : Option Target :=
  let s := text.toList
  let endsAuthority (c : Char) : Bool := c = '/' || c = '?' || c = '#'
  if longestTarget < text.utf8ByteSize ∨ s.isEmpty then none
  else if s = ['*'] then some ⟨none, "*", none⟩
  else if s.head? = some '/' then (pathAndQuery? s).map fun (path, query) => ⟨none, path, query⟩
  else
    match afterScheme? s with
    | some rest =>
      let authority := rest.takeWhile (!endsAuthority ·)
      if longestScheme < (s.takeWhile isSchemeChar).length then none
      else if authority.isEmpty || !isAuthority authority then none
      else (pathAndQuery? (rest.dropWhile (!endsAuthority ·))).map fun (path, query) =>
        ⟨some (String.ofList authority), path, query⟩
    | none =>
      if s.any endsAuthority || !isAuthority s then none
      else some ⟨some text, "", none⟩

end Havoc.Http
