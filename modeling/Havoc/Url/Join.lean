import Havoc.Url.Reader

/-! # Addresses relative to others

    A text without a scheme is read relative to an address: it may name another authority, a path
    from the root, a path from the last piece on, a query or a fragment. -/

namespace Havoc.Url

open Havoc.Text

/-- The pieces of a path but the last, in reverse. -/
def parentPieces (path : List Char) : List (List Char) := ((splitOn '/' (path.drop 1)).reverse).drop 1

/-- A path read from where another ends. -/
def pathFrom (done : List (List Char)) (special : Bool) (s : List Char) : List Char :=
  '/' :: joinWith '/' (settlePieces done ((pathPieces special s).map (encode inPath))).reverse

/-- Reads a text without a scheme relative to an address with an authority. -/
def relative (base : Url) (s : List Char) : Except UrlError Url :=
  let special := isSpecial base.scheme
  let isSlash (c : Char) : Bool := c = '/' || (special && c = '\\')
  let (path, query, fragment) := tailOf special s
  match path with
  | [] =>
    .ok { base with query := if query.isSome then query else base.query, fragment }
  | c :: rest =>
    if isSlash c then
      match rest with
      | d :: more =>
        if isSlash d then
          withAuthority base.scheme
            ((if special then more.dropWhile isSlash else more) ++ s.drop path.length)
        else .ok { base with path := pathFrom [] special rest, query, fragment }
      | [] => .ok { base with path := pathFrom [] special [], query, fragment }
    else .ok { base with path := pathFrom (parentPieces base.path) special path, query, fragment }

/-- Reads a text relative to an address. -/
def join (base : Url) (s : String) : Except UrlError Url :=
  match scheme? (cleaned s.toList) with
  | none => relative base (cleaned s.toList)
  | some (scheme, rest) =>
    if scheme = base.scheme ∧ isSpecial scheme ∧ (after? ['/', '/'] rest).isNone then relative base rest
    else parse s

end Havoc.Url
