import Havoc.Text.Cut
import Havoc.Number.Reader

/-! # Paths to settings

    A key is a path: a name, and behind it more names after points and positions in brackets.  A
    name is made of ASCII letters, digits, spaces, underscores and hyphens. -/

namespace Havoc.Settings

open Havoc.Text

/-- One step into nested settings. -/
inductive Step where
  | name (key : List Char)
  /-- A position in a list; a negative one counts from the end. -/
  | position (index : Int)
  deriving DecidableEq, Repr

/-- Whether a character may stand in a name. -/
def isNameChar (c : Char) : Bool := c.isAlphanum || c = ' ' || c = '_' || c = '-'

/-- A name at the front, at least one character long, and the rest. -/
def name? (s : List Char) : Option (List Char × List Char) :=
  let name := s.takeWhile isNameChar
  if name.isEmpty then none else some (name, s.dropWhile isNameChar)

/-- A position, with spaces and tabs allowed around it. -/
def position? (s : List Char) : Option Int :=
  let isGap (c : Char) : Bool := c = ' ' || c = '\t'
  let s := s.dropWhile isGap
  let ds := match s with
    | '-' :: rest => rest
    | _ => s
  let number := ds.takeWhile Char.isDigit
  if (ds.dropWhile Char.isDigit).all isGap then
    Number.readInt64? (if s.head? = some '-' then '-' :: number else number)
  else none

/-- The steps after the first name. -/
def stepsFrom : Nat → List Char → Option (List Step)
  | _, [] => some []
  | 0, _ => none
  | fuel + 1, c :: rest =>
    if c = '.' then
      match name? rest with
      | some (name, rest) => (stepsFrom fuel rest).map (.name name :: ·)
      | none => none
    else if c = '[' then
      match cutAt ']' rest with
      | some (inside, rest) =>
        match position? inside with
        | some i => (stepsFrom fuel rest).map (.position i :: ·)
        | none => none
      | none => none
    else none

/-- The path that a key stands for. -/
def path? (key : List Char) : Option (List Step) :=
  match name? key with
  | some (name, rest) => (stepsFrom rest.length rest).map (.name name :: ·)
  | none => none

end Havoc.Settings
