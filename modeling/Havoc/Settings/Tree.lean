import Havoc.Json.Value
import Havoc.Settings.KeyPath

/-! # Nested settings

    Settings are a tree of tables and lists with texts at the leaves.  Setting a path makes the
    tables and lists on the way, in place of whatever was there; a table that is set is merged
    into the one that is there. -/

namespace Havoc.Settings

/-- A tree of settings. -/
inductive Tree where
  /-- A value that counts as absent. -/
  | nothing
  | leaf (text : String)
  | table (entries : List (List Char × Tree))
  | list (items : List Tree)

namespace Tree

/-- The entries of a table; anything else has none. -/
def entries : Tree → List (List Char × Tree)
  | table es => es
  | _ => []

/-- The items of a list; anything else has none. -/
def items : Tree → List Tree
  | list xs => xs
  | _ => []

/-- Entries with one more; it replaces one of the same name. -/
def putEntry (key : List Char) (x : Tree) : List (List Char × Tree) → List (List Char × Tree)
  | [] => [(key, x)]
  | (k, y) :: rest => if k = key then (k, x) :: rest else (k, y) :: putEntry key x rest

/-- The place of a position in a list of a length; there is none before its start. -/
def place? (index : Int) (length : Nat) : Option Nat :=
  if 0 ≤ index then some index.toNat
  else if index.natAbs ≤ length then some (length - index.natAbs) else none

/-- Items with the one at a place replaced; the list grows as far as it has to. -/
def putItem (i : Nat) (x : Tree) (xs : List Tree) : List Tree :=
  (xs ++ List.replicate (i + 1 - xs.length) nothing).set i x

mutual

/-- Puts a value under a name into a table. -/
def putName (key : List Char) (old : List (List Char × Tree)) : Tree → List (List Char × Tree)
  | table incoming =>
    let target := (old.lookup key).getD (table [])
    putEntry key (if incoming.isEmpty then target else table (putAll target.entries incoming)) old
  | x => putEntry key x old

/-- Puts entries into a table, one after the other. -/
def putAll (old : List (List Char × Tree)) : List (List Char × Tree) → List (List Char × Tree)
  | [] => old
  | (key, x) :: rest => putAll (putName key old x) rest

end

/-- The tree with a value at a path.  There is none if the path asks for a place before the start
    of a list. -/
def set? (value : Tree) : List Step → Tree → Option Tree
  | [], _ => some value
  | [.name key], t => some (table (putName key t.entries value))
  | [.position i], t => (place? i t.items.length).map fun i => list (putItem i value t.items)
  | .name key :: step :: rest, t =>
    (set? value (step :: rest) ((t.entries.lookup key).getD nothing)).map fun x =>
      table (putEntry key x t.entries)
  | .position i :: step :: rest, t =>
    match place? i t.items.length with
    | none => none
    | some i =>
      (set? value (step :: rest) (t.items.getD i nothing)).map fun x => list (putItem i x t.items)

/-- The value at a path. -/
def get? : List Step → Tree → Option Tree
  | [], t => some t
  | .name key :: rest, t => (t.entries.lookup key).bind (get? rest)
  | .position i :: rest, t =>
    ((place? i t.items.length).bind (t.items[·]?)).bind (get? rest)

/-- The text of a leaf. -/
def text? : Tree → Option String
  | leaf text => some text
  | _ => none

mutual

/-- The settings of a document: numbers and truth values become texts, and null is nothing. -/
def ofValue : Json.Value → Tree
  | .null => nothing
  | .bool true => leaf "true"
  | .bool false => leaf "false"
  | .number n => leaf (match n.int? with
    | some i => Number.decimal i
    | none => Number.plain n.toFloat)
  | .text s => leaf s
  | .array xs => list (ofValues xs)
  | .object ms => table (ofMembers ms)

/-- The settings of the items of a document. -/
def ofValues : List Json.Value → List Tree
  | [] => []
  | x :: rest => ofValue x :: ofValues rest

/-- The settings of the members of a document. -/
def ofMembers : List (String × Json.Value) → List (List Char × Tree)
  | [] => []
  | (k, x) :: rest => (k.toList, ofValue x) :: ofMembers rest

end

end Tree

end Havoc.Settings
