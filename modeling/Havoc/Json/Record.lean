import Havoc.Json.Value

/-! # Records in documents

    A record with known fields is written as an object, or as an array with the fields in order.
    A field may be missing; a known field may not be there twice; other members are skipped
    without being looked into. -/

namespace Havoc.Json

/-- The fields of a record that a document gives, by name. -/
abbrev Record := List (String × Written)

/-- Collects the known fields of members. -/
def fieldsOf (names : List String) (done : Record) : List (List UInt8 × Written) → Option Record
  | [] => some done
  | (key, x) :: rest =>
    match rawText? key with
    | none => none
    | some k =>
      if names.contains k then
        if (done.lookup k).isSome then none else fieldsOf names ((k, x) :: done) rest
      else fieldsOf names done rest

/-- The record that a document writes. -/
def record? (names : List String) : Written → Option Record
  | .object members => fieldsOf names [] members
  | .array items => if items.length ≤ names.length then some (names.zip items) else none
  | _ => none

/-- A field of a record, or the value that stands for a missing one. -/
def Record.get? (r : Record) (name : String) (read : Written → Option α) (missing : α) : Option α :=
  match r.lookup name with
  | none => some missing
  | some x => read x

/-- The truth value of a document. -/
def Written.bool? : Written → Option Bool
  | .bool b => some b
  | _ => none

/-- The text of a document. -/
def Written.text? : Written → Option String
  | .text raw => rawText? raw
  | _ => none

/-- The texts of the members of an object, in the order of their keys; of two members with one key
    the later counts. -/
def Written.textMap? : Written → Option (List (String × String))
  | .object members => do
    let pairs ← members.mapM fun (key, x) => do return (← rawText? key, ← x.text?)
    return pairs
  | _ => none

/-- What is said of a document that cannot be decoded. -/
def malformed : String := "malformed document"

end Havoc.Json
