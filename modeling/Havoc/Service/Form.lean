import Havoc.Http.Reply
import Havoc.Json.Record
import Havoc.Quantity.Reader

/-! # Reading the bodies of requests

    A body is a record with known fields.  A blank body has none of them, and a field that is
    missing has a value of its own.  Quantities are kept as they are written, because which of
    them count is up to the endpoint. -/

namespace Havoc.Service

open Havoc.Json Havoc.Http

/-- A value that may have to be drawn, or a problem. -/
abbrev Attempt (α : Type) := ExceptT Problem Draw α

/-- The kind of body that an endpoint takes: its fields in their order, and how to read them. -/
structure Form (α : Type) where
  names : List String
  read? : Record → Option α

namespace Form

/-- The record that a body writes. -/
def record? (f : Form α) (body : List UInt8) : Option Record :=
  if body.all fun b => Text.isAsciiBlank b.toNat then some []
  else (Json.read? body).bind (Json.record? f.names)

/-- Reads a body. -/
def read (f : Form α) (body : List UInt8) : Except Problem α :=
  match (f.record? body).bind f.read? with
  | some x => .ok x
  | none => .error .malformed

end Form

end Havoc.Service

namespace Havoc.Json.Record

/-- A quantity among the fields; a missing one is zero. -/
def quantity? (r : Record) (name : String) : Option RawQuantity :=
  r.get? name RawQuantity.ofWritten? default

/-- A truth value among the fields; a missing one is false. -/
def flag? (r : Record) (name : String) : Option Bool := r.get? name Written.bool? false

/-- A text among the fields; a missing one is empty. -/
def text? (r : Record) (name : String) : Option String := r.get? name Written.text? ""

end Havoc.Json.Record

namespace Havoc.Service

open Havoc.Http

/-- The integer of a field; `own` is the range of a bare `RANDOM`. -/
def integer (own : IntRange) (q : RawQuantity) : Attempt Int :=
  match q.int own with
  | .ok draw => (draw : Draw Int)
  | .error e => throw (.ofQuantity e)

/-- The amount of a field: a negative integer counts as nothing. -/
def amount (own : IntRange) (q : RawQuantity) : Attempt Nat := do
  return (← integer own q).toNat

/-- The double of a field. -/
def double (q : RawQuantity) : Attempt Float :=
  match q.float with
  | .ok draw => (draw : Draw Float)
  | .error e => throw (.ofQuantity e)

/-- The range of a bare `RANDOM` from `low` up to, but not including, `high`. -/
def ownRange (low high : Int) (h : decide (low < high) = true := by exact Eq.refl true) :
    IntRange :=
  ⟨low, high, of_decide_eq_true h⟩

/-- The seconds for which a job is kept up when a request leaves them to chance. -/
def maintainRange : IntRange := ownRange 1 60

/-- The seconds between two cycles when a request leaves them to chance. -/
def intervalRange : IntRange := ownRange 1 5

end Havoc.Service
