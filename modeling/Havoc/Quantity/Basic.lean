import Havoc.Draw.Uniform
import Havoc.Json.Value
import Havoc.Text.Quoted

/-! # Quantities

    A numeric field of a request is a quantity: a number, a number drawn from a range that the
    field names, or a number drawn from the field's own range.  Integers and doubles are both
    scalars that a quantity can be made of. -/

namespace Havoc

/-- Why a field is no quantity. -/
inductive QuantityError where
  | invalidRange (start stop : String)
  | invalidSyntax (text : String)
  | notANumber (text : String)
  | notAnInteger (text : String)
  deriving DecidableEq, Repr

namespace QuantityError

/-- What is told about the error. -/
def message : QuantityError → String
  | invalidRange start stop =>
    s!"invalid RANDOM range {start}:{stop}, start must be less than end"
  | invalidSyntax text => s!"invalid RANDOM syntax: {text}"
  | notANumber text => s!"cannot parse {Text.quoted text} as a number"
  | notAnInteger text => s!"expected an integer, got {text}"

/-- Whether the bounds of a range are at fault. -/
def isRangeError : QuantityError → Bool
  | invalidRange .. => true
  | _ => false

end QuantityError

/-- The numbers that a quantity can be made of. -/
class Scalar (α : Type) where
  /-- The ranges that a number can be drawn from. -/
  Range : Type
  /-- Reads a number. -/
  read? : List Char → Option α
  /-- The number as text. -/
  text : α → String
  /-- The number that a number of a document stands for. -/
  ofNumber : Json.Number → Except QuantityError α
  /-- The range between two bounds; the first has to be less than the second. -/
  rising? : α → α → Option Range
  /-- The range between any two bounds that something can be drawn between. -/
  range? : α → α → Option Range
  /-- The bounds of a range. -/
  bounds : Range → α × α
  /-- Draws a number of the range. -/
  draw : Range → Draw α

instance : Scalar Int where
  Range := IntRange
  read? := Number.readInt64?
  text := Number.decimal
  ofNumber n := match n.int? with
    | some i => .ok i
    | none => .error (.notAnInteger (String.ofList n.chars))
  rising? := IntRange.between?
  range? := IntRange.between?
  bounds r := (r.low, r.high)
  draw := Draw.int

/-- Two doubles to draw between. -/
structure FloatRange where
  low : Float
  high : Float

instance : Scalar Float where
  Range := FloatRange
  read? := Number.readFloat?
  text := Number.plain
  ofNumber n := .ok n.toFloat
  rising? low high := if low ≥ high then none else some ⟨low, high⟩
  range? low high := some ⟨low, high⟩
  bounds r := (r.low, r.high)
  draw r := do return r.low + (← Draw.unit) * (r.high - r.low)

/-- A number, or how to draw one. -/
inductive Quantity (α : Type) [Scalar α] where
  | exactly (n : α)
  | between (range : Scalar.Range α)
  /-- A number of the field's own range. -/
  | anywhere

/-- The number that a quantity stands for; `own` is the field's own range. -/
def Quantity.draw [Scalar α] (own : Scalar.Range α) : Quantity α → Draw α
  | exactly n => return n
  | between range => Scalar.draw range
  | anywhere => Scalar.draw own

/-- The number that a quantity stands for when the bounds of the field's own range may be out of
    order; there is none if it would have to come from an empty range. -/
def Quantity.draw? [Scalar α] (low high : α) : Quantity α → Option (Draw α)
  | exactly n => some (return n)
  | between range => some (Scalar.draw range)
  | anywhere => (Scalar.range? low high).map Scalar.draw

/-- A quantity as a request writes it: a number or a text. -/
inductive RawQuantity where
  | number (n : Json.Number)
  | text (s : String)

instance : Inhabited RawQuantity := ⟨.number (.integer 0)⟩

end Havoc
