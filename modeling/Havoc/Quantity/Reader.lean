import Havoc.Text.Blank
import Havoc.Text.Cut
import Havoc.Quantity.Basic

/-! # Reading quantities

    A text is a quantity if it is the word `RANDOM`, or that word with two numbers after it, each
    behind a colon, or a number.  Blanks at the ends of the text and of each number do not
    count. -/

namespace Havoc

open Havoc.Text

namespace Quantity

variable {α : Type} [Scalar α]

/-- The word that asks for a drawn number. -/
def token : List Char := ['R', 'A', 'N', 'D', 'O', 'M']

/-- Reads a number of a quantity. -/
def readScalar (s : List Char) : Except QuantityError α :=
  match Scalar.read? (trim s) with
  | some n => .ok n
  | none => .error (.notANumber (String.ofList s))

/-- Reads a range from the two texts of its bounds. -/
def readRange (low high : List Char) : Except QuantityError (Scalar.Range α) := do
  let start : α ← readScalar low
  let stop : α ← readScalar high
  match Scalar.rising? start stop with
  | some range => .ok range
  | none => .error (.invalidRange (Scalar.text start) (Scalar.text stop))

/-- Reads a quantity from a text without blanks at its ends. -/
def readTrimmed (s : List Char) : Except QuantityError (Quantity α) :=
  if s = token then .ok .anywhere
  else
    match after? (token ++ [':']) s with
    | some rest =>
      match splitOn ':' rest with
      | [low, high] => (readRange low high).map .between
      | _ => .error (.invalidSyntax (String.ofList s))
    | none => (readScalar s).map .exactly

/-- Reads a quantity from a text. -/
def ofText (s : String) : Except QuantityError (Quantity α) := readTrimmed (trim s.toList)

/-- Reads a quantity from a field of a request. -/
def ofRaw : RawQuantity → Except QuantityError (Quantity α)
  | .number n => (Scalar.ofNumber n).map .exactly
  | .text s => ofText s

end Quantity

namespace RawQuantity

/-- The quantity that a written document is, if it is a number or a text. -/
def ofWritten? : Json.Written → Option RawQuantity
  | .number lexeme => (Json.Number.ofLexeme? lexeme).map .number
  | .text raw => (Json.rawText? raw).map .text
  | _ => none

/-- The integer of a field; `own` is the range of a bare `RANDOM`. -/
def int (own : IntRange) (q : RawQuantity) : Except QuantityError (Draw Int) :=
  (Quantity.ofRaw q : Except _ (Quantity Int)).map (Quantity.draw own)

/-- The double of a field; a bare `RANDOM` is from zero up to one. -/
def float (q : RawQuantity) : Except QuantityError (Draw Float) :=
  (Quantity.ofRaw q : Except _ (Quantity Float)).map (Quantity.draw (FloatRange.mk 0.0 1.0))

end RawQuantity

end Havoc
