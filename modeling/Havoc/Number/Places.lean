import Havoc.Number.Shortest

/-! # A fixed number of places

    A double written with exactly so many digits after the point, rounded from its exact value
    with a tie to the even digit; and a double rounded to thousandths and written without
    trailing zeros. -/

namespace Havoc.Number

/-- A positive value `num / den` with a number of places after the point. -/
def placesOf (places num den : Nat) : List Char :=
  let scaledValue := roundEven (num * 10 ^ places) den
  let whole := digits (scaledValue / 10 ^ places)
  if places = 0 then whole
  else whole ++ '.' :: zeroPadded places (scaledValue % 10 ^ places)

/-- A double with a fixed number of places after the point. -/
def fixed (places : Nat) (x : Float) : String :=
  match shape x with
  | .finite negative m e =>
    let (num, den) := scaled m 1 e
    String.ofList ((if negative then ['-'] else []) ++ placesOf places num den)
  | _ => plain x

/-- A double rounded to thousandths, halves away from zero, in plain notation. -/
def thousandths (x : Float) : String :=
  plain (roundHalfAway (x * 1000.0) / 1000.0)

end Havoc.Number
