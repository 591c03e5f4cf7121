import Havoc.Number.Binary64

/-! # Reading numbers

    Whole numbers are an optional sign and ASCII digits within bounds.  Doubles are an optional
    sign and then a word for infinity or for no number, or decimal digits with an optional point
    and exponent; the digits decide the nearest double. -/

namespace Havoc.Number

/-- Whether a text is a run of at least one ASCII digit. -/
def isDigits (s : List Char) : Bool := !s.isEmpty && s.all Char.isDigit

/-- A sign taken off the front: whether it was a minus, and the rest. -/
def unsigned (s : List Char) : Bool × List Char :=
  match s with
  | '+' :: rest => (false, rest)
  | '-' :: rest => (true, rest)
  | _ => (false, s)

/-- A signed whole number between two bounds. -/
def readInt? (low high : Int) (s : List Char) : Option Int :=
  let (negative, ds) := unsigned s
  if isDigits ds then
    let n : Int := if negative then -(valueOf ds : Int) else valueOf ds
    if low ≤ n ∧ n ≤ high then some n else none
  else none

/-- A signed whole number of 64 bits. -/
def readInt64? (s : List Char) : Option Int := readInt? (-2 ^ 63) (2 ^ 63 - 1) s

/-- An unsigned whole number up to a bound; a plus sign may stand before it, a minus may not. -/
def readNat? (high : Nat) (s : List Char) : Option Nat :=
  let ds := match s with
    | '+' :: rest => rest
    | _ => s
  if isDigits ds then
    if valueOf ds ≤ high then some (valueOf ds) else none
  else none

/-- The exponent part of a decimal: nothing, or `e`, an optional sign and digits. -/
def readExponent? (s : List Char) : Option Int :=
  match s with
  | [] => some 0
  | c :: rest =>
    if c = 'e' ∨ c = 'E' then
      let (negative, ds) := unsigned rest
      if isDigits ds then some (if negative then -(valueOf ds : Int) else valueOf ds) else none
    else none

/-- Digits with an optional point and exponent, as the digits and the power of ten of the last. -/
def readDecimal? (s : List Char) : Option (Nat × Int) :=
  let whole := s.takeWhile Char.isDigit
  let (places, rest) := match s.dropWhile Char.isDigit with
    | '.' :: rest => (rest.takeWhile Char.isDigit, rest.dropWhile Char.isDigit)
    | rest => ([], rest)
  if whole.isEmpty && places.isEmpty then none
  else (readExponent? rest).map fun e => (valueOf (whole ++ places), e - places.length)

/-- A double. -/
def readFloat? (s : List Char) : Option Float :=
  let (negative, body) := unsigned s
  let word := body.map Char.toLower
  if word = "inf".toList ∨ word = "infinity".toList then
    some (ofRatio negative (2 ^ 1025) 1)
  else if word = "nan".toList then
    some (Float.ofBits 0x7FF8000000000000)
  else (readDecimal? body).map fun (m, e) => ofDecimal negative m e

end Havoc.Number
