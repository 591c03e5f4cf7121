import Havoc.Number.Digits

/-! # Doubles as exact numbers

    A double is either not a number, infinite, or a whole number times a power of two.  `shape`
    reads that off its bits, and `ofRatio` goes the other way: it rounds an exact quotient to the
    nearest double, a tie to the even one. -/

namespace Havoc.Number

/-- What a double is: `finite negative m e` is `±m · 2^e`. -/
inductive Shape where
  | notANumber
  | infinite (negative : Bool)
  | finite (negative : Bool) (m : Nat) (e : Int)
  deriving DecidableEq, Repr

/-- The exact value of a double. -/
def shape (x : Float) : Shape :=
  let bits := x.toBits.toNat
  let negative : Bool := 2 ^ 63 ≤ bits
  let exponent : Nat := bits / 2 ^ 52 % 2 ^ 11
  let fraction : Nat := bits % 2 ^ 52
  if exponent = 2 ^ 11 - 1 then
    if fraction = 0 then .infinite negative else .notANumber
  else if exponent = 0 then .finite negative fraction (-1074)
  else .finite negative (2 ^ 52 + fraction) ((exponent : Int) - 1075)

/-- A quotient rounded to the nearest whole number, a tie to the even one. -/
def roundEven (num den : Nat) : Nat :=
  let q := num / den
  let twice := 2 * (num % den)
  if twice < den then q
  else if den < twice then q + 1
  else q + q % 2

/-- A quotient rounded to the nearest whole number, a tie upwards. -/
def roundUp (num den : Nat) : Nat := (2 * num + den) / (2 * den)

/-- `num / den · 2^e` as a fraction of whole numbers. -/
def scaled (num den : Nat) (e : Int) : Nat × Nat :=
  if 0 ≤ e then (num * 2 ^ e.toNat, den) else (num, den * 2 ^ (-e).toNat)

/-- The binary exponent of a positive quotient: `2^k ≤ num / den < 2^(k+1)`. -/
def binaryExponent (num den : Nat) : Int :=
  let k : Int := (num.log2 : Int) - den.log2
  let (n, d) := scaled num den (-k)
  if n < d then k - 1 else k

/-- The bits of the double nearest to a quotient, without its sign. -/
def nearestBits (num den : Nat) : Nat :=
  if num = 0 || den = 0 then 0
  else
    let e := max (binaryExponent num den - 52) (-1074)
    let (n, d) := scaled num den (-e)
    min ((e + 1074).toNat * 2 ^ 52 + roundEven n d) (2047 * 2 ^ 52)

/-- The double nearest to a quotient with the given sign; beyond the largest it is infinite. -/
def ofRatio (negative : Bool) (num den : Nat) : Float :=
  Float.ofBits (UInt64.ofNat (nearestBits num den + if negative then 2 ^ 63 else 0))

/-- The double nearest to a whole number. -/
def ofNat (n : Nat) : Float := ofRatio false n 1

/-- The double nearest to an integer. -/
def ofInt (n : Int) : Float := ofRatio (n < 0) n.natAbs 1

/-- The double nearest to a decimal `±m · 10^e`.  A decimal with its leading digit far outside the
    range of doubles is settled by the place of that digit alone. -/
def ofDecimal (negative : Bool) (m : Nat) (e : Int) : Float :=
  let leading : Int := (digits m).length + e
  if m = 0 ∨ leading < -330 then ofRatio negative 0 1
  else if 309 < leading then ofRatio negative (2 ^ 1025) 1
  else if 0 ≤ e then ofRatio negative (m * 10 ^ e.toNat) 1
  else ofRatio negative m (10 ^ (-e).toNat)

/-- The value rounded to a whole number, halves away from zero. -/
def roundHalfAway (x : Float) : Float :=
  match shape x with
  | .finite negative m e =>
    if 0 ≤ e then x
    else ofRatio negative (roundUp m (2 ^ (-e).toNat)) 1
  | _ => x

end Havoc.Number
