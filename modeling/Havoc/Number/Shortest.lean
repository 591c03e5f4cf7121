import Havoc.Number.Binary64

/-! # The shortest decimal of a double

    A double is written with the fewest digits that read back as it.  The numbers that round to
    a double form an interval around it; for one digit, two digits and so on, the two neighbours
    of the value on that decimal grid are tested against the interval.  The first grid with a hit
    wins; of two hits the nearer wins.  Two layouts are used: plain positional notation, and the
    notation of documents with an exponent for very large and very small values. -/

namespace Havoc.Number

/-- A positive decimal: `digits · 10^exponent`. -/
structure Decimal where
  coefficient : Nat
  exponent : Int
  deriving DecidableEq, Repr

/-- Which of two equally near decimals is taken. -/
inductive Tie where
  | upper
  | even
  deriving DecidableEq, Repr

/-- The interval of numbers that round to `m · 2^e`, in quarters of the last place: the value is
    `4 · m`, and the ends belong to it when `m` is even. -/
structure Neighbourhood where
  low : Nat
  value : Nat
  high : Nat
  closed : Bool
  /-- The power of two that the quarters are counted in. -/
  scale : Int

/-- The interval around `m · 2^e`; below a power of two the gap is half as wide. -/
def Neighbourhood.around (m : Nat) (e : Int) : Neighbourhood :=
  { low := if m = 2 ^ 52 ∧ e ≠ -1074 then 4 * m - 1 else 4 * m - 2
    value := 4 * m
    high := 4 * m + 2
    closed := m % 2 = 0
    scale := e - 2 }

/-- `n · 2^s` compared with `c · 10^d`, by the whole numbers that both become. -/
def compareScaled (n : Nat) (s : Int) (c : Nat) (d : Int) : Ordering :=
  compare (n * 2 ^ s.toNat * 10 ^ (-d).toNat) (c * 10 ^ d.toNat * 2 ^ (-s).toNat)

/-- Whether a decimal lies in the interval. -/
def Neighbourhood.contains (i : Neighbourhood) (c : Nat) (d : Int) : Bool :=
  let fromLow := compareScaled i.low i.scale c d
  let toHigh := compareScaled i.high i.scale c d
  if i.closed then fromLow.isLE && toHigh.isGE else fromLow.isLT && toHigh.isGT

/-- The decimal exponent of a positive value: `10^k ≤ n · 2^s < 10^(k+1)`. -/
def decimalExponent (n : Nat) (s : Int) : Int :=
  let (num, den) := scaled n 1 s
  let k : Int := ((digits num).length : Int) - (digits den).length
  if (compareScaled n s 1 k).isLT then k - 1 else k

/-- The candidate with the given number of digits, if one of the value's two neighbours on that
    grid reads back. -/
def candidate? (tie : Tie) (i : Neighbourhood) (top : Int) (count : Nat) : Option Decimal :=
  let d := top + 1 - count
  let num := i.value * 2 ^ i.scale.toNat * 10 ^ (-d).toNat
  let den := 10 ^ d.toNat * 2 ^ (-i.scale).toNat
  let below := num / den
  let down := i.contains below d
  let up := i.contains (below + 1) d
  let twice := 2 * (num % den)
  let takeUp := up && (!down || den < twice ||
    (twice = den && (tie = .upper || below % 2 = 1)))
  if takeUp then some ⟨below + 1, d⟩
  else if down then some ⟨below, d⟩
  else none

/-- Moves trailing zeros of the coefficient into the exponent. -/
def Decimal.normal : Nat → Decimal → Decimal
  | 0, x => x
  | fuel + 1, x =>
    if x.coefficient ≠ 0 ∧ x.coefficient % 10 = 0 then
      Decimal.normal fuel ⟨x.coefficient / 10, x.exponent + 1⟩
    else x

/-- The shortest decimal that reads back as `m · 2^e`; seventeen digits always do. -/
def shortest (tie : Tie) (m : Nat) (e : Int) : Decimal :=
  let i := Neighbourhood.around m e
  let top := decimalExponent i.value i.scale
  let found := (List.range 17).findSome? fun n => candidate? tie i top (n + 1)
  (found.getD ⟨0, 0⟩).normal 20

/-! ## Layouts -/

/-- Positional digits of a decimal: no exponent, and no point for a whole number. -/
def Decimal.positional (x : Decimal) : List Char :=
  let ds := digits x.coefficient
  if 0 ≤ x.exponent then ds ++ List.replicate x.exponent.toNat '0'
  else
    let places := (-x.exponent).toNat
    if places < ds.length then ds.take (ds.length - places) ++ '.' :: ds.drop (ds.length - places)
    else '0' :: '.' :: padLeft places '0' ds

/-- Scientific digits of a decimal: one digit before the point, and a signed exponent. -/
def Decimal.scientific (x : Decimal) : List Char :=
  let ds := digits x.coefficient
  let power : Int := x.exponent + (ds.length - 1 : Nat)
  let sign := if power < 0 then '-' else '+'
  ds.take 1 ++ (if ds.length ≤ 1 then [] else '.' :: ds.drop 1) ++
    'e' :: sign :: digits power.natAbs

/-- A double in plain notation: never an exponent, and no point for a whole number. -/
def plainText (x : Float) : List Char :=
  match shape x with
  | .notANumber => ['N', 'a', 'N']
  | .infinite negative => (if negative then ['-'] else []) ++ ['i', 'n', 'f']
  | .finite negative m e =>
    (if negative then ['-'] else []) ++
      (if m = 0 then ['0'] else (shortest .upper m e).positional)

/-- A double in plain notation, as a string. -/
def plain (x : Float) : String := String.ofList (plainText x)

/-- A finite double as documents write it: with `.0` when it is whole, positional from `1e-5` up to
    below `1e16`, and with a signed exponent beyond. -/
def documentText (x : Float) : List Char :=
  match shape x with
  | .finite negative m e =>
    (if negative then ['-'] else []) ++
      (if m = 0 then ['0', '.', '0']
      else
        let d := shortest .even m e
        let top : Int := d.exponent + ((digits d.coefficient).length - 1 : Nat)
        if -5 ≤ top ∧ top < 16 then
          d.positional ++ (if 0 ≤ d.exponent then ['.', '0'] else [])
        else d.scientific)
  | _ => ['n', 'u', 'l', 'l']

end Havoc.Number
