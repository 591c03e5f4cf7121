/-! # Decimal digits

    Digits as characters, the value of a run of digits, and whole numbers written with or without
    leading zeros. -/

-- A power of numbers is the one of the core library, also where more algebra is imported.
attribute [instance (2000), default_instance (20000)] instPowNat

namespace Havoc.Number

/-- The decimal digits of a number, without leading zeros. -/
def digits (n : Nat) : List Char := Nat.toDigits 10 n

/-- The value of one digit. -/
def digitValue (c : Char) : Nat := c.toNat - '0'.toNat

/-- The value of a run of digits, continuing from the value of the digits before it. -/
def valueFrom (start : Nat) (s : List Char) : Nat :=
  s.foldl (fun n c => n * 10 + digitValue c) start

/-- The value of a run of digits. -/
def valueOf (s : List Char) : Nat := valueFrom 0 s

/-- Pads a text on the left to a width. -/
def padLeft (width : Nat) (fill : Char) (s : List Char) : List Char :=
  List.replicate (width - s.length) fill ++ s

/-- A number with leading zeros up to a width. -/
def zeroPadded (width n : Nat) : List Char := padLeft width '0' (digits n)

/-- An integer as text. -/
def integerText (n : Int) : List Char :=
  match n with
  | .ofNat n => digits n
  | .negSucc n => '-' :: digits (n + 1)

/-- An integer as a string. -/
def decimal (n : Int) : String := String.ofList (integerText n)

/-- The value of a hexadecimal digit of either case. -/
def hexValue? (c : Char) : Option Nat :=
  if '0' ≤ c ∧ c ≤ '9' then some (c.toNat - '0'.toNat)
  else if 'a' ≤ c ∧ c ≤ 'f' then some (c.toNat - 'a'.toNat + 10)
  else if 'A' ≤ c ∧ c ≤ 'F' then some (c.toNat - 'A'.toNat + 10)
  else none

/-- The bytes of pairs of hexadecimal digits. -/
def hexBytes? : List Char → Option (List UInt8)
  | [] => some []
  | [_] => none
  | a :: b :: rest => do
    return UInt8.ofNat ((← hexValue? a) * 16 + (← hexValue? b)) :: (← hexBytes? rest)

/-- A number in lower-case hexadecimal with leading zeros up to a width. -/
def hexPadded (width n : Nat) : List Char := padLeft width '0' (Nat.toDigits 16 n)

end Havoc.Number
