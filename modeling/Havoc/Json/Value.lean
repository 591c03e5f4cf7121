import Havoc.Number.Reader
import Havoc.Number.Shortest
import Havoc.Json.Reader

/-! # Document values

    What a written document means: numbers as integers of 64 bits or as doubles, texts as
    characters, and objects with one value for each key, in the order of the keys. -/

namespace Havoc.Json

open Havoc.Number Havoc.Text

/-- A number of a document. -/
inductive Number where
  /-- A whole number of 64 bits, with or without a sign. -/
  | integer (n : Int)
  | float (x : Float)

/-- A document value. -/
inductive Value where
  | null
  | bool (b : Bool)
  | number (n : Number)
  | text (s : String)
  | array (items : List Value)
  /-- The members in the order of their keys, each key once. -/
  | object (members : List (String × Value))

/-! ## Numbers -/

/-- The greatest number of 64 bits. -/
def greatest : Nat := 2 ^ 64 - 1

/-- The digits of a whole part that fit 64 bits, and how many digits after them were dropped. -/
def wholeDigits (n : Nat) : List Char → Nat × Nat
  | [] => (n, 0)
  | c :: rest =>
    let next := n * 10 + digitValue c
    if next ≤ greatest then wholeDigits next rest else (n, rest.length + 1)

/-- Places taken on as long as the digits fit 64 bits, and how many were taken. -/
def placeDigits (n taken : Nat) : List Char → Nat × Nat
  | [] => (n, taken)
  | c :: rest =>
    let next := n * 10 + digitValue c
    if next ≤ greatest then placeDigits next (taken + 1) rest else (n, taken)

/-- A power of ten as a double. -/
def tenTo (e : Nat) : Float := ofNat (10 ^ e)

/-- `x · 10^e` by one multiplication or division, in steps of `10^308` for very small results; there
    is no answer beyond the largest double. -/
def scaleByTen : Nat → Float → Int → Option Float
  | 0, x, _ => some x
  | fuel + 1, x, e =>
    if 308 < e then (if x == 0 then some x else none)
    else if 0 ≤ e then
      let y := x * tenTo e.toNat
      if y.isInf then none else some y
    else if -308 ≤ e then some (x / tenTo (-e).toNat)
    else if x == 0 then some x
    else scaleByTen fuel (x / tenTo 308) (e + 308)

/-- The number that a spelling stands for.  A whole number of 64 bits stays one, except that a
    negative zero is a double; of any other spelling the leading digits that fit 64 bits are scaled
    by the exponent. -/
def Number.ofLexeme? (s : List Char) : Option Number :=
  let (negative, body) := unsigned s
  let whole := body.takeWhile Char.isDigit
  let tail := body.dropWhile Char.isDigit
  let (n, dropped) := wholeDigits 0 whole
  let signed (x : Float) : Number := .float (if negative then -x else x)
  if tail.isEmpty ∧ dropped = 0 then
    if !negative then some (.integer n)
    else if n = 0 ∨ 2 ^ 63 < n then some (signed (ofNat n))
    else some (.integer (-n))
  else
    let (places, tail) := match tail with
      | '.' :: rest => (rest.takeWhile Char.isDigit, rest.dropWhile Char.isDigit)
      | _ => ([], tail)
    let (n, taken) := placeDigits n 0 places
    match readExponent? tail with
    | none => none
    | some e => (scaleByTen 4 (ofNat n) ((dropped : Int) - taken + e)).map signed

/-- The number as an integer of 64 bits with a sign. -/
def Number.int? : Number → Option Int
  | .integer n => if -2 ^ 63 ≤ n ∧ n < 2 ^ 63 then some n else none
  | .float _ => none

/-- The number as the nearest double. -/
def Number.toFloat : Number → Float
  | .integer n => ofInt n
  | .float x => x

/-- The number as documents write it. -/
def Number.chars : Number → List Char
  | .integer n => integerText n
  | .float x => documentText x

/-! ## Texts -/

/-- The value of four hexadecimal digits. -/
def hexQuad (a b c d : UInt8) : Nat :=
  let digit (h : UInt8) : Nat := (hexValue? (Char.ofNat h.toNat)).getD 0
  ((digit a * 16 + digit b) * 16 + digit c) * 16 + digit d

/-- The character after a backslash. -/
def escaped (b : UInt8) : UInt8 :=
  if b = byte 'b' then 0x08 else if b = byte 'f' then 0x0C else if b = byte 'n' then 0x0A
  else if b = byte 'r' then 0x0D else if b = byte 't' then 0x09 else b

/-- The bytes of one character. -/
def charBytes (n : Nat) : List UInt8 := utf8 (String.singleton (Char.ofNat n))

/-- The bytes that the bytes between two quotes stand for.  Two surrogates in a row are one
    character; a surrogate alone is none. -/
def unescape : List UInt8 → Option (List UInt8)
  | [] => some []
  | b :: rest =>
    if b = byte '\\' then
      match rest with
      | [] => none
      | e :: rest =>
        if e = byte 'u' then
          match rest with
          | a :: b :: c :: d :: rest =>
            let n := hexQuad a b c d
            if 0xD800 ≤ n ∧ n < 0xDC00 then
              match rest with
              | s :: u :: a' :: b' :: c' :: d' :: rest =>
                let m := hexQuad a' b' c' d'
                if s = byte '\\' ∧ u = byte 'u' ∧ 0xDC00 ≤ m ∧ m < 0xE000 then
                  (unescape rest).map
                    (charBytes (0x10000 + (n - 0xD800) * 0x400 + (m - 0xDC00)) ++ ·)
                else none
              | _ => none
            else if 0xDC00 ≤ n ∧ n < 0xE000 then none
            else (unescape rest).map (charBytes n ++ ·)
          | _ => none
        else (unescape rest).map (escaped e :: ·)
    else (unescape rest).map (b :: ·)

/-- The text that the bytes between two quotes stand for. -/
def rawText? (raw : List UInt8) : Option String := (unescape raw).bind text?

/-! ## Values -/

/-- Members with one more, in the order of the keys; the new one replaces one of the same key. -/
def insertMember (key : String) (x : Value) : List (String × Value) → List (String × Value)
  | [] => [(key, x)]
  | (k, y) :: rest =>
    if key < k then (key, x) :: (k, y) :: rest
    else if key = k then (key, x) :: rest
    else (k, y) :: insertMember key x rest

/-- An object of members in any order; of two with one key the later counts. -/
def Value.ofMembers (members : List (String × Value)) : Value :=
  .object (members.foldl (fun ms (k, x) => insertMember k x ms) [])

mutual

/-- The value of a written document with at most `depth` containers inside each other. -/
def valueWithin (depth : Nat) : Written → Option Value
  | .null => some .null
  | .bool b => some (.bool b)
  | .number lexeme => (Number.ofLexeme? lexeme).map .number
  | .text raw => (rawText? raw).map .text
  | .array items => if depth = 0 then none else (valuesWithin (depth - 1) items).map .array
  | .object members =>
    if depth = 0 then none else (membersWithin (depth - 1) members).map Value.ofMembers

/-- The values of written items. -/
def valuesWithin (depth : Nat) : List Written → Option (List Value)
  | [] => some []
  | x :: rest =>
    match valueWithin depth x with
    | none => none
    | some v => (valuesWithin depth rest).map (v :: ·)

/-- The keys and values of written members. -/
def membersWithin (depth : Nat) : List (List UInt8 × Written) → Option (List (String × Value))
  | [] => some []
  | (key, x) :: rest =>
    match rawText? key, valueWithin depth x with
    | some k, some v => (membersWithin depth rest).map ((k, v) :: ·)
    | _, _ => none

end

/-- How many containers may stand inside each other. -/
def depthLimit : Nat := 127

/-- The value of a written document. -/
def Written.value? (w : Written) : Option Value := valueWithin depthLimit w

/-- The value of the document in the bytes. -/
def Value.read? (bytes : List UInt8) : Option Value := (Json.read? bytes).bind Written.value?

namespace Value

/-- An integer value. -/
def int (n : Int) : Value := .number (.integer n)

/-- A whole number value. -/
def nat (n : Nat) : Value := .number (.integer n)

/-- A double as a value; one that is not finite has no spelling and is null. -/
def float (x : Float) : Value := if x.isFinite then .number (.float x) else .null

/-- A text or null. -/
def text? (s : Option String) : Value := s.elim .null .text

/-- The member with a key. -/
def get? (key : String) : Value → Option Value
  | .object members => members.lookup key
  | _ => none

end Value

end Havoc.Json
