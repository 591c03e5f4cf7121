import Havoc.Text.Cut
import Havoc.Text.Utf8
import Havoc.Json.Written

/-! # Reading documents

    The grammar of JSON over bytes.  Blanks are space, tab, line feed and carriage return; a text
    holds no bare control and only the known escapes; a number has no leading zero and a digit on
    each side of its point.  Nothing but blanks may follow the document. -/

namespace Havoc.Json

open Havoc.Text

/-- The byte of an ASCII character. -/
def byte (c : Char) : UInt8 := c.toUInt8

/-- The blanks between the parts of a document. -/
def isGap (b : UInt8) : Bool := b = 0x20 || b = 0x09 || b = 0x0A || b = 0x0D

/-- Drops the blanks at the front. -/
def skipGap (s : List UInt8) : List UInt8 := s.dropWhile isGap

/-- Whether a byte is a decimal digit. -/
def isDigitByte (b : UInt8) : Bool := byte '0' ≤ b && b ≤ byte '9'

/-- Whether a byte is a hexadecimal digit. -/
def isHexByte (b : UInt8) : Bool :=
  isDigitByte b || (byte 'a' ≤ b && b ≤ byte 'f') || (byte 'A' ≤ b && b ≤ byte 'F')

/-- Whether a byte may follow a backslash on its own. -/
def isEscapeByte (b : UInt8) : Bool :=
  [byte '"', byte '\\', byte '/', byte 'b', byte 'f', byte 'n', byte 'r', byte 't'].contains b

/-- The bytes of a text up to its closing quote, in reverse order before `done`, and the rest. -/
def textBytes (done : List UInt8) : List UInt8 → Option (List UInt8 × List UInt8)
  | [] => none
  | b :: rest =>
    if b = byte '"' then some (done.reverse, rest)
    else if b < 0x20 then none
    else if b = byte '\\' then
      match rest with
      | [] => none
      | e :: rest =>
        if isEscapeByte e then textBytes (e :: b :: done) rest
        else if e = byte 'u' then
          match rest with
          | h₁ :: h₂ :: h₃ :: h₄ :: rest =>
            if [h₁, h₂, h₃, h₄].all isHexByte then
              textBytes (h₄ :: h₃ :: h₂ :: h₁ :: e :: b :: done) rest
            else none
          | _ => none
        else none
    else textBytes (b :: done) rest

/-- Digits at the front, at least one, as characters, and the rest. -/
def digitRun? (s : List UInt8) : Option (List Char × List UInt8) :=
  let ds := s.takeWhile isDigitByte
  if ds.isEmpty then none else some (ds.map (Char.ofNat ·.toNat), s.dropWhile isDigitByte)

/-- The whole part of a number: a zero alone, or digits that do not begin with one. -/
def wholePart? (s : List UInt8) : Option (List Char × List UInt8) :=
  match digitRun? s with
  | some (ds, rest) => if 1 < ds.length ∧ ds.head? = some '0' then none else some (ds, rest)
  | none => none

/-- The places of a number, if a point follows. -/
def placesPart? (s : List UInt8) : Option (List Char × List UInt8) :=
  match s with
  | b :: rest =>
    if b = byte '.' then (digitRun? rest).map fun (ds, rest) => ('.' :: ds, rest)
    else some ([], s)
  | [] => some ([], s)

/-- The exponent of a number, if one follows. -/
def exponentPart? (s : List UInt8) : Option (List Char × List UInt8) :=
  match s with
  | b :: rest =>
    if b = byte 'e' ∨ b = byte 'E' then
      let (sign, rest) : List Char × List UInt8 := match rest with
        | c :: rest' =>
          if c = byte '+' then (['+'], rest') else if c = byte '-' then (['-'], rest')
          else ([], rest)
        | [] => ([], rest)
      (digitRun? rest).map fun (ds, rest) => ('e' :: sign ++ ds, rest)
    else some ([], s)
  | [] => some ([], s)

/-- The spelling of a number and the rest. -/
def numberLexeme? (s : List UInt8) : Option (List Char × List UInt8) := do
  let (sign, s) : List Char × List UInt8 := match s with
    | b :: rest => if b = byte '-' then (['-'], rest) else ([], s)
    | [] => ([], s)
  let (whole, s) ← wholePart? s
  let (places, s) ← placesPart? s
  let (exponent, s) ← exponentPart? s
  return (sign ++ whole ++ places ++ exponent, s)

/-- The words `true`, `false` and `null`. -/
def word? (s : List UInt8) : Option (Written × List UInt8) :=
  match after? (utf8 "true") s with
  | some rest => some (.bool true, rest)
  | none =>
    match after? (utf8 "false") s with
    | some rest => some (.bool false, rest)
    | none => (after? (utf8 "null") s).map fun rest => (.null, rest)

mutual

/-- Reads a document from the front of the bytes. -/
def readValue : Nat → List UInt8 → Option (Written × List UInt8)
  | 0, _ => none
  | fuel + 1, s =>
    match skipGap s with
    | [] => none
    | b :: rest =>
      if b = byte '"' then (textBytes [] rest).map fun (raw, rest) => (.text raw, rest)
      else if b = byte '\x7b' then
        match skipGap rest with
        | [] => none
        | c :: rest' =>
          if c = byte '\x7d' then some (.object [], rest')
          else (readMembers fuel (c :: rest')).map fun (ms, rest) => (.object ms, rest)
      else if b = byte '[' then
        match skipGap rest with
        | [] => none
        | c :: rest' =>
          if c = byte ']' then some (.array [], rest')
          else (readItems fuel (c :: rest')).map fun (xs, rest) => (.array xs, rest)
      else if b = byte '-' || isDigitByte b then
        (numberLexeme? (b :: rest)).map fun (lexeme, rest) => (.number lexeme, rest)
      else word? (b :: rest)

/-- Reads the items of an array up to its closing bracket. -/
def readItems : Nat → List UInt8 → Option (List Written × List UInt8)
  | 0, _ => none
  | fuel + 1, s =>
    match readValue fuel s with
    | none => none
    | some (x, rest) =>
      match skipGap rest with
      | [] => none
      | c :: rest =>
        if c = byte ']' then some ([x], rest)
        else if c = byte ',' then
          (readItems fuel rest).map fun (xs, rest) => (x :: xs, rest)
        else none

/-- Reads the members of an object up to its closing brace. -/
def readMembers : Nat → List UInt8 → Option (List (List UInt8 × Written) × List UInt8)
  | 0, _ => none
  | fuel + 1, s =>
    match skipGap s with
    | [] => none
    | q :: rest =>
      if q = byte '"' then
        match textBytes [] rest with
        | none => none
        | some (key, rest) =>
          match skipGap rest with
          | [] => none
          | colon :: rest =>
            if colon = byte ':' then
              match readValue fuel rest with
              | none => none
              | some (x, rest) =>
                match skipGap rest with
                | [] => none
                | c :: rest =>
                  if c = byte '\x7d' then some ([(key, x)], rest)
                  else if c = byte ',' then
                    (readMembers fuel rest).map fun (ms, rest) => ((key, x) :: ms, rest)
                  else none
            else none
      else none

end

/-- Reads a whole document.  Each call of the readers takes at least one byte from every second
    call on, so twice the number of bytes is fuel enough. -/
def read? (bytes : List UInt8) : Option Written :=
  match readValue (2 * bytes.length + 2) bytes with
  | some (x, rest) => if (skipGap rest).isEmpty then some x else none
  | none => none

end Havoc.Json
