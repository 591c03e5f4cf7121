import Havoc.Http.Info

/-! # Character sets of bodies

    A body is text in the character set that its content type names, and in UTF-8 if it names none
    that is known.  Of the other sets the one that goes by the names of Latin 1 and ASCII is known;
    it has a character for every byte. -/

namespace Havoc.Http

open Havoc.Text

/-- The characters of the bytes from `0x80` to `0x9F`. -/
def windowsHigh : List Nat := [
  0x20AC, 0x81, 0x201A, 0x0192, 0x201E, 0x2026, 0x2020, 0x2021,
  0x02C6, 0x2030, 0x0160, 0x2039, 0x0152, 0x8D, 0x017D, 0x8F,
  0x90, 0x2018, 0x2019, 0x201C, 0x201D, 0x2022, 0x2013, 0x2014,
  0x02DC, 0x2122, 0x0161, 0x203A, 0x0153, 0x9D, 0x017E, 0x0178]

/-- The character of a byte in the set of the names of Latin 1. -/
def windowsChar (b : UInt8) : Char :=
  let n := b.toNat
  Char.ofNat (if 0x80 ≤ n ∧ n < 0xA0 then windowsHigh.getD (n - 0x80) n else n)

/-- The names of the set with a character for every byte. -/
def windowsNames : List String := [
  "ansi_x3.4-1968", "ascii", "cp1252", "cp819", "csisolatin1", "ibm819", "iso-8859-1", "iso-ir-100",
  "iso8859-1", "iso88591", "iso_8859-1", "iso_8859-1:1987", "l1", "latin1", "us-ascii",
  "windows-1252", "x-cp1252"]

/-- The value of a parameter without its quotes. -/
def unquoted (s : List Char) : List Char :=
  match s with
  | '"' :: rest => if rest.getLast? = some '"' then rest.dropLast else s
  | _ => s

/-- The character set that a content type names, in lower case. -/
def charsetOf (contentType : String) : Option String :=
  ((splitOn ';' contentType.toList).drop 1).findSome? fun parameter => do
    let (name, value) ← cutAt '=' (trim parameter)
    if asciiLower name = "charset".toList then
      some (String.ofList (asciiLower (trim (unquoted value))))
    else none

/-- A text without the mark at its beginning that only tells its encoding. -/
def withoutMark (bytes : List UInt8) : List UInt8 := (after? [0xEF, 0xBB, 0xBF] bytes).getD bytes

/-- The text of a body with a content type. -/
def bodyText (contentType : Option String) (body : List UInt8) : String :=
  if (after? [0xEF, 0xBB, 0xBF] body).isNone
    ∧ ((contentType.bind charsetOf).any windowsNames.contains) then
    String.ofList (body.map windowsChar)
  else lossy (withoutMark body)

end Havoc.Http
