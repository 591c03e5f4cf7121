import Havoc.Number.Digits
import Havoc.Text.Utf8

/-! # Percent encoding

    A character that may not stand in a part of an address is written as the bytes of its UTF-8
    form, each as a percent sign and two hexadecimal digits.  Which characters may not stand is a
    set for each part. -/

namespace Havoc.Url

open Havoc.Text

/-- The set of characters that one part of an address encodes. -/
abbrev EncodeSet := Char → Bool

/-- Controls and all characters beyond ASCII. -/
def controls : EncodeSet := fun c => c.toNat < 0x20 || 0x7E < c.toNat

/-- What a fragment encodes. -/
def inFragment : EncodeSet := fun c => controls c || [' ', '"', '<', '>', '\x60'].contains c

/-- What a path encodes. -/
def inPath : EncodeSet := fun c => inFragment c || ['#', '?', '\x7b', '\x7d'].contains c

/-- What a user name and a password encode. -/
def inUserinfo : EncodeSet := fun c =>
  inPath c || ['/', ':', ';', '=', '@', '[', '\\', ']', '^', '|'].contains c

/-- What a query encodes. -/
def inQuery : EncodeSet := fun c => controls c || [' ', '"', '#', '<', '>'].contains c

/-- What the query of a special scheme encodes. -/
def inSpecialQuery : EncodeSet := fun c => inQuery c || c = '\''

/-- A byte as a percent sign and two digits in upper case. -/
def encodeByte (b : UInt8) : List Char :=
  '%' :: (Number.hexPadded 2 b.toNat).map Char.toUpper

/-- A character as one part of an address writes it. -/
def encodeChar (set : EncodeSet) (c : Char) : List Char :=
  if set c then (utf8 (String.singleton c)).flatMap encodeByte else [c]

/-- A text as one part of an address writes it. -/
def encode (set : EncodeSet) (s : List Char) : List Char := s.flatMap (encodeChar set)

/-- The bytes of a text in which each percent sign with two hexadecimal digits is one byte. -/
def decode : List Char → List UInt8
  | [] => []
  | '%' :: h :: l :: rest =>
    match Number.hexValue? h, Number.hexValue? l with
    | some high, some low => UInt8.ofNat (high * 16 + low) :: decode rest
    | _, _ => 0x25 :: decode (h :: l :: rest)
  | c :: rest => utf8 (String.singleton c) ++ decode rest
termination_by s => s.length

end Havoc.Url
