/-! # Blank characters and trimming

    Two notions of blank are used: the Unicode property `White_Space`, which numbers and settings
    are trimmed by, and the five blanks of ASCII.  `trim` takes the notion as an argument. -/

namespace Havoc.Text

/-- The characters with the Unicode property `White_Space`. -/
def isBlank (c : Char) : Bool :=
  let n := c.toNat
  (9 ≤ n && n ≤ 13) || n = 0x20 || n = 0x85 || n = 0xA0 || n = 0x1680 ||
    (0x2000 ≤ n && n ≤ 0x200A) || n = 0x2028 || n = 0x2029 || n = 0x202F || n = 0x205F || n = 0x3000

/-- The blanks of ASCII: space, tab, line feed, form feed and carriage return. -/
def isAsciiBlank (n : Nat) : Bool :=
  n = 0x20 || n = 0x09 || n = 0x0A || n = 0x0C || n = 0x0D

/-- Drops the characters with the property from the end. -/
def dropRightWhile (p : Char → Bool) (s : List Char) : List Char :=
  (s.reverse.dropWhile p).reverse

/-- Drops the characters with the property from both ends. -/
def trimWhile (p : Char → Bool) (s : List Char) : List Char :=
  dropRightWhile p (s.dropWhile p)

/-- Drops blanks from both ends. -/
def trim (s : List Char) : List Char := trimWhile isBlank s

/-- A string without the blanks at its ends. -/
def trimmed (s : String) : String := String.ofList (trim s.toList)

end Havoc.Text
