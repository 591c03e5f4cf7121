import Havoc.Json.Value

/-! # Writing documents

    The compact form: no blanks, members in the order of their keys, controls escaped, and every
    other character as it is. -/

namespace Havoc.Json

open Havoc.Number

/-- The spelling of a character inside a text. -/
def escapeChar (c : Char) : List Char :=
  match c with
  | '"' => ['\\', '"']
  | '\\' => ['\\', '\\']
  | '\n' => ['\\', 'n']
  | '\r' => ['\\', 'r']
  | '\t' => ['\\', 't']
  | '\x08' => ['\\', 'b']
  | '\x0c' => ['\\', 'f']
  | c => if c.toNat < 0x20 then ['\\', 'u'] ++ hexPadded 4 c.toNat else [c]

/-- A text between quotes. -/
def quote (s : String) : List Char := '"' :: s.toList.flatMap escapeChar ++ ['"']

mutual

/-- A value in compact form. -/
def compact : Value → List Char
  | .null => ['n', 'u', 'l', 'l']
  | .bool true => ['t', 'r', 'u', 'e']
  | .bool false => ['f', 'a', 'l', 's', 'e']
  | .number n => n.chars
  | .text s => quote s
  | .array [] => ['[', ']']
  | .array (x :: rest) => '[' :: compact x ++ compactItems rest ++ [']']
  | .object [] => ['\x7b', '\x7d']
  | .object ((k, x) :: rest) =>
    '\x7b' :: quote k ++ ':' :: compact x ++ compactMembers rest ++ ['\x7d']

/-- The items after the first. -/
def compactItems : List Value → List Char
  | [] => []
  | x :: rest => ',' :: compact x ++ compactItems rest

/-- The members after the first. -/
def compactMembers : List (String × Value) → List Char
  | [] => []
  | (k, x) :: rest => ',' :: quote k ++ ':' :: compact x ++ compactMembers rest

end

/-- A value in compact form, as a string. -/
def Value.render (v : Value) : String := String.ofList (compact v)

end Havoc.Json
