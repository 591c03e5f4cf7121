import Havoc.Text.Shown

/-! # Quoted texts in messages

    A text inside double quotes: backslash and quote are escaped, the usual controls have letters,
    and every other character that is not shown is written by its code point in hexadecimal. -/

namespace Havoc.Text

/-- The spelling of one character between quotes. -/
def escapeShown (c : Char) : List Char :=
  match c with
  | '\\' => ['\\', '\\']
  | '"' => ['\\', '"']
  | '\n' => ['\\', 'n']
  | '\r' => ['\\', 'r']
  | '\t' => ['\\', 't']
  | '\x00' => ['\\', '0']
  | c =>
    if isShown c then [c]
    else ['\\', 'u', '\x7b'] ++ Nat.toDigits 16 c.toNat ++ ['\x7d']

/-- A text between double quotes. -/
def quoted (s : String) : String :=
  String.ofList ('"' :: s.toList.flatMap escapeShown ++ ['"'])

end Havoc.Text
