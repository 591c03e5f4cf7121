/-! # Bytes and characters

    Reading bytes as UTF-8, either strictly or with one replacement character for each maximal
    part that cannot go on to be a character. -/

namespace Havoc.Text

/-- The bytes of a text in UTF-8. -/
def utf8 (s : String) : List UInt8 := s.toUTF8.toList

/-- The character that stands for bytes that are no text. -/
def replacement : Char := '\uFFFD'

/-- What may follow a leading byte: how many more bytes, and the range of the first of them. -/
structure Lead where
  more : Nat
  low : Nat
  high : Nat
  /-- The bits that the leading byte itself gives. -/
  bits : Nat
  deriving DecidableEq, Repr

/-- The byte as the first of several, if it can be one. -/
def Lead.ofByte? (b : Nat) : Option Lead :=
  if 0xC2 ≤ b ∧ b ≤ 0xDF then some ⟨1, 0x80, 0xBF, b - 0xC0⟩
  else if b = 0xE0 then some ⟨2, 0xA0, 0xBF, 0⟩
  else if b = 0xED then some ⟨2, 0x80, 0x9F, 0xD⟩
  else if 0xE1 ≤ b ∧ b ≤ 0xEF then some ⟨2, 0x80, 0xBF, b - 0xE0⟩
  else if b = 0xF0 then some ⟨3, 0x90, 0xBF, 0⟩
  else if 0xF1 ≤ b ∧ b ≤ 0xF3 then some ⟨3, 0x80, 0xBF, b - 0xF0⟩
  else if b = 0xF4 then some ⟨3, 0x80, 0x8F, 4⟩
  else none

/-- Where a reader of bytes stands: between characters, or with some bytes of one still owed. -/
inductive Utf8State where
  | between
  | owed (more low high bits : Nat)
  deriving DecidableEq, Repr

/-- Reads bytes as text; `bad` says what a part that is no character becomes. -/
def decodeUtf8 (bad : List Char) : Utf8State → List UInt8 → List Char
  | .between, [] => []
  | .owed .., [] => bad
  | .between, b :: rest =>
    if b.toNat < 0x80 then Char.ofNat b.toNat :: decodeUtf8 bad .between rest
    else
      match Lead.ofByte? b.toNat with
      | some lead => decodeUtf8 bad (.owed lead.more lead.low lead.high lead.bits) rest
      | none => bad ++ decodeUtf8 bad .between rest
  | .owed more low high bits, b :: rest =>
    if low ≤ b.toNat ∧ b.toNat ≤ high then
      let bits' := bits * 64 + (b.toNat - 0x80)
      if more ≤ 1 then Char.ofNat bits' :: decodeUtf8 bad .between rest
      else decodeUtf8 bad (.owed (more - 1) 0x80 0xBF bits') rest
    else
      -- the byte that does not fit is read again, as the first of its own character
      bad ++
        (if b.toNat < 0x80 then Char.ofNat b.toNat :: decodeUtf8 bad .between rest
        else
          match Lead.ofByte? b.toNat with
          | some lead => decodeUtf8 bad (.owed lead.more lead.low lead.high lead.bits) rest
          | none => bad ++ decodeUtf8 bad .between rest)

/-- The bytes as text, with a replacement character for each part that is none. -/
def lossy (bytes : List UInt8) : String :=
  String.ofList (decodeUtf8 [replacement] .between bytes)

/-- Whether the bytes are UTF-8 from the given state on. -/
def wellFormedFrom : Utf8State → List UInt8 → Bool
  | .between, [] => true
  | .owed .., [] => false
  | .between, b :: rest =>
    if b.toNat < 0x80 then wellFormedFrom .between rest
    else
      match Lead.ofByte? b.toNat with
      | some lead => wellFormedFrom (.owed lead.more lead.low lead.high lead.bits) rest
      | none => false
  | .owed more low high bits, b :: rest =>
    if low ≤ b.toNat ∧ b.toNat ≤ high then
      if more ≤ 1 then wellFormedFrom .between rest
      else wellFormedFrom (.owed (more - 1) 0x80 0xBF (bits * 64 + (b.toNat - 0x80))) rest
    else false

/-- The bytes as text, if they are UTF-8 throughout. -/
def text? (bytes : List UInt8) : Option String :=
  if wellFormedFrom .between bytes then some (lossy bytes) else none

end Havoc.Text
