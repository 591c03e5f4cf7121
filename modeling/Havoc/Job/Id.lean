import Havoc.Draw.Words
import Havoc.Number.Digits

/-! # Identifiers of jobs

    An identifier is a number of 128 bits, drawn at random except for the six bits that name its
    version.  It is written in groups of hexadecimal digits, and read in that form, without the
    hyphens, in braces, or as a name. -/

namespace Havoc.Job

/-- The identifier of a job. -/
structure Id where
  bits : Nat
  deriving DecidableEq, Repr

namespace Id

/-- The identifier with the given random halves. -/
def ofWords (high low : Nat) : Id :=
  let high := high / 2 ^ 16 * 2 ^ 16 + 4 * 2 ^ 12 + high % 2 ^ 12
  let low := 2 ^ 63 + low % 2 ^ 62
  ⟨high * 2 ^ 64 + low⟩

/-- Draws an identifier. -/
def random : Draw Id := do
  let high ← Draw.word
  let low ← Draw.word
  return ofWords high low

/-- The hexadecimal digits without hyphens. -/
def hex (id : Id) : List Char := Number.hexPadded 32 id.bits

/-- The identifier with hyphens. -/
def chars (id : Id) : List Char :=
  let h := id.hex
  let part (start size : Nat) : List Char := (h.drop start).take size
  part 0 8 ++ '-' :: part 8 4 ++ '-' :: part 12 4 ++ '-' :: part 16 4 ++ '-' :: part 20 12

/-- The identifier with hyphens, as a string. -/
def text (id : Id) : String := String.ofList id.chars

/-- The forms in which an identifier is read: as it is written, without hyphens, in capitals, as a
    name and in braces. -/
def forms (id : Id) : List (String × String) :=
  [("", id.text), ("simple", String.ofList id.hex), ("upper", id.text.toUpper),
    ("urn", "urn:uuid:" ++ id.text), ("braced", "\x7b" ++ id.text ++ "\x7d")]

/-- The identifier of thirty-two hexadecimal digits. -/
def ofHex? (s : List Char) : Option Id :=
  if s.length = 32 then
    (s.foldlM (fun n c => (Number.hexValue? c).map (n * 16 + ·)) 0).map Id.mk
  else none

/-- The places of the hyphens. -/
def hyphens : List Nat := [8, 13, 18, 23]

/-- The identifier of digits in groups of eight, three times four, and twelve. -/
def ofGroups? (s : List Char) : Option Id :=
  if s.length = 36 ∧ hyphens.all (fun i => s[i]? = some '-') then
    ofHex? ((s.zipIdx.filter fun (_, i) => !hyphens.contains i).map (·.1))
  else none

/-- Reads an identifier in any of its forms. -/
def ofText? (s : List Char) : Option Id :=
  match s.length with
  | 32 => ofHex? s
  | 36 => ofGroups? s
  | 38 =>
    if s.head? = some '\x7b' ∧ s.getLast? = some '\x7d' then ofGroups? (s.drop 1).dropLast else none
  | 45 => if s.take 9 = "urn:uuid:".toList then ofGroups? (s.drop 9) else none
  | _ => none

end Id

end Havoc.Job
