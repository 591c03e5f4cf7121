import Havoc.Text.Cut
import Havoc.Number.Places
import Havoc.Time.Pattern

/-! # Times, durations and sizes in a line

    A duration or a size with a known unit is a plain number rounded to thousandths; without one
    the largest unit that keeps the number at one or more is chosen, and shown after exactly three
    places.  A time without a pattern is shown in the standard form. -/

namespace Havoc.Log

open Havoc.Text Havoc.Number

/-- Units from the largest to the smallest, each with how many of the smallest it holds. -/
abbrev Ladder := List (Float × String)

/-- Units of duration, in nanoseconds. -/
def latencyLadder : Ladder := [(1e9, "s"), (1e6, "ms"), (1e3, "mcs"), (1.0, "ns")]

/-- Units of size, in bytes. -/
def sizeLadder : Ladder := [(1e9, "gb"), (1e6, "mb"), (1e3, "kb"), (1.0, "b")]

/-- The first unit that keeps the value at one or more, else the last. -/
def autoScaled (value : Float) : Ladder → String
  | [] => fixed 3 value
  | [(factor, label)] => fixed 3 (value / factor) ++ label
  | (factor, label) :: rest =>
    if value ≥ factor then fixed 3 (value / factor) ++ label else autoScaled value rest

/-- The nanoseconds in a unit of duration. -/
def latencyUnit? (unit : List Char) : Option Float :=
  match String.ofList (asciiLower unit) with
  | "s" => some 1e9
  | "ms" => some 1e6
  | "mcs" | "us" | "micros" => some 1e3
  | "ns" => some 1.0
  | _ => none

/-- The bytes in a unit of size. -/
def sizeUnit? (unit : List Char) : Option Float :=
  match String.ofList (asciiLower unit) with
  | "b" => some 1.0
  | "kb" => some 1e3
  | "mb" => some 1e6
  | "gb" => some 1e9
  | _ => none

/-- A duration of some nanoseconds. -/
def latencyText (nanos : Nat) (unit : Option (List Char)) : String :=
  let value := ofNat nanos
  match unit.bind latencyUnit? with
  | some divisor => thousandths (value / divisor)
  | none => autoScaled value latencyLadder

/-- A size of some bytes. -/
def sizeText (bytes : Nat) (unit : Option (List Char)) : String :=
  let value := ofNat bytes
  match unit.bind sizeUnit? with
  | some divisor => thousandths (value / divisor)
  | none => autoScaled value sizeLadder

/-- A time. -/
def timeText (t : Moment) (pattern : Option (List Char)) : String :=
  String.ofList (match pattern with
    | none => t.standard
    | some pattern => Pattern.format t pattern)

end Havoc.Log
