import Havoc.Number.Digits

/-! # Drawing words

    A draw consumes words of 64 bits from an endless stream and counts how many it took.  The
    stream is a function from positions to words, so a draw is a function of the stream alone and
    always ends. -/

namespace Havoc

/-- An endless stream of 64-bit words with the number of words already taken. -/
structure Words where
  word : Nat → UInt64
  used : Nat

namespace Words

/-- The step between the states of the mixing generator. -/
def gamma : UInt64 := 0x9E3779B97F4A7C15

/-- The word that the mixing generator makes of a state. -/
def mix (state : UInt64) : UInt64 :=
  let z := (state ^^^ (state >>> 30)) * 0xBF58476D1CE4E5B9
  let z := (z ^^^ (z >>> 27)) * 0x94D049BB133111EB
  z ^^^ (z >>> 31)

/-- The words given first, then those of the mixing generator from a seed. -/
def scripted (first : Array UInt64) (seed : UInt64) : Words :=
  { word := fun n =>
      if h : n < first.size then first[n]
      else mix (seed + gamma * UInt64.ofNat (n - first.size + 1))
    used := 0 }

/-- The words of the mixing generator from a seed. -/
def seeded (seed : UInt64) : Words := scripted #[] seed

end Words

/-- A computation that may take words. -/
abbrev Draw (α : Type) := StateM Words α

namespace Draw

/-- Takes the next word. -/
def word : Draw Nat := fun w => ((w.word w.used).toNat, { w with used := w.used + 1 })

/-- Takes the next word and keeps its low 32 bits. -/
def half : Draw Nat := do return (← word) % 2 ^ 32

/-- Makes the same draw a number of times. -/
def times (n : Nat) (draw : Draw α) : Draw (List α) :=
  match n with
  | 0 => return []
  | n + 1 => do
    let x ← draw
    return x :: (← times n draw)

end Draw

end Havoc
