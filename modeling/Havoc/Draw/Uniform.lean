import Havoc.Number.Binary64
import Havoc.Draw.Words

/-! # Uniform draws

    One of `n` equally likely numbers is drawn by multiplying a word with `n`: the high part of
    the product is the number.  A word whose low part lies beyond the accepted zone is refused
    and another is taken, which makes every number equally likely.  After `patience` refusals in
    a row the word is taken as it is, so a draw ends on every stream and is in range on every
    stream. -/

namespace Havoc

/-- A nonempty range of integers, closed below and open above. -/
structure IntRange where
  low : Int
  high : Int
  nonempty : low < high := by decide

namespace IntRange

/-- The range between two integers, if it is not empty. -/
def between? (low high : Int) : Option IntRange :=
  if h : low < high then some ⟨low, high, h⟩ else none

/-- How many integers the range has. -/
def size (r : IntRange) : Nat := (r.high - r.low).toNat

theorem size_pos (r : IntRange) : 0 < r.size := by
  have := r.nonempty
  simp only [size]
  omega

end IntRange

namespace Draw

/-- How many words in a row a uniform draw may refuse. -/
def patience : Nat := 65536

/-- The greatest low part that is accepted when drawing one of `n` with words of `width` bits. -/
def zone (width n : Nat) : Nat := n * 2 ^ (width - (n.log2 + 1)) - 1

/-- Draws one of `n` with words of `width` bits, refusing at most `fuel` words. -/
def belowWith (width n : Nat) : Nat → Draw Nat
  | 0 => do return (← word) % 2 ^ width * n / 2 ^ width
  | fuel + 1 => do
    let product := (← word) % 2 ^ width * n
    if product % 2 ^ width ≤ zone width n then return product / 2 ^ width
    else belowWith width n fuel

/-- Draws one of the numbers below `n` with words of 64 bits. -/
def below (n : Nat) : Draw Nat := belowWith 64 n patience

/-- Draws one of the numbers below `n` with words of 32 bits. -/
def belowShort (n : Nat) : Draw Nat := belowWith 32 n patience

/-- Draws an integer of the range. -/
def int (r : IntRange) : Draw Int := do return r.low + (← below r.size)

/-- Draws a double from zero up to, but not including, one. -/
def unit : Draw Float := do
  return Float.ofBits (UInt64.ofNat (Number.nearestBits ((← word) / 2 ^ 11) (2 ^ 53)))

/-- True with the chance `threshold / 2^64`. -/
def chance (threshold : Nat) : Draw Bool := do return (← word) < threshold

/-- A drawn number of `n` is below `n`, whatever the words are. -/
theorem belowWith_lt {width n : Nat} (h : 0 < n) (fuel : Nat) (w : Words) :
    (belowWith width n fuel w).1 < n := by
  have bound (x : Nat) : x % 2 ^ width * n / 2 ^ width < n := by
    have hpow : 0 < 2 ^ width := Nat.pow_pos (by decide)
    rw [Nat.div_lt_iff_lt_mul hpow, Nat.mul_comm]
    exact Nat.mul_lt_mul_of_pos_left (Nat.mod_lt x hpow) h
  induction fuel generalizing w with
  | zero => exact bound _
  | succ fuel ih =>
      simp only [belowWith, word, bind, StateT.bind]
      split
      · exact bound _
      · exact ih _

end Draw

end Havoc
