import Havoc.Draw.Uniform

/-! # Drawn choices

    Choosing one member of a list, choosing several different positions, and putting a list into
    a drawn order. -/

namespace Havoc.Draw

/-- Chooses a member of the list that begins with `x`, with 32-bit words. -/
def choose (x : α) (xs : List α) : Draw α := do
  return (x :: xs).getD (← belowShort (xs.length + 1)) x

/-- Exchanges the members at two positions. -/
def exchange (xs : List α) (i j : Nat) : List α :=
  match xs[i]?, xs[j]? with
  | some x, some y => (xs.set i y).set j x
  | _, _ => xs

/-- Exchanges each position from `i` down to the first with a drawn one not after it. -/
def shuffleFrom : Nat → List α → Draw (List α)
  | 0, xs => return xs
  | i + 1, xs => do
    let j ← belowShort (i + 2)
    shuffleFrom i (exchange xs (i + 1) j)

/-- A list in a drawn order. -/
def shuffle (xs : List α) : Draw (List α) := shuffleFrom (xs.length - 1) xs

/-- Puts `x` before the member at a position. -/
def insertAt (xs : List α) (i : Nat) (x : α) : List α := xs.take i ++ x :: xs.drop i

/-- Draws different positions: for each `j` of the list one of `0 … j` is drawn, and `j` itself
    takes the place of a number that was drawn before. -/
def positionsFrom : List Nat → List Nat → Draw (List Nat)
  | [], chosen => return chosen
  | j :: rest, chosen => do
    let t ← belowShort (j + 1)
    match chosen.findIdx? (· = t) with
    | some at' => positionsFrom rest (insertAt chosen at' j)
    | none => positionsFrom rest (chosen ++ [t])

/-- Draws `k` different positions below `n`. -/
def positions (k n : Nat) : Draw (List Nat) :=
  positionsFrom ((List.range k).map (n - k + ·)) []

/-- Chooses `k` members at different positions. -/
def several (k : Nat) (xs : List α) : Draw (List α) := do
  let chosen ← positions (min k xs.length) xs.length
  return chosen.filterMap (xs[·]?)

end Havoc.Draw
