/-! # Cutting texts

    Cutting at a character, taking off a known beginning, and the case of ASCII letters, on lists
    of characters.  Nothing is ever lost: a text is its pieces joined by the character they were
    cut at. -/

namespace Havoc.Text

/-- The part before and the part after the first occurrence of a character. -/
def cutAt (c : Char) (s : List Char) : Option (List Char × List Char) :=
  match s with
  | [] => none
  | x :: rest =>
    if x = c then some ([], rest)
    else (cutAt c rest).map fun (before, after) => (x :: before, after)

/-- The part before and the part after the last occurrence of a character. -/
def cutAtLast (c : Char) (s : List Char) : Option (List Char × List Char) :=
  (cutAt c s.reverse).map fun (after, before) => (before.reverse, after.reverse)

/-- The pieces between the occurrences of a character; the empty text is one empty piece. -/
def splitOn (c : Char) : List Char → List (List Char)
  | [] => [[]]
  | x :: rest =>
    if x = c then [] :: splitOn c rest
    else
      match splitOn c rest with
      | [] => [[x]]
      | piece :: pieces => (x :: piece) :: pieces

/-- What follows a known beginning, if the list begins so. -/
def after? [DecidableEq α] : List α → List α → Option (List α)
  | [], s => some s
  | _ :: _, [] => none
  | c :: beginning, x :: s => if c = x then after? beginning s else none

/-- Joins pieces with a character between each two. -/
def joinWith (c : Char) : List (List Char) → List Char
  | [] => []
  | [piece] => piece
  | piece :: rest => piece ++ c :: joinWith c rest

/-- Lower case for the ASCII letters only. -/
def asciiLower (s : List Char) : List Char := s.map Char.toLower

/-- Upper case for the ASCII letters only. -/
def asciiUpper (s : List Char) : List Char := s.map Char.toUpper

/-- Whether two strings agree up to the case of ASCII letters. -/
def eqIgnoreCase (a b : String) : Bool := asciiLower a.toList = asciiLower b.toList

private theorem splitOn_ne_nil (c : Char) (s : List Char) : splitOn c s ≠ [] := by
  cases s with
  | nil => simp [splitOn]
  | cons x rest =>
      simp only [splitOn]
      split
      · simp
      · split <;> simp

private theorem joinWith_cons (c : Char) (piece : List Char) {pieces : List (List Char)}
    (h : pieces ≠ []) : joinWith c (piece :: pieces) = piece ++ c :: joinWith c pieces := by
  cases pieces with
  | nil => exact absurd rfl h
  | cons _ _ => rfl

/-- Joining the pieces of a text gives the text back. -/
theorem joinWith_splitOn (c : Char) (s : List Char) : joinWith c (splitOn c s) = s := by
  induction s with
  | nil => rfl
  | cons x rest ih =>
      simp only [splitOn]
      split
      · next h => rw [joinWith_cons c [] (splitOn_ne_nil c rest), ih, h]; rfl
      · cases hs : splitOn c rest with
        | nil => exact absurd hs (splitOn_ne_nil c rest)
        | cons piece pieces =>
            rw [hs] at ih
            cases pieces with
            | nil => simpa [joinWith] using ih
            | cons p ps => simpa [joinWith] using ih

/-- A cut loses nothing. -/
theorem cutAt_eq {c : Char} {s before after : List Char} (h : cutAt c s = some (before, after)) :
    s = before ++ c :: after := by
  induction s generalizing before after with
  | nil => simp [cutAt] at h
  | cons x rest ih =>
      simp only [cutAt] at h
      split at h
      · next hx => cases h; simp [hx]
      · cases hc : cutAt c rest with
        | none => simp [hc] at h
        | some p =>
            obtain ⟨b, a⟩ := p
            simp only [hc, Option.map_some, Option.some.injEq, Prod.mk.injEq] at h
            obtain ⟨rfl, rfl⟩ := h
            simp [ih hc]

end Havoc.Text
