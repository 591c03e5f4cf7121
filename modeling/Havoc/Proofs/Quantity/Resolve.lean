import Havoc.Proofs.Draw.Select
import Havoc.Proofs.Quantity.Reader

/-! # The numbers that a quantity stands for

    Whatever a field of a request says, the integer that it comes to is one of 64 bits: a number
    is read only if it fits, so do the bounds of a range, and a drawn number lies between its
    bounds (`always_draw`). -/

namespace Havoc.Quantity

open Havoc.Draw Havoc.Number Havoc.Text

/-- The numbers that are written in a quantity are integers of 64 bits. -/
def Fits : Quantity Int → Prop
  | exactly n => FitsInt64 n
  | between r => FitsInt64 (IntRange.low r) ∧ FitsInt64 (IntRange.high r)
  | anywhere => True

variable {raw : RawQuantity} {q : Quantity Int} {own : IntRange}

theorem fits_readTrimmed {t : List Char} (htrim : trim t = t) (h : readTrimmed t = .ok q) :
    Fits q := by
  have hclass := class_readTrimmed htrim
  rw [h] at hclass
  cases hclass with
  | token => exact trivial
  | range hrange =>
      obtain ⟨low, high, -, hlow, hhigh⟩ := hrange
      exact ⟨hlow.2, hhigh.2⟩
  | integer hinteger => exact hinteger.2

theorem fits_ofRaw (h : ofRaw raw = .ok q) : Fits q := by
  cases raw with
  | text s => exact fits_readTrimmed (trim_idem s.toList) h
  | number x =>
      by_cases hfits : ∃ n, FitsInt64 n ∧ x = .integer n
      · obtain ⟨n, hn, rfl⟩ := hfits
        rw [ofRaw_integer hn] at h
        obtain rfl := Except.ok.inj h
        exact hn
      · rw [ofRaw_other fun n hn heq => hfits ⟨n, hn, heq⟩] at h
        exact nomatch h

theorem always_int (r : IntRange) : Always (Draw.int r) fun n => r.low ≤ n ∧ n < r.high := by
  have hbelow : Always (below r.size) (· < r.size) :=
    fun w => belowWith_lt r.size_pos patience w
  refine hbelow.bind fun n hn => .return ?_
  rw [IntRange.size] at hn
  omega

/-- A number that is drawn is no less than a bound and less than another. -/
theorem always_int_fits {r : IntRange} (hlow : FitsInt64 r.low) (hhigh : FitsInt64 r.high) :
    Always (Draw.int r) FitsInt64 := by
  refine (always_int r).mono fun n hn => ?_
  exact ⟨Int.le_trans hlow.1 hn.1, Int.lt_trans hn.2 hhigh.2⟩

theorem always_draw (hown : FitsInt64 own.low ∧ FitsInt64 own.high) (hq : Fits q) :
    Always (q.draw own) FitsInt64 := by
  cases q with
  | exactly n => exact .return hq
  | between r => exact always_int_fits hq.1 hq.2
  | anywhere => exact always_int_fits hown.1 hown.2

end Havoc.Quantity
