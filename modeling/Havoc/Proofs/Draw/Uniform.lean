import Havoc.Draw.Uniform
import Havoc.Proofs.Number.Order

/-! # The range of a draw

    A drawn double is a word of 53 bits as so many parts of one.  Such a quotient
    is written without rounding, and its bits stay below those of one; so the double
    is from zero up to, but not including, one on every stream of words. -/

namespace Havoc

open Number

variable {k : Nat}

namespace Number

theorem roundEven_mul (q : Nat) {d : Nat} (h : 0 < d) : roundEven (q * d) d = q := by
  unfold roundEven
  simp [Nat.mul_div_cancel _ h, h]

/-- A quotient below one has the place of the leading digit of its numerator. -/
theorem binaryExponent_parts (hpos : k ≠ 0) (hlog : k.log2 ≤ 52) :
    binaryExponent k (2 ^ 53) = (k.log2 : Int) - 53 := by
  have hneg : 0 ≤ -((k.log2 : Int) - (53 : Nat)) := by omega
  have hnat : (-((k.log2 : Int) - (53 : Nat))).toNat = 53 - k.log2 := by omega
  have hsplit : 2 ^ 53 = 2 ^ k.log2 * 2 ^ (53 - k.log2) := by
    rw [← Nat.pow_add]
    congr 1
    omega
  have hnot : ¬ k * 2 ^ (53 - k.log2) < 2 ^ 53 := by
    rw [hsplit, Nat.not_lt]
    exact Nat.mul_le_mul_right _ (Nat.log2_self_le hpos)
  unfold binaryExponent
  rw [Nat.log2_two_pow]
  simp only [scaled, if_pos hneg, hnat, if_neg hnot]
  rfl

/-- Some of `2^53` parts of one, but not all, have bits below those of one. -/
theorem nearestBits_lt_oneBits (h : k < 2 ^ 53) : nearestBits k (2 ^ 53) < oneBits := by
  unfold nearestBits
  by_cases hpos : k = 0
  · rw [if_pos (by simp [hpos])]
    decide
  · rw [if_neg (by simp [hpos])]
    have hlog : k.log2 ≤ 52 := by
      have hlt := (Nat.log2_lt hpos).mpr h
      omega
    have hplace : max ((k.log2 : Int) - 53 - 52) (-1074) = (k.log2 : Int) - 105 := by omega
    have hneg : 0 ≤ -((k.log2 : Int) - 105) := by omega
    have hshift : (-((k.log2 : Int) - 105)).toNat = (52 - k.log2) + 53 := by omega
    have hbiased : ((k.log2 : Int) - 105 + 1074).toNat = k.log2 + 969 := by omega
    simp only [binaryExponent_parts hpos hlog, hplace, scaled, if_pos hneg, hshift, hbiased,
      Nat.pow_add, ← Nat.mul_assoc]
    rw [roundEven_mul _ (by decide)]
    have hfraction : k * 2 ^ (52 - k.log2) < 2 ^ 53 := by
      have hsplit : 2 ^ 53 = 2 ^ (k.log2 + 1) * 2 ^ (52 - k.log2) := by
        rw [← Nat.pow_add]
        congr 1
        omega
      rw [hsplit]
      exact Nat.mul_lt_mul_of_pos_right Nat.lt_log2_self (Nat.pow_pos (by decide))
    refine Nat.lt_of_le_of_lt (Nat.min_le_left _ _) ?_
    rw [oneBits]
    omega

end Number

namespace Draw

theorem belowShort_lt (w : Words) : (belowShort 100 w).1 < 100 := belowWith_lt (by decide) _ w

theorem belowOne_unit (w : Words) : BelowOne (unit w).1.toModel.unpack := by
  have hword : (w.word w.used).toNat / 2 ^ 11 < 2 ^ 53 := by
    have hlt := (w.word w.used).toNat_lt
    omega
  exact belowOne_ofBits (nearestBits_lt_oneBits hword)

end Draw

end Havoc
