import Havoc.Number.Binary64

/-! # The order of doubles

    Doubles are compared by their unpacked forms.  Any two that are numbers compare
    one way or the other, so a test that fails says which side of a bound a number
    is on.

    The second half is about the doubles below one: `BelowOne` is what their
    unpacked form looks like, and bits below those of one are such a double, because
    unpacking and packing both keep to that form. -/

namespace Havoc.Number

open Float.Model

variable {a b : UnpackedFloat} {x y : Float}

/-! ## Comparing -/

/-- Two doubles compare the other way round as they do. -/
theorem compare_comm (a b : UnpackedFloat) : b.compare a = (a.compare b).map Ordering.swap := by
  have hsign : ∀ s t : UnpackedFloat.Sign, compare t s = (compare s t).swap := by
    intro s t
    cases s <;> cases t <;> rfl
  cases a with
  | notANumber => cases b <;> rfl
  | infinity s =>
      cases b with
      | notANumber => cases s <;> rfl
      | infinity t => exact congrArg some (hsign s t)
      | zero t => cases s <;> rfl
      | finite t m e h => cases s <;> cases t <;> rfl
  | zero s =>
      cases b with
      | notANumber => rfl
      | infinity t => cases t <;> rfl
      | zero t => rfl
      | finite t m e h => cases t <;> rfl
  | finite s m e h =>
      cases b with
      | notANumber => cases s <;> rfl
      | infinity t => cases s <;> cases t <;> rfl
      | zero t => cases s <;> rfl
      | finite t m' e' h' =>
          have hswap : ∀ (i j : Int) (k l : Nat), (compare j i).then (compare l k) =
              ((compare i j).then (compare k l)).swap := by
            intro i j k l
            rw [Ordering.swap_then, Int.compare_swap, Nat.compare_swap]
          cases s <;> cases t
          · exact congrArg (fun o => some o.swap) (hswap e e' m m')
          · rfl
          · rfl
          · exact congrArg some (hswap e e' m m')

/-- Two numbers can be compared. -/
theorem isSome_compare (ha : a.isNaN = false) (hb : b.isNaN = false) :
    (a.compare b).isSome = true := by
  cases a with
  | notANumber => exact nomatch ha
  | infinity s =>
      cases b with
      | notANumber => exact nomatch hb
      | infinity t => rfl
      | zero t => cases s <;> rfl
      | finite t m e h => cases s <;> rfl
  | zero s =>
      cases b with
      | notANumber => exact nomatch hb
      | infinity t => cases t <;> rfl
      | zero t => rfl
      | finite t m e h => cases t <;> rfl
  | finite s m e h =>
      cases b with
      | notANumber => exact nomatch hb
      | infinity t => cases s <;> cases t <;> rfl
      | zero t => cases s <;> rfl
      | finite t m' e' h' => cases s <;> cases t <;> rfl

theorem lt_iff : x < y ↔ x.toModel.unpack.compare y.toModel.unpack = some .lt := by
  show decide (x.toModel < y.toModel) = true ↔ _
  rw [decide_eq_true_iff]
  show (x.toModel.unpack.compare y.toModel.unpack == some .lt) = true ↔ _
  rw [beq_iff_eq]

theorem le_iff :
    x ≤ y ↔ ∃ o, x.toModel.unpack.compare y.toModel.unpack = some o ∧ o.isLE = true := by
  show decide (x.toModel ≤ y.toModel) = true ↔ _
  rw [decide_eq_true_iff]
  show (x.toModel.unpack.compare y.toModel.unpack).any (·.isLE) = true ↔ _
  rw [Option.any_eq_true]

theorem beq_iff : (x == y) = true ↔ x.toModel.unpack.compare y.toModel.unpack = some .eq := by
  show (x.toModel.unpack.compare y.toModel.unpack == some .eq) = true ↔ _
  rw [beq_iff_eq]

/-- Of two numbers one is not above the other. -/
theorem le_of_not_lt (hx : x.isNaN = false) (hy : y.isNaN = false) (h : ¬ x < y) : y ≤ x := by
  have hsome : (x.toModel.unpack.compare y.toModel.unpack).isSome = true := isSome_compare hx hy
  obtain ⟨o, ho⟩ := Option.isSome_iff_exists.mp hsome
  rw [lt_iff, ho] at h
  rw [le_iff, compare_comm x.toModel.unpack, ho]
  refine ⟨o.swap, rfl, ?_⟩
  cases o with
  | lt => exact absurd rfl h
  | eq => rfl
  | gt => rfl

theorem not_lt_of_le (h : y ≤ x) : ¬ x < y := by
  obtain ⟨o, ho, hle⟩ := le_iff.mp h
  rw [lt_iff, compare_comm y.toModel.unpack, ho]
  cases o with
  | lt => exact nofun
  | eq => exact nofun
  | gt => exact nomatch hle

/-- What is above one is not below zero. -/
theorem not_lt_zero_of_one_lt (h : 1.0 < x) : ¬ x < 0.0 := by
  have hone : (1.0 : Float).toModel.unpack =
      .finite .positive (2 ^ 52) (-52) (by decide) := rfl
  have hzero : (0.0 : Float).toModel.unpack = .zero .positive := rfl
  rw [lt_iff, hone] at h
  rw [lt_iff, hzero]
  intro hneg
  cases hx : x.toModel.unpack with
  | notANumber =>
      rw [hx] at h
      exact nomatch h
  | infinity s =>
      rw [hx] at h hneg
      cases s with
      | negative => exact nomatch h
      | positive => exact nomatch hneg
  | zero s =>
      rw [hx] at h
      exact nomatch h
  | finite s m e hm =>
      rw [hx] at h hneg
      cases s with
      | negative => exact nomatch h
      | positive => exact nomatch hneg

/-! ## Between zero and one -/

/-- Zero, or a number whose leading digit stands behind the point; not negative. -/
inductive BelowOne : UnpackedFloat → Prop where
  | zero : BelowOne (.zero .positive)
  | finite {m : Nat} {e : Int} (h : 0 < m) (he : e < -52) : BelowOne (.finite .positive m e h)

theorem BelowOne.compare_one (h : BelowOne a)
    (hb : b.compare (.finite .positive (2 ^ 52) (-52) (by decide)) = some .eq) :
    a.compare b = some .lt := by
  cases b with
  | notANumber => exact nomatch hb
  | infinity s => cases s <;> exact nomatch hb
  | zero s => exact nomatch hb
  | finite s m e hm =>
      cases s with
      | negative => exact nomatch hb
      | positive =>
          have hthen : (compare e (-52)).then (compare m (2 ^ 52)) = .eq := Option.some.inj hb
          obtain rfl : e = -52 := Int.compare_eq_eq.mp (Ordering.then_eq_eq.mp hthen).1
          cases h with
          | zero => rfl
          | @finite m' e' hpos he =>
              show some ((compare e' (-52)).then (compare m' m)) = _
              rw [Int.compare_eq_lt.mpr he]
              rfl

theorem BelowOne.compare_zero (h : BelowOne a) (hb : b.compare (.zero .positive) = some .eq) :
    a.compare b ≠ some .lt := by
  cases b with
  | notANumber => exact nomatch hb
  | infinity s => cases s <;> exact nomatch hb
  | zero s => cases h <;> exact nofun
  | finite s m e hm => cases s <;> exact nomatch hb

theorem BelowOne.compare_nonneg (h : BelowOne a) :
    ∃ o, UnpackedFloat.compare (.zero .positive) a = some o ∧ o.isLE = true := by
  cases h with
  | zero => exact ⟨.eq, rfl, rfl⟩
  | finite => exact ⟨.lt, rfl, rfl⟩

/-- A number of that form is below everything that equals one. -/
theorem BelowOne.lt_one (h : BelowOne x.toModel.unpack) (hy : (y == 1.0) = true) : x < y :=
  lt_iff.mpr (h.compare_one (beq_iff.mp hy))

/-- A number of that form is below nothing that equals zero. -/
theorem BelowOne.not_lt_zero (h : BelowOne x.toModel.unpack) (hy : (y == 0.0) = true) : ¬ x < y :=
  fun hlt => h.compare_zero (beq_iff.mp hy) (lt_iff.mp hlt)

theorem BelowOne.nonneg (h : BelowOne x.toModel.unpack) : 0.0 ≤ x := le_iff.mpr h.compare_nonneg

/-! ## The bits of doubles below one -/

/-- The bits of one. -/
def oneBits : Nat := 1023 * 2 ^ 52

theorem toNat_unpackExponent (b : BitVec 64) :
    (@UnpackedFloat.unpackExponent .binary64 b).toNat = b.toNat / 2 ^ 52 % 2 ^ 11 := by
  show (b.extractLsb 62 52).toNat = _
  rw [BitVec.extractLsb_toNat, Nat.shiftRight_eq_div_pow]

theorem toNat_unpackSign (b : BitVec 64) :
    (@UnpackedFloat.unpackSign .binary64 b).toNat = b.toNat / 2 ^ 63 % 2 := by
  show (b.extractLsb 63 63).toNat = _
  rw [BitVec.extractLsb_toNat, Nat.shiftRight_eq_div_pow]

theorem belowOne_unpack {b : BitVec 64} (h : b.toNat < oneBits) :
    BelowOne (UnpackedFloat.unpack .binary64 b) := by
  rw [oneBits] at h
  have hsign : @UnpackedFloat.unpackSign .binary64 b = 0#1 := by
    apply BitVec.eq_of_toNat_eq
    rw [toNat_unpackSign, BitVec.toNat_ofNat]
    omega
  have hexponent : (@UnpackedFloat.unpackExponent .binary64 b).toNat < 1023 := by
    rw [toNat_unpackExponent]
    omega
  have hnumber : @UnpackedFloat.unpackExponent .binary64 b ≠ -1#_ := by
    intro heq
    rw [heq] at hexponent
    exact absurd hexponent (by decide)
  unfold UnpackedFloat.unpack
  dsimp only
  rw [hsign, if_neg hnumber]
  by_cases hleast : @UnpackedFloat.unpackExponent .binary64 b = 0#_
  · rw [if_pos hleast]
    by_cases hzero : @UnpackedFloat.unpackMantissa .binary64 b = 0#_
    · rw [dif_pos hzero]
      exact .zero
    · rw [dif_neg hzero]
      refine .finite _ ?_
      rw [hleast]
      decide
  · rw [if_neg hleast]
    refine .finite _ ?_
    simp only [Format.exponentBias]
    omega

theorem toNat_packComponents (e : BitVec 11) (m : BitVec 52) :
    (UnpackedFloat.packComponents .binary64 .positive e m).toNat = e.toNat * 2 ^ 52 + m.toNat := by
  have hsign : (0#1 ++ e).toNat = e.toNat := by
    rw [BitVec.toNat_append, ← Nat.shiftLeft_add_eq_or_of_lt e.isLt]
    simp
  show (0#1 ++ e ++ m).toNat = _
  rw [BitVec.toNat_append, hsign, ← Nat.shiftLeft_add_eq_or_of_lt m.isLt, Nat.shiftLeft_eq]

theorem toNat_pack (h : BelowOne a) : (UnpackedFloat.pack .binary64 a).toNat < oneBits := by
  have hpacked : ∀ (e : BitVec 11) (m : BitVec 52), e.toNat < 1023 →
      (UnpackedFloat.packComponents .binary64 .positive e m).toNat < oneBits := by
    intro e m he
    have hm := m.isLt
    rw [toNat_packComponents, oneBits]
    omega
  cases h with
  | zero => decide
  | @finite m e hm he =>
      have hbiased : (e + (Format.binary64.exponentBias : Nat) + (52 : Nat)).toNat < 1023 := by
        simp only [Format.exponentBias]
        omega
      unfold UnpackedFloat.pack
      dsimp only
      rw [if_neg (by omega)]
      split
      · apply hpacked
        rw [BitVec.toNat_ofNat]
        exact Nat.lt_of_le_of_lt (Nat.mod_le _ _) hbiased
      · exact hpacked _ _ (by decide)

/-- Bits below those of one are a number from zero up to, but not including, one. -/
theorem belowOne_ofBits {n : Nat} (h : n < oneBits) :
    BelowOne (Float.ofBits (UInt64.ofNat n)).toModel.unpack := by
  have hbits : (UInt64.ofNat n).toBitVec.toNat < oneBits := Nat.lt_of_le_of_lt (Nat.mod_le _ _) h
  exact belowOne_unpack (toNat_pack (belowOne_unpack hbits))

end Havoc.Number
