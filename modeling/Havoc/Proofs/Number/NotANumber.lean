import Havoc.Number.Reader
import Havoc.Proofs.Number.Order

/-! # Doubles that are no numbers

    A double that is no number compares with nothing, so tests that exclude what is too
    great, or too small, let it through.  Just one spelling stands for it: the word `nan`
    in letters of either case, behind a sign or not (`isNaN_readFloat?`).

    The route: packing keeps whether an unpacked form is a number (`isNaN_unpack_pack`), so
    bits are no number only if all bits of the exponent are set and one of the fraction
    is (`isNaN_ofBits`).  The bits of a quotient end where the fraction of the infinite
    double begins, so a quotient is a number (`isNaN_ofRatio`), and so is a decimal. -/

namespace Havoc.Number

open Float.Model

variable {a : UnpackedFloat} {x y : Float} {s body : List Char}

/-! ## Comparing -/

theorem unpack_of_isNaN (h : x.isNaN = true) : x.toModel.unpack = .notANumber := by
  have hunpacked : x.toModel.unpack.isNaN = true := h
  cases hx : x.toModel.unpack with
  | notANumber => rfl
  | infinity s =>
      rw [hx] at hunpacked
      exact nomatch hunpacked
  | zero s =>
      rw [hx] at hunpacked
      exact nomatch hunpacked
  | finite s m e hm =>
      rw [hx] at hunpacked
      exact nomatch hunpacked

theorem compare_notANumber (a : UnpackedFloat) : a.compare .notANumber = none := by
  cases a with
  | notANumber => rfl
  | infinity s => cases s <;> rfl
  | zero s => rfl
  | finite s m e hm => cases s <;> rfl

/-- What is no number is on no side of anything. -/
theorem compare_of_isNaN (h : x.isNaN = true ∨ y.isNaN = true) :
    x.toModel.unpack.compare y.toModel.unpack = none := by
  rcases h with h | h
  · rw [unpack_of_isNaN h]
    rfl
  · rw [unpack_of_isNaN h]
    exact compare_notANumber _

/-- A test for "not at or above" lets through what is below and what cannot be compared. -/
theorem not_le_iff : ¬ y ≤ x ↔ x < y ∨ x.isNaN = true ∨ y.isNaN = true := by
  constructor
  · intro h
    by_cases hlt : x < y
    · exact Or.inl hlt
    · by_cases hnan : x.isNaN = true ∨ y.isNaN = true
      · exact Or.inr hnan
      · rw [not_or, Bool.not_eq_true, Bool.not_eq_true] at hnan
        exact absurd (le_of_not_lt hnan.1 hnan.2 hlt) h
  · rintro (hlt | hnan) hle
    · exact not_lt_of_le hle hlt
    · obtain ⟨o, ho, -⟩ := le_iff.mp hle
      rw [compare_of_isNaN hnan.symm] at ho
      exact nomatch ho

/-- Numbers that compare are numbers. -/
theorem isNaN_of_lt (h : x < y) : x.isNaN = false ∧ y.isNaN = false := by
  rw [lt_iff] at h
  have hnone : ¬ (x.isNaN = true ∨ y.isNaN = true) := by
    intro hnan
    rw [compare_of_isNaN hnan] at h
    exact nomatch h
  exact ⟨Bool.eq_false_iff.mpr fun hx => hnone (Or.inl hx),
    Bool.eq_false_iff.mpr fun hy => hnone (Or.inr hy)⟩

/-! ## Bits -/

theorem toNat_unpackMantissa (b : BitVec 64) :
    (@UnpackedFloat.unpackMantissa .binary64 b).toNat = b.toNat % 2 ^ 52 := by
  show (b.extractLsb 51 0).toNat = _
  rw [BitVec.extractLsb_toNat, Nat.shiftRight_zero]

/-- No number has all bits of the exponent set and one of the fraction. -/
theorem isNaN_unpack_iff (b : BitVec 64) : (UnpackedFloat.unpack .binary64 b).isNaN = true ↔
    @UnpackedFloat.unpackExponent .binary64 b = -1#_ ∧
      @UnpackedFloat.unpackMantissa .binary64 b ≠ 0#_ := by
  unfold UnpackedFloat.unpack
  dsimp only
  by_cases he : @UnpackedFloat.unpackExponent .binary64 b = -1#_
  · rw [if_pos he]
    by_cases hm : @UnpackedFloat.unpackMantissa .binary64 b = 0#_
    · rw [if_pos hm]
      exact ⟨nofun, fun h => absurd hm h.2⟩
    · rw [if_neg hm]
      exact ⟨fun _ => ⟨he, hm⟩, fun _ => rfl⟩
  · rw [if_neg he]
    refine ⟨fun h => ?_, fun h => absurd h.1 he⟩
    by_cases hleast : @UnpackedFloat.unpackExponent .binary64 b = 0#_
    · rw [if_pos hleast] at h
      by_cases hm : @UnpackedFloat.unpackMantissa .binary64 b = 0#_
      · rw [dif_pos hm] at h
        exact nomatch h
      · rw [dif_neg hm] at h
        exact nomatch h
    · rw [if_neg hleast] at h
      exact nomatch h

theorem isNaN_packComponents {sign : UnpackedFloat.Sign} {e : BitVec 11} {m : BitVec 52}
    (h : e ≠ -1#_ ∨ m = 0#_) :
    (UnpackedFloat.unpack .binary64
      (UnpackedFloat.packComponents .binary64 sign e m)).isNaN = false := by
  have hexponent := @UnpackedFloat.unpackExponent_packComponents .binary64 sign e m
  have hmantissa := @UnpackedFloat.unpackMantissa_packComponents .binary64 sign e m
  rw [← Bool.not_eq_true, isNaN_unpack_iff, hexponent, hmantissa]
  rintro ⟨he, hm⟩
  rcases h with h | h
  · exact h he
  · exact hm h

/-- Packing keeps whether there is a number. -/
theorem isNaN_unpack_pack (a : UnpackedFloat) :
    (UnpackedFloat.unpack .binary64 (UnpackedFloat.pack .binary64 a)).isNaN = a.isNaN := by
  cases a with
  | notANumber => rfl
  | infinity s => exact isNaN_packComponents (Or.inr rfl)
  | zero s => exact isNaN_packComponents (Or.inr rfl)
  | finite s m e hm =>
      show (UnpackedFloat.unpack .binary64 _).isNaN = false
      unfold UnpackedFloat.pack
      dsimp only
      split
      · exact isNaN_packComponents (Or.inr rfl)
      · next hbiased =>
          split
          · refine isNaN_packComponents (Or.inl fun heq => ?_)
            have hbits := congrArg BitVec.toNat heq
            rw [BitVec.toNat_ofNat, Nat.mod_eq_of_lt (Nat.lt_of_succ_lt (Nat.not_le.mp hbiased))]
              at hbits
            have hones : (-1#11).toNat + 1 = 2 ^ 11 := rfl
            exact hbiased (by rw [hbits]; exact Nat.le_of_eq hones.symm)
          · exact isNaN_packComponents (Or.inl (by decide))

theorem isNaN_unpack (b : BitVec 64) : (UnpackedFloat.unpack .binary64 b).isNaN = true ↔
    b.toNat / 2 ^ 52 % 2 ^ 11 = 2047 ∧ b.toNat % 2 ^ 52 ≠ 0 := by
  rw [isNaN_unpack_iff, ← toNat_unpackExponent, ← toNat_unpackMantissa, ne_eq,
    ← BitVec.toNat_inj, ← BitVec.toNat_inj]
  exact Iff.rfl

/-- Bits are no number if all of the exponent and something of the fraction is set. -/
theorem isNaN_ofBits (n : UInt64) : (Float.ofBits n).isNaN = true ↔
    n.toNat / 2 ^ 52 % 2 ^ 11 = 2047 ∧ n.toNat % 2 ^ 52 ≠ 0 := by
  have hpacked : (Float.ofBits n).isNaN =
      (UnpackedFloat.unpack .binary64 n.toBitVec).isNaN := isNaN_unpack_pack _
  rw [hpacked]
  exact isNaN_unpack n.toBitVec

/-! ## Quotients and decimals -/

theorem nearestBits_le (num den : Nat) : nearestBits num den ≤ 2047 * 2 ^ 52 := by
  unfold nearestBits
  split
  · exact Nat.zero_le _
  · exact Nat.min_le_right _ _

theorem isNaN_ofRatio (negative : Bool) (num den : Nat) :
    (ofRatio negative num den).isNaN = false := by
  have hle := nearestBits_le num den
  have hbits : (UInt64.ofNat (nearestBits num den + if negative then 2 ^ 63 else 0)).toNat =
      nearestBits num den + if negative then 2 ^ 63 else 0 := by
    refine UInt64.toNat_ofNat_of_lt' ?_
    rw [UInt64.size]
    split <;> omega
  rw [← Bool.not_eq_true, ofRatio, isNaN_ofBits, hbits]
  split <;> omega

theorem isNaN_ofDecimal (negative : Bool) (m : Nat) (e : Int) :
    (ofDecimal negative m e).isNaN = false := by
  unfold ofDecimal
  dsimp only
  split
  · exact isNaN_ofRatio _ _ _
  · split
    · exact isNaN_ofRatio _ _ _
    · split
      · exact isNaN_ofRatio _ _ _
      · exact isNaN_ofRatio _ _ _

/-! ## Spellings -/

/-- The word for no number, in letters of either case, behind a sign or not. -/
def SpellsNaN (s : List Char) : Prop :=
  ∃ sign body, s = sign ++ body ∧ (sign = [] ∨ sign = ['+'] ∨ sign = ['-']) ∧
    body.map Char.toLower = "nan".toList

theorem spellsNaN_iff : SpellsNaN s ↔ (unsigned s).2.map Char.toLower = "nan".toList := by
  constructor
  · rintro ⟨sign, body, rfl, rfl | rfl | rfl, hbody⟩
    · unfold unsigned
      split
      · next heq =>
          rw [List.nil_append] at heq
          rw [heq] at hbody
          exact absurd (List.cons.inj hbody).1 (by decide)
      · next heq =>
          rw [List.nil_append] at heq
          rw [heq] at hbody
          exact absurd (List.cons.inj hbody).1 (by decide)
      · exact hbody
    · exact hbody
    · exact hbody
  · intro h
    unfold unsigned at h
    split at h
    · exact ⟨['+'], _, rfl, Or.inr (Or.inl rfl), h⟩
    · exact ⟨['-'], _, rfl, Or.inr (Or.inr rfl), h⟩
    · exact ⟨[], _, rfl, Or.inl rfl, h⟩

/-- One word is the only spelling that reads as no number. -/
theorem isNaN_readFloat? (h : readFloat? s = some x) : x.isNaN = true ↔ SpellsNaN s := by
  rw [spellsNaN_iff]
  unfold readFloat? at h
  generalize unsigned s = sign at h ⊢
  obtain ⟨negative, body⟩ := sign
  dsimp only at h ⊢
  split at h
  · next hinfinite =>
      obtain rfl := Option.some.inj h
      rw [isNaN_ofRatio]
      refine ⟨nofun, fun hnan => ?_⟩
      rw [hnan] at hinfinite
      exact absurd hinfinite (by decide)
  · split at h
    · next hnan =>
        obtain rfl := Option.some.inj h
        exact ⟨fun _ => hnan, fun _ => (isNaN_ofBits _).mpr (by decide)⟩
    · next hnan =>
        obtain ⟨⟨m, e⟩, -, rfl⟩ := Option.map_eq_some_iff.mp h
        dsimp only
        rw [isNaN_ofDecimal]
        exact ⟨nofun, fun hword => absurd hword hnan⟩

end Havoc.Number
