import Havoc.Draw.Uniform
import Havoc.Proofs.Number.Integer

/-! # Draws in wrapping arithmetic

    A machine draws an integer of a range with words of 64 bits and nothing wider: the
    size of the range, the accepted zone, the low half of the product and the number
    itself are each taken modulo `2^64`, although the size may be no signed integer of
    64 bits.  It refuses words for as long as it takes, and it panics if the range is
    empty.  `Drawn` says this without a bound on the refusals.

    The route: nothing that counts is lost modulo `2^64`, neither the size
    (`toNat_span`), nor the zone (`toNat_acceptedZone`), nor the sum at the end
    (`toInt_offset`).  So what the machine gives lies in the range (`Drawn.between`),
    and it is what `Draw.int` comes to (`int_of_drawn`, `drawn_of_int`) unless more
    words in a row are refused than `Draw.int` has patience for. -/

namespace Havoc

open Number

namespace Words

/-- The word that is taken next. -/
def head (w : Words) : UInt64 := w.word w.used

/-- The stream behind the next word. -/
def tail (w : Words) : Words := { w with used := w.used + 1 }

end Words

namespace Draw

/-- How a draw ends on the machine. -/
inductive Ending where
  | panics
  | gives (n : Int64) (rest : Words)

/-- The size of a range, by way of its greatest member; zero stands for `2^64`. -/
def span (low high : Int64) : UInt64 := (high - 1 - low + 1).toUInt64

/-- The greatest low half that is accepted: the size, shifted to the left end of the
    word, less one. -/
def acceptedZone (n : UInt64) : UInt64 := (n <<< (63 - n.log2)) - 1

/-- The high half of a product. -/
def highHalf (x n : UInt64) : UInt64 := UInt64.ofNat (x.toNat * n.toNat / 2 ^ 64)

/-- How a draw from a range may end on a stream of words. -/
inductive Drawn (low high : Int64) : Words → Ending → Prop where
  | empty {w : Words} : ¬ low < high → Drawn low high w .panics
  | whole {w : Words} : low < high → span low high = 0 →
      Drawn low high w (.gives w.head.toInt64 w.tail)
  | taken {w : Words} : low < high → span low high ≠ 0 →
      w.head * span low high ≤ acceptedZone (span low high) →
      Drawn low high w (.gives (low + (highHalf w.head (span low high)).toInt64) w.tail)
  | refused {w : Words} {e : Ending} : low < high → span low high ≠ 0 →
      ¬ w.head * span low high ≤ acceptedZone (span low high) →
      Drawn low high w.tail e → Drawn low high w e

variable {low high m : Int64} {n x : UInt64} {w rest : Words} {fuel : Nat}

/-! ## Nothing that counts is lost -/

theorem toNat_toUInt64 (k : Int64) : (k.toUInt64.toNat : Int) = k.toInt % 2 ^ 64 := by
  have hk : k.toInt = (k.toUInt64.toNat : Int).bmod (2 ^ 64) := BitVec.toInt_eq_toNat_bmod _
  have hlt := k.toUInt64.toNat_lt
  rw [hk, show (2 ^ 64 : Int) = ((2 ^ 64 : Nat) : Int) from rfl, Int.bmod_emod]
  exact (Int.emod_eq_of_lt (by omega) (by omega)).symm

theorem toNat_span (h : low < high) :
    (span low high).toNat = (high.toInt - low.toInt).toNat := by
  have hlt := Int64.lt_iff_toInt_lt.mp h
  have hlow := low.le_toInt
  have hhigh := high.toInt_lt
  -- going by way of the greatest member makes no difference modulo `2^64`
  have hdiff : high - 1 - low + 1 = high - low := by grind
  have hnat := toNat_toUInt64 (high - low)
  rw [Int64.toInt_sub, show (2 ^ 64 : Int) = ((2 ^ 64 : Nat) : Int) from rfl, Int.bmod_emod,
    Int.emod_eq_of_lt (by omega) (by omega)] at hnat
  rw [span, hdiff]
  omega

theorem span_ne_zero (h : low < high) : span low high ≠ 0 := by
  intro hzero
  have hlt := Int64.lt_iff_toInt_lt.mp h
  have hspan := toNat_span h
  rw [hzero, UInt64.toNat_zero] at hspan
  omega

theorem toNat_acceptedZone (h : n ≠ 0) : (acceptedZone n).toNat = zone 64 n.toNat := by
  have hpos : n.toNat ≠ 0 := fun hzero => h (UInt64.toNat_inj.mp hzero)
  have hlog : n.toNat.log2 < 64 := (Nat.log2_lt hpos).mpr n.toNat_lt
  have hlog2 : n.log2.toNat = n.toNat.log2 := rfl
  have hle : n.log2 ≤ 63 := UInt64.le_iff_toNat_le.mpr (hlog2 ▸ Nat.le_of_lt_succ hlog)
  have hplaces : (63 - n.log2).toNat = 63 - n.toNat.log2 := UInt64.toNat_sub_of_le _ _ hle
  -- the leading digit comes to the left end of the word, and none is pushed out
  have hfit : n.toNat * 2 ^ (63 - n.toNat.log2) < 2 ^ 64 := by
    have hsplit : 2 ^ 64 = 2 ^ (n.toNat.log2 + 1) * 2 ^ (63 - n.toNat.log2) := by
      rw [← Nat.pow_add]
      congr 1
      omega
    rw [hsplit]
    exact Nat.mul_lt_mul_of_pos_right Nat.lt_log2_self (Nat.pow_pos (by decide))
  have hshift : (n <<< (63 - n.log2)).toNat = n.toNat * 2 ^ (63 - n.toNat.log2) := by
    have hless : 63 - n.toNat.log2 < 64 := by omega
    rw [UInt64.toNat_shiftLeft, hplaces, Nat.shiftLeft_eq, Nat.mod_eq_of_lt hless,
      Nat.mod_eq_of_lt hfit]
  have hone : 1 ≤ n <<< (63 - n.log2) := by
    rw [UInt64.le_iff_toNat_le, hshift]
    exact Nat.mul_pos (Nat.pos_of_ne_zero hpos) (Nat.pow_pos (by decide))
  have hexponent : 64 - (n.toNat.log2 + 1) = 63 - n.toNat.log2 := by omega
  rw [acceptedZone, UInt64.toNat_sub_of_le _ _ hone, hshift, zone, hexponent]
  rfl

theorem accepted_iff (h : n ≠ 0) :
    x * n ≤ acceptedZone n ↔ x.toNat * n.toNat % 2 ^ 64 ≤ zone 64 n.toNat := by
  rw [UInt64.le_iff_toNat_le, UInt64.toNat_mul, toNat_acceptedZone h]

theorem toNat_highHalf : (highHalf x n).toNat = x.toNat * n.toNat / 2 ^ 64 := by
  have hx := x.toNat_lt
  have hn := n.toNat_lt
  have hproduct : x.toNat * n.toNat < 2 ^ 64 * 2 ^ 64 := Nat.mul_lt_mul'' hx hn
  exact UInt64.toNat_ofNat_of_lt' (Nat.div_lt_of_lt_mul hproduct)

theorem highHalf_lt (h : n ≠ 0) : (highHalf x n).toNat < n.toNat := by
  have hpos : 0 < n.toNat := Nat.pos_of_ne_zero fun hzero => h (UInt64.toNat_inj.mp hzero)
  rw [toNat_highHalf, Nat.div_lt_iff_lt_mul (by decide), Nat.mul_comm]
  exact Nat.mul_lt_mul_of_pos_left x.toNat_lt hpos

/-- The sum at the end does not leave the range. -/
theorem toInt_offset (h : low < high) (hx : x.toNat < (span low high).toNat) :
    (low + x.toInt64).toInt = low.toInt + x.toNat := by
  rw [toNat_span h] at hx
  have hlow := low.le_toInt
  have hhigh := high.toInt_lt
  have hint : x.toInt64.toInt = (x.toNat : Int).bmod (2 ^ 64) := BitVec.toInt_eq_toNat_bmod _
  rw [Int64.toInt_add, hint, Int.add_bmod_bmod]
  exact Int.bmod_eq_of_le (by omega) (by omega)

/-! ## What the machine gives -/

theorem Drawn.not_panics (h : low < high) : ¬ Drawn low high w .panics := by
  intro hdrawn
  generalize hends : Ending.panics = e at hdrawn
  induction hdrawn with
  | empty hempty => exact hempty h
  | whole => exact nomatch hends
  | taken => exact nomatch hends
  | refused _ _ _ _ ih => exact ih hends

theorem Drawn.used_lt (h : Drawn low high w (.gives m rest)) : w.used < rest.used := by
  generalize hends : Ending.gives m rest = e at h
  induction h with
  | empty => exact nomatch hends
  | whole =>
      obtain ⟨-, rfl⟩ := Ending.gives.inj hends
      exact Nat.lt_succ_self _
  | taken =>
      obtain ⟨-, rfl⟩ := Ending.gives.inj hends
      exact Nat.lt_succ_self _
  | refused _ _ _ _ ih => exact Nat.lt_of_succ_lt (ih hends)

/-- However many words are refused, the number lies in the range. -/
theorem Drawn.between (h : Drawn low high w (.gives m rest)) : low ≤ m ∧ m < high := by
  generalize hends : Ending.gives m rest = e at h
  induction h with
  | empty => exact nomatch hends
  | whole hlt hspan => exact absurd hspan (span_ne_zero hlt)
  | @taken w hlt hspan =>
      obtain ⟨rfl, -⟩ := Ending.gives.inj hends
      have hhalf : (highHalf w.head (span low high)).toNat < _ := highHalf_lt hspan
      have hint := toInt_offset hlt hhalf
      rw [toNat_span hlt] at hhalf
      rw [Int64.le_iff_toInt_le, Int64.lt_iff_toInt_lt, hint]
      omega
  | refused _ _ _ _ ih => exact ih hends

/-! ## The same words, the same number -/

theorem belowWith_taken (h : w.head.toNat * n.toNat % 2 ^ 64 ≤ zone 64 n.toNat) :
    belowWith 64 n.toNat fuel w = ((highHalf w.head n).toNat, w.tail) := by
  have hmod : (w.word w.used).toNat % 2 ^ 64 = w.head.toNat := Nat.mod_eq_of_lt w.head.toNat_lt
  rw [toNat_highHalf]
  cases fuel with
  | zero =>
      simp only [belowWith, word, bind, StateT.bind, hmod]
      rfl
  | succ fuel =>
      simp only [belowWith, word, bind, StateT.bind, hmod, if_pos h]
      rfl

theorem belowWith_refused (h : ¬ w.head.toNat * n.toNat % 2 ^ 64 ≤ zone 64 n.toNat) :
    belowWith 64 n.toNat (fuel + 1) w = belowWith 64 n.toNat fuel w.tail := by
  have hmod : (w.word w.used).toNat % 2 ^ 64 = w.head.toNat := Nat.mod_eq_of_lt w.head.toNat_lt
  simp only [belowWith, word, bind, StateT.bind, hmod, if_neg h]
  rfl

/-- A draw with enough patience does what the machine does. -/
theorem belowWith_of_drawn (h : Drawn low high w (.gives m rest))
    (hused : rest.used ≤ w.used + fuel + 1) :
    belowWith 64 (span low high).toNat fuel w = ((m.toInt - low.toInt).toNat, rest) := by
  generalize hends : Ending.gives m rest = e at h
  induction h generalizing fuel with
  | empty => exact nomatch hends
  | whole hlt hspan => exact absurd hspan (span_ne_zero hlt)
  | @taken w hlt hspan haccepted =>
      obtain ⟨rfl, rfl⟩ := Ending.gives.inj hends
      rw [belowWith_taken ((accepted_iff hspan).mp haccepted),
        toInt_offset hlt (highHalf_lt hspan)]
      congr 1
      omega
  | @refused w e hlt hspan haccepted hdrawn ih =>
      subst hends
      have hlater : w.used + 1 < rest.used := hdrawn.used_lt
      obtain ⟨left, rfl⟩ : ∃ left, fuel = left + 1 := ⟨fuel - 1, by omega⟩
      rw [belowWith_refused fun h => haccepted ((accepted_iff hspan).mpr h)]
      refine ih ?_ rfl
      show rest.used ≤ w.used + 1 + left + 1
      omega

/-- A draw that did not run out of patience is one of the machine. -/
theorem drawn_of_belowWith {k : Nat} (hlt : low < high)
    (h : belowWith 64 (span low high).toNat fuel w = (k, rest))
    (hused : rest.used ≤ w.used + fuel) :
    Drawn low high w (.gives (low + (UInt64.ofNat k).toInt64) rest) := by
  have hspan := span_ne_zero hlt
  induction fuel generalizing w with
  | zero =>
      -- the last word is taken as it is, which is a word too many
      have hrest : w.used + 1 = rest.used := congrArg (fun d : Nat × Words => d.2.used) h
      omega
  | succ fuel ih =>
      by_cases haccepted : w.head * span low high ≤ acceptedZone (span low high)
      · rw [belowWith_taken ((accepted_iff hspan).mp haccepted)] at h
        obtain ⟨rfl, rfl⟩ := Prod.mk.inj h
        rw [UInt64.ofNat_toNat]
        exact .taken hlt hspan haccepted
      · rw [belowWith_refused fun h => haccepted ((accepted_iff hspan).mpr h)] at h
        refine .refused hlt hspan haccepted (ih h ?_)
        show rest.used ≤ w.used + 1 + fuel
        omega

theorem int_eq (r : IntRange) (w : Words) :
    Draw.int r w = (r.low + (below r.size w).1, (below r.size w).2) := rfl

section

variable {r : IntRange} (hlow : FitsInt64 r.low) (hhigh : FitsInt64 r.high)

include hlow hhigh

theorem ofInt_lt_ofInt : Int64.ofInt r.low < Int64.ofInt r.high := by
  rw [Int64.lt_iff_toInt_lt, Int64.toInt_ofInt_of_le hlow.1 hlow.2,
    Int64.toInt_ofInt_of_le hhigh.1 hhigh.2]
  exact r.nonempty

theorem toNat_span_ofInt : (span (Int64.ofInt r.low) (Int64.ofInt r.high)).toNat = r.size := by
  rw [toNat_span (ofInt_lt_ofInt hlow hhigh), Int64.toInt_ofInt_of_le hlow.1 hlow.2,
    Int64.toInt_ofInt_of_le hhigh.1 hhigh.2]
  rfl

/-- What the machine draws within patience is the integer that is drawn. -/
theorem int_of_drawn (h : Drawn (Int64.ofInt r.low) (Int64.ofInt r.high) w (.gives m rest))
    (hused : rest.used ≤ w.used + patience + 1) : Draw.int r w = (m.toInt, rest) := by
  have hl := Int64.toInt_ofInt_of_le hlow.1 hlow.2
  have hle := Int64.le_iff_toInt_le.mp h.between.1
  have hbelow : below r.size w = ((m.toInt - r.low).toNat, rest) := by
    rw [below, ← toNat_span_ofInt hlow hhigh, belowWith_of_drawn h hused, hl]
  rw [hl] at hle
  have hsum : r.low + ((m.toInt - r.low).toNat : Int) = m.toInt := by omega
  rw [int_eq, hbelow, hsum]

/-- An integer that is drawn within patience is one that the machine draws. -/
theorem drawn_of_int (hused : (Draw.int r w).2.used ≤ w.used + patience) :
    Drawn (Int64.ofInt r.low) (Int64.ofInt r.high) w
      (.gives (Int64.ofInt (Draw.int r w).1) (Draw.int r w).2) := by
  rw [int_eq] at hused ⊢
  dsimp only at hused ⊢
  have hlt := ofInt_lt_ofInt hlow hhigh
  have hsum (k : Nat) : Int64.ofInt (r.low + k) =
      Int64.ofInt r.low + (UInt64.ofNat k).toInt64 := by
    rw [Int64.ofInt_add, Int64.ofInt_eq_ofNat, UInt64.toInt64_ofNat']
  rw [hsum]
  rw [below, ← toNat_span_ofInt hlow hhigh] at hused ⊢
  exact drawn_of_belowWith hlt rfl hused

end

end Draw

end Havoc
