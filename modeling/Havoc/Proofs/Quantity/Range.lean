import Havoc.Proofs.Number.NotANumber
import Havoc.Proofs.Quantity.Reader

/-! # Which ranges are accepted

    A range is read the same way for integers and for doubles: the two texts behind the word
    are read as numbers, and a test decides whether they are in order.  Integers are in order
    or not.  The test for doubles asks whether the first bound is at or above the second, so
    it also accepts bounds that cannot be compared.

    The route: texts of numbers hold no colon (`ColonFree`), so bounds that read as numbers
    are what the split finds (`readTrimmed_of_hasBounds`), and a range that is accepted comes
    from such bounds (`hasBounds_of_between`).  What remains is the order of each kind. -/

namespace Havoc.Quantity

open Havoc.Number Havoc.Text

/-- A number never has a colon in its text. -/
class ColonFree (α : Type) [Scalar α] : Prop where
  not_mem {s : List Char} {x : α} : Scalar.read? s = some x → ':' ∉ s

/-- The word with the texts of two numbers behind it, each after a colon. -/
def HasBounds {α : Type} [Scalar α] (t : List Char) (a b : α) : Prop :=
  ∃ low high, t = "RANDOM:".toList ++ (low ++ ':' :: high) ∧
    Scalar.read? (trim low) = some a ∧ Scalar.read? (trim high) = some b

/-! ## Texts of numbers -/

instance : ColonFree Int where
  not_mem h := (readInt64?_eq_some_iff.mp h).1.not_mem_colon

section

variable {s : List Char}

theorem not_mem_of_digits (h : isDigits s = true) : ':' ∉ s := by
  intro hmem
  exact absurd ((isDigits_iff.mp h).2 _ hmem) (by decide)

theorem mem_unsigned (h : ':' ∈ s) : ':' ∈ (unsigned s).2 := by
  unfold unsigned
  split
  · exact (List.mem_cons.mp h).resolve_left (by decide)
  · exact (List.mem_cons.mp h).resolve_left (by decide)
  · exact h

theorem not_mem_of_readExponent? {e : Int} (h : readExponent? s = some e) : ':' ∉ s := by
  cases s with
  | nil => exact List.not_mem_nil
  | cons c rest =>
      simp only [readExponent?] at h
      split at h
      · next hc =>
          split at h
          · next hdigits =>
              intro hmem
              rcases List.mem_cons.mp hmem with rfl | hmem
              · exact absurd hc (by decide)
              · exact not_mem_of_digits hdigits (mem_unsigned hmem)
          · exact nomatch h
      · exact nomatch h

theorem mem_dropWhile_isDigit (h : ':' ∈ s) : ':' ∈ s.dropWhile Char.isDigit := by
  rw [← List.takeWhile_append_dropWhile (p := Char.isDigit) (l := s), List.mem_append] at h
  exact h.resolve_left fun hmem => absurd (List.mem_takeWhile_imp hmem) (by decide)

theorem not_mem_of_readDecimal? {d : Nat × Int} (h : readDecimal? s = some d) : ':' ∉ s := by
  intro hmem
  have hbehind := mem_dropWhile_isDigit hmem
  unfold readDecimal? at h
  dsimp only at h
  -- a colon behind the digits is where the exponent is read
  split at h
  · next places hdrop =>
      split at h
      · exact nomatch h
      · rw [hdrop] at hbehind
        have hrest := (List.mem_cons.mp hbehind).resolve_left (by decide)
        obtain ⟨e, he, -⟩ := Option.map_eq_some_iff.mp h
        exact not_mem_of_readExponent? he (mem_dropWhile_isDigit hrest)
  · split at h
    · exact nomatch h
    · obtain ⟨e, he, -⟩ := Option.map_eq_some_iff.mp h
      exact not_mem_of_readExponent? he hbehind

instance : ColonFree Float where
  not_mem {s x} h := by
    intro hmem
    have hbody := mem_unsigned hmem
    have hlower := List.mem_map_of_mem (f := Char.toLower) hbody
    change readFloat? s = some x at h
    unfold readFloat? at h
    dsimp only at h
    split at h
    · next hword =>
        rcases hword with hword | hword
        · rw [hword] at hlower
          exact absurd hlower (by decide)
        · rw [hword] at hlower
          exact absurd hlower (by decide)
    · split at h
      · next hword =>
          rw [hword] at hlower
          exact absurd hlower (by decide)
      · obtain ⟨d, hd, -⟩ := Option.map_eq_some_iff.mp h
        exact not_mem_of_readDecimal? hd hbody

end

/-! ## Bounds and ranges -/

section

variable {α : Type} [Scalar α] {s t low high : List Char} {a b : α} {r : Scalar.Range α}

theorem readScalar_eq_ok_iff : readScalar s = .ok a ↔ Scalar.read? (trim s) = some a := by
  unfold readScalar
  split
  · next n hn =>
      rw [hn]
      constructor
      · rintro h
        rw [Except.ok.inj h]
      · intro h
        rw [Option.some.inj h]
  · next hn =>
      rw [hn]
      exact ⟨nofun, nofun⟩

/-- What two numbers make as bounds. -/
def ranged (a b : α) : Except QuantityError (Scalar.Range α) :=
  match Scalar.rising? a b with
  | some range => .ok range
  | none => .error (.invalidRange (Scalar.text a) (Scalar.text b))

theorem ranged_eq_ok_iff : ranged a b = .ok r ↔ Scalar.rising? a b = some r := by
  unfold ranged
  split
  · next range hrange =>
      rw [hrange]
      constructor
      · rintro h
        rw [Except.ok.inj h]
      · intro h
        rw [Option.some.inj h]
  · next hrange =>
      rw [hrange]
      exact ⟨nofun, nofun⟩

theorem ranged_of_none (h : Scalar.rising? a b = none) :
    ranged a b = .error (.invalidRange (Scalar.text a) (Scalar.text b)) := by
  rw [ranged, h]

theorem readRange_of_read (hlow : readScalar low = .ok a) (hhigh : readScalar high = .ok b) :
    readRange low high = ranged a b := by
  rw [readRange, hlow, hhigh]
  rfl

/-- A range comes from two numbers. -/
theorem readRange_eq_ok (h : readRange low high = .ok r) :
    ∃ a b : α, readScalar low = .ok a ∧ readScalar high = .ok b ∧ ranged a b = .ok r := by
  cases hlow : readScalar (α := α) low with
  | error e =>
      rw [readRange, hlow] at h
      cases h
  | ok a =>
      cases hhigh : readScalar (α := α) high with
      | error e =>
          rw [readRange, hlow, hhigh] at h
          cases h
      | ok b =>
          rw [readRange_of_read hlow hhigh] at h
          exact ⟨a, b, rfl, rfl, h⟩

theorem readTrimmed_of_hasBounds [ColonFree α] (h : HasBounds t a b) :
    readTrimmed t = (ranged a b).map .between := by
  obtain ⟨low, high, rfl, hlow, hhigh⟩ := h
  have hcolon : isBlank ':' = false := by decide
  have hl : ':' ∉ low := fun hmem => ColonFree.not_mem hlow (mem_trim hmem hcolon)
  have hh : ':' ∉ high := fun hmem => ColonFree.not_mem hhigh (mem_trim hmem hcolon)
  rw [readTrimmed_bounds (splitOn_eq_pair_iff.mpr ⟨hl, hh, rfl⟩),
    readRange_of_read (readScalar_eq_ok_iff.mpr hlow) (readScalar_eq_ok_iff.mpr hhigh)]

theorem hasBounds_of_between (h : readTrimmed t = .ok (.between r)) :
    ∃ a b : α, HasBounds t a b ∧ Scalar.rising? a b = some r := by
  unfold readTrimmed at h
  split at h
  · exact nomatch h
  · split at h
    · next rest hrest =>
        split at h
        · next low high hsplit =>
            cases hrange : readRange (α := α) low high with
            | error e =>
                rw [hrange] at h
                exact nomatch h
            | ok range =>
                rw [hrange] at h
                obtain rfl : range = r := Quantity.between.inj (Except.ok.inj h)
                obtain ⟨a, b, ha, hb, hranged⟩ := readRange_eq_ok hrange
                obtain ⟨-, -, rfl⟩ := splitOn_eq_pair_iff.mp hsplit
                exact ⟨a, b, ⟨low, high, after?_eq_some_iff.mp hrest,
                  readScalar_eq_ok_iff.mp ha, readScalar_eq_ok_iff.mp hb⟩,
                  ranged_eq_ok_iff.mp hranged⟩
        · exact nomatch h
    · cases hscalar : readScalar (α := α) t with
      | error e =>
          rw [hscalar] at h
          exact nomatch h
      | ok n =>
          rw [hscalar] at h
          exact nomatch h

/-- A range is accepted if it is written as two bounds that pass the test. -/
theorem between_iff [ColonFree α] : readTrimmed t = .ok (.between r) ↔
    ∃ a b : α, HasBounds t a b ∧ Scalar.rising? a b = some r := by
  constructor
  · exact hasBounds_of_between
  · rintro ⟨a, b, hbounds, hrising⟩
    rw [readTrimmed_of_hasBounds hbounds, ranged_eq_ok_iff.mpr hrising]
    rfl

theorem invalidRange_of_hasBounds [ColonFree α] (h : HasBounds t a b)
    (hrising : Scalar.rising? a b = none) :
    readTrimmed (α := α) t = .error (.invalidRange (Scalar.text a) (Scalar.text b)) := by
  rw [readTrimmed_of_hasBounds h, ranged_of_none hrising]
  rfl

end

/-! ## The order of each kind -/

theorem rising?_int {a b : Int} {r : IntRange} :
    Scalar.rising? a b = some r ↔ r.low = a ∧ r.high = b := by
  show IntRange.between? a b = some r ↔ _
  unfold IntRange.between?
  constructor
  · intro h
    split at h
    · obtain rfl := Option.some.inj h
      exact ⟨rfl, rfl⟩
    · cases h
  · rintro ⟨rfl, rfl⟩
    exact dif_pos r.nonempty

theorem rising?_float {a b : Float} {r : FloatRange} : Scalar.rising? a b = some r ↔
    (r.low = a ∧ r.high = b) ∧ (a < b ∨ a.isNaN = true ∨ b.isNaN = true) := by
  rw [← not_le_iff]
  show (if b ≤ a then none else some (FloatRange.mk a b)) = some r ↔ _
  constructor
  · intro h
    split at h
    · exact nomatch h
    · next hle =>
        obtain rfl := Option.some.inj h
        exact ⟨⟨rfl, rfl⟩, hle⟩
  · rintro ⟨⟨rfl, rfl⟩, hle⟩
    exact if_neg hle

/-- **RANGES IN ORDER, OR WITHOUT ONE.**  Every range of integers that is accepted is in
    order, and bounds out of order are an error that names them.  A range of doubles is
    accepted if its bounds are in order or one of them is no number, which only the
    spellings of `nan` are; bounds that are numbers out of order are an error. -/
theorem accepted_ranges (s : String) :
    (∀ r : IntRange, ofText (α := Int) s = .ok (.between r) ↔
      HasBounds (trim s.toList) r.low r.high ∧ r.low < r.high) ∧
    (∀ a b : Int, HasBounds (trim s.toList) a b → ¬ a < b →
      ofText (α := Int) s = .error (.invalidRange (decimal a) (decimal b))) ∧
    (∀ r : FloatRange, ofText (α := Float) s = .ok (.between r) ↔
      HasBounds (trim s.toList) r.low r.high ∧
        (r.low < r.high ∨ r.low.isNaN = true ∨ r.high.isNaN = true)) ∧
    (∀ a b : Float, HasBounds (trim s.toList) a b →
      a.isNaN = false → b.isNaN = false → ¬ a < b →
      ofText (α := Float) s = .error (.invalidRange (plain a) (plain b))) ∧
    ∀ (bound : List Char) (x : Float),
      Scalar.read? bound = some x → (x.isNaN = true ↔ SpellsNaN bound) := by
  refine ⟨?_, ?_, ?_, ?_, ?_⟩
  · intro r
    refine between_iff.trans ⟨?_, fun h => ⟨_, _, h.1, rising?_int.mpr ⟨rfl, rfl⟩⟩⟩
    rintro ⟨a, b, hbounds, hrising⟩
    obtain ⟨rfl, rfl⟩ := rising?_int.mp hrising
    exact ⟨hbounds, r.nonempty⟩
  · intro a b hbounds hlt
    exact invalidRange_of_hasBounds hbounds (dif_neg hlt)
  · intro r
    refine between_iff.trans ⟨?_, fun h => ⟨_, _, h.1, rising?_float.mpr ⟨⟨rfl, rfl⟩, h.2⟩⟩⟩
    rintro ⟨a, b, hbounds, hrising⟩
    obtain ⟨⟨rfl, rfl⟩, horder⟩ := rising?_float.mp hrising
    exact ⟨hbounds, horder⟩
  · intro a b hbounds ha hb hlt
    exact invalidRange_of_hasBounds hbounds (if_pos (le_of_not_lt ha hb hlt))
  · intro bound x h
    exact isNaN_readFloat? h

/-- Bounds in the wrong order are told as they are read. -/
theorem accepted_ranges_swapped :
    HasBounds (trim " RANDOM: 7:-2".toList) (7 : Int) (-2) ∧
      ofText (α := Int) " RANDOM: 7:-2" = .error (.invalidRange "7" "-2") := by
  have hbounds : HasBounds (trim " RANDOM: 7:-2".toList) (7 : Int) (-2) :=
    ⟨" 7".toList, "-2".toList, by decide, rfl, rfl⟩
  exact ⟨hbounds, (accepted_ranges " RANDOM: 7:-2").2.1 7 (-2) hbounds (by decide)⟩

/-- A range from no number on is accepted, and its bounds are not in order. -/
theorem range_from_nan_accepted :
    ∃ r : FloatRange, ofText (α := Float) "RANDOM:NaN:1" = .ok (.between r) ∧
      HasBounds (trim "RANDOM:NaN:1".toList) r.low r.high ∧ ¬ r.low < r.high := by
  have hnan : (Float.ofBits 0x7FF8000000000000).isNaN = true := (isNaN_ofBits _).mpr (by decide)
  have hbounds : HasBounds (trim "RANDOM:NaN:1".toList)
      (Float.ofBits 0x7FF8000000000000) (ofDecimal false 1 0) :=
    ⟨"NaN".toList, "1".toList, by decide, rfl, rfl⟩
  refine ⟨⟨Float.ofBits 0x7FF8000000000000, ofDecimal false 1 0⟩, ?_, hbounds, ?_⟩
  · exact between_iff.mpr
      ⟨_, _, hbounds, rising?_float.mpr ⟨⟨rfl, rfl⟩, Or.inr (Or.inl hnan)⟩⟩
  · intro hlt
    rw [(isNaN_of_lt hlt).1] at hnan
    exact nomatch hnan

end Havoc.Quantity
