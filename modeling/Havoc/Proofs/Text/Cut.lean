import Havoc.Text.Cut
import Mathlib.Data.List.Basic

/-! # Where a text is cut

    What a cut finds is worked out once for all readers of texts: the part before a
    cut holds no more of the character, a text is split into one piece more than it
    holds of it, and a known beginning is taken off just where it stands. -/

namespace Havoc.Text

variable {c : Char} {s before after rest : List Char}

/-! ## One cut -/

theorem cutAt_eq_none_iff : cutAt c s = none ↔ c ∉ s := by
  induction s with
  | nil => simp [cutAt]
  | cons x rest ih =>
      by_cases hx : x = c
      · simp [cutAt, hx]
      · simp [cutAt, hx, ih, Ne.symm hx]

theorem cutAt_append (h : c ∉ before) (after : List Char) :
    cutAt c (before ++ c :: after) = some (before, after) := by
  induction before with
  | nil => simp [cutAt]
  | cons x rest ih =>
      rw [List.mem_cons, not_or] at h
      simp [cutAt, Ne.symm h.1, ih h.2]

theorem not_mem_of_cutAt (h : cutAt c s = some (before, after)) : c ∉ before := by
  induction s generalizing before after with
  | nil => simp [cutAt] at h
  | cons x rest ih =>
      by_cases hx : x = c
      · simp only [cutAt, if_pos hx, Option.some.injEq, Prod.mk.injEq] at h
        rw [← h.1]
        exact List.not_mem_nil
      · simp only [cutAt, if_neg hx, Option.map_eq_some_iff] at h
        obtain ⟨⟨b, a⟩, hcut, heq⟩ := h
        obtain ⟨rfl, rfl⟩ := Prod.mk.inj heq
        rw [List.mem_cons, not_or]
        exact ⟨Ne.symm hx, ih hcut⟩

/-- A cut is made at the first occurrence. -/
theorem cutAt_eq_some_iff :
    cutAt c s = some (before, after) ↔ c ∉ before ∧ s = before ++ c :: after := by
  constructor
  · intro h
    exact ⟨not_mem_of_cutAt h, cutAt_eq h⟩
  · rintro ⟨hb, rfl⟩
    exact cutAt_append hb after

/-- Only one cut is the first. -/
theorem cut_unique {before' after' : List Char} (h : c ∉ before) (h' : c ∉ before')
    (heq : before ++ c :: after = before' ++ c :: after') : before = before' ∧ after = after' := by
  have hcut := cutAt_append h after
  rw [heq, cutAt_append h'] at hcut
  obtain ⟨rfl, rfl⟩ := Prod.mk.inj (Option.some.inj hcut)
  exact ⟨rfl, rfl⟩

/-! ## All cuts -/

theorem splitOn_of_not_mem (h : c ∉ s) : splitOn c s = [s] := by
  induction s with
  | nil => rfl
  | cons x rest ih =>
      rw [List.mem_cons, not_or] at h
      rw [splitOn, if_neg (Ne.symm h.1), ih h.2]

theorem splitOn_append (h : c ∉ before) (after : List Char) :
    splitOn c (before ++ c :: after) = before :: splitOn c after := by
  induction before with
  | nil => rw [List.nil_append, splitOn, if_pos rfl]
  | cons x rest ih =>
      rw [List.mem_cons, not_or] at h
      rw [List.cons_append, splitOn, if_neg (Ne.symm h.1), ih h.2]

theorem length_splitOn (c : Char) (s : List Char) : (splitOn c s).length = s.count c + 1 := by
  induction s with
  | nil => rfl
  | cons x rest ih =>
      rw [splitOn]
      by_cases hx : x = c
      · rw [if_pos hx, List.length_cons, ih, hx, List.count_cons_self]
      · rw [if_neg hx, List.count_cons_of_ne hx]
        cases hs : splitOn c rest with
        | nil => simp [hs] at ih
        | cons piece pieces => simpa [hs] using ih

/-- The pieces on the two sides of any occurrence are those of the two sides. -/
theorem splitOn_append_cons (c : Char) (before after : List Char) :
    splitOn c (before ++ c :: after) = splitOn c before ++ splitOn c after := by
  induction before with
  | nil =>
      rw [List.nil_append, splitOn, splitOn, if_pos rfl]
      rfl
  | cons x rest ih =>
      rw [List.cons_append, splitOn, splitOn, ih]
      by_cases hx : x = c
      · rw [if_pos hx, if_pos hx]
        rfl
      · rw [if_neg hx, if_neg hx]
        cases hs : splitOn c rest with
        | nil =>
            have hlength := length_splitOn c rest
            rw [hs] at hlength
            exact absurd hlength (Nat.succ_ne_zero _).symm
        | cons piece pieces => rfl

theorem not_mem_of_mem_splitOn {piece : List Char} (h : piece ∈ splitOn c s) : c ∉ piece := by
  induction s generalizing piece with
  | nil =>
      rw [List.mem_singleton.mp h]
      exact List.not_mem_nil
  | cons x rest ih =>
      rw [splitOn] at h
      split at h
      · rcases List.mem_cons.mp h with rfl | h
        · exact List.not_mem_nil
        · exact ih h
      · next hx =>
          split at h
          · rw [List.mem_singleton.mp h, List.mem_singleton]
            exact Ne.symm hx
          · next first pieces heq =>
              rcases List.mem_cons.mp h with rfl | h
              · rw [List.mem_cons, not_or]
                exact ⟨Ne.symm hx, ih (heq ▸ List.mem_cons_self)⟩
              · exact ih (heq ▸ List.mem_cons_of_mem _ h)

/-- The pieces hold nothing that the text does not hold. -/
theorem mem_of_mem_splitOn {x : Char} {piece : List Char} (h : piece ∈ splitOn c s)
    (hx : x ∈ piece) : x ∈ s := by
  induction s generalizing piece with
  | nil =>
      rw [List.mem_singleton.mp h] at hx
      exact hx
  | cons y rest ih =>
      rw [splitOn] at h
      split at h
      · rcases List.mem_cons.mp h with rfl | h
        · exact absurd hx List.not_mem_nil
        · exact List.mem_cons_of_mem _ (ih h hx)
      · split at h
        · rw [List.mem_singleton.mp h] at hx
          exact List.mem_cons.mpr (Or.inl (List.mem_singleton.mp hx))
        · next first pieces heq =>
            rcases List.mem_cons.mp h with rfl | h
            · rcases List.mem_cons.mp hx with rfl | hx
              · exact List.mem_cons_self
              · exact List.mem_cons_of_mem _ (ih (heq ▸ List.mem_cons_self) hx)
            · exact List.mem_cons_of_mem _ (ih (heq ▸ List.mem_cons_of_mem _ h) hx)

/-- Two pieces are what stands on the two sides of the only occurrence. -/
theorem splitOn_eq_pair_iff :
    splitOn c s = [before, after] ↔ c ∉ before ∧ c ∉ after ∧ s = before ++ c :: after := by
  constructor
  · intro h
    have hjoin := joinWith_splitOn c s
    have hcount := length_splitOn c s
    rw [h] at hjoin hcount
    -- one occurrence stands between the pieces, so that none is left for them
    have hs : s = before ++ c :: after := hjoin.symm
    rw [hs, List.count_append, List.count_cons_self, List.length_cons, List.length_singleton]
      at hcount
    refine ⟨List.count_eq_zero.mp ?_, List.count_eq_zero.mp ?_, hs⟩ <;> omega
  · rintro ⟨hb, ha, rfl⟩
    rw [splitOn_append hb, splitOn_of_not_mem ha]

/-! ## A known beginning -/

theorem after?_eq_some_iff {beginning : List Char} :
    after? beginning s = some rest ↔ s = beginning ++ rest := by
  induction beginning generalizing s with
  | nil => simp [after?]
  | cons b beginning ih =>
      cases s with
      | nil => simp [after?]
      | cons x s =>
          by_cases hx : b = x
          · simp [after?, hx, ih]
          · simp [after?, hx, Ne.symm hx]

end Havoc.Text
