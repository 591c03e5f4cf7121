import Havoc.Text.Blank
import Mathlib.Data.List.DropRight

/-! # What trimming leaves

    Trimming takes blanks from the ends of a text and nothing else, and there is
    nothing left to trim afterwards. -/

namespace Havoc.Text

variable {p : Char → Bool} {c : Char} {s : List Char}

theorem dropRightWhile_eq (p : Char → Bool) (s : List Char) :
    dropRightWhile p s = s.rdropWhile p := rfl

/-- Taking characters from the end leaves the front as it was. -/
theorem dropWhile_rdropWhile (h : s.dropWhile p = s) :
    (s.rdropWhile p).dropWhile p = s.rdropWhile p := by
  rw [List.dropWhile_eq_self_iff] at h ⊢
  intro hpos
  have hfirst := List.rdropWhile_prefix p (l := s)
  rw [hfirst.getElem hpos]
  exact h (Nat.lt_of_lt_of_le hpos hfirst.length_le)

theorem trim_idem (s : List Char) : trim (trim s) = trim s := by
  rw [trim, trim, trimWhile, trimWhile, dropRightWhile_eq, dropRightWhile_eq,
    dropWhile_rdropWhile (List.dropWhile_idempotent isBlank s), List.rdropWhile_idempotent]

theorem trim_of_not_blank (h : ∀ c ∈ s, isBlank c = false) : trim s = s := by
  have hfront : s.dropWhile isBlank = s := by
    rw [List.dropWhile_eq_self_iff]
    intro hpos
    simp [h _ (List.getElem_mem hpos)]
  rw [trim, trimWhile, hfront, dropRightWhile_eq, List.rdropWhile_eq_self_iff]
  intro hne
  simp [h _ (List.getLast_mem hne)]

/-- A text is what trimming leaves of it between blanks. -/
theorem trim_split (s : List Char) :
    ∃ left right, s = left ++ trim s ++ right ∧ (∀ c ∈ left, isBlank c = true) ∧
      ∀ c ∈ right, isBlank c = true := by
  refine ⟨s.takeWhile isBlank, (s.dropWhile isBlank).rtakeWhile isBlank, ?_,
    fun c hc => List.mem_takeWhile_imp hc, fun c hc => List.mem_rtakeWhile_imp hc⟩
  rw [trim, trimWhile, dropRightWhile_eq, List.append_assoc, List.rdropWhile_append_rtakeWhile,
    List.takeWhile_append_dropWhile]

theorem mem_of_mem_trim (h : c ∈ trim s) : c ∈ s := by
  obtain ⟨left, right, heq, -, -⟩ := trim_split s
  rw [heq]
  exact List.mem_append_left _ (List.mem_append_right _ h)

/-- Only blanks are lost. -/
theorem mem_trim (hmem : c ∈ s) (hc : isBlank c = false) : c ∈ trim s := by
  have hfront : c ∈ s.dropWhile isBlank := by
    rw [← List.takeWhile_append_dropWhile (p := isBlank) (l := s), List.mem_append] at hmem
    rcases hmem with htaken | hleft
    · exact absurd (List.mem_takeWhile_imp htaken) (by simp [hc])
    · exact hleft
  rw [← List.rdropWhile_append_rtakeWhile (p := isBlank) (l := s.dropWhile isBlank),
    List.mem_append] at hfront
  rcases hfront with hleft | htaken
  · exact hleft
  · exact absurd (List.mem_rtakeWhile_imp htaken) (by simp [hc])

/-- Nothing is left exactly of a text of blanks. -/
theorem trim_eq_nil_iff : trim s = [] ↔ ∀ c ∈ s, isBlank c = true := by
  constructor
  · intro h c hc
    by_contra hblank
    have hkept := mem_trim hc (Bool.eq_false_iff.mpr hblank)
    rw [h] at hkept
    exact nomatch hkept
  · intro h
    have hnone : s.dropWhile isBlank = [] := List.dropWhile_eq_nil_iff.mpr h
    rw [trim, trimWhile, hnone]
    rfl

/-- A text with no blank at either end. -/
structure Stripped (s : List Char) : Prop where
  first : ∀ c, s.head? = some c → isBlank c = false
  last : ∀ c, s.getLast? = some c → isBlank c = false

theorem stripped_trim (s : List Char) : Stripped (trim s) where
  first := by
    intro c hc
    have hfront : (trim s).dropWhile isBlank = trim s :=
      dropWhile_rdropWhile (List.dropWhile_idempotent isBlank s)
    obtain ⟨rest, heq⟩ := List.head?_eq_some_iff.mp hc
    rw [heq, List.dropWhile_eq_self_iff] at hfront
    exact Bool.eq_false_iff.mpr (hfront (Nat.succ_pos _))
  last := by
    intro c hc
    obtain ⟨hne, rfl⟩ := List.mem_getLast?_eq_getLast hc
    exact Bool.eq_false_iff.mpr (List.rdropWhile_last_not isBlank (s.dropWhile isBlank) hne)

end Havoc.Text
