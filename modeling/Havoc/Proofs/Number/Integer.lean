import Havoc.Number.Reader
import Havoc.Proofs.Text.Blank

/-! # Whole numbers as texts

    A text denotes a whole number if it is digits, behind a sign or not (`Denotes`).
    Reading finds just the denoted number, if it fits 64 bits, and what is written
    of a number denotes it again. -/

namespace Havoc.Number

open Havoc.Text

variable {s ds : List Char} {c : Char} {n m : Int}

/-- A run of at least one ASCII digit. -/
def Digits (s : List Char) : Prop := s ≠ [] ∧ ∀ c ∈ s, c.isDigit = true

/-- A whole number in decimal, behind a sign or not. -/
inductive Denotes : List Char → Int → Prop where
  | bare {ds : List Char} : Digits ds → Denotes ds (Nat.ofDigitChars 10 ds 0)
  | plus {ds : List Char} : Digits ds → Denotes ('+' :: ds) (Nat.ofDigitChars 10 ds 0)
  | minus {ds : List Char} : Digits ds → Denotes ('-' :: ds) (-(Nat.ofDigitChars 10 ds 0 : Int))

/-- The numbers of 64 bits with a sign. -/
def FitsInt64 (n : Int) : Prop := -2 ^ 63 ≤ n ∧ n < 2 ^ 63

instance : DecidablePred FitsInt64 := fun n =>
  inferInstanceAs (Decidable (-2 ^ 63 ≤ n ∧ n < 2 ^ 63))

/-- A text that denotes a number of 64 bits. -/
def IsInt64 (s : List Char) (n : Int) : Prop := Denotes s n ∧ FitsInt64 n

/-! ## Digits -/

theorem isDigits_iff : isDigits s = true ↔ Digits s := by
  rw [isDigits, Digits, Bool.and_eq_true, List.all_eq_true]
  simp

instance : DecidablePred Digits := fun _ => decidable_of_iff _ isDigits_iff

theorem valueOf_eq (s : List Char) : valueOf s = Nat.ofDigitChars 10 s 0 := by
  rw [valueOf, valueFrom, Nat.ofDigitChars_eq_foldl]
  simp only [Nat.mul_comm, digitValue]

theorem digits_digits (n : Nat) : Digits (digits n) := by
  refine ⟨Nat.toDigits_ne_nil, ?_⟩
  intro c hc
  exact Nat.isDigit_of_mem_toDigits (by decide) (by decide) hc

/-- What a number is written with in hexadecimal. -/
theorem exists_digit_of_mem_hex {k : Nat} (h : c ∈ Nat.toDigits 16 k) :
    ∃ d < 16, c = Nat.digitChar d := by
  induction k using Nat.strongRecOn with
  | _ k ih =>
      rw [Nat.toDigits_eq_if (by decide)] at h
      split at h
      · next hsmall => exact ⟨k, hsmall, List.mem_singleton.mp h⟩
      · next hlarge =>
          rcases List.mem_append.mp h with h | h
          · exact ih (k / 16) (by omega) h
          · exact ⟨k % 16, Nat.mod_lt _ (by decide), List.mem_singleton.mp h⟩

theorem Digits.head (h : Digits (c :: s)) : c.isDigit = true :=
  h.2 c List.mem_cons_self

theorem unsigned_of_digits (h : Digits s) : unsigned s = (false, s) := by
  unfold unsigned
  split
  · exact absurd h.head (by decide)
  · exact absurd h.head (by decide)
  · rfl

/-! ## Reading -/

theorem denotes_iff :
    Denotes s n ↔ Digits (unsigned s).2 ∧
      n = if (unsigned s).1 then -(valueOf (unsigned s).2 : Int) else valueOf (unsigned s).2 := by
  constructor
  · rintro (h | h | h)
    · rw [unsigned_of_digits h]
      exact ⟨h, by simp [valueOf_eq]⟩
    · exact ⟨h, by simp [unsigned, valueOf_eq]⟩
    · exact ⟨h, by simp [unsigned, valueOf_eq]⟩
  · rintro ⟨h, rfl⟩
    rw [valueOf_eq]
    unfold unsigned at h ⊢
    split at h
    · exact .plus h
    · exact .minus h
    · exact .bare h

theorem Denotes.unique (hn : Denotes s n) (hm : Denotes s m) : n = m :=
  (denotes_iff.mp hn).2.trans (denotes_iff.mp hm).2.symm

/-- What is read is what the text denotes, and nothing that is too large. -/
theorem readInt64?_eq_some_iff : readInt64? s = some n ↔ IsInt64 s n := by
  have hcut : readInt64? s =
      if isDigits (unsigned s).2 then
        let n : Int := if (unsigned s).1 then -(valueOf (unsigned s).2 : Int)
          else valueOf (unsigned s).2
        if -2 ^ 63 ≤ n ∧ n ≤ 2 ^ 63 - 1 then some n else none
      else none := rfl
  rw [hcut, IsInt64, FitsInt64, denotes_iff, ← isDigits_iff]
  constructor
  · intro h
    split at h
    · next hdigits =>
        simp only [Option.ite_none_right_eq_some, Option.some.injEq] at h
        obtain ⟨⟨hlow, hhigh⟩, rfl⟩ := h
        exact ⟨⟨hdigits, rfl⟩, hlow, by omega⟩
    · exact absurd h (by simp)
  · rintro ⟨⟨hdigits, rfl⟩, hlow, hhigh⟩
    rw [if_pos hdigits]
    exact if_pos ⟨hlow, by omega⟩

theorem readInt64?_eq_none_iff : readInt64? s = none ↔ ∀ n, ¬ IsInt64 s n := by
  rw [Option.eq_none_iff_forall_ne_some]
  simp only [ne_eq, readInt64?_eq_some_iff]

/-! ## Writing -/

theorem denotes_integerText (n : Int) : Denotes (integerText n) n := by
  cases n with
  | ofNat n =>
      have h := Denotes.bare (digits_digits n)
      rwa [digits, Nat.ofDigitChars_ten_toDigits] at h
  | negSucc n =>
      have h := Denotes.minus (digits_digits (n + 1))
      rwa [digits, Nat.ofDigitChars_ten_toDigits] at h

/-! ## The characters of a number -/

theorem Denotes.mem (h : Denotes s n) (hc : c ∈ s) : c = '+' ∨ c = '-' ∨ c.isDigit = true := by
  rcases h with hds | hds | hds
  · exact Or.inr (Or.inr (hds.2 c hc))
  · rcases List.mem_cons.mp hc with rfl | hc
    · exact Or.inl rfl
    · exact Or.inr (Or.inr (hds.2 c hc))
  · rcases List.mem_cons.mp hc with rfl | hc
    · exact Or.inr (Or.inl rfl)
    · exact Or.inr (Or.inr (hds.2 c hc))

theorem isBlank_of_isDigit (h : c.isDigit = true) : isBlank c = false := by
  simp only [Char.isDigit, Bool.and_eq_true, decide_eq_true_eq] at h
  have hlow : 48 ≤ c.toNat := h.1
  have hhigh : c.toNat ≤ 57 := h.2
  simp only [isBlank, Bool.or_eq_false_iff, Bool.and_eq_false_iff, decide_eq_false_iff_not]
  omega

theorem Denotes.not_blank (h : Denotes s n) : ∀ c ∈ s, isBlank c = false := by
  intro c hc
  rcases h.mem hc with rfl | rfl | hdigit
  · decide
  · decide
  · exact isBlank_of_isDigit hdigit

theorem Denotes.not_mem_colon (h : Denotes s n) : ':' ∉ s := by
  intro hc
  rcases h.mem hc with h | h | h <;> revert h <;> decide

end Havoc.Number
