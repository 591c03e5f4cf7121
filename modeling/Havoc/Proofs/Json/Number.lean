import Havoc.Json.Value
import Havoc.Proofs.Number.Integer
import Mathlib.Tactic.IntervalCases

/-! # Numbers of documents

    A number of a document is spelled with a whole part, places and an exponent
    (`Spelling`), and the reader of documents hands over nothing else.  It becomes an
    integer of 64 bits with a sign just where its spelling denotes one; negative zero
    is the only such spelling that does not. -/

namespace Havoc.Json

open Havoc.Number Havoc.Text

variable {n : Nat} {i : Int} {s l : List Char} {x : Number}

/-! ## Spellings -/

/-- A zero alone, or digits that do not begin with one. -/
def IsWhole (s : List Char) : Prop := Digits s ∧ (s.head? = some '0' → s = ['0'])

/-- Nothing, or a point and digits. -/
inductive IsPlaces : List Char → Prop where
  | none : IsPlaces []
  | point {ds : List Char} : Digits ds → IsPlaces ('.' :: ds)

/-- Nothing, or a letter, a sign or none, and digits. -/
inductive IsExponent : List Char → Prop where
  | none : IsExponent []
  | letter {c : Char} {sign ds : List Char} :
      c = 'e' ∨ c = 'E' → sign = [] ∨ sign = ['+'] ∨ sign = ['-'] → Digits ds →
      IsExponent (c :: (sign ++ ds))

/-- A number in the notation of documents. -/
inductive Spelling : List Char → Prop where
  | positive {whole places exponent : List Char} :
      IsWhole whole → IsPlaces places → IsExponent exponent →
      Spelling (whole ++ places ++ exponent)
  | negative {whole places exponent : List Char} :
      IsWhole whole → IsPlaces places → IsExponent exponent →
      Spelling ('-' :: (whole ++ places ++ exponent))

/-- What stands behind the whole part does not begin with a digit. -/
theorem tail_not_digit {places exponent : List Char} (hp : IsPlaces places)
    (he : IsExponent exponent) : ∀ c ∈ (places ++ exponent).head?, c.isDigit = false := by
  intro c hc
  cases hp with
  | point h =>
      obtain rfl : '.' = c := by simpa using hc
      rfl
  | none =>
      cases he with
      | none => exact absurd hc (by simp)
      | @letter e sign ds he _ _ =>
          obtain rfl : e = c := by simpa using hc
          rcases he with rfl | rfl <;> rfl

/-- Behind the sign a whole part comes first. -/
theorem Spelling.parts (h : Spelling l) :
    ∃ whole tail, (unsigned l).2 = whole ++ tail ∧ IsWhole whole ∧
      ∀ c ∈ tail.head?, c.isDigit = false := by
  cases h with
  | @positive whole places exponent hw hp he =>
      refine ⟨whole, places ++ exponent, ?_, hw, tail_not_digit hp he⟩
      obtain ⟨c, ds, rfl⟩ := List.exists_cons_of_ne_nil hw.1.1
      have hc := hw.1.head
      unfold unsigned
      split
      · next heq => exact absurd (List.cons.inj heq).1 (by rintro rfl; exact absurd hc (by decide))
      · next heq => exact absurd (List.cons.inj heq).1 (by rintro rfl; exact absurd hc (by decide))
      · simp only [List.append_assoc]
  | @negative whole places exponent hw hp he =>
      refine ⟨whole, places ++ exponent, ?_, hw, tail_not_digit hp he⟩
      simp only [unsigned, List.append_assoc]

/-! ## What the reader hands over -/

theorem digits_of_digitRun? {bytes rest : List UInt8} (h : digitRun? bytes = some (s, rest)) :
    Digits s := by
  rw [digitRun?] at h
  simp only [Option.ite_none_left_eq_some, Option.some.injEq, Prod.mk.injEq] at h
  obtain ⟨hne, rfl, -⟩ := h
  refine ⟨by simpa using hne, ?_⟩
  intro c hc
  obtain ⟨b, hb, rfl⟩ := List.mem_map.mp hc
  have hdigit := List.mem_takeWhile_imp hb
  rw [isDigitByte, Bool.and_eq_true, decide_eq_true_eq, decide_eq_true_eq] at hdigit
  have hlow : 48 ≤ b.toNat := UInt8.le_iff_toNat_le.mp hdigit.1
  have hhigh : b.toNat ≤ 57 := UInt8.le_iff_toNat_le.mp hdigit.2
  generalize b.toNat = k at hlow hhigh
  interval_cases k <;> rfl

theorem isWhole_of_wholePart? {bytes rest : List UInt8}
    (h : wholePart? bytes = some (s, rest)) : IsWhole s := by
  rw [wholePart?] at h
  split at h
  · next ds rest' hrun =>
      simp only [Option.ite_none_left_eq_some, Option.some.injEq, Prod.mk.injEq] at h
      obtain ⟨hlong, rfl, -⟩ := h
      have hds := digits_of_digitRun? hrun
      refine ⟨hds, ?_⟩
      intro hhead
      obtain ⟨c, tail, rfl⟩ := List.exists_cons_of_ne_nil hds.1
      cases tail with
      | nil => simpa using hhead
      | cons d tail => exact absurd ⟨by simp, hhead⟩ hlong
  · exact absurd h (by simp)

theorem isPlaces_of_placesPart? {bytes rest : List UInt8}
    (h : placesPart? bytes = some (s, rest)) : IsPlaces s := by
  unfold placesPart? at h
  split at h
  · split at h
    · obtain ⟨⟨ds, after⟩, hrun, heq⟩ := Option.map_eq_some_iff.mp h
      rw [← (Prod.mk.inj heq).1]
      exact .point (digits_of_digitRun? hrun)
    · rw [← (Prod.mk.inj (Option.some.inj h)).1]
      exact .none
  · rw [← (Prod.mk.inj (Option.some.inj h)).1]
    exact .none

theorem isExponent_of_exponentPart? {bytes rest : List UInt8}
    (h : exponentPart? bytes = some (s, rest)) : IsExponent s := by
  unfold exponentPart? at h
  split at h
  · split at h
    · obtain ⟨⟨ds, after⟩, hrun, heq⟩ := Option.map_eq_some_iff.mp h
      rw [← (Prod.mk.inj heq).1]
      refine .letter (Or.inl rfl) ?_ (digits_of_digitRun? hrun)
      split
      · split
        · exact Or.inr (Or.inl rfl)
        · split
          · exact Or.inr (Or.inr rfl)
          · exact Or.inl rfl
      · exact Or.inl rfl
    · rw [← (Prod.mk.inj (Option.some.inj h)).1]
      exact .none
  · rw [← (Prod.mk.inj (Option.some.inj h)).1]
    exact .none

/-- The reader of documents takes nothing else for a number. -/
theorem spelling_of_numberLexeme? {bytes rest : List UInt8}
    (h : numberLexeme? bytes = some (l, rest)) : Spelling l := by
  simp only [numberLexeme?, Option.bind_eq_bind, Option.bind_eq_some_iff] at h
  obtain ⟨⟨whole, _⟩, hwhole, ⟨places, _⟩, hplaces, ⟨exponent, _⟩, hexponent, heq⟩ := h
  have hw := isWhole_of_wholePart? hwhole
  have hp := isPlaces_of_placesPart? hplaces
  have he := isExponent_of_exponentPart? hexponent
  obtain ⟨rfl, -⟩ := Prod.mk.inj (Option.some.inj heq)
  split
  · split
    · exact .negative hw hp he
    · exact .positive hw hp he
  · exact .positive hw hp he

/-! ## Digits that fit -/

theorem le_valueFrom (n : Nat) (s : List Char) : n ≤ valueFrom n s := by
  induction s generalizing n with
  | nil => exact Nat.le_refl n
  | cons c s ih =>
      calc n ≤ n * 10 + digitValue c := by omega
        _ ≤ valueFrom (n * 10 + digitValue c) s := ih _

theorem wholeDigits_of_le (h : valueFrom n s ≤ greatest) :
    wholeDigits n s = (valueFrom n s, 0) := by
  induction s generalizing n with
  | nil => rfl
  | cons c s ih =>
      have hnext : n * 10 + digitValue c ≤ greatest := Nat.le_trans (le_valueFrom _ s) h
      rw [wholeDigits]
      exact (if_pos hnext).trans (ih h)

theorem le_of_wholeDigits (hn : n ≤ greatest) (h : (wholeDigits n s).2 = 0) :
    valueFrom n s ≤ greatest := by
  induction s generalizing n with
  | nil => exact hn
  | cons c s ih =>
      rw [wholeDigits] at h
      by_cases hnext : n * 10 + digitValue c ≤ greatest
      · rw [if_pos hnext] at h
        exact ih hnext h
      · rw [if_neg hnext] at h
        exact absurd h (by simp)

theorem eq_zero_of_valueOf {c : Char} (hc : c.isDigit = true) (h : valueOf (c :: s) = 0) :
    c = '0' := by
  have hle : 0 * 10 + digitValue c ≤ valueOf (c :: s) := le_valueFrom _ s
  simp only [Char.isDigit, Bool.and_eq_true, decide_eq_true_eq] at hc
  have hlow : 48 ≤ c.toNat := hc.1
  have hvalue : c.toNat - 48 = 0 := by
    rw [digitValue] at hle
    have hchar : '0'.toNat = 48 := rfl
    omega
  exact Char.toNat_inj.mp (by rw [show '0'.toNat = 48 from rfl]; omega)

/-- Digits alone spell zero in one way. -/
theorem Spelling.zero (h : Spelling l) (hdigits : Digits (unsigned l).2)
    (hzero : valueOf (unsigned l).2 = 0) : (unsigned l).2 = ['0'] := by
  obtain ⟨whole, tail, hbody, hwhole, htail⟩ := h.parts
  rw [hbody] at hdigits hzero ⊢
  obtain ⟨c, w, rfl⟩ := List.exists_cons_of_ne_nil hwhole.1.1
  obtain rfl : c = '0' := eq_zero_of_valueOf hwhole.1.head hzero
  rw [hwhole.2 rfl] at hdigits ⊢
  cases tail with
  | nil => rfl
  | cons d tail =>
      have hd := hdigits.2 d (by simp)
      rw [htail d rfl] at hd
      exact absurd hd (by decide)

/-! ## What a spelling stands for -/

theorem eq_minus_cons (h : (unsigned l).1 = true) : l = '-' :: (unsigned l).2 := by
  unfold unsigned at h ⊢
  split at h
  · exact absurd h (by simp)
  · rfl
  · exact absurd h (by simp)

/-- A spelling of digits alone that fit is an integer, except that a negative zero and
    a negative number beyond 64 bits are doubles. -/
theorem ofLexeme?_whole (hdigits : Digits (unsigned l).2)
    (hle : valueOf (unsigned l).2 ≤ greatest) :
    Number.ofLexeme? l =
      if (unsigned l).1 then
        if valueOf (unsigned l).2 = 0 ∨ 2 ^ 63 < valueOf (unsigned l).2 then
          some (.float (-(ofNat (valueOf (unsigned l).2))))
        else some (.integer (-(valueOf (unsigned l).2 : Int)))
      else some (.integer (valueOf (unsigned l).2)) := by
  have htake : (unsigned l).2.takeWhile Char.isDigit = (unsigned l).2 :=
    List.takeWhile_eq_self_iff.mpr hdigits.2
  have hdrop : (unsigned l).2.dropWhile Char.isDigit = [] :=
    List.dropWhile_eq_nil_iff.mpr hdigits.2
  have hfit : wholeDigits 0 (unsigned l).2 = (valueOf (unsigned l).2, 0) :=
    wholeDigits_of_le hle
  rw [Number.ofLexeme?]
  simp only [htake, hdrop, hfit]
  cases (unsigned l).1 <;> rfl

/-- Any other spelling is a double, if it is a number at all. -/
theorem ofLexeme?_other
    (h : ¬ ((unsigned l).2.dropWhile Char.isDigit = [] ∧
      (wholeDigits 0 ((unsigned l).2.takeWhile Char.isDigit)).2 = 0))
    (hx : Number.ofLexeme? l = some x) : ∃ f, x = .float f := by
  rw [Number.ofLexeme?] at hx
  simp only [List.isEmpty_iff, if_neg h] at hx
  split at hx
  · exact absurd hx (by simp)
  · obtain ⟨f, -, rfl⟩ := Option.map_eq_some_iff.mp hx
    exact ⟨_, rfl⟩

/-- A spelling that denotes an integer of 64 bits stands for it. -/
theorem ofLexeme?_of_isInt64 (h : Spelling l) (hi : IsInt64 l i) (hzero : l ≠ ['-', '0']) :
    Number.ofLexeme? l = some (.integer i) := by
  obtain ⟨hdenotes, hlow, hhigh⟩ := hi
  obtain ⟨hdigits, hvalue⟩ := denotes_iff.mp hdenotes
  have hgreatest : greatest = 2 ^ 64 - 1 := rfl
  cases hneg : (unsigned l).1 with
  | false =>
      rw [hneg] at hvalue
      have hi : i = valueOf (unsigned l).2 := by simpa using hvalue
      rw [ofLexeme?_whole hdigits (by omega), hneg, hi]
      rfl
  | true =>
      rw [hneg] at hvalue
      have hi : i = -(valueOf (unsigned l).2 : Int) := by simpa using hvalue
      have hpos : valueOf (unsigned l).2 ≠ 0 := by
        intro hv
        refine hzero ?_
        rw [eq_minus_cons hneg, h.zero hdigits hv]
      rw [ofLexeme?_whole hdigits (by omega), hneg, if_pos rfl, if_neg (by omega), hi]

theorem int?_eq_some_iff : x.int? = some i ↔ x = .integer i ∧ FitsInt64 i := by
  cases x with
  | integer n =>
      simp only [Number.int?, Option.ite_none_right_eq_some, Option.some.injEq,
        Number.integer.injEq, FitsInt64]
      constructor
      · rintro ⟨hfits, rfl⟩
        exact ⟨rfl, hfits⟩
      · rintro ⟨rfl, hfits⟩
        exact ⟨hfits, rfl⟩
  | float f => simp [Number.int?]

/-- A spelling stands for no integer of 64 bits but the one that it denotes. -/
theorem isInt64_of_ofLexeme? (h : Spelling l) (hx : Number.ofLexeme? l = some x)
    (hi : x.int? = some i) : IsInt64 l i ∧ l ≠ ['-', '0'] := by
  by_cases hshort : (unsigned l).2.dropWhile Char.isDigit = [] ∧
      (wholeDigits 0 ((unsigned l).2.takeWhile Char.isDigit)).2 = 0
  · obtain ⟨hdrop, hdropped⟩ := hshort
    have hall := List.dropWhile_eq_nil_iff.mp hdrop
    rw [List.takeWhile_eq_self_iff.mpr hall] at hdropped
    have hdigits : Digits (unsigned l).2 := by
      obtain ⟨whole, tail, hbody, hwhole, -⟩ := h.parts
      refine ⟨?_, hall⟩
      rw [hbody]
      exact List.append_ne_nil_of_left_ne_nil hwhole.1.1 tail
    obtain ⟨rfl, hfits⟩ := int?_eq_some_iff.mp hi
    rw [ofLexeme?_whole hdigits (le_of_wholeDigits (Nat.zero_le _) hdropped)] at hx
    rw [IsInt64, denotes_iff]
    cases hneg : (unsigned l).1 with
    | false =>
        rw [hneg] at hx
        obtain rfl : (valueOf (unsigned l).2 : Int) = i := by simpa using hx
        refine ⟨⟨⟨hdigits, rfl⟩, hfits⟩, ?_⟩
        rintro rfl
        exact absurd hneg (by decide)
    | true =>
        rw [hneg, if_pos rfl] at hx
        split at hx
        · exact absurd hx (by simp)
        · next hrange =>
            obtain rfl : -(valueOf (unsigned l).2 : Int) = i := by simpa using hx
            refine ⟨⟨⟨hdigits, rfl⟩, hfits⟩, ?_⟩
            rintro rfl
            exact hrange (Or.inl rfl)
  · obtain ⟨f, rfl⟩ := ofLexeme?_other hshort hx
    exact absurd (int?_eq_some_iff.mp hi).1 (by simp)

end Havoc.Json
