import Havoc.Log.Amount
import Havoc.Proofs.Number.Integer

/-! # What values are written with

    Numbers, spans, sizes and times are written with letters and digits of ASCII and a few marks,
    whatever their value is (`Figures`): no value opens a tag, ends a line or escapes from quotes.

    One lemma for each way to write a value, each from those of its parts. -/

namespace Havoc

open Havoc.Number

/-- A letter or a digit of ASCII, or a mark that stands in numbers and times. -/
def isFigure (c : Char) : Bool := c.isAlphanum || "+-.: ".toList.contains c

/-- A text of nothing but figures. -/
def Figures (s : List Char) : Prop := ∀ c ∈ s, isFigure c = true

namespace Figures

variable {c : Char} {s front back : List Char} {n : Nat}

instance : Decidable (Figures s) := List.decidableBAll _ s

theorem nil : Figures [] := fun _ h => absurd h List.not_mem_nil

theorem cons (hc : isFigure c = true) (h : Figures s) : Figures (c :: s) :=
  List.forall_mem_cons.mpr ⟨hc, h⟩

theorem append (h : Figures front) (h' : Figures back) : Figures (front ++ back) :=
  List.forall_mem_append.mpr ⟨h, h'⟩

theorem take (h : Figures s) : Figures (s.take n) := fun c hc => h c (List.mem_of_mem_take hc)

theorem drop (h : Figures s) : Figures (s.drop n) := fun c hc => h c (List.mem_of_mem_drop hc)

theorem replicate (hc : isFigure c = true) : Figures (List.replicate n c) := by
  intro x hx
  rw [List.eq_of_mem_replicate hx]
  exact hc

/-! ## Numbers -/

theorem digits (n : Nat) : Figures (Number.digits n) := by
  intro c hc
  rw [isFigure, Char.isAlphanum, (digits_digits n).2 c hc, Bool.or_true, Bool.true_or]

theorem padLeft (hc : isFigure c = true) (h : Figures s) (width : Nat) :
    Figures (Number.padLeft width c s) :=
  append (replicate hc) h

theorem zeroPadded (width n : Nat) : Figures (Number.zeroPadded width n) :=
  padLeft (by decide) (digits n) width

theorem decimal (n : Int) : Figures (Number.decimal n).toList := by
  rw [Number.decimal, String.toList_ofList]
  cases n with
  | ofNat n => exact digits n
  | negSucc n => exact cons (by decide) (digits (n + 1))

/-- The sign of a number. -/
theorem sign (negative : Bool) : Figures (if negative = true then ['-'] else []) := by
  cases negative <;> decide

theorem positional (x : Decimal) : Figures x.positional := by
  unfold Decimal.positional
  dsimp only
  split
  · exact append (digits _) (replicate (by decide))
  · split
    · exact append (digits _).take (cons (by decide) (digits _).drop)
    · exact cons (by decide) (cons (by decide) (padLeft (by decide) (digits _) _))

theorem plain (x : Float) : Figures (Number.plain x).toList := by
  rw [Number.plain, String.toList_ofList, plainText]
  split
  · decide
  · exact append (sign _) (by decide)
  · refine append (sign _) ?_
    split
    · decide
    · exact positional _

theorem placesOf (places num den : Nat) : Figures (Number.placesOf places num den) := by
  unfold Number.placesOf
  dsimp only
  split
  · exact digits _
  · exact append (digits _) (cons (by decide) (zeroPadded _ _))

theorem fixed (places : Nat) (x : Float) : Figures (Number.fixed places x).toList := by
  unfold Number.fixed
  split
  · dsimp only
    rw [String.toList_ofList]
    exact append (sign _) (placesOf _ _ _)
  · exact plain x

/-! ## Times -/

theorem yearText (year : Int) : Figures (Havoc.yearText year) := by
  unfold Havoc.yearText
  dsimp only
  split
  · exact zeroPadded _ _
  · refine cons ?_ (zeroPadded _ _)
    split <;> decide

theorem twoDigits (n : Nat) : Figures (Havoc.twoDigits n) := zeroPadded 2 n

theorem stamp (t : Moment) : Figures t.stamp := by
  refine append (append (append (append (append (yearText _) ?_) ?_) ?_) ?_) ?_ <;>
    exact cons (by decide) (twoDigits _)

theorem standard (t : Moment) : Figures t.standard := append (stamp t) (by decide)

theorem precise (t : Moment) : Figures t.precise.toList := by
  rw [Moment.precise, String.toList_ofList]
  exact append (append (stamp t) (cons (by decide) (zeroPadded _ _))) (by decide)

/-- A name of a list of them. -/
theorem name {names : List String} (h : ∀ name ∈ names, Figures name.toList) (i : Nat) :
    Figures (names.getD i "").toList := by
  rw [List.getD_eq_getElem?_getD]
  cases hname : names[i]? with
  | none => exact nil
  | some name => exact h name (List.mem_of_getElem? hname)

theorem part (t : Moment) (p : Pattern.Conversion) : Figures (p.show t) := by
  have hmonth : ∀ i, Figures (Pattern.monthNames.getD i "").toList := name (by decide)
  have hweekday : ∀ i, Figures (Pattern.weekdayNames.getD i "").toList := name (by decide)
  cases p with
  | year => exact yearText _
  | shortYear | month | day | hour | clockHour | minute | second => exact twoDigits _
  | shortMonthName => exact (hmonth _).take
  | monthName => exact hmonth _
  | paddedDay => exact padLeft (by decide) (digits _) _
  | dayOfYear | nanosecond => exact zeroPadded _ _
  | shortWeekday => exact (hweekday _).take
  | weekday => exact hweekday _
  | half =>
      show Figures (if t.hour < 12 then ['A', 'M'] else ['P', 'M'])
      split <;> decide
  | offset => exact (by decide : Figures ['+', '0', '0', '0', '0'])
  | zone => exact (by decide : Figures ['U', 'T', 'C'])

/-! ## Spans and sizes -/

theorem autoScaled {ladder : Log.Ladder} (h : ∀ rung ∈ ladder, Figures rung.2.toList) (x : Float) :
    Figures (Log.autoScaled x ladder).toList := by
  induction ladder using Log.autoScaled.induct x with
  | case1 => exact fixed 3 x
  | case2 factor label =>
      rw [Log.autoScaled, String.toList_append]
      exact append (fixed 3 _) (h _ List.mem_cons_self)
  | case3 factor label rest _ hreached =>
      rw [Log.autoScaled, if_pos hreached, String.toList_append]
      · exact append (fixed 3 _) (h _ List.mem_cons_self)
      · assumption
  | case4 factor label rest _ hlow ih =>
      rw [Log.autoScaled, if_neg hlow]
      · exact ih fun rung hrung => h rung (List.mem_cons_of_mem _ hrung)
      · assumption

theorem latencyText (nanos : Nat) (unit : Option (List Char)) :
    Figures (Log.latencyText nanos unit).toList := by
  unfold Log.latencyText
  dsimp only
  split
  · exact plain _
  · exact autoScaled (by decide) _

theorem sizeText (bytes : Nat) (unit : Option (List Char)) :
    Figures (Log.sizeText bytes unit).toList := by
  unfold Log.sizeText
  dsimp only
  split
  · exact plain _
  · exact autoScaled (by decide) _

end Figures
end Havoc
