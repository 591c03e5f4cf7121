import Havoc.Quantity.Reader
import Havoc.Proofs.Json.Number
import Havoc.Proofs.Text.Cut

/-! # Which texts are integer quantities

    Every text falls into one of six classes, and the class decides what is read of
    it: the bare word, a range, a whole number, the word with the wrong number of
    colons, bounds in the wrong order, and anything else.

    The route: `Class` says which answer belongs to which class, without reading.
    The reader gives an answer of the text's class (`class_readTrimmed`), and where a
    text is of one of the first five classes there is no other answer
    (`Class.answer`), which makes each class an equivalence.  Numbers of documents
    come from `Havoc.Json.isInt64_of_ofLexeme?`.  The main theorem is
    `integer_grammar`. -/

namespace Havoc.Quantity

open Havoc.Number Havoc.Text

variable {s t low high rest text : List Char} {a b n : Int}

/-- The word with two whole numbers behind it, each after a colon. -/
def NamesRange (t : List Char) (a b : Int) : Prop :=
  ∃ low high, t = "RANDOM:".toList ++ (low ++ ':' :: high) ∧
    IsInt64 (trim low) a ∧ IsInt64 (trim high) b

/-- The word with a colon behind it, and not just one more. -/
def Malformed (t : List Char) : Prop :=
  ∃ rest, t = "RANDOM:".toList ++ rest ∧ rest.count ':' ≠ 1

/-- What the answer for a text without blanks at its ends should be. -/
inductive Class (t : List Char) : Except QuantityError (Quantity Int) → Prop where
  | token : t = "RANDOM".toList → Class t (.ok .anywhere)
  | range {r : IntRange} : NamesRange t r.low r.high → Class t (.ok (.between r))
  | integer {n : Int} : IsInt64 t n → Class t (.ok (.exactly n))
  | malformed : Malformed t → Class t (.error (.invalidSyntax (String.ofList t)))
  | order {a b : Int} : NamesRange t a b → b ≤ a →
      Class t (.error (.invalidRange (decimal a) (decimal b)))
  | other {text : String} :
      t ≠ "RANDOM".toList → (∀ a b, ¬ NamesRange t a b) → (∀ n, ¬ IsInt64 t n) → ¬ Malformed t →
      Class t (.error (.notANumber text))

/-! ## Numbers and ranges -/

theorem readScalar_of_isInt64 (h : IsInt64 (trim s) n) :
    readScalar (α := Int) s = .ok n := by
  have hread : Scalar.read? (trim s) = some n := readInt64?_eq_some_iff.mpr h
  rw [readScalar, hread]

theorem readScalar_of_not (h : ∀ n, ¬ IsInt64 (trim s) n) :
    readScalar (α := Int) s = .error (.notANumber (String.ofList s)) := by
  have hread : Scalar.read? (α := Int) (trim s) = none := readInt64?_eq_none_iff.mpr h
  rw [readScalar, hread]

theorem readRange_of_isInt64 (hlow : IsInt64 (trim low) a) (hhigh : IsInt64 (trim high) b) :
    readRange (α := Int) low high =
      if h : a < b then .ok (⟨a, b, h⟩ : IntRange)
      else .error (.invalidRange (decimal a) (decimal b)) := by
  rw [readRange, readScalar_of_isInt64 hlow, readScalar_of_isInt64 hhigh]
  by_cases h : a < b
  · have hrising : Scalar.rising? a b = some (⟨a, b, h⟩ : IntRange) := dif_pos h
    rw [dif_pos h]
    simp only [bind, Except.bind, hrising]
  · have hrising : Scalar.rising? a b = none := dif_neg h
    rw [dif_neg h]
    simp only [bind, Except.bind, hrising]
    rfl

/-- A bound that is no number is all that is told about a range. -/
theorem readRange_of_not (h : ∀ a b, ¬ (IsInt64 (trim low) a ∧ IsInt64 (trim high) b)) :
    ∃ text, readRange (α := Int) low high = .error (.notANumber text) := by
  by_cases hlow : ∃ a, IsInt64 (trim low) a
  · obtain ⟨a, ha⟩ := hlow
    have hhigh : ∀ b, ¬ IsInt64 (trim high) b := fun b hb => h a b ⟨ha, hb⟩
    refine ⟨String.ofList high, ?_⟩
    rw [readRange, readScalar_of_isInt64 ha, readScalar_of_not hhigh]
    rfl
  · refine ⟨String.ofList low, ?_⟩
    rw [readRange, readScalar_of_not fun a ha => hlow ⟨a, ha⟩]
    rfl

/-! ## One class after another -/

theorem behind_token (rest : List Char) : "RANDOM:".toList ++ rest ≠ token ∧
    after? (token ++ [':']) ("RANDOM:".toList ++ rest) = some rest := by
  constructor
  · intro h
    have hlength := congrArg List.length h
    rw [List.length_append] at hlength
    simp only [token, String.reduceToList, List.length_cons, List.length_nil] at hlength
    omega
  · exact after?_eq_some_iff.mpr rfl

theorem readTrimmed_bounds {α : Type} [Scalar α] (h : splitOn ':' rest = [low, high]) :
    readTrimmed (α := α) ("RANDOM:".toList ++ rest) = (readRange low high).map .between := by
  obtain ⟨hne, hafter⟩ := behind_token rest
  rw [readTrimmed, if_neg hne, hafter]
  simp only [h]

theorem readTrimmed_malformed (h : Malformed t) :
    readTrimmed (α := Int) t = .error (.invalidSyntax (String.ofList t)) := by
  obtain ⟨rest, rfl, hcount⟩ := h
  obtain ⟨hne, hafter⟩ := behind_token rest
  have hlength := length_splitOn ':' rest
  rw [readTrimmed, if_neg hne, hafter]
  dsimp only
  split
  · next low high hsplit =>
      rw [hsplit, List.length_cons, List.length_singleton] at hlength
      omega
  · rfl

theorem readTrimmed_plain {α : Type} [Scalar α] (htoken : t ≠ "RANDOM".toList)
    (hbehind : ∀ rest, t ≠ "RANDOM:".toList ++ rest) :
    readTrimmed (α := α) t = (readScalar t).map .exactly := by
  have hafter : after? (token ++ [':']) t = none := by
    rw [Option.eq_none_iff_forall_ne_some]
    intro rest h
    exact hbehind rest (after?_eq_some_iff.mp h)
  have hne : t ≠ token := htoken
  rw [readTrimmed, if_neg hne, hafter]

/-- A whole number does not begin with the word. -/
theorem not_denotes_behind (h : Denotes t n) : t ≠ "RANDOM".toList ∧
    ∀ rest, t ≠ "RANDOM:".toList ++ rest := by
  have hR : 'R' ∉ t := by
    intro hmem
    rcases h.mem hmem with h | h | h <;> revert h <;> decide
  constructor
  · rintro rfl
    exact hR (by decide)
  · rintro rest rfl
    exact hR (by simp)

/-- Bounds that are numbers hold no colon. -/
theorem readTrimmed_range (h : NamesRange t a b) :
    readTrimmed (α := Int) t =
      if h : a < b then .ok (.between (⟨a, b, h⟩ : IntRange))
      else .error (.invalidRange (decimal a) (decimal b)) := by
  obtain ⟨low, high, rfl, hlow, hhigh⟩ := h
  have hcolon : isBlank ':' = false := by decide
  have hl : ':' ∉ low := fun hmem => hlow.1.not_mem_colon (mem_trim hmem hcolon)
  have hh : ':' ∉ high := fun hmem => hhigh.1.not_mem_colon (mem_trim hmem hcolon)
  rw [readTrimmed_bounds (splitOn_eq_pair_iff.mpr ⟨hl, hh, rfl⟩),
    readRange_of_isInt64 hlow hhigh]
  by_cases h : a < b
  · rw [dif_pos h, dif_pos h]
    rfl
  · rw [dif_neg h, dif_neg h]
    rfl

theorem readTrimmed_integer (htrim : trim t = t) (h : IsInt64 t n) :
    readTrimmed (α := Int) t = .ok (.exactly n) := by
  obtain ⟨htoken, hbehind⟩ := not_denotes_behind h.1
  rw [readTrimmed_plain htoken hbehind, readScalar_of_isInt64 (by rwa [htrim])]
  rfl

/-- A text of none of the other classes is no number, and is said to be none. -/
theorem readTrimmed_other (htrim : trim t = t) (htoken : t ≠ "RANDOM".toList)
    (hrange : ∀ a b, ¬ NamesRange t a b) (hinteger : ∀ n, ¬ IsInt64 t n)
    (hmalformed : ¬ Malformed t) :
    ∃ text, readTrimmed (α := Int) t = .error (.notANumber text) := by
  by_cases hbehind : ∃ rest, t = "RANDOM:".toList ++ rest
  · obtain ⟨rest, rfl⟩ := hbehind
    -- there is one more colon, and the texts on its sides are the bounds
    have hcount : rest.count ':' = 1 := by
      by_contra hne
      exact hmalformed ⟨rest, rfl, hne⟩
    have hlength := length_splitOn ':' rest
    rw [hcount] at hlength
    obtain ⟨low, high, hsplit⟩ := List.length_eq_two.mp hlength
    obtain ⟨hl, hh, rfl⟩ := splitOn_eq_pair_iff.mp hsplit
    obtain ⟨text, htext⟩ := @readRange_of_not low high
      fun a b hab => hrange a b ⟨low, high, rfl, hab⟩
    refine ⟨text, ?_⟩
    rw [readTrimmed_bounds hsplit, htext]
    rfl
  · refine ⟨String.ofList t, ?_⟩
    rw [readTrimmed_plain htoken fun rest heq => hbehind ⟨rest, heq⟩,
      readScalar_of_not (by rwa [htrim])]
    rfl

/-! ## The classes -/

theorem class_readTrimmed (htrim : trim t = t) : Class t (readTrimmed t) := by
  by_cases htoken : t = "RANDOM".toList
  · rw [htoken]
    exact .token rfl
  by_cases hmalformed : Malformed t
  · rw [readTrimmed_malformed hmalformed]
    exact .malformed hmalformed
  by_cases hinteger : ∃ n, IsInt64 t n
  · obtain ⟨n, hn⟩ := hinteger
    rw [readTrimmed_integer htrim hn]
    exact .integer hn
  by_cases hrange : ∃ a b, NamesRange t a b
  · obtain ⟨a, b, hab⟩ := hrange
    rw [readTrimmed_range hab]
    by_cases hlt : a < b
    · rw [dif_pos hlt]
      exact .range hab
    · rw [dif_neg hlt]
      exact .order hab (Int.not_lt.mp hlt)
  · have hnone : ∀ a b, ¬ NamesRange t a b := fun a b hab => hrange ⟨a, b, hab⟩
    have hno : ∀ n, ¬ IsInt64 t n := fun n hn => hinteger ⟨n, hn⟩
    obtain ⟨text, htext⟩ := readTrimmed_other htrim htoken hnone hno hmalformed
    rw [htext]
    exact .other htoken hnone hno hmalformed

/-- A text has no two answers, apart from what is told about a text that is no
    number. -/
theorem Class.answer {q : Except QuantityError (Quantity Int)} (htrim : trim t = t)
    (h : Class t q) (hnumber : ∀ text, q ≠ .error (.notANumber text)) : readTrimmed t = q := by
  cases h with
  | token h =>
      rw [h]
      rfl
  | @range r h => rw [readTrimmed_range h, dif_pos r.nonempty]
  | integer h => exact readTrimmed_integer htrim h
  | malformed h => exact readTrimmed_malformed h
  | order h hle => rw [readTrimmed_range h, dif_neg (Int.not_lt.mpr hle)]
  | other => exact absurd rfl (hnumber _)

/-- Each class of texts is what one kind of answer is given for. -/
structure FollowsGrammar (t : List Char) (q : Except QuantityError (Quantity Int)) : Prop where
  token : q = .ok .anywhere ↔ t = "RANDOM".toList
  range : ∀ r : IntRange, q = .ok (.between r) ↔ NamesRange t r.low r.high
  integer : ∀ n : Int, q = .ok (.exactly n) ↔ IsInt64 t n
  malformed : ∀ text, q = .error (.invalidSyntax text) ↔ Malformed t ∧ text = String.ofList t
  order : ∀ start stop, q = .error (.invalidRange start stop) ↔
    ∃ a b, NamesRange t a b ∧ b ≤ a ∧ start = decimal a ∧ stop = decimal b
  other : (∃ text, q = .error (.notANumber text)) ↔
    t ≠ "RANDOM".toList ∧ (∀ a b, ¬ NamesRange t a b) ∧ (∀ n, ¬ IsInt64 t n) ∧ ¬ Malformed t

theorem followsGrammar_readTrimmed (htrim : trim t = t) : FollowsGrammar t (readTrimmed t) := by
  have hclass := class_readTrimmed htrim
  refine ⟨?_, ?_, ?_, ?_, ?_, ?_⟩
  · constructor
    · intro h
      rw [h] at hclass
      cases hclass with
      | token htoken => exact htoken
    · intro h
      exact (Class.token h).answer htrim (by simp)
  · intro r
    constructor
    · intro h
      rw [h] at hclass
      cases hclass with
      | range hrange => exact hrange
    · intro h
      exact (Class.range h).answer htrim (by simp)
  · intro n
    constructor
    · intro h
      rw [h] at hclass
      cases hclass with
      | integer hinteger => exact hinteger
    · intro h
      exact (Class.integer h).answer htrim (by simp)
  · intro text
    constructor
    · intro h
      rw [h] at hclass
      cases hclass with
      | malformed hmalformed => exact ⟨hmalformed, rfl⟩
    · rintro ⟨h, rfl⟩
      exact (Class.malformed h).answer htrim (by simp)
  · intro start stop
    constructor
    · intro h
      rw [h] at hclass
      cases hclass with
      | order hrange hle => exact ⟨_, _, hrange, hle, rfl, rfl⟩
    · rintro ⟨a, b, h, hle, rfl, rfl⟩
      exact (Class.order h hle).answer htrim (by simp)
  · constructor
    · rintro ⟨text, h⟩
      rw [h] at hclass
      cases hclass with
      | other htoken hrange hinteger hmalformed =>
          exact ⟨htoken, hrange, hinteger, hmalformed⟩
    · rintro ⟨htoken, hrange, hinteger, hmalformed⟩
      exact readTrimmed_other htrim htoken hrange hinteger hmalformed

/-! ## Printed numbers and ranges -/

theorem ofText_of_isInt64 (h : IsInt64 s n) :
    ofText (α := Int) (String.ofList s) = .ok (.exactly n) := by
  have htrim : trim s = s := trim_of_not_blank h.1.not_blank
  rw [ofText, String.toList_ofList, htrim, readTrimmed_integer htrim h]

theorem ofText_decimal (h : FitsInt64 n) : ofText (α := Int) (decimal n) = .ok (.exactly n) :=
  ofText_of_isInt64 ⟨denotes_integerText n, h⟩

theorem ofText_range (r : IntRange) (hlow : FitsInt64 r.low) (hhigh : FitsInt64 r.high) :
    ofText (α := Int) ("RANDOM:" ++ decimal r.low ++ ":" ++ decimal r.high) =
      .ok (.between r) := by
  have hlows := denotes_integerText r.low
  have hhighs := denotes_integerText r.high
  have htext : ("RANDOM:" ++ decimal r.low ++ ":" ++ decimal r.high).toList =
      "RANDOM:".toList ++ (integerText r.low ++ ':' :: integerText r.high) := by
    simp [decimal]
  have hword : ∀ c ∈ "RANDOM:".toList, isBlank c = false := by
    have hall : "RANDOM:".toList.all (fun c => !isBlank c) = true := by decide
    simpa using hall
  have hblank : ∀ c ∈ "RANDOM:".toList ++ (integerText r.low ++ ':' :: integerText r.high),
      isBlank c = false := by
    intro c hc
    rcases List.mem_append.mp hc with hc | hc
    · exact hword c hc
    · rcases List.mem_append.mp hc with hc | hc
      · exact hlows.not_blank c hc
      · rcases List.mem_cons.mp hc with rfl | hc
        · decide
        · exact hhighs.not_blank c hc
  rw [ofText, htext, trim_of_not_blank hblank]
  refine (readTrimmed_range ⟨_, _, rfl, ?_, ?_⟩).trans (dif_pos r.nonempty)
  · rw [trim_of_not_blank hlows.not_blank]
    exact ⟨hlows, hlow⟩
  · rw [trim_of_not_blank hhighs.not_blank]
    exact ⟨hhighs, hhigh⟩

/-! ## Numbers of documents -/

theorem ofRaw_integer (h : FitsInt64 n) :
    ofRaw (α := Int) (.number (.integer n)) = .ok (.exactly n) := by
  have hint : Json.Number.int? (.integer n) = some n := Json.int?_eq_some_iff.mpr ⟨rfl, h⟩
  simp only [ofRaw, Scalar.ofNumber, hint]
  rfl

/-- A number that is no integer of 64 bits is told as documents write it. -/
theorem ofRaw_other {x : Json.Number} (h : ∀ n, FitsInt64 n → x ≠ .integer n) :
    ofRaw (α := Int) (.number x) = .error (.notAnInteger (String.ofList x.chars)) := by
  have hint : x.int? = none := by
    rw [Option.eq_none_iff_forall_ne_some]
    intro n hn
    obtain ⟨heq, hfits⟩ := Json.int?_eq_some_iff.mp hn
    exact h n hfits heq
  simp only [ofRaw, Scalar.ofNumber, hint]
  rfl

/-- **SIX CLASSES OF TEXTS.**  What is read of a text is decided by its class, and
    every number and every range that is printed is read again.  A number of a
    document that is spelled as an integer of 64 bits is the same quantity as its
    text; negative zero and every other number is no integer. -/
theorem integer_grammar :
    (∀ s : String, FollowsGrammar (trim s.toList) (ofText s)) ∧
      (∀ n : Int, FitsInt64 n → ofText (decimal n) = .ok (.exactly n)) ∧
      (∀ r : IntRange, FitsInt64 r.low → FitsInt64 r.high →
        ofText (α := Int) ("RANDOM:" ++ decimal r.low ++ ":" ++ decimal r.high) =
          .ok (.between r)) ∧
      (∀ l, Json.Spelling l → ∀ n : Int, IsInt64 l n → l ≠ "-0".toList →
        ofText (String.ofList l) = .ok (.exactly n) ∧
        ∃ raw, RawQuantity.ofWritten? (.number l) = some raw ∧ ofRaw raw = .ok (.exactly n)) ∧
      (∀ l, Json.Spelling l → (∀ n, IsInt64 l n → l = "-0".toList) →
        ∀ raw, RawQuantity.ofWritten? (.number l) = some raw →
          ∃ text, ofRaw (α := Int) raw = .error (.notAnInteger text)) ∧
      ∀ x : Json.Number, (∀ n, FitsInt64 n → x ≠ .integer n) →
        ofRaw (α := Int) (.number x) = .error (.notAnInteger (String.ofList x.chars)) := by
  refine ⟨?_, fun n => ofText_decimal, ofText_range, ?_, ?_, fun x => ofRaw_other⟩
  · intro s
    exact followsGrammar_readTrimmed (trim_idem s.toList)
  · intro l hl n hn hzero
    have hlexeme := Json.ofLexeme?_of_isInt64 hl hn hzero
    refine ⟨ofText_of_isInt64 hn, .number (.integer n), ?_, ofRaw_integer hn.2⟩
    rw [RawQuantity.ofWritten?, hlexeme]
    rfl
  · intro l hl hnone raw hraw
    obtain ⟨x, hx, rfl⟩ := Option.map_eq_some_iff.mp hraw
    refine ⟨_, ofRaw_other ?_⟩
    rintro n hfits rfl
    -- only a spelling that denotes the integer stands for it
    obtain ⟨hn, hzero⟩ := Json.isInt64_of_ofLexeme? hl hx (Json.int?_eq_some_iff.mpr ⟨rfl, hfits⟩)
    exact hzero (hnone n hn)

/-- The least and the greatest number, the range between them, the spelling `-12`,
    and the spelling `-0`, which is a double. -/
theorem integer_grammar_at_limits :
    ofText (decimal (-2 ^ 63)) = .ok (.exactly (-2 ^ 63 : Int)) ∧
      ofText (α := Int) ("RANDOM:" ++ decimal (-2 ^ 63) ++ ":" ++ decimal (2 ^ 63 - 1)) =
        .ok (.between (⟨-2 ^ 63, 2 ^ 63 - 1, by decide⟩ : IntRange)) ∧
      (∃ raw, RawQuantity.ofWritten? (.number "-12".toList) = some raw ∧
        ofRaw raw = .ok (.exactly (-12 : Int))) ∧
      (∃ raw text, RawQuantity.ofWritten? (.number "-0".toList) = some raw ∧
        ofRaw (α := Int) raw = .error (.notAnInteger text)) ∧
      ofRaw (α := Int) (.number (.integer (2 ^ 63))) =
        .error (.notAnInteger "9223372036854775808") := by
  obtain ⟨-, hdecimal, hrange, hspelled, hother, hnumber⟩ := integer_grammar
  have hlow : FitsInt64 (-2 ^ 63) := by decide
  have hhigh : FitsInt64 (2 ^ 63 - 1) := by decide
  refine ⟨hdecimal _ hlow, hrange ⟨-2 ^ 63, 2 ^ 63 - 1, by decide⟩ hlow hhigh, ?_, ?_, ?_⟩
  · have hspelling : Json.Spelling "-12".toList :=
      @Json.Spelling.negative "12".toList [] [] ⟨by decide, by decide⟩ .none .none
    have hdenotes : Denotes "-12".toList (-12) :=
      @Denotes.minus "12".toList (by decide)
    exact (hspelled _ hspelling (-12) ⟨hdenotes, by decide⟩ (by decide)).2
  · have hspelling : Json.Spelling "-0".toList :=
      @Json.Spelling.negative "0".toList [] [] ⟨by decide, by decide⟩ .none .none
    obtain ⟨text, htext⟩ := hother _ hspelling (fun _ _ => rfl) _ rfl
    exact ⟨_, text, rfl, htext⟩
  · exact hnumber (.integer (2 ^ 63)) (by
      rintro n ⟨-, hn⟩ heq
      obtain rfl := Json.Number.integer.inj heq
      exact absurd hn (by decide))

end Havoc.Quantity
