import Havoc.Log.Amount

/-! # Patterns that are never refused

    Whatever a pattern holds, it shows a time: percent signs and the letters of known parts are
    read from left to right, and all else is shown as it is written (`Shows`).

    The route: `guarded` leaves texts in which every percent sign begins a pair or a known part
    (`Guarded`), and leaves such texts alone, so doing it twice is doing it once.  The formatter
    may be any that reads patterns from left to right and knows the parts of the table
    (`Formatter`); what it makes of other letters never counts, because a guarded pattern has
    none (`format?_guarded`, along `Shows`).  The main theorem is `patterns_always_format`. -/

namespace Havoc.Pattern

/-- A pattern in which every percent sign begins a pair of them or a known part. -/
inductive Guarded : List Char → Prop where
  | nil : Guarded []
  | plain {c : Char} {s : List Char} : c ≠ '%' → Guarded s → Guarded (c :: s)
  | sign {s : List Char} : Guarded s → Guarded ('%' :: '%' :: s)
  | part {c : Char} {p : Conversion} {s : List Char} :
      (c, p) ∈ letters → Guarded s → Guarded ('%' :: c :: s)

/-- What a pattern shows of a time, read from left to right: a percent sign and the letter of a
    part are the part, two percent signs are one, a percent sign before any other character is
    shown together with it, and one at the end is shown alone. -/
inductive Shows (t : Moment) : List Char → List Char → Prop where
  | nil : Shows t [] []
  | plain {c : Char} {s text : List Char} : c ≠ '%' → Shows t s text → Shows t (c :: s) (c :: text)
  | part {c : Char} {p : Conversion} {s text : List Char} :
      (c, p) ∈ letters → Shows t s text → Shows t ('%' :: c :: s) (p.show t ++ text)
  | sign {s text : List Char} : Shows t s text → Shows t ('%' :: '%' :: s) ('%' :: text)
  | other {c : Char} {s text : List Char} :
      c ≠ '%' → (∀ p, (c, p) ∉ letters) → Shows t s text →
      Shows t ('%' :: c :: s) ('%' :: c :: text)
  | trailing : Shows t ['%'] ['%']

/-- A formatter of patterns.  It reads them from left to right, shows two percent signs as one,
    and knows the parts of the table; it may know more, or refuse what it does not know. -/
structure Formatter where
  format? : Moment → List Char → Option (List Char)
  nil (t : Moment) : format? t [] = some []
  plain {c : Char} (t : Moment) (s : List Char) :
    c ≠ '%' → format? t (c :: s) = (format? t s).map (c :: ·)
  sign (t : Moment) (s : List Char) : format? t ('%' :: '%' :: s) = (format? t s).map ('%' :: ·)
  part {c : Char} {p : Conversion} (t : Moment) (s : List Char) :
    (c, p) ∈ letters → format? t ('%' :: c :: s) = (format? t s).map (p.show t ++ ·)

variable {c : Char} {p : Conversion} {s text : List Char} {t : Moment}

/-! ## Letters -/

theorem conversion?_eq_some_iff : conversion? c = some p ↔ (c, p) ∈ letters := by
  constructor
  · intro h
    obtain ⟨before, after, heq, -⟩ := List.lookup_eq_some_iff.mp h
    rw [heq]
    exact List.mem_append_right before List.mem_cons_self
  · have hall : ∀ x ∈ letters, conversion? x.1 = some x.2 := by decide
    exact hall (c, p)

theorem isSome_conversion? (h : (c, p) ∈ letters) : (conversion? c).isSome = true :=
  Option.isSome_of_eq_some (conversion?_eq_some_iff.mpr h)

theorem conversion?_eq_none (h : ∀ p, (c, p) ∉ letters) : conversion? c = none :=
  Option.eq_none_iff_forall_ne_some.mpr fun p hp => h p (conversion?_eq_some_iff.mp hp)

/-- The percent sign is no letter. -/
theorem ne_percent (h : (c, p) ∈ letters) : c ≠ '%' := by
  have hall : ∀ x ∈ letters, x.1 ≠ '%' := by decide
  exact hall (c, p) h

/-! ## Guarding -/

theorem guarded_plain (h : c ≠ '%') (s : List Char) : guarded (c :: s) = c :: guarded s := by
  rw [guarded]
  exact h

theorem guarded_part (h : (c, p) ∈ letters) (s : List Char) :
    guarded ('%' :: c :: s) = '%' :: c :: guarded s := by
  rw [guarded, if_pos (isSome_conversion? h)]

theorem guarded_sign (s : List Char) : guarded ('%' :: '%' :: s) = '%' :: '%' :: guarded s := by
  rw [guarded, if_neg (by decide), if_pos rfl]

theorem guarded_other (hc : c ≠ '%') (h : ∀ p, (c, p) ∉ letters) (s : List Char) :
    guarded ('%' :: c :: s) = '%' :: '%' :: c :: guarded s := by
  have hnone : ¬ (conversion? c).isSome = true := by
    rw [conversion?_eq_none h]
    exact Bool.false_ne_true
  rw [guarded, if_neg hnone, if_neg hc]

/-- Every pattern can be read, in one of six ways at a time. -/
theorem exists_shows (t : Moment) (s : List Char) : ∃ text, Shows t s text := by
  -- the cases are those of `guarded`, which reads up to two characters at a time
  induction s using guarded.induct with
  | case1 => exact ⟨_, .nil⟩
  | case2 => exact ⟨_, .trailing⟩
  | case3 c s hpart ih =>
      obtain ⟨p, hp⟩ := Option.isSome_iff_exists.mp hpart
      obtain ⟨text, htext⟩ := ih
      exact ⟨_, .part (conversion?_eq_some_iff.mp hp) htext⟩
  | case4 s _ ih =>
      obtain ⟨text, htext⟩ := ih
      exact ⟨_, .sign htext⟩
  | case5 c s hnone hc ih =>
      obtain ⟨text, htext⟩ := ih
      refine ⟨_, .other hc (fun p hp => hnone (isSome_conversion? hp)) htext⟩
  | case6 c s hc ih =>
      obtain ⟨text, htext⟩ := ih
      exact ⟨_, .plain hc htext⟩

/-- A pattern shows one text only. -/
theorem Shows.unique {other : List Char} (h : Shows t s text) (h' : Shows t s other) :
    text = other := by
  induction h generalizing other with
  | nil =>
      cases h'
      rfl
  | plain hc _ ih =>
      cases h' with
      | plain _ h' => rw [ih h']
      | part | sign | other | trailing => exact absurd rfl hc
  | part hp _ ih =>
      cases h' with
      | plain hc _ => exact absurd rfl hc
      | part hp' h' =>
          have hsome := conversion?_eq_some_iff.mpr hp
          rw [ih h', Option.some.inj (hsome.symm.trans (conversion?_eq_some_iff.mpr hp'))]
      | sign => exact absurd rfl (ne_percent hp)
      | other _ hnone _ => exact absurd hp (hnone _)
  | sign _ ih =>
      cases h' with
      | plain hc _ => exact absurd rfl hc
      | part hp _ => exact absurd rfl (ne_percent hp)
      | sign h' => rw [ih h']
      | other hc _ _ => exact absurd rfl hc
  | other hc hnone _ ih =>
      cases h' with
      | plain hc' _ => exact absurd rfl hc'
      | part hp _ => exact absurd hp (hnone _)
      | sign => exact absurd rfl hc
      | other _ _ h' => rw [ih h']
  | trailing =>
      cases h' with
      | plain hc _ => exact absurd rfl hc
      | trailing => rfl

theorem Shows.guarded (h : Shows t s text) : Guarded (guarded s) := by
  induction h with
  | nil => exact .nil
  | plain hc _ ih =>
      rw [guarded_plain hc]
      exact .plain hc ih
  | part hp _ ih =>
      rw [guarded_part hp]
      exact .part hp ih
  | sign _ ih =>
      rw [guarded_sign]
      exact .sign ih
  | other hc hnone _ ih =>
      rw [guarded_other hc hnone]
      exact .sign (.plain hc ih)
  | trailing => exact .sign .nil

/-- What is guarded already is left alone. -/
theorem Guarded.guarded_eq (h : Guarded s) : guarded s = s := by
  induction h with
  | nil => rfl
  | plain hc _ ih => rw [guarded_plain hc, ih]
  | sign _ ih => rw [guarded_sign, ih]
  | part hp _ ih => rw [guarded_part hp, ih]

/-! ## Formatting -/

/-- The formatter that refuses all letters but those of the table. -/
def Formatter.strict : Formatter where
  format? := Pattern.format?
  nil t := rfl
  plain t s hc := by
    rw [Pattern.format?, items?, Option.map_map, Pattern.format?, Option.map_map]
    · rfl
    · exact hc
  sign t s := by
    rw [Pattern.format?, items?, if_pos rfl, Option.map_map, Pattern.format?, Option.map_map]
    rfl
  part t s hp := by
    rw [Pattern.format?, items?, if_neg (ne_percent hp), conversion?_eq_some_iff.mpr hp]
    dsimp only
    rw [Option.map_map, Pattern.format?, Option.map_map]
    rfl

/-- A formatter shows what a guarded pattern shows before it is guarded. -/
theorem Formatter.format?_guarded (f : Formatter) (h : Shows t s text) :
    f.format? t (guarded s) = some text := by
  induction h with
  | nil => exact f.nil t
  | plain hc _ ih => rw [guarded_plain hc, f.plain t _ hc, ih, Option.map_some]
  | part hp _ ih => rw [guarded_part hp, f.part t _ hp, ih, Option.map_some]
  | sign _ ih => rw [guarded_sign, f.sign, ih, Option.map_some]
  | other hc hnone _ ih =>
      rw [guarded_other hc hnone, f.sign, f.plain t _ hc, ih, Option.map_some, Option.map_some]
  | trailing =>
      show f.format? t ['%', '%'] = _
      rw [f.sign, f.nil, Option.map_some]

theorem shows_format (t : Moment) (s : List Char) : Shows t s (format t s) := by
  obtain ⟨text, htext⟩ := exists_shows t s
  have hformat : format? t (guarded s) = some text := Formatter.strict.format?_guarded htext
  rw [format, hformat]
  exact htext

/-- **PATTERNS ALWAYS FORMAT.**  Every pattern is rewritten into one in which each percent sign
    begins a pair or a known part, and rewriting that changes nothing.  So no formatter that
    knows the parts of the table refuses it, whatever else the formatter knows, and the time is
    shown as the pattern says when it is read from left to right, in that one way. -/
theorem patterns_always_format (pattern : List Char) :
    (Guarded (guarded pattern) ∧ guarded (guarded pattern) = guarded pattern) ∧
      ∀ t : Moment,
        (∀ text, Shows t pattern text ↔ Log.timeText t (some pattern) = String.ofList text) ∧
        ∀ f : Formatter,
          f.format? t (guarded pattern) = some (Log.timeText t (some pattern)).toList := by
  have hguarded : Guarded (guarded pattern) := (shows_format default pattern).guarded
  refine ⟨⟨hguarded, hguarded.guarded_eq⟩, fun t => ⟨?_, ?_⟩⟩
  · intro text
    constructor
    · intro htext
      exact congrArg String.ofList ((shows_format t pattern).unique htext)
    · intro htext
      rw [← String.ofList_injective htext]
      exact shows_format t pattern
  · intro f
    rw [f.format?_guarded (shows_format t pattern)]
    exact congrArg some String.toList_ofList.symm

/-- Percent signs in a row, an unknown letter, and one at the end. -/
example :
    String.ofList (guarded "%%%Y%%%Q%".toList) = "%%%Y%%%%Q%%" ∧
      Log.timeText ⟨0, 0⟩ (some "%%%Y%%%Q%".toList) = "%1970%%Q%" := by
  decide

end Havoc.Pattern
