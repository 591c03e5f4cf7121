import Havoc.Proofs.Draw.Wrapping
import Havoc.Proofs.Quantity.Resolve
import Havoc.Service.Form

/-! # What an integer field comes to

    A field of a request writes an integer, or names a range, or leaves the integer to the
    field's own range, or does none of these.  Its kind decides how it is resolved: a written
    integer takes no word of the stream, a drawn one lies in its range, and a field that is
    no quantity is an error that takes no word either.

    The route: the kinds are said without reading (`Writes`, `Names`, `Bare`), and reading
    finds the kind (`ofRaw_kind`).  `Lawful` is what holds of a field's end; it follows from
    the kind and from what is drawn (`Lawful.of_fair`).  The running resolution and the one
    in wrapping arithmetic, which knows no bound on the words it refuses, are both fair. -/

namespace Havoc.Quantity

open Havoc.Draw Havoc.Number Havoc.Text

variable {raw : RawQuantity} {own r : IntRange} {q : Quantity Int} {w rest : Words} {n : Int}

/-! ## Kinds of fields -/

/-- A field writes an integer, as a number of the document or as a text. -/
inductive Writes : RawQuantity → Int → Prop where
  | number {n : Int} : FitsInt64 n → Writes (.number (.integer n)) n
  | text {s : String} {n : Int} : IsInt64 (trim s.toList) n → Writes (.text s) n

/-- A field names a range; a range is never empty. -/
inductive Names : RawQuantity → IntRange → Prop where
  | text {s : String} {r : IntRange} :
      NamesRange (trim s.toList) r.low r.high → Names (.text s) r

/-- A field leaves the integer to the field's own range. -/
inductive Bare : RawQuantity → Prop where
  | text {s : String} : trim s.toList = "RANDOM".toList → Bare (.text s)

theorem ofRaw_writes (h : Writes raw n) : ofRaw raw = .ok (.exactly n) := by
  cases h with
  | number h => exact ofRaw_integer h
  | text h => exact ((followsGrammar_readTrimmed (trim_idem _)).integer n).mpr h

theorem ofRaw_names (h : Names raw r) : ofRaw (α := Int) raw = .ok (.between r) := by
  cases h with
  | text h => exact ((followsGrammar_readTrimmed (trim_idem _)).range r).mpr h

theorem ofRaw_bare (h : Bare raw) : ofRaw (α := Int) raw = .ok .anywhere := by
  cases h with
  | text h => exact (followsGrammar_readTrimmed (trim_idem _)).token.mpr h

/-- What is read of a field says of which kind it is. -/
theorem ofRaw_kind (h : ofRaw raw = .ok q) :
    (∃ n, Writes raw n) ∨ (∃ r, Names raw r) ∨ Bare raw := by
  cases raw with
  | number x =>
      by_cases hfits : ∃ n, FitsInt64 n ∧ x = .integer n
      · obtain ⟨n, hn, rfl⟩ := hfits
        exact Or.inl ⟨n, .number hn⟩
      · rw [ofRaw_other fun n hn heq => hfits ⟨n, hn, heq⟩] at h
        exact nomatch h
  | text s =>
      have hgrammar := followsGrammar_readTrimmed (trim_idem s.toList)
      cases q with
      | exactly n => exact Or.inl ⟨n, .text ((hgrammar.integer n).mp h)⟩
      | between r => exact Or.inr (Or.inl ⟨r, .text ((hgrammar.range r).mp h)⟩)
      | anywhere => exact Or.inr (Or.inr (.text (hgrammar.token.mp h)))

/-! ## The law -/

/-- How the resolution of a field ends: with an error, with an integer and the words
    behind those that were taken, or, if there is neither, in a panic. -/
abbrev End := Except QuantityError (Option (Int × Words))

/-- What holds of the end of a field that is resolved on a stream of words. -/
structure Lawful (own : IntRange) (raw : RawQuantity) (w : Words) (e : End) : Prop where
  settled : e ≠ .ok none
  written : ∀ n, Writes raw n → e = .ok (some (n, w))
  named : ∀ r, Names raw r → ∃ n rest, e = .ok (some (n, rest)) ∧ r.low ≤ n ∧ n < r.high
  bare : Bare raw → ∃ n rest, e = .ok (some (n, rest)) ∧ own.low ≤ n ∧ n < own.high
  wrong : (∀ n, ¬ Writes raw n) → (∀ r, ¬ Names raw r) → ¬ Bare raw →
    ∃ error, e = .error error

/-- What may become of a quantity: a drawn integer lies in the range it is drawn from. -/
inductive Fair (own : IntRange) (w : Words) : Quantity Int → Option (Int × Words) → Prop where
  | exactly {n : Int} : Fair own w (.exactly n) (some (n, w))
  | between {r : IntRange} {n : Int} {rest : Words} : r.low ≤ n → n < r.high →
      Fair own w (.between r) (some (n, rest))
  | anywhere {n : Int} {rest : Words} : own.low ≤ n → n < own.high →
      Fair own w .anywhere (some (n, rest))

theorem Lawful.of_fair {o : Option (Int × Words)} (hread : ofRaw raw = .ok q)
    (h : Fair own w q o) : Lawful own raw w (.ok o) := by
  refine ⟨?_, ?_, ?_, ?_, ?_⟩
  · rintro hnone
    obtain rfl := Except.ok.inj hnone
    exact nomatch h
  · intro n hn
    rw [ofRaw_writes hn] at hread
    obtain rfl := Except.ok.inj hread
    cases h with
    | exactly => rfl
  · intro r hr
    rw [ofRaw_names hr] at hread
    obtain rfl := Except.ok.inj hread
    cases h with
    | between hlow hhigh => exact ⟨_, _, rfl, hlow, hhigh⟩
  · intro hbare
    rw [ofRaw_bare hbare] at hread
    obtain rfl := Except.ok.inj hread
    cases h with
    | anywhere hlow hhigh => exact ⟨_, _, rfl, hlow, hhigh⟩
  · intro hwrites hnames hbare
    rcases ofRaw_kind hread with ⟨n, hn⟩ | ⟨r, hr⟩ | hb
    · exact absurd hn (hwrites n)
    · exact absurd hr (hnames r)
    · exact absurd hb hbare

theorem Lawful.of_error {error : QuantityError} (hread : ofRaw (α := Int) raw = .error error) :
    Lawful own raw w (.error error) := by
  refine ⟨nofun, ?_, ?_, ?_, fun _ _ _ => ⟨error, rfl⟩⟩
  · intro n hn
    exact nomatch hread.symm.trans (ofRaw_writes hn)
  · intro r hr
    exact nomatch hread.symm.trans (ofRaw_names hr)
  · intro hbare
    exact nomatch hread.symm.trans (ofRaw_bare hbare)

/-! ## The running resolution -/

/-- The end of a field that is resolved with the bounds of its own range. -/
def resolve (low high : Int) (raw : RawQuantity) (w : Words) : End :=
  (ofRaw raw).map fun q => (q.draw? low high).map fun d => d w

theorem fair_draw? : Fair own w q ((q.draw? own.low own.high).map fun d => d w) := by
  cases q with
  | exactly n => exact .exactly
  | between r =>
      obtain ⟨hlow, hhigh⟩ := always_int r w
      exact .between hlow hhigh
  | anywhere =>
      have hrange : Scalar.range? own.low own.high = some own := dif_pos own.nonempty
      obtain ⟨hlow, hhigh⟩ := always_int own w
      rw [draw?, hrange]
      exact .anywhere hlow hhigh

theorem lawful_resolve : Lawful own raw w (resolve own.low own.high raw w) := by
  rw [resolve]
  cases hread : ofRaw (α := Int) raw with
  | error error => exact .of_error hread
  | ok q => exact .of_fair hread fair_draw?

/-- An endpoint draws from the field's own range, whose bounds are in order. -/
theorem resolve_eq : resolve own.low own.high raw w = (raw.int own).map fun d => some (d w) := by
  have hrange : Scalar.range? own.low own.high = some own := dif_pos own.nonempty
  rw [resolve, RawQuantity.int]
  cases ofRaw (α := Int) raw with
  | error error => rfl
  | ok q =>
      cases q with
      | exactly n => rfl
      | between r => rfl
      | anywhere =>
          simp only [Except.map, draw?, hrange]
          rfl

/-- An endpoint goes on with the integer of a field and the words behind it. -/
theorem integer_run_ok (h : resolve own.low own.high raw w = .ok (some (n, rest))) :
    (Service.integer own raw).run w = (.ok n, rest) := by
  rw [resolve_eq] at h
  rw [Service.integer]
  cases hint : raw.int own with
  | error error =>
      rw [hint] at h
      exact nomatch h
  | ok d =>
      rw [hint] at h
      have hdraw : d w = (n, rest) := Option.some.inj (Except.ok.inj h)
      show (Except.ok (d w).1, (d w).2) = _
      rw [hdraw]

/-- An endpoint reports the error of a field and takes no word. -/
theorem integer_run_error {error : QuantityError}
    (h : resolve own.low own.high raw w = .error error) :
    (Service.integer own raw).run w = (.error (.ofQuantity error), w) := by
  rw [resolve_eq] at h
  rw [Service.integer]
  cases hint : raw.int own with
  | error e =>
      rw [hint] at h
      obtain rfl := Except.error.inj h
      rfl
  | ok d =>
      rw [hint] at h
      exact nomatch h

/-! ## Resolution in wrapping arithmetic -/

/-- What a draw on the machine ends with; a panic leaves nothing. -/
def shown : Ending → Option (Int × Words)
  | .panics => none
  | .gives m rest => some (m.toInt, rest)

/-- How a field may end on the machine, where a draw may refuse any number of words. -/
inductive Resolved (own : IntRange) (raw : RawQuantity) (w : Words) : End → Prop where
  | wrong {error : QuantityError} : ofRaw (α := Int) raw = .error error →
      Resolved own raw w (.error error)
  | exactly {n : Int} : ofRaw raw = .ok (.exactly n) → Resolved own raw w (.ok (some (n, w)))
  | between {r : IntRange} {e : Ending} : ofRaw (α := Int) raw = .ok (.between r) →
      Drawn (.ofInt r.low) (.ofInt r.high) w e → Resolved own raw w (.ok (shown e))
  | anywhere {e : Ending} : ofRaw (α := Int) raw = .ok .anywhere →
      Drawn (.ofInt own.low) (.ofInt own.high) w e → Resolved own raw w (.ok (shown e))

/-- A draw from a range of 64-bit integers ends with one of them. -/
theorem shown_drawn (hlow : FitsInt64 r.low) (hhigh : FitsInt64 r.high) {e : Ending}
    (h : Drawn (.ofInt r.low) (.ofInt r.high) w e) :
    ∃ n rest, shown e = some (n, rest) ∧ r.low ≤ n ∧ n < r.high := by
  cases e with
  | panics => exact absurd h (Drawn.not_panics (ofInt_lt_ofInt hlow hhigh))
  | gives m rest =>
      obtain ⟨hle, hlt⟩ := h.between
      rw [Int64.le_iff_toInt_le, Int64.toInt_ofInt_of_le hlow.1 hlow.2] at hle
      rw [Int64.lt_iff_toInt_lt, Int64.toInt_ofInt_of_le hhigh.1 hhigh.2] at hlt
      exact ⟨m.toInt, rest, rfl, hle, hlt⟩

/-- An integer that is drawn within patience is what the machine may end with. -/
theorem drawn_shown (hlow : FitsInt64 r.low) (hhigh : FitsInt64 r.high)
    (h : Draw.int r w = (n, rest)) (hused : rest.used ≤ w.used + patience) :
    ∃ e, Drawn (.ofInt r.low) (.ofInt r.high) w e ∧ shown e = some (n, rest) := by
  have hfits := always_int_fits hlow hhigh w
  rw [h] at hfits
  have hdrawn := drawn_of_int hlow hhigh (by rw [h]; exact hused)
  rw [h] at hdrawn
  refine ⟨_, hdrawn, ?_⟩
  rw [shown, Int64.toInt_ofInt_of_le hfits.1 hfits.2]

section

variable (hlow : FitsInt64 own.low) (hhigh : FitsInt64 own.high)

include hlow hhigh

theorem Resolved.lawful {e : End} (h : Resolved own raw w e) : Lawful own raw w e := by
  cases h with
  | wrong hread => exact .of_error hread
  | exactly hread => exact .of_fair hread .exactly
  | between hread hdrawn =>
      obtain ⟨hl, hh⟩ := fits_ofRaw hread
      obtain ⟨n, rest, hshown, hle, hlt⟩ := shown_drawn hl hh hdrawn
      rw [hshown]
      exact .of_fair hread (.between hle hlt)
  | anywhere hread hdrawn =>
      obtain ⟨n, rest, hshown, hle, hlt⟩ := shown_drawn hlow hhigh hdrawn
      rw [hshown]
      exact .of_fair hread (.anywhere hle hlt)

/-- What the machine resolves within patience is what the running resolution ends with. -/
theorem Resolved.resolve {e : End} (h : Resolved own raw w e)
    (hused : ∀ n rest, e = .ok (some (n, rest)) → rest.used ≤ w.used + patience + 1) :
    resolve own.low own.high raw w = e := by
  cases h with
  | wrong hread =>
      rw [Quantity.resolve, hread]
      rfl
  | exactly hread =>
      rw [Quantity.resolve, hread]
      rfl
  | @between r e hread hdrawn =>
      obtain ⟨hl, hh⟩ := fits_ofRaw hread
      cases e with
      | panics => exact absurd hdrawn (Drawn.not_panics (ofInt_lt_ofInt hl hh))
      | gives m rest =>
          have hint := int_of_drawn hl hh hdrawn (hused _ _ rfl)
          rw [Quantity.resolve, hread]
          show Except.ok (some (Draw.int r w)) = _
          rw [hint]
          rfl
  | @anywhere e hread hdrawn =>
      cases e with
      | panics => exact absurd hdrawn (Drawn.not_panics (ofInt_lt_ofInt hlow hhigh))
      | gives m rest =>
          have hint := int_of_drawn hlow hhigh hdrawn (hused _ _ rfl)
          rw [resolve_eq, RawQuantity.int, hread]
          show Except.ok (some (Draw.int own w)) = _
          rw [hint]
          rfl

/-- What the running resolution ends with within patience the machine may end with. -/
theorem resolved_of_resolve (h : Quantity.resolve own.low own.high raw w = .ok (some (n, rest)))
    (hused : rest.used ≤ w.used + patience) : Resolved own raw w (.ok (some (n, rest))) := by
  rw [resolve_eq, RawQuantity.int] at h
  cases hread : ofRaw (α := Int) raw with
  | error error =>
      rw [hread] at h
      exact nomatch h
  | ok q =>
      rw [hread] at h
      have hdraw : q.draw own w = (n, rest) := Option.some.inj (Except.ok.inj h)
      cases q with
      | exactly k =>
          obtain ⟨rfl, rfl⟩ := Prod.mk.inj hdraw
          exact .exactly hread
      | between r =>
          obtain ⟨hl, hh⟩ := fits_ofRaw hread
          obtain ⟨e, hdrawn, hshown⟩ := drawn_shown hl hh hdraw hused
          exact hshown ▸ .between hread hdrawn
      | anywhere =>
          obtain ⟨e, hdrawn, hshown⟩ := drawn_shown hlow hhigh hdraw hused
          exact hshown ▸ .anywhere hread hdrawn

/-- **THE LAW OF INTEGER FIELDS.**  For every field, every range of its own and every stream
    of words, the resolution never panics; a written integer comes to itself and takes no
    word; a named range gives an integer of the range, the bare word one of the field's own
    range, and any other field an error.  Endpoints report the error without a word taken.
    In wrapping arithmetic the same holds, however many words are refused, and within
    patience both resolutions end the same. -/
theorem integer_fields_lawful :
    Lawful own raw w (Quantity.resolve own.low own.high raw w) ∧
      (∀ n rest, Quantity.resolve own.low own.high raw w = .ok (some (n, rest)) →
        (Service.integer own raw).run w = (.ok n, rest)) ∧
      (∀ error, Quantity.resolve own.low own.high raw w = .error error →
        (Service.integer own raw).run w = (.error (.ofQuantity error), w)) ∧
      (∀ e, Resolved own raw w e → Lawful own raw w e ∧
        ((∀ n rest, e = .ok (some (n, rest)) → rest.used ≤ w.used + patience + 1) →
          Quantity.resolve own.low own.high raw w = e)) ∧
      ∀ n rest, Quantity.resolve own.low own.high raw w = .ok (some (n, rest)) →
        rest.used ≤ w.used + patience → Resolved own raw w (.ok (some (n, rest))) :=
  ⟨lawful_resolve, fun _ _ => integer_run_ok, fun _ => integer_run_error,
    fun _ h => ⟨h.lawful hlow hhigh, h.resolve hlow hhigh⟩,
    fun _ _ => resolved_of_resolve hlow hhigh⟩

end

/-- The widest range has more integers than the greatest of them. -/
theorem integer_fields_lawful_widest :
    ∃ n rest, (Service.integer (Service.ownRange 0 1)
        (.text "RANDOM:-9223372036854775808:9223372036854775807")).run (Words.seeded 0) =
          (.ok n, rest) ∧ -2 ^ 63 ≤ n ∧ n < 2 ^ 63 - 1 := by
  obtain ⟨hlaw, hok, -⟩ := @integer_fields_lawful
    (.text "RANDOM:-9223372036854775808:9223372036854775807") (Service.ownRange 0 1)
    (Words.seeded 0) (by decide) (by decide)
  have hlow : Denotes "-9223372036854775808".toList (-2 ^ 63) :=
    @Denotes.minus "9223372036854775808".toList (by decide)
  have hhigh : Denotes "9223372036854775807".toList (2 ^ 63 - 1) :=
    @Denotes.bare "9223372036854775807".toList (by decide)
  have hnames : Names (.text "RANDOM:-9223372036854775808:9223372036854775807")
      ⟨-2 ^ 63, 2 ^ 63 - 1, by decide⟩ :=
    .text ⟨"-9223372036854775808".toList, "9223372036854775807".toList, by decide,
      ⟨(trim_of_not_blank hlow.not_blank).symm ▸ hlow, by decide⟩,
      ⟨(trim_of_not_blank hhigh.not_blank).symm ▸ hhigh, by decide⟩⟩
  obtain ⟨n, rest, hend, hle, hlt⟩ := hlaw.named _ hnames
  exact ⟨n, rest, hok n rest hend, hle, hlt⟩

end Havoc.Quantity
