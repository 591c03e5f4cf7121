import Havoc.Fault.Rules
import Havoc.Proofs.Draw.Uniform

/-! # What a roll draws

    A roll draws one number for each rule in force and none for the others: first
    the number of the loss, and only a request that is not lost draws the number of
    the error.  `Lost` and `Failed` say which numbers hit, `afterLoss` and
    `afterFailure` which words are left; `roll_spec` says that a roll is just this. -/

namespace Havoc.Fault

variable {r : Rules} {t : Instant} {loss : Option Nat} {share : Option Float} {w : Words}

/-- The percentage of requests that are lost at an instant. -/
def Rules.percent? (r : Rules) (t : Instant) : Option Nat := (active r.packetLoss t).map (·.value)

/-- The share of requests that are answered with an error at an instant. -/
def Rules.share? (r : Rules) (t : Instant) : Option Float := (active r.errorRate t).map (·.value)

/-- A percentage is in force and the number that is drawn below one hundred is below it. -/
def Lost (loss : Option Nat) (w : Words) : Prop :=
  ∃ p, loss = some p ∧ (Draw.belowShort 100 w).1 < p

/-- A share is in force and the number that is drawn between zero and one is below it. -/
def Failed (share : Option Float) (w : Words) : Prop := ∃ x, share = some x ∧ (Draw.unit w).1 < x

/-- The words left behind the draw of a loss. -/
def afterLoss (loss : Option Nat) (w : Words) : Words :=
  if loss.isSome then (Draw.belowShort 100 w).2 else w

/-- The words left behind the draw of an error. -/
def afterFailure (share : Option Float) (w : Words) : Words :=
  if share.isSome then (Draw.unit w).2 else w

/-- What a roll with a percentage and a share in force may come to. -/
structure Rolled (loss : Option Nat) (share : Option Float) (w : Words)
    (fault : Option Kind) (left : Words) : Prop where
  lost : fault = some .packetLoss ↔ Lost loss w
  failed : fault = some .randomError ↔ ¬ Lost loss w ∧ Failed share (afterLoss loss w)
  passed : fault = none ↔ ¬ Lost loss w ∧ ¬ Failed share (afterLoss loss w)
  /-- A lost request draws nothing more. -/
  words : left =
    if fault = some .packetLoss then afterLoss loss w else afterFailure share (afterLoss loss w)

/-- A rule that is not in force hits nothing and draws nothing. -/
theorem hit_spec {α β : Type} (rule : Option (Active α)) (draw : Draw β) (hit : β → α → Bool)
    (w : Words) (out : Draw Bool)
    (hnone : rule = none → out w = (false, w))
    (hsome : ∀ a, rule = some a → out w = (hit (draw w).1 a.value, (draw w).2)) :
    ((out w).1 = true ↔ ∃ x, rule.map (·.value) = some x ∧ hit (draw w).1 x = true) ∧
      (out w).2 = if (rule.map (·.value)).isSome then (draw w).2 else w := by
  cases rule with
  | none =>
      rw [hnone rfl]
      refine ⟨?_, rfl⟩
      constructor
      · intro h
        exact nomatch h
      · rintro ⟨x, hx, -⟩
        exact nomatch hx
  | some a =>
      rw [hsome a rfl]
      refine ⟨?_, rfl⟩
      constructor
      · intro h
        exact ⟨a.value, rfl, h⟩
      · rintro ⟨x, hx, h⟩
        obtain rfl := Option.some.inj hx
        exact h

theorem rollLoss_spec (r : Rules) (t : Instant) (w : Words) :
    ((r.rollLoss t w).1 = true ↔ Lost (r.percent? t) w) ∧
      (r.rollLoss t w).2 = afterLoss (r.percent? t) w := by
  have h := hit_spec (active r.packetLoss t) (Draw.belowShort 100) (fun y p => decide (y < p)) w
    (r.rollLoss t) (fun h => by rw [Rules.rollLoss, h]; rfl)
    (fun a h => by rw [Rules.rollLoss, h]; rfl)
  simp only [decide_eq_true_iff] at h
  exact h

theorem rollError_spec (r : Rules) (t : Instant) (w : Words) :
    ((r.rollError t w).1 = true ↔ Failed (r.share? t) w) ∧
      (r.rollError t w).2 = afterFailure (r.share? t) w := by
  have h := hit_spec (active r.errorRate t) Draw.unit (fun y x => decide (y < x)) w
    (r.rollError t) (fun h => by rw [Rules.rollError, h]; rfl)
    (fun a h => by rw [Rules.rollError, h]; rfl)
  simp only [decide_eq_true_iff] at h
  exact h

theorem roll_eq (r : Rules) (t : Instant) (w : Words) :
    r.roll t w =
      if (r.rollLoss t w).1 then (some .packetLoss, (r.rollLoss t w).2)
      else if (r.rollError t (r.rollLoss t w).2).1 then
        (some .randomError, (r.rollError t (r.rollLoss t w).2).2)
      else (none, (r.rollError t (r.rollLoss t w).2).2) := by
  cases hloss : r.rollLoss t w with
  | mk lost left =>
    cases hshare : r.rollError t left with
    | mk failed rest =>
      cases lost with
      | true =>
          simp only [Rules.roll, bind, StateT.bind, hloss, if_true]
          rfl
      | false =>
          simp only [Rules.roll, bind, StateT.bind, hloss, hshare, Bool.false_eq_true, if_false]
          cases failed with
          | true => rfl
          | false => rfl

/-- **A ROLL DRAWS FOR THE RULES IN FORCE**, first for the loss and then for the
    error. -/
theorem roll_spec (r : Rules) (t : Instant) (w : Words) :
    Rolled (r.percent? t) (r.share? t) w (r.roll t w).1 (r.roll t w).2 := by
  obtain ⟨hlost, hafter⟩ := rollLoss_spec r t w
  obtain ⟨hfailed, hleft⟩ := rollError_spec r t (afterLoss (r.percent? t) w)
  rw [roll_eq, hafter, hleft]
  split
  · next hl =>
      rw [hlost] at hl
      exact {
        lost := iff_of_true rfl hl
        failed := iff_of_false nofun fun h => h.1 hl
        passed := iff_of_false nofun fun h => h.1 hl
        words := rfl }
  · next hl =>
      rw [hlost] at hl
      split
      · next hf =>
          rw [hfailed] at hf
          exact {
            lost := iff_of_false nofun hl
            failed := iff_of_true rfl ⟨hl, hf⟩
            passed := iff_of_false nofun fun h => h.2 hf
            words := rfl }
      · next hf =>
          rw [hfailed] at hf
          exact {
            lost := iff_of_false nofun hl
            failed := iff_of_false nofun fun h => hf h.2
            passed := iff_of_true rfl ⟨hl, hf⟩
            words := rfl }

/-! ## Certain and impossible faults -/

theorem lost_of_hundred (w : Words) : Lost (some 100) w := ⟨100, rfl, Draw.belowShort_lt w⟩

theorem not_lost_of_zero (w : Words) : ¬ Lost (some 0) w := by
  rintro ⟨p, hp, hlt⟩
  obtain rfl := Option.some.inj hp
  exact Nat.not_lt_zero _ hlt

theorem failed_of_one {x : Float} (hx : (x == 1.0) = true) (w : Words) : Failed (some x) w :=
  ⟨x, rfl, (Draw.belowOne_unit w).lt_one hx⟩

theorem not_failed_of_zero {x : Float} (hx : (x == 0.0) = true) (w : Words) :
    ¬ Failed (some x) w := by
  rintro ⟨y, hy, hlt⟩
  obtain rfl := Option.some.inj hy
  exact (Draw.belowOne_unit w).not_lt_zero hx hlt

end Havoc.Fault
