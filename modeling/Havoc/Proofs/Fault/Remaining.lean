import Havoc.Proofs.Fault.Orders

/-! # What reports show as left

    A report shows the milliseconds that a slot has left as a word of 64 bits
    (`shownLeft_latest`).  As long as they fit that word they are shown as they are and
    only count down; a lifetime whose milliseconds do not fit is shown short, and what
    is shown goes up each time the word runs out.

    A deadline never lies beyond the last instant, so not every long lifetime is shown
    short: one that would end behind it lasts thirty years (`left_at_arming`).  The main
    theorem `left_is_shown_as_word` says which lifetimes of whole seconds are shown as
    they are to their end. -/

namespace Havoc

/-- The whole milliseconds of a span grow with it. -/
theorem Span.millis_mono {s t : Span} (h : s ≤ t) : millis s ≤ millis t :=
  Nat.div_le_div_right h

theorem Span.millis_ofSeconds (n : Nat) : (ofSeconds n).millis = n * 1000 := by
  show n * 1000000000 / 1000000 = n * 1000
  omega

namespace Fault

open Havoc.Json

/-- The milliseconds that a report at an instant shows as left of a slot. -/
def Rules.shownLeft (r : Rules) (t : Instant) (slot : Slot) : Option Value :=
  ((r.snapshot t).value.get? slot.key).bind (·.get? "remaining_ms")

/-- The milliseconds that an order given at an instant has left at another. -/
def Order.left (o : Order) (given t : Instant) : Nat :=
  Span.millis (deadlineAfter given o.lifetime - t)

variable {orders later : List (Instant × Order)} {a t u : Instant} {o : Order}

theorem nat_inj {m n : Nat} : Value.nat m = Value.nat n ↔ m = n := by
  constructor
  · intro h
    injection h with h
    injection h with h
    exact Int.ofNat.inj h
  · exact congrArg Value.nat

/-- A slot in force is shown with the low word of the milliseconds that its order has left. -/
theorem shownLeft_latest (hlatest : Latest orders a o) (hlt : t < deadlineAfter a o.lifetime) :
    (Rules.afterOrders orders).shownLeft t o.slot = some (.nat (o.left a t % 2 ^ 64)) := by
  rw [Rules.shownLeft, report_latest hlatest hlt]
  show (Value.ofMembers ([("value", o.shown)] ++ [("remaining_ms", _)])).get? "remaining_ms" = _
  rw [Value.get?_ofMembers_snoc, if_pos rfl]
  rfl

/-- What is left is shown as it is exactly if it fits the word. -/
theorem shownLeft_exact_iff (hlatest : Latest orders a o) (hlt : t < deadlineAfter a o.lifetime) :
    (Rules.afterOrders orders).shownLeft t o.slot = some (.nat (o.left a t)) ↔
      o.left a t < 2 ^ 64 := by
  rw [shownLeft_latest hlatest hlt, Option.some_inj, nat_inj]
  constructor
  · intro h
    rw [← h]
    exact Nat.mod_lt _ (by decide)
  · exact Nat.mod_eq_of_lt

/-- As time passes less is left. -/
theorem Order.left_anti (o : Order) (a : Instant) (h : t ≤ u) : o.left a u ≤ o.left a t :=
  Span.millis_mono (Nat.sub_le_sub_left h _)

/-- What is left when an order is given: all its lifetime, or thirty years where that would end
    behind the last instant. -/
theorem left_at_arming (o : Order) (a : Instant) :
    o.left a a =
      if a + o.lifetime ≤ lastInstant then Span.millis o.lifetime else Span.millis farFuture := by
  rw [Order.left, deadlineAfter]
  split
  · rw [Nat.add_sub_cancel_left]
  · rw [Nat.add_sub_cancel_left]

/-- A lifetime of whole seconds fits the word when the order is given, or it ends behind the last
    instant. -/
theorem left_at_arming_fits_iff {n : Nat} (hlife : o.lifetime = Span.ofSeconds n) :
    o.left a a < 2 ^ 64 ↔ n * 1000 < 2 ^ 64 ∨ lastInstant < a + Span.ofSeconds n := by
  rw [left_at_arming, hlife]
  by_cases hfits : a + Span.ofSeconds n ≤ lastInstant
  · rw [if_pos hfits, Span.millis_ofSeconds]
    exact (or_iff_left (Nat.not_lt.mpr hfits)).symm
  · rw [if_neg hfits]
    exact iff_of_true (by decide) (Or.inr (Nat.lt_of_not_le hfits))

/-- An order whose time is all shown as it is when it is given is shown so to its end. -/
theorem shownLeft_exact_of_arming (hlatest : Latest orders a o) (hfits : o.left a a < 2 ^ 64)
    (hle : a ≤ t) (hlt : t < deadlineAfter a o.lifetime) :
    (Rules.afterOrders orders).shownLeft t o.slot = some (.nat (o.left a t)) :=
  (shownLeft_exact_iff hlatest hlt).mpr (Nat.lt_of_le_of_lt (o.left_anti a hle) hfits)

/-- **WHAT IS LEFT IS SHOWN AS A WORD.**  The last order for a slot is shown, as long as it is in
    force, with the low 64 bits of the milliseconds that it has left, and these are what it has
    left exactly if that fits.  From an instant at which it does, what is shown never goes up,
    whatever is ordered for the other slots in between.  A lifetime of whole seconds is shown as
    it is at every instant exactly if its milliseconds fit the word or it would have ended behind
    the last instant. -/
theorem left_is_shown_as_word (hlatest : Latest orders a o) :
    (∀ t < deadlineAfter a o.lifetime,
      (Rules.afterOrders orders).shownLeft t o.slot = some (.nat (o.left a t % 2 ^ 64)) ∧
        ((Rules.afterOrders orders).shownLeft t o.slot = some (.nat (o.left a t)) ↔
          o.left a t < 2 ^ 64)) ∧
      (∀ later t u, Latest later a o → t ≤ u → u < deadlineAfter a o.lifetime →
        o.left a t < 2 ^ 64 →
        ∃ x y, (Rules.afterOrders orders).shownLeft t o.slot = some (.nat x) ∧
          (Rules.afterOrders later).shownLeft u o.slot = some (.nat y) ∧ y ≤ x) ∧
      ∀ n, o.lifetime = Span.ofSeconds n →
        ((∀ t, a ≤ t → t < deadlineAfter a o.lifetime →
            (Rules.afterOrders orders).shownLeft t o.slot = some (.nat (o.left a t))) ↔
          n * 1000 < 2 ^ 64 ∨ lastInstant < a + Span.ofSeconds n) := by
  refine ⟨fun t hlt => ⟨shownLeft_latest hlatest hlt, shownLeft_exact_iff hlatest hlt⟩, ?_, ?_⟩
  · intro later t u hlater hle hlt hfits
    have hless := o.left_anti a hle
    exact ⟨o.left a t, o.left a u,
      (shownLeft_exact_iff hlatest (Nat.lt_of_le_of_lt hle hlt)).mpr hfits,
      (shownLeft_exact_iff hlater hlt).mpr (Nat.lt_of_le_of_lt hless hfits), hless⟩
  · intro n hlife
    rw [← left_at_arming_fits_iff hlife]
    constructor
    · intro hexact
      by_cases hends : a < deadlineAfter a o.lifetime
      · exact (shownLeft_exact_iff hlatest hends).mp (hexact a (Nat.le_refl a) hends)
      · -- a deadline that has come leaves nothing
        rw [Order.left, Nat.sub_eq_zero_of_le (Nat.le_of_not_lt hends)]
        decide
    · intro hfits t hle hlt
      exact shownLeft_exact_of_arming hlatest hfits hle hlt

/-- Ten seconds of downtime at the start, and a delay that is ordered two seconds later. -/
def besideDowntime : List (Instant × Order) :=
  [(startup, .downtime (Span.ofSeconds 10)),
    (startup + Span.ofSeconds 2, .latency (Span.ofMillis 200) (Span.ofSeconds 1))]

/-- Downtime is shown with seven seconds after three and goes down from there; its time is shown
    as it is to its last millisecond, also when the delay has come between. -/
theorem left_is_shown_as_word_downtime :
    (Rules.afterOrders besideDowntime).shownLeft (startup + Span.ofSeconds 3) .downtime =
        some (.nat 7000) ∧
      (∃ x y, (Rules.afterOrders (besideDowntime.take 1)).shownLeft startup .downtime =
          some (.nat x) ∧
        (Rules.afterOrders besideDowntime).shownLeft (startup + Span.ofSeconds 3) .downtime =
          some (.nat y) ∧ y ≤ x) ∧
      (Rules.afterOrders besideDowntime).shownLeft (startup + Span.ofMillis 9999) .downtime =
        some (.nat 1) := by
  have hfirst : Latest (besideDowntime.take 1) startup (.downtime (Span.ofSeconds 10)) :=
    ⟨[], [], rfl, nofun⟩
  have hboth : Latest besideDowntime startup (.downtime (Span.ofSeconds 10)) := by
    refine ⟨[], [_], rfl, ?_⟩
    intro given hg
    rw [List.mem_singleton.mp hg]
    exact nofun
  refine ⟨?_, ?_, ?_⟩
  · exact ((left_is_shown_as_word hboth).1 (startup + Span.ofSeconds 3) (by decide)).1
  · exact (left_is_shown_as_word hfirst).2.1 besideDowntime startup _ hboth (by decide) (by decide)
      (by decide)
  · exact ((left_is_shown_as_word hboth).2.2 10 rfl).mpr (Or.inl (by decide))
      (startup + Span.ofMillis 9999) (by decide) (by decide)

/-- A downtime of more milliseconds than a word counts, which ends long before the last
    instant. -/
def longDowntime : Order := .downtime (Span.ofSeconds 18446744073709552)

theorem latest_longDowntime : Latest [(startup, longDowntime)] startup longDowntime :=
  ⟨[], [], rfl, nofun⟩

/-- **A long downtime is shown short.**  Of all its time a report shows 384 milliseconds when it
    is ordered, and after 385 milliseconds the most that a word can hold. -/
theorem long_downtime_is_shown_short :
    startup + longDowntime.lifetime ≤ lastInstant ∧
      longDowntime.left startup startup = 18446744073709552000 ∧
      (Rules.afterOrders [(startup, longDowntime)]).shownLeft startup .downtime =
        some (.nat 384) ∧
      (Rules.afterOrders [(startup, longDowntime)]).shownLeft (startup + Span.ofMillis 385)
        .downtime = some (.nat 18446744073709551615) := by
  have hfirst : longDowntime.left startup startup % 2 ^ 64 = 384 := by decide
  have hlater : longDowntime.left startup (startup + Span.ofMillis 385) % 2 ^ 64 =
      18446744073709551615 := by decide
  refine ⟨by decide, by decide, ?_, ?_⟩
  · rw [← hfirst]
    exact shownLeft_latest latest_longDowntime (by decide)
  · rw [← hlater]
    exact shownLeft_latest latest_longDowntime (by decide)

end Fault
end Havoc
