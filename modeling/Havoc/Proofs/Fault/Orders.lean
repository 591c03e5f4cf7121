import Havoc.Fault.Report
import Havoc.Proofs.Fault.Roll
import Havoc.Proofs.Json.Value
import Havoc.Proofs.Number.Order
import Mathlib.Data.List.Induction

/-! # Which orders count

    The four rules are slots, and an order writes one of them over.  So what a slot
    holds after any orders is what the last order for it left there (`Kept.armed_iff`,
    by induction on the orders from the end), and a slot is in force exactly as long
    as that last order has time left, whatever earlier orders for it said.

    All that is read from the rules goes through the same test: the downtime, the
    delay, the two numbers that are drawn and the report agree on which slots are in
    force.  `last_order_counts` says so for any orders at any instants, in time order
    or not. -/

namespace Havoc.Fault

open Havoc.Json

/-- The four slots that orders write. -/
inductive Slot where
  | latency | packetLoss | errorRate | downtime
  deriving DecidableEq, Repr

/-- The name of a slot in reports. -/
def Slot.key : Slot → String
  | latency => "latency_ms"
  | packetLoss => "packet_loss_percent"
  | errorRate => "error_rate"
  | downtime => "downtime"

namespace Order

/-- The slot that an order writes. -/
def slot : Order → Slot
  | latency _ _ => .latency
  | packetLoss _ _ => .packetLoss
  | errorRate _ _ => .errorRate
  | downtime _ => .downtime

/-- The delay that an order asks for. -/
def delay? : Order → Option Span
  | latency delay _ => some delay
  | _ => none

/-- The percentage that an order asks for; no more than all requests can be lost. -/
def percent? : Order → Option Nat
  | packetLoss percent _ => some (min percent 100)
  | _ => none

/-- The share that an order asks for, brought between none and all. -/
def share? : Order → Option Float
  | errorRate rate _ => some (clampShare rate)
  | _ => none

/-- Whether an order asks for downtime. -/
def down? : Order → Option Unit
  | downtime _ => some ()
  | _ => none

/-- The value of an order in reports. -/
def shown : Order → Value
  | latency delay _ => .nat (Span.millisWord delay)
  | packetLoss percent _ => .nat (min percent 100)
  | errorRate rate _ => .float (clampShare rate)
  | downtime _ => .bool true

end Order

/-- The rules after orders that were given one after the other. -/
def Rules.afterOrders (orders : List (Instant × Order)) : Rules :=
  orders.foldl (fun r given => r.obey given.1 given.2) {}

variable {orders : List (Instant × Order)} {a b t : Instant} {o x : Order} {α : Type}

/-! ## The last order for a slot -/

/-- An order was given at an instant and none for its slot after it. -/
def Latest (orders : List (Instant × Order)) (a : Instant) (o : Order) : Prop :=
  ∃ before after, orders = before ++ (a, o) :: after ∧ ∀ given ∈ after, given.2.slot ≠ o.slot

/-- The last order for its slot, as long as its lifetime has not passed. -/
def InForce (orders : List (Instant × Order)) (t : Instant) (o : Order) : Prop :=
  ∃ a, Latest orders a o ∧ t < deadlineAfter a o.lifetime

theorem not_latest_nil : ¬ Latest [] a o := by
  rintro ⟨before, after, heq, -⟩
  exact absurd heq.symm (List.append_ne_nil_of_right_ne_nil before (List.cons_ne_nil _ _))

/-- One more order is the last for its slot, and the other slots keep theirs. -/
theorem latest_snoc :
    Latest (orders ++ [(a, o)]) b x ↔
      if x.slot = o.slot then b = a ∧ x = o else Latest orders b x := by
  constructor
  · rintro ⟨before, after, heq, hlast⟩
    rcases List.eq_nil_or_concat after with rfl | ⟨after, given, rfl⟩
    · obtain ⟨-, hsame⟩ := List.append_inj' heq rfl
      obtain ⟨rfl, rfl⟩ := Prod.mk.inj (List.cons.inj hsame).1
      rw [if_pos rfl]
      exact ⟨rfl, rfl⟩
    · rw [List.concat_eq_append] at heq hlast
      rw [← List.cons_append, ← List.append_assoc] at heq
      obtain ⟨hfront, hsame⟩ := List.append_inj' heq rfl
      have hgiven : given = (a, o) := (List.cons.inj hsame).1.symm
      have hother : o.slot ≠ x.slot := by
        have h := hlast given (List.mem_append_right _ List.mem_cons_self)
        rwa [hgiven] at h
      rw [if_neg hother.symm]
      exact ⟨before, after, hfront, fun g hg => hlast g (List.mem_append_left _ hg)⟩
  · intro h
    split at h
    · obtain ⟨rfl, rfl⟩ := h
      exact ⟨orders, [], rfl, fun _ hg => absurd hg List.not_mem_nil⟩
    · next hother =>
        obtain ⟨before, after, rfl, hlast⟩ := h
        refine ⟨before, after ++ [(a, o)], by rw [List.append_assoc, List.cons_append], ?_⟩
        intro given hg
        rcases List.mem_append.mp hg with hg | hg
        · exact hlast given hg
        · rw [List.mem_singleton.mp hg]
          exact fun h => hother h.symm

theorem inForce_snoc :
    InForce (orders ++ [(a, o)]) t x ↔
      if x.slot = o.slot then x = o ∧ t < deadlineAfter a o.lifetime else InForce orders t x := by
  simp only [InForce, latest_snoc]
  split
  · constructor
    · rintro ⟨_, ⟨rfl, rfl⟩, hlt⟩
      exact ⟨rfl, hlt⟩
    · rintro ⟨rfl, hlt⟩
      exact ⟨a, ⟨rfl, rfl⟩, hlt⟩
  · exact Iff.rfl

/-! ## What a slot holds -/

/-- A part of the rules that the orders for one slot write and no others. -/
structure Kept (field : Rules → Option (Armed α)) (pick : Order → Option α) (slot : Slot) :
    Prop where
  picked : ∀ o, (pick o).isSome = true ↔ o.slot = slot
  fresh : field {} = none
  obeyed : ∀ r a o, field (r.obey a o) =
    ((pick o).map fun v => ⟨v, deadlineAfter a o.lifetime⟩).or (field r)

theorem kept_latency : Kept (·.latency) Order.delay? .latency where
  picked o := by cases o <;> simp [Order.delay?, Order.slot]
  fresh := rfl
  obeyed r a o := by cases o <;> rfl

theorem kept_packetLoss : Kept (·.packetLoss) Order.percent? .packetLoss where
  picked o := by cases o <;> simp [Order.percent?, Order.slot]
  fresh := rfl
  obeyed r a o := by cases o <;> rfl

theorem kept_errorRate : Kept (·.errorRate) Order.share? .errorRate where
  picked o := by cases o <;> simp [Order.share?, Order.slot]
  fresh := rfl
  obeyed r a o := by cases o <;> rfl

theorem kept_downtime : Kept (·.downtime) Order.down? .downtime where
  picked o := by cases o <;> simp [Order.down?, Order.slot]
  fresh := rfl
  obeyed r a o := by cases o <;> rfl

theorem Rules.afterOrders_snoc (orders : List (Instant × Order)) (a : Instant) (o : Order) :
    afterOrders (orders ++ [(a, o)]) = (afterOrders orders).obey a o :=
  List.foldl_append

namespace Kept

variable {field : Rules → Option (Armed α)} {pick : Order → Option α} {slot : Slot} {v : α}

theorem slot_eq (k : Kept field pick slot) (h : pick o = some v) : o.slot = slot :=
  (k.picked o).mp (Option.isSome_of_eq_some h)

/-- A slot holds what the last order for it left there. -/
theorem armed_iff (k : Kept field pick slot) (orders : List (Instant × Order)) (rule : Armed α) :
    field (Rules.afterOrders orders) = some rule ↔
      ∃ a o, Latest orders a o ∧ pick o = some rule.value ∧
        rule.expiry = deadlineAfter a o.lifetime := by
  induction orders using List.reverseRecOn with
  | nil =>
      show field {} = some rule ↔ _
      rw [k.fresh]
      constructor
      · exact nofun
      · rintro ⟨a, o, hlatest, -⟩
        exact absurd hlatest not_latest_nil
  | append_singleton orders given ih =>
      obtain ⟨a, o⟩ := given
      rw [Rules.afterOrders_snoc, k.obeyed]
      simp only [latest_snoc]
      cases hpick : pick o with
      | some v =>
          show some (⟨v, deadlineAfter a o.lifetime⟩ : Armed α) = some rule ↔ _
          constructor
          · intro h
            obtain rfl := Option.some.inj h
            exact ⟨a, o, by rw [if_pos rfl]; exact ⟨rfl, rfl⟩, hpick, rfl⟩
          · rintro ⟨b, x, hlatest, hx, hexpiry⟩
            rw [if_pos ((k.slot_eq hx).trans (k.slot_eq hpick).symm)] at hlatest
            obtain ⟨rfl, rfl⟩ := hlatest
            obtain rfl := Option.some.inj (hpick.symm.trans hx)
            rw [← hexpiry]
      | none =>
          -- The order is for another slot, so it is not the last for this one.
          have hother : ∀ x, pick x = some rule.value → ¬ x.slot = o.slot := by
            intro x hx hsame
            have hsome := (k.picked o).mpr (hsame.symm.trans (k.slot_eq hx))
            rw [hpick] at hsome
            exact nomatch hsome
          show field (Rules.afterOrders orders) = some rule ↔ _
          rw [ih]
          constructor
          · rintro ⟨b, x, hlatest, hx, hexpiry⟩
            exact ⟨b, x, by rw [if_neg (hother x hx)]; exact hlatest, hx, hexpiry⟩
          · rintro ⟨b, x, hlatest, hx, hexpiry⟩
            rw [if_neg (hother x hx)] at hlatest
            exact ⟨b, x, hlatest, hx, hexpiry⟩

/-- What a slot has in force is the last order for it, if that has time left. -/
theorem active_iff (k : Kept field pick slot) (orders : List (Instant × Order)) (t : Instant)
    (now : Active α) :
    active (field (Rules.afterOrders orders)) t = some now ↔
      ∃ a o, Latest orders a o ∧ t < deadlineAfter a o.lifetime ∧ pick o = some now.value ∧
        now.remaining = deadlineAfter a o.lifetime - t := by
  constructor
  · intro h
    cases hrule : field (Rules.afterOrders orders) with
    | none =>
        rw [hrule] at h
        exact nomatch h
    | some rule =>
        obtain ⟨a, o, hlatest, hpick, hexpiry⟩ := (k.armed_iff orders rule).mp hrule
        rw [hrule] at h
        simp only [active] at h
        split at h
        · next hlt =>
            obtain rfl := Option.some.inj h
            rw [hexpiry] at hlt
            exact ⟨a, o, hlatest, hlt, hpick, by rw [← hexpiry]⟩
        · exact nomatch h
  · rintro ⟨a, o, hlatest, hlt, hpick, hleft⟩
    have hrule := (k.armed_iff orders ⟨now.value, deadlineAfter a o.lifetime⟩).mpr
      ⟨a, o, hlatest, hpick, rfl⟩
    rw [hrule]
    simp only [active, if_pos hlt, ← hleft]

theorem value_iff (k : Kept field pick slot) (orders : List (Instant × Order)) (t : Instant)
    (v : α) :
    (active (field (Rules.afterOrders orders)) t).map (·.value) = some v ↔
      ∃ o, InForce orders t o ∧ pick o = some v := by
  rw [Option.map_eq_some_iff]
  constructor
  · rintro ⟨now, hnow, rfl⟩
    obtain ⟨a, o, hlatest, hlt, hpick, -⟩ := (k.active_iff orders t now).mp hnow
    exact ⟨o, ⟨a, hlatest, hlt⟩, hpick⟩
  · rintro ⟨o, ⟨a, hlatest, hlt⟩, hpick⟩
    exact ⟨⟨v, deadlineAfter a o.lifetime - t⟩,
      (k.active_iff orders t _).mpr ⟨a, o, hlatest, hlt, hpick, rfl⟩, rfl⟩

/-- A slot in force is reported with the value and the rest of its last order. -/
theorem report_of_latest (k : Kept field pick slot) (shown : α → Value)
    (hshown : ∀ v, pick o = some v → shown v = o.shown) (hslot : o.slot = slot)
    (hlatest : Latest orders a o) (hlt : t < deadlineAfter a o.lifetime) :
    activeValue shown (active (field (Rules.afterOrders orders)) t) =
      Value.ofMembers [("value", o.shown),
        ("remaining_ms", Value.nat (Span.millisWord (deadlineAfter a o.lifetime - t)))] := by
  obtain ⟨v, hpick⟩ := Option.isSome_iff_exists.mp ((k.picked o).mpr hslot)
  have hactive := (k.active_iff orders t ⟨v, deadlineAfter a o.lifetime - t⟩).mpr
    ⟨a, o, hlatest, hlt, hpick, rfl⟩
  rw [hactive, ← hshown v hpick]
  rfl

/-- A slot that is not in force is reported as nothing. -/
theorem report_of_none (k : Kept field pick slot) (shown : α → Value)
    (hnone : ∀ o, InForce orders t o → o.slot ≠ slot) :
    activeValue shown (active (field (Rules.afterOrders orders)) t) = .null := by
  cases hactive : active (field (Rules.afterOrders orders)) t with
  | none => rfl
  | some now =>
      obtain ⟨a, o, hlatest, hlt, hpick, -⟩ := (k.active_iff orders t now).mp hactive
      exact absurd (k.slot_eq hpick) (hnone o ⟨a, hlatest, hlt⟩)

end Kept

/-! ## What reports show -/

/-- What a report says about a slot. -/
def Snapshot.of (s : Snapshot) : Slot → Value
  | .latency => activeValue (fun d => Value.nat (Span.millisWord d)) s.latency
  | .packetLoss => activeValue Value.nat s.packetLoss
  | .errorRate => activeValue Value.float s.errorRate
  | .downtime => activeValue (fun _ => .bool true) s.downtime

theorem Snapshot.get?_value (s : Snapshot) (slot : Slot) :
    s.value.get? slot.key = some (s.of slot) := by
  have hsnoc : s.value = Value.ofMembers ([] ++ [("latency_ms", s.of .latency)] ++
      [("packet_loss_percent", s.of .packetLoss)] ++ [("error_rate", s.of .errorRate)] ++
      [("downtime", s.of .downtime)]) := rfl
  rw [hsnoc]
  simp only [Value.get?_ofMembers_snoc]
  cases slot <;> simp [Slot.key]

theorem report_latest (hlatest : Latest orders a o) (hlt : t < deadlineAfter a o.lifetime) :
    ((Rules.afterOrders orders).snapshot t).value.get? o.slot.key =
      some (Value.ofMembers [("value", o.shown),
        ("remaining_ms", Value.nat (Span.millisWord (deadlineAfter a o.lifetime - t)))]) := by
  rw [Snapshot.get?_value]
  cases o with
  | latency d L =>
      refine congrArg some
        (kept_latency.report_of_latest (fun d => .nat (Span.millisWord d)) ?_ rfl hlatest hlt)
      rintro v ⟨⟩
      rfl
  | packetLoss p L =>
      refine congrArg some (kept_packetLoss.report_of_latest .nat ?_ rfl hlatest hlt)
      rintro v ⟨⟩
      rfl
  | errorRate y L =>
      refine congrArg some (kept_errorRate.report_of_latest .float ?_ rfl hlatest hlt)
      rintro v ⟨⟩
      rfl
  | downtime L =>
      refine congrArg some (kept_downtime.report_of_latest (fun _ => .bool true) ?_ rfl hlatest hlt)
      intro v _
      rfl

theorem report_none {slot : Slot} (hnone : ∀ o, InForce orders t o → o.slot ≠ slot) :
    ((Rules.afterOrders orders).snapshot t).value.get? slot.key = some .null := by
  rw [Snapshot.get?_value]
  cases slot with
  | latency =>
      exact congrArg some
        (kept_latency.report_of_none (fun d => .nat (Span.millisWord d)) hnone)
  | packetLoss => exact congrArg some (kept_packetLoss.report_of_none .nat hnone)
  | errorRate => exact congrArg some (kept_errorRate.report_of_none .float hnone)
  | downtime => exact congrArg some (kept_downtime.report_of_none (fun _ => .bool true) hnone)

/-! ## Shares -/

/-- A share brought between zero and one, and left as it is where it is so already. -/
structure Clamped (x y : Float) : Prop where
  nonneg : 0.0 ≤ y
  atMost : y ≤ 1.0
  low : x < 0.0 → y = 0.0
  high : 1.0 < x → y = 1.0
  inside : 0.0 ≤ x → x ≤ 1.0 → y = x

theorem clampShare_clamped {x : Float} (hx : x.isNaN = false) : Clamped x (clampShare x) := by
  unfold clampShare
  by_cases hlow : x < 0.0
  · rw [if_pos hlow]
    exact {
      nonneg := Number.le_iff.mpr ⟨.eq, rfl, rfl⟩
      atMost := Number.le_iff.mpr ⟨.lt, rfl, rfl⟩
      low := fun _ => rfl
      high := fun h => absurd hlow (Number.not_lt_zero_of_one_lt h)
      inside := fun h => absurd hlow (Number.not_lt_of_le h) }
  · rw [if_neg hlow]
    by_cases hhigh : 1.0 < x
    · rw [if_pos hhigh]
      exact {
        nonneg := Number.le_iff.mpr ⟨.lt, rfl, rfl⟩
        atMost := Number.le_iff.mpr ⟨.eq, rfl, rfl⟩
        low := fun h => absurd h hlow
        high := fun _ => rfl
        inside := fun _ h => absurd hhigh (Number.not_lt_of_le h) }
    · rw [if_neg hhigh]
      exact {
        nonneg := Number.le_of_not_lt hx rfl hlow
        atMost := Number.le_of_not_lt rfl hx hhigh
        low := fun h => absurd h hlow
        high := fun h => absurd h hhigh
        inside := fun _ _ => rfl }

/-! ## All that is read -/

/-- All that is read from rules at an instant agrees with the orders in force. -/
structure Agrees (orders : List (Instant × Order)) (t : Instant) (r : Rules) : Prop where
  down : r.isDown t = true ↔ ∃ L, InForce orders t (.downtime L)
  delay : ∀ d, r.delay? t = some d ↔ ∃ L, InForce orders t (.latency d L)
  percent : ∀ p, r.percent? t = some p ↔
    ∃ q L, InForce orders t (.packetLoss q L) ∧ p = min q 100
  share : ∀ x, r.share? t = some x ↔
    ∃ y L, InForce orders t (.errorRate y L) ∧ x = clampShare y
  /-- A roll draws against that percentage and that share and against nothing else. -/
  roll : ∀ w, Rolled (r.percent? t) (r.share? t) w (r.roll t w).1 (r.roll t w).2
  shown : ∀ a o, Latest orders a o → t < deadlineAfter a o.lifetime →
    (r.snapshot t).value.get? o.slot.key = some (Value.ofMembers [("value", o.shown),
      ("remaining_ms", Value.nat (Span.millisWord (deadlineAfter a o.lifetime - t)))])
  unshown : ∀ slot : Slot, (∀ o, InForce orders t o → o.slot ≠ slot) →
    (r.snapshot t).value.get? slot.key = some .null

theorem agrees (orders : List (Instant × Order)) (t : Instant) :
    Agrees orders t (Rules.afterOrders orders) where
  down := by
    have hsome : (Rules.afterOrders orders).isDown t = true ↔
        (active (Rules.afterOrders orders).downtime t).map (·.value) = some () := by
      unfold Rules.isDown
      cases active (Rules.afterOrders orders).downtime t <;> simp
    rw [hsome]
    refine (kept_downtime.value_iff orders t ()).trans ?_
    constructor
    · rintro ⟨o, hforce, hpick⟩
      cases o with
      | downtime L => exact ⟨L, hforce⟩
      | _ => exact nomatch hpick
    · rintro ⟨L, hforce⟩
      exact ⟨_, hforce, rfl⟩
  delay d := by
    refine (kept_latency.value_iff orders t d).trans ?_
    constructor
    · rintro ⟨o, hforce, hpick⟩
      cases o with
      | latency d' L =>
          obtain rfl := Option.some.inj hpick
          exact ⟨L, hforce⟩
      | _ => exact nomatch hpick
    · rintro ⟨L, hforce⟩
      exact ⟨_, hforce, rfl⟩
  percent p := by
    refine (kept_packetLoss.value_iff orders t p).trans ?_
    constructor
    · rintro ⟨o, hforce, hpick⟩
      cases o with
      | packetLoss q L => exact ⟨q, L, hforce, (Option.some.inj hpick).symm⟩
      | _ => exact nomatch hpick
    · rintro ⟨q, L, hforce, rfl⟩
      exact ⟨_, hforce, rfl⟩
  share x := by
    refine (kept_errorRate.value_iff orders t x).trans ?_
    constructor
    · rintro ⟨o, hforce, hpick⟩
      cases o with
      | errorRate y L => exact ⟨y, L, hforce, (Option.some.inj hpick).symm⟩
      | _ => exact nomatch hpick
    · rintro ⟨y, L, hforce, rfl⟩
      exact ⟨_, hforce, rfl⟩
  roll := roll_spec _ t
  shown _ _ := report_latest
  unshown _ := report_none

/-- A delay of whole milliseconds is shown as their number. -/
theorem shown_latency {m : Nat} (L : Span) (hm : m < 2 ^ 64) :
    (Order.latency (Span.ofMillis m) L).shown = .nat m := by
  show Value.nat (m * 1000000 / 1000000 % 2 ^ 64) = _
  rw [Nat.mul_div_cancel m (by decide), Nat.mod_eq_of_lt hm]

/-- **THE LAST ORDER FOR A SLOT COUNTS** and no other.  One more order is in force
    until its own deadline and takes the place of every earlier order for its slot,
    even where that would have lasted longer; the other slots stay as they were.  All
    that is read from the rules agrees with this, shares are shown between zero and
    one, and a delay of whole milliseconds is shown as it was ordered. -/
theorem last_order_counts (orders : List (Instant × Order)) (t : Instant) :
    Agrees orders t (Rules.afterOrders orders) ∧
      (∀ o, ¬ InForce [] t o) ∧
      (∀ a o x, InForce (orders ++ [(a, o)]) t x ↔
        if x.slot = o.slot then x = o ∧ t < deadlineAfter a o.lifetime
        else InForce orders t x) ∧
      (∀ x, x.isNaN = false → Clamped x (clampShare x)) ∧
      ∀ m L, m < 2 ^ 64 → (Order.latency (Span.ofMillis m) L).shown = .nat m := by
  refine ⟨agrees orders t, ?_, fun a o x => inForce_snoc, fun _ => clampShare_clamped,
    fun _ => shown_latency⟩
  rintro o ⟨a, hlatest, -⟩
  exact not_latest_nil hlatest

/-- Delays of half a second for ten seconds, and a second later of a fifth of a second
    for one second, with a loss beside them. -/
def shortened : List (Instant × Order) :=
  [(0, .latency (Span.ofMillis 500) (Span.ofSeconds 10)),
    (Span.ofSeconds 1, .latency (Span.ofMillis 200) (Span.ofSeconds 1)),
    (Span.ofSeconds 1, .packetLoss 150 (Span.ofSeconds 5))]

/-- The second delay is in force to its last millisecond, and after it the first does
    not come back, though it would have had time left; the loss stays. -/
theorem last_order_counts_shortened :
    ((Rules.afterOrders shortened).snapshot (Span.ofMillis 1999)).value.get? "latency_ms" =
        some (Value.ofMembers [("value", .nat 200), ("remaining_ms", .nat 1)]) ∧
      (∀ d, (Rules.afterOrders shortened).delay? (Span.ofMillis 2000) ≠ some d) ∧
      Span.ofMillis 2000 < deadlineAfter 0 (Span.ofSeconds 10) ∧
      (Rules.afterOrders shortened).percent? (Span.ofMillis 2000) = some 100 ∧
      Clamped 0.25 (clampShare 0.25) ∧
      (Order.latency (Span.ofMillis 200) (Span.ofSeconds 1)).shown = .nat 200 := by
  refine ⟨?_, ?_, by decide, ?_, ?_, ?_⟩
  · refine (last_order_counts shortened _).1.shown (Span.ofSeconds 1)
      (.latency (Span.ofMillis 200) (Span.ofSeconds 1)) ?_ (by decide)
    refine ⟨[_], [_], rfl, ?_⟩
    intro given hg
    rw [List.mem_singleton.mp hg]
    exact nofun
  · intro d hd
    obtain ⟨L, hforce⟩ := ((last_order_counts shortened _).1.delay d).mp hd
    have hbeside := (last_order_counts (shortened.take 2) (Span.ofMillis 2000)).2.2.1
      (Span.ofSeconds 1) (.packetLoss 150 (Span.ofSeconds 5)) (.latency d L)
    have hsecond := (last_order_counts (shortened.take 1) (Span.ofMillis 2000)).2.2.1
      (Span.ofSeconds 1) (.latency (Span.ofMillis 200) (Span.ofSeconds 1)) (.latency d L)
    rw [if_neg nofun] at hbeside
    simp only [Order.slot, if_true] at hsecond
    exact absurd (hsecond.mp (hbeside.mp hforce)).2 (by decide)
  · exact ((last_order_counts shortened _).1.percent 100).mpr
      ⟨150, Span.ofSeconds 5, ⟨Span.ofSeconds 1, ⟨[_, _], [], rfl, nofun⟩, by decide⟩, rfl⟩
  · exact (last_order_counts [] 0).2.2.2.1 0.25 rfl
  · exact (last_order_counts [] 0).2.2.2.2 200 (Span.ofSeconds 1) (by decide)

end Havoc.Fault
