import Havoc.Proofs.Service.Attempt
import Havoc.Service.BackendJob

/-! # The fields that a job on a back end uses

    A request for a job on a back end has room for the numbers of every operation, and an
    operation uses some of them.  The others make no difference (`Agree.resolve_eq`): two
    requests that agree on what is used are resolved by the same steps, whatever is written in
    the other fields.

    What a used field comes to is said by `Amount`, and what the numbers of a job are by
    `Numbers`.  The main theorem is `unused_fields_are_ignored`. -/

namespace Havoc.Service

open Havoc.Backend

variable {operation : Operation} {kind : Kind} {p q : BackendOrder} {own : IntRange}
  {raw : RawQuantity} {n : Nat}

/-- Two requests agree on the fields that an operation on a kind of back end uses. -/
structure Agree (operation : Operation) (kind : Kind) (p q : BackendOrder) : Prop where
  maintain : p.maintain = q.maintain
  interval : p.interval = q.interval
  isAsync : p.isAsync = q.isAsync
  records : operation ≠ .connection → kind = .kafka → p.records = q.records
  queries : operation ≠ .connection → kind ≠ .kafka → p.queries = q.queries
  connections : operation ≠ .heavy → p.connections = q.connections
  increase : operation = .connection → p.increase = q.increase

/-- The number of a job that a field comes to: no negative one, and no more than the greatest
    integer of 64 bits.  A negative integer that is written out counts as nothing, and any other
    is kept. -/
structure Amount (own : IntRange) (raw : RawQuantity) (n : Nat) : Prop where
  resolves : ∃ m, Resolves own raw m ∧ n = m.toNat
  small : n < 2 ^ 63
  negative : ∀ m, Quantity.Writes raw m → m < 0 → n = 0
  kept : ∀ m, Quantity.Writes raw m → 0 ≤ m → (n : Int) = m

/-- The numbers of a job: each comes from the field that its operation uses for it, and is zero
    if there is none. -/
structure Numbers (operation : Operation) (kind : Kind) (p : BackendOrder) (job : BackendJob) :
    Prop where
  named : job.operation = operation
  mode : job.mode = .ofAsync p.isAsync
  maintain : Amount maintainRange p.maintain job.maintain
  interval : Amount intervalRange p.interval job.interval
  records : operation ≠ .connection → kind = .kafka →
    Amount BackendJob.perIntervalRange p.records job.perInterval
  queries : operation ≠ .connection → kind ≠ .kafka →
    Amount BackendJob.perIntervalRange p.queries job.perInterval
  connections : operation ≠ .heavy →
    Amount BackendJob.connectionsRange p.connections job.connections
  increase : operation = .connection → Amount BackendJob.increaseRange p.increase job.increase
  noPerInterval : operation = .connection → job.perInterval = 0
  noConnections : operation = .heavy → job.connections = 0
  noIncrease : operation ≠ .connection → job.increase = 0

/-! ## Two requests -/

/-- Requests that agree also agree on the field for the work of a cycle. -/
theorem Agree.perIntervalOf_eq (h : Agree operation kind p q) (hcycles : operation ≠ .connection) :
    BackendJob.perIntervalOf kind p = BackendJob.perIntervalOf kind q := by
  cases kind with
  | kafka => exact h.records hcycles rfl
  | redis => exact h.queries hcycles nofun
  | sql engine => exact h.queries hcycles nofun

/-- Requests that agree are resolved by the same steps. -/
theorem Agree.resolve_eq (h : Agree operation kind p q) :
    BackendJob.resolve operation kind p = BackendJob.resolve operation kind q := by
  rw [BackendJob.resolve, BackendJob.resolve, h.maintain, h.interval, h.isAsync]
  cases operation with
  | heavy =>
      rw [h.perIntervalOf_eq nofun]
  | multiHeavy =>
      rw [h.perIntervalOf_eq nofun, h.connections nofun]
  | connection =>
      rw [h.connections nofun, h.increase rfl]

/-! ## The numbers of a job -/

theorem Amount.of_resolves {m : Int} (hown : Number.FitsInt64 own.low ∧ Number.FitsInt64 own.high)
    (h : Resolves own raw m) : Amount own raw m.toNat := by
  refine ⟨⟨m, h, rfl⟩, ?_, ?_, ?_⟩
  · have hfits := (h.fits hown).2
    omega
  · intro k hwrites hneg
    rw [(resolves_of_writes hwrites).mp h]
    exact Int.toNat_of_nonpos (Int.le_of_lt hneg)
  · intro k hwrites hpos
    rw [(resolves_of_writes hwrites).mp h]
    exact Int.toNat_of_nonneg hpos

theorem gives_amount (hown : Number.FitsInt64 own.low ∧ Number.FitsInt64 own.high) :
    Gives (amount own raw) (Amount own raw) :=
  gives_integer.bind fun _ hm => .return (.of_resolves hown hm)

/-- The field for the work of a cycle depends on the kind of back end. -/
theorem Amount.perIntervalOf (h : Amount own (BackendJob.perIntervalOf kind p) n) :
    (kind = .kafka → Amount own p.records n) ∧ (kind ≠ .kafka → Amount own p.queries n) := by
  cases kind with
  | kafka => exact ⟨fun _ => h, fun hne => absurd rfl hne⟩
  | redis => exact ⟨nofun, fun _ => h⟩
  | sql engine => exact ⟨nofun, fun _ => h⟩

theorem gives_numbers : Gives (BackendJob.resolve operation kind p) (Numbers operation kind p) := by
  refine (gives_amount (by decide)).bind fun maintain hmaintain => ?_
  refine (gives_amount (by decide)).bind fun interval hinterval => ?_
  cases operation with
  | heavy =>
      refine (gives_amount (by decide)).bind fun perInterval hper => .return ?_
      exact ⟨rfl, rfl, hmaintain, hinterval, fun _ => hper.perIntervalOf.1,
        fun _ => hper.perIntervalOf.2, fun hne => absurd rfl hne, nofun, nofun, fun _ => rfl,
        fun _ => rfl⟩
  | multiHeavy =>
      refine (gives_amount (by decide)).bind fun perInterval hper => ?_
      refine (gives_amount (by decide)).bind fun connections hconnections => .return ?_
      exact ⟨rfl, rfl, hmaintain, hinterval, fun _ => hper.perIntervalOf.1,
        fun _ => hper.perIntervalOf.2, fun _ => hconnections, nofun, nofun, nofun, fun _ => rfl⟩
  | connection =>
      refine (gives_amount (by decide)).bind fun connections hconnections => ?_
      refine (gives_amount (by decide)).bind fun increase hincrease => .return ?_
      exact ⟨rfl, rfl, hmaintain, hinterval, fun hne => absurd rfl hne, fun hne => absurd rfl hne,
        fun _ => hconnections, fun _ => hincrease, fun _ => rfl, nofun, fun hne => absurd rfl hne⟩

/-- A ramp reads its seconds as a number of 64 bits with a sign, and a negative one is no time. -/
theorem BackendJob.signedSeconds_eq (h : n < 2 ^ 64) :
    BackendJob.signedSeconds n = if 2 ^ 63 ≤ n then 0 else Span.ofSeconds n := by
  rw [BackendJob.signedSeconds, Nat.mod_eq_of_lt h]
  split
  · next hsmall => rw [if_neg (Nat.not_le.mpr hsmall)]
  · next hlarge =>
      rw [if_pos (Nat.le_of_not_lt hlarge)]
      exact Nat.zero_mul _

/-- **UNUSED FIELDS ARE IGNORED.**  Of two requests that agree on what an operation uses, either
    both give the same job or both the same error, and both take the same words of the stream,
    whatever the other fields write.  The numbers of a job come from the fields that are used,
    and those that no field is used for are zero. -/
theorem unused_fields_are_ignored (operation : Operation) (kind : Kind) :
    (∀ p q, Agree operation kind p q → ∀ w : Words,
      (BackendJob.resolve operation kind p).run w =
        (BackendJob.resolve operation kind q).run w) ∧
    ∀ (p : BackendOrder) (w : Words) (job : BackendJob),
      ((BackendJob.resolve operation kind p).run w).1 = .ok job → Numbers operation kind p job :=
  ⟨fun _ _ h w => by rw [h.resolve_eq], fun _ w job hjob => gives_numbers w job hjob⟩

/-- Three seconds of seven records at a time need neither a number of queries nor one of
    connections, and a negative interval is none. -/
theorem unused_fields_are_ignored_if_bad :
    let number (n : Int) : RawQuantity := .number (.integer n)
    let bad : RawQuantity := .text "BAD"
    let p : BackendOrder :=
      ⟨true, true, "", number 3, number (-1), number 0, number 7, number 0, number 0, true⟩
    let q : BackendOrder := ⟨false, true, "", number 3, number (-1), bad, number 7, bad, bad, true⟩
    let w := Words.seeded 0
    ∃ job, (BackendJob.resolve .heavy .kafka q).run w = (.ok job, w) ∧
      (BackendJob.resolve .heavy .kafka p).run w = (.ok job, w) ∧
      job = ⟨.heavy, 3, 0, 7, 0, 0, .async⟩ ∧ Numbers .heavy .kafka q job := by
  intro number bad p q w
  obtain ⟨hsame, hnumbers⟩ := unused_fields_are_ignored .heavy .kafka
  have hagree : Agree .heavy .kafka p q :=
    ⟨rfl, rfl, rfl, fun _ _ => rfl, fun _ hne => absurd rfl hne, fun hne => absurd rfl hne, nofun⟩
  have hq : (BackendJob.resolve .heavy .kafka q).run w = (.ok ⟨.heavy, 3, 0, 7, 0, 0, .async⟩, w) :=
    rfl
  exact ⟨_, hq, (hsame p q hagree w).trans hq, rfl, hnumbers q w _ (by rw [hq])⟩

end Havoc.Service
