import Havoc.Backend.Statement

/-! # What a cycle issues

    A cycle on a queryable back end issues its rounds to the end, whichever statements fail, and
    counts the failures.

    The route: `Issued` says what a connection goes through, with the outcome of each statement;
    `issueAll_issued` and `issueRounds_issued` say that the loops go through the planned
    statements, by induction along them, and `Tally.recordAll_eq` that the counters are exact as
    long as they fit.  The main result is `QueryMix.run_issued`. -/

namespace Havoc.Backend

variable {σ : Type} {issue : Statement → σ → Bool × σ} {s s' s'' : σ}
  {xs ys : List (Statement × Bool)}

/-- Statements are issued to a connection one after the other, and each fails or does not. -/
inductive Issued (issue : Statement → σ → Bool × σ) : σ → List (Statement × Bool) → σ → Prop
  | nil {s : σ} : Issued issue s [] s
  | cons {s s' s'' : σ} {x : Statement} {failed : Bool} {rest : List (Statement × Bool)} :
      issue x s = (failed, s') → Issued issue s' rest s'' →
      Issued issue s ((x, failed) :: rest) s''

theorem Issued.append (hx : Issued issue s xs s') (hy : Issued issue s' ys s'') :
    Issued issue s (xs ++ ys) s'' := by
  induction hx with
  | nil => exact hy
  | cons hissue _ ih => exact .cons hissue (ih hy)

/-! ## What is counted -/

/-- How many statements have failed. -/
def failedAmong (xs : List (Statement × Bool)) : Nat := xs.countP Prod.snd

/-- What a cycle comes to that has issued some statements. -/
def verdict (xs : List (Statement × Bool)) : Except String Unit :=
  if failedAmong xs = 0 then .ok () else .error s!"{failedAmong xs} of {xs.length} statements failed"

/-- A cycle fails if any of its statements does. -/
theorem isNone_verdict (xs : List (Statement × Bool)) :
    (verdict xs).toOption.isNone = decide (0 < failedAmong xs) := by
  rw [verdict]
  split
  · next hnone =>
      rw [hnone]
      rfl
  · next hsome =>
      rw [decide_eq_true (Nat.pos_of_ne_zero hsome)]
      rfl

namespace Tally

variable {t : Tally}

/-- A tally after some more statements. -/
def recordAll (t : Tally) (xs : List (Statement × Bool)) : Tally :=
  xs.foldl (fun t x => t.record x.2) t

theorem recordAll_append (t : Tally) (xs ys : List (Statement × Bool)) :
    t.recordAll (xs ++ ys) = (t.recordAll xs).recordAll ys := List.foldl_append

theorem record_eq (failed : Bool) (hle : t.failed ≤ t.issued) (hroom : t.issued + 1 < 2 ^ 64) :
    t.record failed = ⟨t.issued + 1, t.failed + failed.toNat⟩ := by
  rw [record, Nat.mod_eq_of_lt hroom, Nat.mod_eq_of_lt (by omega)]
  cases failed with
  | true => rfl
  | false => rfl

/-- The counters are exact if there is room for all statements. -/
theorem recordAll_eq (hle : t.failed ≤ t.issued) (hroom : t.issued + xs.length < 2 ^ 64) :
    t.recordAll xs = ⟨t.issued + xs.length, t.failed + failedAmong xs⟩ := by
  induction xs generalizing t with
  | nil => rfl
  | cons x rest ih =>
      obtain ⟨x, failed⟩ := x
      rw [List.length_cons] at hroom
      have hrecord := record_eq failed hle (by omega)
      have hone : failed.toNat ≤ 1 := Bool.toNat_le failed
      have hfailed : failedAmong ((x, failed) :: rest) = failedAmong rest + failed.toNat := by
        rw [failedAmong, List.countP_cons]
        cases failed with
        | true => rfl
        | false => rfl
      show (t.record failed).recordAll rest = _
      rw [hrecord, ih (by dsimp only; omega) (by dsimp only; omega), hfailed, List.length_cons]
      congr 1
      · dsimp only
        omega
      · dsimp only
        omega

end Tally

/-! ## The loops -/

namespace QueryMix

variable {m : QueryMix}

/-- The statements that a cycle is to issue, in order. -/
def plan (m : QueryMix) : List Statement :=
  (List.replicate m.queries
    ((if m.reads then [.read] else []) ++ (if m.writes then [.write] else []))).flatten

/-- How many statements a cycle is to issue. -/
def total (m : QueryMix) : Nat := m.queries * (m.reads.toNat + m.writes.toNat)

theorem length_plan (m : QueryMix) : m.plan.length = m.total := by
  have hround : ((if m.reads then [Statement.read] else []) ++
      (if m.writes then [Statement.write] else [])).length = m.reads.toNat + m.writes.toNat := by
    cases m.reads <;> cases m.writes <;> rfl
  rw [plan, total, List.length_flatten, List.map_replicate, List.sum_replicate_nat, hround]

/-- Statements are issued in order and none is left out. -/
theorem issueAll_issued (issue : Statement → σ → Bool × σ) (statements : List Statement)
    (t : Tally) (s : σ) :
    ∃ xs s', Issued issue s xs s' ∧ xs.map Prod.fst = statements ∧
      issueAll issue statements (t, s) = (t.recordAll xs, s') := by
  induction statements generalizing t s with
  | nil => exact ⟨[], s, .nil, rfl, rfl⟩
  | cons x rest ih =>
      obtain ⟨xs, s', hissued, hmap, hrest⟩ := ih (t.record (issue x s).1) (issue x s).2
      exact ⟨(x, (issue x s).1) :: xs, s', .cons rfl hissued, by rw [List.map_cons, hmap], hrest⟩

/-- Rounds are issued in order and none is left out. -/
theorem issueRounds_issued (issue : Statement → σ → Bool × σ) (m : QueryMix) (n : Nat)
    (t : Tally) (s : σ) :
    ∃ xs s', Issued issue s xs s' ∧ xs.map Prod.fst = (List.replicate n m.round).flatten ∧
      issueRounds issue m n (t, s) = (t.recordAll xs, s') := by
  induction n generalizing t s with
  | zero => exact ⟨[], s, .nil, rfl, rfl⟩
  | succ n ih =>
      obtain ⟨xs, s', hissued, hmap, hround⟩ := issueAll_issued issue m.round t s
      obtain ⟨ys, s'', hissued', hmap', hrest⟩ := ih (t.recordAll xs) s'
      refine ⟨xs ++ ys, s'', hissued.append hissued', ?_, ?_⟩
      · rw [List.map_append, hmap, hmap', List.replicate_succ, List.flatten_cons]
      · rw [issueRounds, hround, hrest, Tally.recordAll_append]

/-- A cycle issues all that is planned, whichever statements fail; it succeeds if none does, and
    else tells how many of them failed. -/
theorem run_issued (issue : Statement → σ → Bool × σ) (s : σ) (hroom : m.total < 2 ^ 64) :
    ∃ xs s', Issued issue s xs s' ∧ xs.map Prod.fst = m.plan ∧
      m.run issue s = (verdict xs, s') := by
  obtain ⟨xs, s', hissued, hmap, hrounds⟩ := issueRounds_issued issue m m.queries {} s
  have hlength : xs.length = m.total := by
    rw [← length_plan, plan, ← round, ← hmap, List.length_map]
  have htally : Tally.recordAll {} xs = ⟨xs.length, failedAmong xs⟩ := by
    rw [Tally.recordAll_eq (Nat.le_refl 0) (by dsimp only; omega)]
    simp only [Nat.zero_add]
  refine ⟨xs, s', hissued, hmap, ?_⟩
  simp only [run, hrounds, htally, Tally.message, verdict]
  by_cases hnone : failedAmong xs = 0
  · rw [if_neg (Nat.not_lt.mpr (Nat.le_of_eq hnone)), if_pos hnone]
  · rw [if_pos (Nat.pos_of_ne_zero hnone), if_neg hnone]

end QueryMix

end Havoc.Backend
