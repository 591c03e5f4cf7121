import Havoc.Number.Digits

/-! # Statements of a job

    A cycle of a job on a queryable back end issues rounds of a read and a write.  A statement
    that fails does not stop the cycle; a cycle with failures fails with their number. -/

namespace Havoc.Backend

/-- A statement that a job issues. -/
inductive Statement where
  | read | write
  deriving DecidableEq, Repr

/-- What one cycle of a job issues. -/
structure QueryMix where
  reads : Bool
  writes : Bool
  queries : Nat
  deriving DecidableEq, Repr

/-- How many statements were issued and how many of them failed. -/
structure Tally where
  issued : Nat := 0
  failed : Nat := 0
  deriving DecidableEq, Repr

/-- The tally with one more statement.  The counters have 64 bits and start over after the
    last of their numbers. -/
def Tally.record (t : Tally) (failed : Bool) : Tally :=
  ⟨(t.issued + 1) % 2 ^ 64, if failed then (t.failed + 1) % 2 ^ 64 else t.failed⟩

/-- What a cycle with failures tells. -/
def Tally.message (t : Tally) : String := s!"{t.failed} of {t.issued} statements failed"

namespace QueryMix

/-- The statements of one round. -/
def round (m : QueryMix) : List Statement :=
  (if m.reads then [.read] else []) ++ (if m.writes then [.write] else [])

/-- Issues statements one after the other; `issue` tells whether one failed. -/
def issueAll (issue : Statement → σ → Bool × σ) : List Statement → Tally × σ → Tally × σ
  | [], state => state
  | x :: rest, (t, s) =>
    let (failed, s) := issue x s
    issueAll issue rest (t.record failed, s)

/-- Issues rounds of statements one after the other. -/
def issueRounds (issue : Statement → σ → Bool × σ) (m : QueryMix) : Nat → Tally × σ → Tally × σ
  | 0, state => state
  | n + 1, state => issueRounds issue m n (issueAll issue m.round state)

/-- Runs one cycle: it fails with a message if any of its statements failed. -/
def run (m : QueryMix) (issue : Statement → σ → Bool × σ) (s : σ) : Except String Unit × σ :=
  let (t, s) := issueRounds issue m m.queries ({}, s)
  (if 0 < t.failed then .error t.message else .ok (), s)

end QueryMix

end Havoc.Backend
