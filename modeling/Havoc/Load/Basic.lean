import Havoc.Metric.Registry
import Havoc.Time.Clock

/-! # Load

    A job puts a back end under load by opening resources, running cycles of work on them and
    closing them.  The jobs of this library are machines: a machine asks for what it wants next,
    and goes on when a signal tells what came of it.  How long anything takes, what fails and in
    which order signals arrive is decided elsewhere, so a fact about a machine holds for every
    such course of things. -/

namespace Havoc.Load

/-- How long a job runs and how long it rests between cycles. -/
structure Cadence where
  duration : Span
  interval : Span
  deriving DecidableEq, Repr

/-- A rest between two cycles: others get their turn, or the loop sleeps until an instant. -/
inductive Pause where
  | brief
  | until (wake : Instant)
  deriving DecidableEq, Repr

namespace Pause

/-- The rest of one interval, which never goes past the deadline. -/
def after (now : Instant) (interval : Span) (deadline : Instant) : Pause :=
  if interval = 0 then brief else .until (min (deadlineAfter now interval) deadline)

/-- Whether a rest may end at an instant. -/
def isOver : Pause → Instant → Bool
  | brief, _ => true
  | .until wake, now => wake ≤ now

end Pause

/-- A resource of a back end: the worker that it was opened for, and a number that tells it from
    the other resources of the back end. -/
structure Resource where
  worker : Nat
  serial : Nat := 0
  deriving DecidableEq, Repr

/-- What a machine asks for. -/
inductive Ask where
  | opening (worker : Nat)
  | working (worker : Nat)
  | resting (worker : Nat) (pause : Pause)
  /-- The next tick of a ramp, or its deadline. -/
  | ticking (due deadline : Instant)
  /-- The deadline of a ramp. -/
  | lapsing (deadline : Instant)
  | closing (resource : Resource)
  deriving DecidableEq, Repr

/-- What a machine is told. -/
inductive Signal where
  | opened (resource : Resource)
  | refused (worker : Nat) (cause : String)
  /-- Opening a resource broke off without an answer. -/
  | broke (worker : Nat)
  | worked (worker : Nat) (failed : Bool)
  /-- A cycle of work broke off without an answer. -/
  | crashed (worker : Nat)
  | rested (worker : Nat)
  | ticked
  | lapsed
  | closed (resource : Resource)
  /-- Closing a resource broke off without an answer. -/
  | jammed (resource : Resource)
  deriving DecidableEq, Repr

/-- When a timer that is asked for goes off, and what it tells; the other asks are no timers. -/
def Ask.timer? : Ask → Option (Timing × Signal)
  | resting worker .brief => some (.inTurn, .rested worker)
  | resting worker (.until wake) => some (.at wake, .rested worker)
  | ticking due deadline =>
    some (if due ≤ deadline then (.at due, .ticked) else (.at deadline, .lapsed))
  | lapsing deadline => some (.at deadline, .lapsed)
  | opening _ | working _ | closing _ => none

/-- What a signal makes of a machine: its next state, what the metrics take note of, and what it
    asks for, in this order. -/
structure Step (α : Type) where
  state : α
  notes : List Metric.Note := []
  asks : List Ask := []
  deriving Repr

/-- The same step of a machine that contains this one. -/
def Step.map (f : α → β) (s : Step α) : Step β := ⟨f s.state, s.notes, s.asks⟩

/-- The report of a loop. -/
structure CycleReport where
  cycles : Nat
  errors : Nat
  elapsed : Span
  deriving DecidableEq, Repr

/-- The report of many workers. -/
structure FanOutReport where
  workers : Nat
  setupFailures : Nat
  cycles : Nat
  errors : Nat
  deriving DecidableEq, Repr

/-- The report of a ramp. -/
structure RampReport where
  opened : Nat
  failed : Nat
  peak : Nat
  elapsed : Span
  deriving DecidableEq, Repr

end Havoc.Load
