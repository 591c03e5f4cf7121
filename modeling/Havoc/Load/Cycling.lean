import Havoc.Load.Basic

/-! # Cycles of work

    A loop starts a cycle of work whenever the clock is before its deadline, and rests between two
    cycles.  A cycle that fails is counted and the loop goes on; a cycle that breaks off without an
    answer takes the loop with it, and nothing is counted. -/

namespace Havoc.Load

/-- A loop of cycles, at work or at rest. -/
structure Cycling where
  worker : Nat
  started : Instant
  deadline : Instant
  interval : Span
  cycles : Nat := 0
  errors : Nat := 0
  /-- The rest that the loop takes, if it is not at work. -/
  pause : Option Pause := none
  deriving DecidableEq, Repr

/-- Where a loop stands after a signal. -/
inductive Turn where
  /-- It asks for something and goes on. -/
  | on (loop : Cycling) (ask : Ask)
  /-- Its deadline has come. -/
  | ended (loop : Cycling)
  /-- Its cycle has broken off. -/
  | broken (loop : Cycling)
  deriving DecidableEq, Repr

namespace Cycling

/-- The loop before its next cycle: the cycle begins if the clock is before the deadline. -/
def turn (c : Cycling) (now : Instant) : Turn :=
  if now < c.deadline then
    .on { c with cycles := c.cycles + 1, pause := none } (.working c.worker)
  else .ended c

/-- The loop after a cycle: it rests. -/
def rest (c : Cycling) (failed : Bool) (now : Instant) : Turn :=
  let pause := Pause.after now c.interval c.deadline
  .on { c with errors := if failed then c.errors + 1 else c.errors, pause := some pause }
    (.resting c.worker pause)

/-- What a signal makes of the loop; a signal that it does not wait for has no answer. -/
def step (c : Cycling) (now : Instant) : Signal → Option Turn
  | .worked worker failed =>
    if worker = c.worker ∧ c.pause = none then some (c.rest failed now) else none
  | .crashed worker => if worker = c.worker ∧ c.pause = none then some (.broken c) else none
  | .rested worker =>
    match c.pause with
    | some pause =>
      if worker = c.worker ∧ pause.isOver now then some (c.turn now) else none
    | none => none
  | _ => none

/-- The report of a loop that ends at an instant. -/
def report (c : Cycling) (now : Instant) : CycleReport := ⟨c.cycles, c.errors, now - c.started⟩

end Cycling

/-- What the metrics note about a signal to a loop: the failure of a cycle. -/
def failureNotes (label : String) : Signal → List Metric.Note
  | .worked _ true => [.workFailed label]
  | _ => []

/-! ## A loop without a resource -/

/-- A loop that repeats some work of the service itself. -/
inductive Repeat where
  | cycling (loop : Cycling)
  | done (report : CycleReport)
  /-- A cycle broke off, and there is no report. -/
  | broken (loop : Cycling)
  deriving DecidableEq, Repr

namespace Repeat

/-- A loop that stands before its next cycle or at its end. -/
def ofTurn (now : Instant) (notes : List Metric.Note) : Turn → Step Repeat
  | .on loop ask => ⟨.cycling loop, notes, [ask]⟩
  | .ended loop => ⟨.done (loop.report now), notes, []⟩
  | .broken loop => ⟨.broken loop, notes, []⟩

/-- Starts to repeat. -/
def start (c : Cadence) (now : Instant) : Step Repeat :=
  let loop : Cycling :=
    { worker := 0, started := now, deadline := deadlineAfter now c.duration
      interval := c.interval }
  ofTurn now [] (loop.turn now)

/-- What a signal makes of a loop whose failures are noted under a label. -/
def step (label : String) (r : Repeat) (now : Instant) (signal : Signal) : Option (Step Repeat) :=
  match r with
  | cycling loop => (loop.step now signal).map (ofTurn now (failureNotes label signal))
  | done _ | broken _ => none

/-- The report of a loop that has ended. -/
def report? : Repeat → Option CycleReport
  | done report => some report
  | cycling _ | broken _ => none

end Repeat

end Havoc.Load
