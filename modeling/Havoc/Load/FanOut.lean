import Havoc.Load.Worker

/-! # Many workers

    Workers with resources of their own run side by side until one deadline, which is fixed when
    they start.  The run ends when every worker has ended; one that broke off counts as one without
    a resource, and what it did before is not counted. -/

namespace Havoc.Load

/-- Workers that run side by side; a worker's number is its place. -/
structure FanOut where
  deadline : Instant
  workers : List Worker
  deriving DecidableEq, Repr

namespace FanOut

/-- Starts a number of workers. -/
def start (c : Cadence) (workers : Nat) (now : Instant) : Step FanOut :=
  let deadline := deadlineAfter now c.duration
  { state := ⟨deadline, List.replicate workers (.opening (.at deadline) c.interval)⟩
    asks := (List.range workers).map .opening }

/-- The worker that a signal is for. -/
def addressee? : Signal → Option Nat
  | .opened r | .closed r | .jammed r => some r.worker
  | .refused n _ | .broke n | .worked n _ | .crashed n | .rested n => some n
  | .ticked | .lapsed => none

/-- What a signal makes of the workers: it changes the one that it is for. -/
def step (name : String) (f : FanOut) (now : Instant) (signal : Signal) : Option (Step FanOut) := do
  let n ← addressee? signal
  let worker ← f.workers[n]?
  let next ← worker.step name n now signal
  return next.map fun w => { f with workers := f.workers.set n w }

/-- Adds what a worker that has ended did. -/
def tally (r : FanOutReport) : Worker → FanOutReport
  | .done report => { r with cycles := r.cycles + report.cycles, errors := r.errors + report.errors }
  | .failed _ | .broken _ => { r with setupFailures := r.setupFailures + 1 }
  | _ => r

/-- The report of workers that have all ended. -/
def report? (f : FanOut) : Option FanOutReport :=
  if f.workers.all Worker.isOver then
    some (f.workers.foldl tally ⟨f.workers.length, 0, 0, 0⟩)
  else none

end FanOut

end Havoc.Load
