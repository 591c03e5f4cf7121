import Havoc.Json.Value
import Havoc.Load.FanOut
import Havoc.Load.Ramp

/-! # The shapes of a job

    A running job keeps something up for a while, repeats a chore, or puts a workload under load
    with one worker, with many, or in a ramp.  Each is a machine of its own; here they become one,
    with one step and one way to end. -/

namespace Havoc.Load

open Havoc.Json

/-- The report of a loop as a document; times are in milliseconds. -/
def CycleReport.value (r : CycleReport) : Value := Value.ofMembers
  [("cycles", .nat r.cycles), ("errors", .nat r.errors), ("elapsed", .nat r.elapsed.millisWord)]

/-- The report of many workers as a document. -/
def FanOutReport.value (r : FanOutReport) : Value := Value.ofMembers
  [("workers", .nat r.workers), ("setup_failures", .nat r.setupFailures),
    ("cycles", .nat r.cycles), ("errors", .nat r.errors)]

/-- The report of a ramp as a document; times are in milliseconds. -/
def RampReport.value (r : RampReport) : Value := Value.ofMembers
  [("opened", .nat r.opened), ("failed", .nat r.failed), ("peak", .nat r.peak),
    ("elapsed", .nat r.elapsed.millisWord)]

/-- A running job. -/
inductive Shape where
  /-- Something has to be had before it can be kept up for a while. -/
  | taking (span : Span) (report : Value)
  /-- Something is kept up until an instant. -/
  | keeping (wake : Instant) (report : Value)
  /-- It was kept up. -/
  | kept (report : Value)
  /-- It could not be had. -/
  | missed (cause : String)
  | repeating (loop : Repeat)
  | single (worker : Worker)
  | many (workers : FanOut)
  | ramping (ramp : Ramp)

namespace Shape

/-- Keeps something up for a while. -/
def keep (span : Span) (report : Value) (now : Instant) : Step Shape :=
  let wake := deadlineAfter now span
  { state := keeping wake report, asks := [.lapsing wake] }

/-- Gets hold of something to keep it up for a while. -/
def take (span : Span) (report : Value) : Step Shape :=
  { state := taking span report, asks := [.opening 0] }

/-- What a signal makes of a job whose events are noted under a name. -/
def step (name : String) (s : Shape) (now : Instant) (signal : Signal) : Option (Step Shape) :=
  match s with
  | taking span report =>
    match signal with
    | .opened ⟨0, _⟩ => some (keep span report now)
    | .refused 0 cause => some { state := missed cause }
    | _ => none
  | keeping wake report =>
    if signal = .lapsed ∧ wake ≤ now then some { state := kept report } else none
  | kept _ | missed _ => none
  | repeating loop => (loop.step name now signal).map (·.map repeating)
  | single worker => (worker.step name 0 now signal).map (·.map single)
  | many workers => (workers.step name now signal).map (·.map many)
  | ramping ramp => (ramp.step name now signal).map (·.map ramping)

/-- What came of a job that has ended: its report, or why it could not begin.  A job that has
    broken off comes to nothing, and nothing is heard of it any more. -/
def outcome? : Shape → Option (Except String Value)
  | taking .. | keeping .. => none
  | kept report => some (.ok report)
  | missed cause => some (.error cause)
  | repeating loop => loop.report?.map fun r => .ok r.value
  | single (.done report) => some (.ok report.value)
  | single (.failed (some cause)) => some (.error cause)
  | single _ => none
  | many workers => workers.report?.map fun r => .ok r.value
  | ramping ramp => ramp.report?.map fun r => .ok r.value

end Shape

end Havoc.Load
