import Havoc.Load.Basic

/-! # Scripted workloads

    A scripted workload is a back end that does what it is told: how long its operations take and
    which of them fail is written down by the numbers of the operations, and everything that
    happens to it is written into a trace. -/

namespace Havoc.Load

/-- What a scripted workload does; operations are numbered from one. -/
structure Script where
  /-- How long openings take, in milliseconds and in turn. -/
  openMs : List Nat := []
  /-- How long cycles take, in milliseconds and in turn. -/
  workMs : List Nat := []
  /-- How long a closing takes, in milliseconds. -/
  closeMs : Nat := 0
  breakOpen : List Nat := []
  failOpen : List Nat := []
  failOpenEvery : Nat := 0
  failWork : List Nat := []
  failWorkEvery : Nat := 0
  failWorkers : List Nat := []
  deriving Repr

/-- Something that happened to a scripted workload. -/
structure Incident where
  millis : Nat
  worker : Nat
  text : String
  deriving Repr

/-- The text of an incident. -/
def Incident.line (i : Incident) : String := s!"{i.millis} #{i.worker} {i.text}"

/-- What has happened to a scripted workload. -/
structure Trace where
  attempts : Nat := 0
  /-- The number of cycles of each worker that had any. -/
  cycles : List (Nat × Nat) := []
  held : Nat := 0
  peak : Nat := 0
  /-- The workers of closed resources, the last first. -/
  closed : List Nat := []
  /-- The last incident first. -/
  incidents : List Incident := []
  deriving Repr

namespace Script

/-- The entry of a list that is gone through again and again, for the `n`th operation. -/
def inTurn (xs : List Nat) (n : Nat) : Span := Span.ofMillis (xs.getD ((n - 1) % xs.length) 0)

/-- Whether the `n`th operation is one of every `k`. -/
def isEvery (k n : Nat) : Bool := k ≠ 0 && n % k = 0

/-- What the `n`th opening comes to, and how long it takes. -/
def openCourse (s : Script) (worker n : Nat) : Span × Signal :=
  (inTurn s.openMs n,
    if s.breakOpen.contains n then .broke worker
    else if s.failOpen.contains n || isEvery s.failOpenEvery n then
      .refused worker "connection refused"
    else .opened ⟨worker, n⟩)

/-- What the `n`th cycle of a worker comes to, and how long it takes. -/
def workCourse (s : Script) (worker n : Nat) : Span × Signal :=
  (inTurn s.workMs n,
    .worked worker
      (s.failWork.contains n || isEvery s.failWorkEvery n || s.failWorkers.contains worker))

end Script

namespace Trace

/-- Writes an incident down. -/
def log (t : Trace) (now : Instant) (worker : Nat) (text : String) : Trace :=
  { t with incidents := ⟨Span.millis (now - startup), worker, text⟩ :: t.incidents }

/-- Begins an operation of a scripted workload: how long it takes, what it comes to and its
    number.  The beginning of a cycle is an incident. -/
def start (s : Script) (t : Trace) (now : Instant) : Ask → Option (Span × Signal × Nat) × Trace
  | .opening worker =>
    let n := t.attempts + 1
    let (span, signal) := s.openCourse worker n
    (some (span, signal, n), { t with attempts := n })
  | .working worker =>
    let n := (t.cycles.lookup worker).getD 0 + 1
    let (span, signal) := s.workCourse worker n
    let t := t.log now worker s!"work {n}"
    (some (span, signal, n),
      { t with cycles := (worker, n) :: t.cycles.filter fun c => c.1 ≠ worker })
  | .closing resource => (some (Span.ofMillis s.closeMs, .closed resource, 0), t)
  | _ => (none, t)

/-- Writes down how an operation with a number ended. -/
def settle (t : Trace) (now : Instant) (n : Nat) : Signal → Trace
  | .opened resource =>
    let t := t.log now resource.worker s!"open {n}"
    { t with held := t.held + 1, peak := max t.peak (t.held + 1) }
  | .refused worker _ => t.log now worker s!"refused {n}"
  | .broke worker => t.log now worker s!"panic {n}"
  | .closed resource =>
    let t := t.log now resource.worker "close"
    { t with held := t.held - 1, closed := resource.worker :: t.closed }
  | _ => t

/-- The incidents in the order of their times and workers. -/
def incidentsInOrder (t : Trace) : List Incident :=
  t.incidents.reverse.mergeSort fun a b => a.millis < b.millis || (a.millis = b.millis && a.worker ≤ b.worker)

end Trace

end Havoc.Load
