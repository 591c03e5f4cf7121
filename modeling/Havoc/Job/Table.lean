import Havoc.Job.Id
import Havoc.Json.Value
import Havoc.Time.Calendar

/-! # The table of jobs

    Every job has a record from its start on.  Finishing marks the record with the next number of
    finished jobs, and then takes records away until at most `capacity` finished ones are left,
    those with the lowest numbers first.  The three steps of finishing are separate functions,
    because other jobs may start and finish between them. -/

namespace Havoc.Job

/-- Whether a caller waits for a job. -/
inductive Mode where
  | sync | async
  deriving DecidableEq, Repr

/-- The name of a mode. -/
def Mode.name : Mode → String
  | sync => "sync"
  | async => "async"

/-- The mode of a request. -/
def Mode.ofAsync (isAsync : Bool) : Mode := if isAsync then async else sync

/-- How far a job is. -/
inductive Status where
  | running
  | completed
  | failed (error : String)
  deriving DecidableEq, Repr

/-- What is known about a job. -/
structure Record where
  id : Id
  name : String
  mode : Mode
  params : Json.Value
  status : Status
  startedAt : Moment
  finishedAt : Option Moment
  report : Option Json.Value
  /-- The number of finished jobs when this one finished. -/
  finishNumber : Option Nat

/-- How a job ended: with a report, or with the text of an error. -/
abbrev Outcome := Except String Json.Value

/-- The finished records that are kept. -/
def capacity : Nat := 512

/-- The records of jobs, the newest last. -/
structure Table where
  records : List Record := []
  /-- How many jobs have finished. -/
  finished : Nat := 0

/-- How many records there are of each kind. -/
structure Counts where
  running : Nat
  finished : Nat
  deriving DecidableEq, Repr

namespace Record

/-- Whether the job is still running. -/
def isRunning (r : Record) : Bool := r.status = .running

/-- The record of a job that has ended. -/
def finish (r : Record) (number : Nat) (now : Moment) (outcome : Outcome) : Record :=
  match outcome with
  | .ok report =>
    { r with
      finishedAt := some now, finishNumber := some number, status := .completed,
      report := some report }
  | .error e =>
    { r with finishedAt := some now, finishNumber := some number, status := .failed e }

end Record

namespace Table

/-- Adds the record of a new job. -/
def start (t : Table) (id : Id) (name : String) (mode : Mode) (params : Json.Value) (now : Moment) :
    Table :=
  { t with records := t.records ++
    [{ id, name, mode, params, status := .running, startedAt := now, finishedAt := none,
       report := none, finishNumber := none }] }

/-- The record of a job. -/
def get? (t : Table) (id : Id) : Option Record := t.records.find? fun r => r.id = id

/-- Marks a job as ended and takes the next number; a job without a record changes nothing. -/
def mark (t : Table) (id : Id) (now : Moment) (outcome : Outcome) : Table :=
  if (t.get? id).isSome then
    { records := t.records.map fun r =>
        if r.id = id then r.finish t.finished now outcome else r
      finished := t.finished + 1 }
  else t

/-- Finish numbers with one more, in increasing order. -/
def insertNumber (x : Nat × Id) : List (Nat × Id) → List (Nat × Id)
  | [] => [x]
  | y :: rest => if x.1 ≤ y.1 then x :: y :: rest else y :: insertNumber x rest

/-- The finished jobs among records, the first to finish first. -/
def finishedOf (records : List Record) : List (Nat × Id) :=
  (records.filterMap fun r => r.finishNumber.map (·, r.id)).foldr insertNumber []

/-- The jobs to take away so that at most `capacity` finished ones of these records are left. -/
def excess (records : List Record) : List Id :=
  let done := finishedOf records
  (done.take (done.length - capacity)).map (·.2)

/-- Takes a record away. -/
def remove (t : Table) (id : Id) : Table :=
  { t with records := t.records.filter fun r => r.id ≠ id }

/-- Takes away the finished records beyond the capacity. -/
def evict (t : Table) : Table := (excess t.records).foldl remove t

/-- Ends a job. -/
def finish (t : Table) (id : Id) (now : Moment) (outcome : Outcome) : Table :=
  (t.mark id now outcome).evict

/-- Every record, the newest first. -/
def list (t : Table) : List Record := t.records.reverse

/-- How many records there are of each kind. -/
def counts (t : Table) : Counts :=
  ⟨t.records.countP Record.isRunning, t.records.countP fun r => !r.isRunning⟩

end Table

/-! ## Documents -/

open Havoc.Json

/-- The status of a job as a document. -/
def Status.value : Status → Value
  | running => Value.ofMembers [("state", .text "running")]
  | completed => Value.ofMembers [("state", .text "completed")]
  | failed e => Value.ofMembers [("state", .text "failed"), ("error", .text e)]

/-- A record as a document. -/
def Record.value (r : Record) : Value := Value.ofMembers <|
  [("id", .text r.id.text), ("name", .text r.name), ("mode", .text r.mode.name),
    ("params", r.params), ("status", r.status.value), ("started_at", .text r.startedAt.precise),
    ("finished_at", r.finishedAt.elim .null fun t => .text t.precise)] ++
  r.report.elim [] fun report => [("report", report)]

/-- The counts as a document. -/
def Counts.value (c : Counts) : Value := Value.ofMembers
  [("running", Value.nat c.running), ("finished", Value.nat c.finished)]

end Havoc.Job
