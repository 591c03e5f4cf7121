import Havoc.Backend.Message
import Havoc.Service.HostStress

/-! # Jobs on back ends

    A job on a back end is one of three operations: cycles on one connection, cycles on many, or
    connections opened step by step.  Only the numbers that an operation uses are resolved. -/

namespace Havoc.Service

open Havoc.Json Havoc.Http Havoc.Backend

/-- What a request for a job on a back end says. -/
structure BackendOrder where
  reads : Bool
  writes : Bool
  messages : String
  maintain : RawQuantity
  interval : RawQuantity
  queries : RawQuantity
  records : RawQuantity
  connections : RawQuantity
  increase : RawQuantity
  isAsync : Bool

/-- The body of a request for a job on a back end. -/
def backendForm : Form BackendOrder :=
  ⟨["reads", "writes", "messages", "maintain_second", "interval_second", "query_per_interval",
      "produce_per_interval", "connection_counts", "increase_per_interval", "async"], fun r => do
    return ⟨← r.flag? "reads", ← r.flag? "writes", ← r.text? "messages",
      ← r.quantity? "maintain_second", ← r.quantity? "interval_second",
      ← r.quantity? "query_per_interval", ← r.quantity? "produce_per_interval",
      ← r.quantity? "connection_counts", ← r.quantity? "increase_per_interval",
      ← r.flag? "async"⟩⟩

/-- The numbers of a job on a back end; those that its operation does not use are zero. -/
structure BackendJob where
  operation : Operation
  maintain : Nat := 0
  interval : Nat := 0
  perInterval : Nat := 0
  connections : Nat := 0
  increase : Nat := 0
  mode : Job.Mode := .sync
  deriving DecidableEq, Repr

namespace BackendJob

/-- The field that tells how much a cycle does. -/
def perIntervalOf (kind : Kind) (p : BackendOrder) : RawQuantity :=
  match kind with
  | .kafka => p.records
  | _ => p.queries

/-- The range of a bare `RANDOM` amount of work in a cycle. -/
def perIntervalRange : IntRange := ownRange 1 100

/-- The range of a bare `RANDOM` number of connections. -/
def connectionsRange : IntRange := ownRange 1 50

/-- The range of a bare `RANDOM` number of connections at a time. -/
def increaseRange : IntRange := ownRange 1 10

/-- Resolves the numbers that an operation uses. -/
def resolve (operation : Operation) (kind : Kind) (p : BackendOrder) : Attempt BackendJob := do
  let maintain ← amount maintainRange p.maintain
  let interval ← amount intervalRange p.interval
  let job : BackendJob := { operation, maintain, interval, mode := .ofAsync p.isAsync }
  match operation with
  | .heavy => return { job with perInterval := ← amount perIntervalRange (perIntervalOf kind p) }
  | .multiHeavy =>
    let perInterval ← amount perIntervalRange (perIntervalOf kind p)
    return { job with perInterval, connections := ← amount connectionsRange p.connections }
  | .connection =>
    let connections ← amount connectionsRange p.connections
    return { job with connections, increase := ← amount increaseRange p.increase }

/-- What the work of a cycle is called. -/
def perIntervalName : Kind → String
  | .kafka => "produce_per_interval"
  | _ => "query_per_interval"

/-- What a caller is told about the job and its record keeps. -/
def params (kind : Kind) (job : BackendJob) : List (String × Value) :=
  let own := match job.operation with
    | .heavy => [count (perIntervalName kind) job.perInterval]
    | .multiHeavy =>
      [count (perIntervalName kind) job.perInterval, count "connection_counts" job.connections]
    | .connection =>
      [count "connection_counts" job.connections, count "increase_per_interval" job.increase]
  count "maintain_second" job.maintain :: count "interval_second" job.interval :: own

/-- What the job is called in messages. -/
def label (kind : Kind) (job : BackendJob) : String :=
  match job.operation, kind with
  | .heavy, .kafka => "Kafka heavy produce"
  | .multiHeavy, .kafka => "Kafka multi heavy produce"
  | .heavy, _ => s!"{kind.displayName} heavy query (single connection)"
  | .multiHeavy, _ => s!"{kind.displayName} multi heavy query"
  | .connection, _ => s!"{kind.displayName} connection stress"

/-- How long the job runs and rests. -/
def cadence (job : BackendJob) : Load.Cadence :=
  ⟨Span.ofSeconds job.maintain, Span.ofSeconds job.interval⟩

/-- A number of 64 bits read with a sign, as seconds; a negative one is no time. -/
def signedSeconds (n : Nat) : Span := Span.ofSeconds (if n % 2 ^ 64 < 2 ^ 63 then n % 2 ^ 64 else 0)

/-- The ramp of a job that opens connections. -/
def plan (job : BackendJob) : Load.Plan :=
  { target := job.connections, increase := job.increase
    interval := signedSeconds job.interval, duration := signedSeconds job.maintain }

/-- The job with its work before it starts. -/
def task (kind : Kind) (job : BackendJob) (work : Work) : Task :=
  { name := s!"{kind.name}_{job.operation.name}", label := job.label kind, mode := job.mode
    params := job.params kind, work }

/-- What the job does to a workload: one with a single connection starts when that is open. -/
def launch (kind : Kind) (job : BackendJob) (workload : Workload) : Answer :=
  match job.operation with
  | .heavy =>
    .connect kind workload fun resource => job.task kind (.drive resource job.cadence workload)
  | .multiHeavy => .job none (job.task kind (.fanOut job.cadence job.connections workload))
  | .connection => .job none (job.task kind (.rampUp job.plan workload))

end BackendJob

/-- A setting, or the problem that there is none. -/
def setting (l : Settings.Lookup α) : Attempt α := do
  match ← (l.run : Draw (Except SettingsError α)) with
  | .ok x => return x
  | .error e => throw (.settings e)

/-- What a job puts under load. -/
def workloadOf (settings : Settings) (kind : Kind) (p : BackendOrder) (job : BackendJob) :
    Attempt Workload := do
  let mix : QueryMix := ⟨p.reads, p.writes, job.perInterval⟩
  match kind with
  | .sql engine => return .sql (← setting (settings.sql engine)) mix
  | .redis => return .redis (← setting settings.redis) mix
  | .kafka =>
    let given := Text.trimmed p.messages
    let message ← if given.isEmpty then (fillerText : Draw String) else pure given
    return .kafka (← setting settings.kafka) message job.perInterval (job.operation = .multiHeavy)

/-- A job on a back end. -/
def backendJob (settings : Settings) (kind : Kind) (operation : Operation) (p : BackendOrder) :
    Attempt Answer := do
  let job ← BackendJob.resolve operation kind p
  let workload ← workloadOf settings kind p job
  return job.launch kind workload

end Havoc.Service
