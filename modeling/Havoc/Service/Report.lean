import Havoc.Fault.Report
import Havoc.Job.Table

/-! # The report on the service

    How busy the host is, which faults are in force and how many jobs there are. -/

namespace Havoc.Service

open Havoc.Json

/-- What the host tells about itself. -/
structure Host where
  load : Float := 0.0
  totalBytes : Nat := 0
  usedBytes : Nat := 0

/-- The percentage of the memory that is in use. -/
def Host.usedPercent (h : Host) : Float :=
  if h.totalBytes = 0 then 0.0
  else Number.ofNat h.usedBytes * 100.0 / Number.ofNat h.totalBytes

/-- The memory of the host as a document. -/
def Host.memory (h : Host) : Value := Value.ofMembers
  [("total_bytes", .nat h.totalBytes), ("used_bytes", .nat h.usedBytes),
    ("percent", .float h.usedPercent)]

/-- The report on the service. -/
def systemReport (host : Host) (faults : Fault.Snapshot) (jobs : Job.Counts) : Value :=
  Value.ofMembers
    [("cpu_load", .float host.load), ("memory_usage", host.memory),
      ("stress_tests", faults.value), ("jobs", jobs.value)]

/-- The list of the jobs, the newest first. -/
def jobList (table : Job.Table) : Value := Value.ofMembers
  [("jobs", .array (table.list.map Job.Record.value)), ("counts", table.counts.value)]

end Havoc.Service
