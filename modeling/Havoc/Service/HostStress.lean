import Havoc.Service.Task

/-! # Stress on the host

    Jobs that keep the processor, the memory, the disk and the log of the service's own host busy,
    and the end of the service itself. -/

namespace Havoc.Service

open Havoc.Json Havoc.Http

/-- A number of seconds as a span; a negative one is no time. -/
def secondsOf (n : Int) : Span := Span.ofSeconds n.toNat

/-- A field of parameters with a whole number. -/
def count (name : String) (n : Nat) : String × Value := (name, .nat n)

/-! ## The processor -/

/-- What a request for a busy processor says. -/
structure CpuOrder where
  percent : RawQuantity
  maintain : RawQuantity
  isAsync : Bool

/-- The body of a request for a busy processor. -/
def cpuForm : Form CpuOrder :=
  ⟨["cpu_percent", "maintain_second", "async"], fun r => do
    return ⟨← r.quantity? "cpu_percent", ← r.quantity? "maintain_second", ← r.flag? "async"⟩⟩

/-- The milliseconds of one cycle of a busy processor. -/
def cpuCycle : Nat := 100

/-- A job that keeps a processor busy for a percentage of every cycle. -/
def cpu (p : CpuOrder) : Attempt Answer := do
  let percent := min (← amount (ownRange 1 101) p.percent) 100
  let maintain ← integer maintainRange p.maintain
  return .job none {
    name := "cpu", label := "cpu stress", mode := .ofAsync p.isAsync
    params := [count "chosen_cpu_percent" percent, count "maintain_second" maintain.toNat]
    work := .repeats ⟨secondsOf maintain, Span.ofMillis (cpuCycle - percent)⟩ .burn }

/-! ## Memory -/

/-- What a request for memory says. -/
structure MemoryOrder where
  size : RawQuantity
  maintain : RawQuantity
  isAsync : Bool

/-- The body of a request for memory, whose size stands under a name. -/
def memoryForm (sizeName : String) : Form MemoryOrder :=
  ⟨[sizeName, "maintain_second", "async"], fun r => do
    return ⟨← r.quantity? sizeName, ← r.quantity? "maintain_second", ← r.flag? "async"⟩⟩

/-- The bytes of a number of mebibytes, if they can be counted with 64 bits. -/
def mebibytes (name : String) (mib : Nat) : Except Problem Nat :=
  if mib * 2 ^ 20 < 2 ^ 64 then .ok (mib * 2 ^ 20)
  else .error (.invalidPayload s!"{name} is too large: {mib} MiB")

/-- A job that takes memory and keeps it for a while. -/
def memory (p : MemoryOrder) : Attempt Answer := do
  let mib ← amount (ownRange 1 101) p.size
  let maintain ← integer maintainRange p.maintain
  let bytes ← mebibytes "memory_percent" mib
  return .job none {
    name := "memory", label := "memory stress", mode := .ofAsync p.isAsync
    params := [count "chosen_memory_percent" mib, count "maintain_second" maintain.toNat]
    work := .keepMemory bytes (secondsOf maintain) }

/-- The milliseconds between two growths of a leak. -/
def leakTick : Nat := 500

/-- In how many parts a leak of some duration grows. -/
def leakParts (duration : Span) : Nat := max (duration.millis / leakTick) 1 % 2 ^ 64

/-- A job that takes memory bit by bit and never gives it back. -/
def memoryLeak (p : MemoryOrder) : Attempt Answer := do
  let mib ← amount (ownRange 1 101) p.size
  let maintain ← integer maintainRange p.maintain
  let bytes ← mebibytes "leak_size_mb" mib
  let duration := secondsOf maintain
  return .job none {
    name := "memory_leak", label := "memory leak simulation", mode := .ofAsync p.isAsync
    params := [count "chosen_leak_size_mb" mib, count "maintain_second" maintain.toNat]
    work := .repeats ⟨duration, Span.ofMillis leakTick⟩ (.leak (bytes / leakParts duration)) }

/-! ## The disk -/

/-- What a request to write files says. -/
structure FileWriteOrder where
  size : RawQuantity
  count : RawQuantity
  maintain : RawQuantity
  interval : RawQuantity
  isAsync : Bool

/-- The body of a request to write files. -/
def fileWriteForm : Form FileWriteOrder :=
  ⟨["file_size", "file_count", "maintain_second", "interval_second", "async"], fun r => do
    return ⟨← r.quantity? "file_size", ← r.quantity? "file_count", ← r.quantity? "maintain_second",
      ← r.quantity? "interval_second", ← r.flag? "async"⟩⟩

/-- A job that writes files and deletes them. -/
def fileWrite (p : FileWriteOrder) : Attempt Answer := do
  let size ← amount (ownRange 1024 1048576) p.size
  let files ← amount (ownRange 1 100) p.count
  let maintain ← integer maintainRange p.maintain
  let interval ← integer intervalRange p.interval
  return .job none {
    name := "file_write", label := "file write stress", mode := .ofAsync p.isAsync
    params := [count "file_size" size, count "file_count" files,
      count "maintain_second" maintain.toNat, count "interval_second" interval.toNat]
    work := .repeats ⟨secondsOf maintain, secondsOf interval⟩ (.writeFiles size files) }

/-- What a request to read a file says. -/
structure FileReadOrder where
  path : String
  frequency : RawQuantity
  maintain : RawQuantity
  interval : RawQuantity
  isAsync : Bool

/-- The body of a request to read a file. -/
def fileReadForm : Form FileReadOrder :=
  ⟨["file_path", "read_frequency", "maintain_second", "interval_second", "async"], fun r => do
    return ⟨← r.text? "file_path", ← r.quantity? "read_frequency", ← r.quantity? "maintain_second",
      ← r.quantity? "interval_second", ← r.flag? "async"⟩⟩

/-- A job that reads a file again and again. -/
def fileRead (p : FileReadOrder) : Attempt Answer := do
  if (Text.trimmed p.path).isEmpty then throw (.invalidPayload "file_path is required")
  let frequency ← amount (ownRange 1 100) p.frequency
  let maintain ← integer maintainRange p.maintain
  let interval ← integer intervalRange p.interval
  return .job none {
    name := "file_read", label := "file read stress", mode := .ofAsync p.isAsync
    params := [("file_path", .text p.path), count "read_frequency" frequency,
      count "maintain_second" maintain.toNat, count "interval_second" interval.toNat]
    work := .repeats ⟨secondsOf maintain, secondsOf interval⟩ (.readFile p.path frequency) }

/-! ## The log -/

/-- What a request to flood the log says. -/
structure LogsOrder where
  perInterval : RawQuantity
  lines : RawQuantity
  maintain : RawQuantity
  interval : RawQuantity
  isAsync : Bool

/-- The body of a request to flood the log. -/
def logsForm : Form LogsOrder :=
  ⟨["log_count_per_interval", "line_per_log", "maintain_second", "interval_seconds", "async"],
    fun r => do
      return ⟨← r.quantity? "log_count_per_interval", ← r.quantity? "line_per_log",
        ← r.quantity? "maintain_second", ← r.quantity? "interval_seconds", ← r.flag? "async"⟩⟩

/-- A job that writes made-up log lines. -/
def logs (p : LogsOrder) : Attempt Answer := do
  let messages ← amount (ownRange 1 100) p.perInterval
  let lines ← amount (ownRange 1 10) p.lines
  let maintain ← integer maintainRange p.maintain
  let interval ← integer intervalRange p.interval
  return .job none {
    name := "logs", label := "Logs generation", mode := .ofAsync p.isAsync
    params := [count "maintain_second" maintain.toNat, count "log_count_per_interval" messages,
      count "line_per_log" lines, count "interval_seconds" interval.toNat]
    work := .repeats ⟨secondsOf maintain, secondsOf interval⟩ (.writeLogs messages lines) }

/-! ## The end -/

/-- What a request for a crash says. -/
structure CrashOrder where
  maintain : RawQuantity
  isAsync : Bool

/-- The body of a request for a crash. -/
def crashForm : Form CrashOrder :=
  ⟨["maintain_second", "async"], fun r => do
    return ⟨← r.quantity? "maintain_second", ← r.flag? "async"⟩⟩

/-- The end of the service after a while; it is no job, and a caller who waits for it gets no
    reply. -/
def crash (p : CrashOrder) : Attempt Answer := do
  let maintain ← integer maintainRange p.maintain
  return .crash (secondsOf maintain) (.ofAsync p.isAsync) <| Value.ofMembers
    [("message", .text "crash simulation started"), count "maintain_second" maintain.toNat]

end Havoc.Service
