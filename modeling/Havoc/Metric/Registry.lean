import Havoc.Number.Binary64

/-! # Metrics

    What happens in the service is noted, and every note changes counters, gauges and histograms.
    Samples are kept in the order of their labels. -/

namespace Havoc.Metric

/-- Something that the metrics take note of. -/
inductive Note where
  /-- A request was answered after some nanoseconds. -/
  | answered (method : String) (status nanos requestSize responseSize : Nat)
  | faultInjected (kind : String)
  | jobStarted (name mode : String)
  | jobFinished
  | workFailed (workload : String)
  | setupFailed (workload : String)
  | opened (workload : String)
  | closed (workload : String)
  deriving DecidableEq, Repr

/-- One value for each list of labels, in the order of the labels. -/
abbrev Samples (α : Type) := List (List String × α)

/-- Changes the value of a list of labels, which starts as `initial`. -/
def Samples.update (labels : List String) (initial : α) (f : α → α) : Samples α → Samples α
  | [] => [(labels, f initial)]
  | (key, x) :: rest =>
    if key = labels then (key, f x) :: rest
    else if labels < key then (labels, f initial) :: (key, x) :: rest
    else (key, x) :: Samples.update labels initial f rest

/-- The value of a list of labels. -/
def Samples.get (labels : List String) (initial : α) (s : Samples α) : α :=
  (s.lookup labels).getD initial

/-- The upper bounds of the buckets of a histogram. -/
def bucketBounds : List Float :=
  [0.005, 0.01, 0.025, 0.05, 0.1, 0.25, 0.5, 1.0, 2.5, 5.0, 10.0]

/-- How many values fell under each bound, with their number and sum. -/
structure Histogram where
  under : List Nat
  count : Nat
  sum : Float

namespace Histogram

/-- A histogram of nothing. -/
def empty : Histogram := ⟨bucketBounds.map fun _ => 0, 0, 0.0⟩

/-- The histogram with one more value. -/
def observe (x : Float) (h : Histogram) : Histogram :=
  { under := h.under.zipWith (fun n bound => if x ≤ bound then n + 1 else n) bucketBounds
    count := h.count + 1
    sum := h.sum + x }

end Histogram

/-- A span of nanoseconds as seconds. -/
def seconds (nanos : Nat) : Float :=
  Number.ofNat (nanos / 1000000000) + Number.ofNat (nanos % 1000000000) / 1e9

/-- Everything that is measured. -/
structure Registry where
  requests : Samples Nat := []
  durations : Samples Histogram := []
  requestSizes : Samples Histogram := []
  responseSizes : Samples Histogram := []
  faults : Samples Nat := []
  jobsStarted : Samples Nat := []
  jobsActive : Int := 0
  workErrors : Samples Nat := []
  setupFailures : Samples Nat := []
  resourcesOpen : Samples Int := []

namespace Registry

/-- Takes note of something. -/
def note (r : Registry) : Note → Registry
  | .answered method status nanos requestSize responseSize =>
    let labels := [method, toString status]
    { r with
      requests := r.requests.update labels 0 (· + 1)
      durations := r.durations.update labels .empty (.observe (seconds nanos))
      requestSizes := r.requestSizes.update [method] .empty (.observe (Number.ofNat requestSize))
      responseSizes := r.responseSizes.update labels .empty (.observe (Number.ofNat responseSize)) }
  | .faultInjected kind => { r with faults := r.faults.update [kind] 0 (· + 1) }
  | .jobStarted name mode =>
    { r with
      jobsStarted := r.jobsStarted.update [name, mode] 0 (· + 1)
      jobsActive := r.jobsActive + 1 }
  | .jobFinished => { r with jobsActive := r.jobsActive - 1 }
  | .workFailed workload => { r with workErrors := r.workErrors.update [workload] 0 (· + 1) }
  | .setupFailed workload => { r with setupFailures := r.setupFailures.update [workload] 0 (· + 1) }
  | .opened workload => { r with resourcesOpen := r.resourcesOpen.update [workload] 0 (· + 1) }
  | .closed workload => { r with resourcesOpen := r.resourcesOpen.update [workload] 0 (· - 1) }

/-- Takes note of several things. -/
def noteAll (r : Registry) (notes : List Note) : Registry := notes.foldl note r

end Registry

end Havoc.Metric
