import Havoc.Metric.Registry
import Havoc.Number.Shortest

/-! # Metrics as text

    Every family with a sample is a line of help, a line with its type, and a line for each
    sample; a histogram has a line for each bucket, for its sum and for its count. -/

namespace Havoc.Metric

open Havoc.Number

/-- A label value between quotes. -/
def labelValue (s : String) : String :=
  String.ofList ('"' :: s.toList.flatMap (fun c => match c with
    | '\\' => ['\\', '\\']
    | '"' => ['\\', '"']
    | '\n' => ['\\', 'n']
    | c => [c]) ++ ['"'])

/-- Labels in braces; no labels are nothing. -/
def labelText (names values : List String) : String :=
  if names.isEmpty then ""
  else "\x7b" ++ ",".intercalate (names.zipWith (fun n v => n ++ "=" ++ labelValue v) values) ++ "\x7d"

/-- The two lines that open a family. -/
def familyHead (name help type : String) : List String :=
  [s!"# HELP {name} {help}", s!"# TYPE {name} {type}"]

/-- A family of numbers. -/
def numberFamily (name help type : String) (labels : List String) (samples : Samples String) :
    List String :=
  if samples.isEmpty then []
  else familyHead name help type ++
    samples.map fun (values, x) => s!"{name}{labelText labels values} {x}"

/-- The lines of one histogram. -/
def histogramLines (name : String) (labels values : List String) (h : Histogram) : List String :=
  let bounded := labels ++ ["le"]
  let bucket (bound : String) (n : Nat) : String :=
    s!"{name}_bucket{labelText bounded (values ++ [bound])} {n}"
  bucketBounds.zipWith (fun b n => bucket (plain b) n) h.under ++
    [bucket "+Inf" h.count, s!"{name}_sum{labelText labels values} {plain h.sum}",
      s!"{name}_count{labelText labels values} {h.count}"]

/-- A family of histograms. -/
def histogramFamily (name help : String) (labels : List String) (samples : Samples Histogram) :
    List String :=
  if samples.isEmpty then []
  else familyHead name help "histogram" ++
    samples.flatMap fun (values, h) => histogramLines name labels values h

/-- Counts as text. -/
def countTexts (s : Samples Nat) : Samples String := s.map fun (k, n) => (k, toString n)

namespace Registry

/-- All families in the order of their names. -/
def lines (r : Registry) : List String :=
  numberFamily "chaos_faults_injected_total" "Requests short-circuited by a simulated fault"
    "counter" ["kind"] (countTexts r.faults) ++
  numberFamily "chaos_jobs_active" "Stress jobs currently running" "gauge" []
    [([], decimal r.jobsActive)] ++
  numberFamily "chaos_jobs_started_total" "Stress jobs started" "counter" ["job", "mode"]
    (countTexts r.jobsStarted) ++
  histogramFamily "chaos_request_duration_seconds" "Request duration in seconds"
    ["method", "status_code"] r.durations ++
  histogramFamily "chaos_request_size_bytes" "Request size in bytes" ["method"] r.requestSizes ++
  numberFamily "chaos_requests_total" "Total number of requests" "counter"
    ["method", "status_code"] (countTexts r.requests) ++
  histogramFamily "chaos_response_size_bytes" "Response size in bytes" ["method", "status_code"]
    r.responseSizes ++
  numberFamily "chaos_setup_failures_total" "Workers that could not open their resource" "counter"
    ["workload"] (countTexts r.setupFailures) ++
  numberFamily "chaos_work_errors_total" "Failed units of work inside running jobs" "counter"
    ["workload"] (countTexts r.workErrors) ++
  numberFamily "chaos_worker_resources_open" "Connections or clients currently held by workers"
    "gauge" ["workload"] (r.resourcesOpen.map fun (k, n) => (k, decimal n))

end Registry

end Havoc.Metric
