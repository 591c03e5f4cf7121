import Havoc.Load.Basic

/-! # A ramp

    A ramp opens a few resources at every tick until it holds as many as it should, keeps them
    until its deadline, and then closes them in the order in which it got hold of them.  A tick
    is not left before each of its openings has come to an end; a tick that comes late moves the
    ones after it.  A closing that breaks off takes the ramp with it. -/

namespace Havoc.Load

/-- The goal and the pace of a ramp. -/
structure Plan where
  target : Nat
  increase : Nat
  interval : Span
  duration : Span
  deriving DecidableEq, Repr

/-- The shortest time between two ticks. -/
def shortestTick : Span := Span.ofMillis 100

/-- How late a tick may be without moving the ones after it. -/
def tickLeeway : Span := Span.ofMillis 5

/-- The time between two ticks of a plan. -/
def Plan.period (p : Plan) : Span := max shortestTick (min p.interval farFuture)

/-- What a ramp waits for. -/
inductive RampStage where
  /-- The next tick, or the deadline. -/
  | ticking
  /-- The openings of a tick, by the numbers of their workers. -/
  | opening (workers : List Nat)
  /-- The deadline. -/
  | holding
  /-- The closing of what it holds, the first first. -/
  | closing
  | done (elapsed : Span)
  /-- Nothing: a closing broke off, and there is no report. -/
  | broken
  deriving DecidableEq, Repr

/-- A ramp on its way. -/
structure Ramp where
  plan : Plan
  started : Instant
  deadline : Instant
  /-- When the next tick is due. -/
  due : Instant
  stage : RampStage
  /-- The resources that are open, in the order in which they were opened. -/
  held : List Resource := []
  opened : Nat := 0
  failed : Nat := 0
  peak : Nat := 0
  deriving DecidableEq, Repr

namespace Ramp

/-- A ramp that waits for its next tick. -/
def await (r : Ramp) : Step Ramp :=
  { state := { r with stage := .ticking }, asks := [.ticking r.due r.deadline] }

/-- A ramp that opens nothing more. -/
def hold (r : Ramp) : Step Ramp :=
  { state := { r with stage := .holding }, asks := [.lapsing r.deadline] }

/-- A ramp that closes the first of what it holds, or is over. -/
def close (r : Ramp) (notes : List Metric.Note) (now : Instant) : Step Ramp :=
  match r.held with
  | first :: _ => ⟨{ r with stage := .closing }, notes, [.closing first]⟩
  | [] => ⟨{ r with stage := .done (now - r.started) }, notes, []⟩

/-- Starts a ramp; the first tick is due at once, and a plan without increase has none. -/
def start (p : Plan) (now : Instant) : Step Ramp :=
  let r : Ramp :=
    { plan := p, started := now, deadline := deadlineAfter now p.duration, due := now
      stage := .ticking }
  if p.increase = 0 then r.hold else r.await

/-- When the tick after one that was due at `r.due` and came now is due. -/
def nextDue (r : Ramp) (now : Instant) : Instant :=
  if r.due + tickLeeway < now then now + r.plan.period else r.due + r.plan.period

/-- A tick: nothing more is opened from the deadline on or when enough is held, and else no more
    than what is missing. -/
def tick (r : Ramp) (now : Instant) : Step Ramp :=
  let r := { r with due := r.nextDue now }
  let current := r.held.length
  if r.deadline ≤ now ∨ r.plan.target ≤ current then r.hold
  else
    let batch := min r.plan.increase (r.plan.target - current)
    let workers := (List.range batch).map (current + ·)
    { state := { r with stage := .opening workers }, asks := workers.map .opening }

/-- A ramp after one of the openings of a tick has come to an end. -/
def settle (r : Ramp) (waiting : List Nat) (worker : Nat) (notes : List Metric.Note) : Step Ramp :=
  let waiting := waiting.erase worker
  let next : Step Ramp :=
    if !waiting.isEmpty then { state := { r with stage := .opening waiting } }
    else if r.plan.target ≤ r.held.length then r.hold
    else r.await
  { next with notes := notes }

/-- What a signal makes of a ramp, on a workload with a name. -/
def step (name : String) (r : Ramp) (now : Instant) (signal : Signal) : Option (Step Ramp) :=
  match r.stage, signal with
  | .ticking, .ticked => if r.due ≤ now then some (r.tick now) else none
  | .ticking, .lapsed => if r.deadline ≤ now then some r.hold else none
  | .opening waiting, .opened resource =>
    if resource.worker ∈ waiting then
      let held := r.held ++ [resource]
      some ({ r with held, opened := r.opened + 1, peak := max r.peak held.length }.settle
        waiting resource.worker [.opened name])
    else none
  | .opening waiting, .refused worker _ =>
    if worker ∈ waiting then
      some ({ r with failed := r.failed + 1 }.settle waiting worker [.setupFailed name])
    else none
  | .opening waiting, .broke worker =>
    if worker ∈ waiting then
      some ({ r with failed := r.failed + 1 }.settle waiting worker [])
    else none
  | .holding, .lapsed => if r.deadline ≤ now then some (r.close [] now) else none
  | .closing, .closed resource =>
    match r.held with
    | first :: rest =>
      if resource = first then some ({ r with held := rest }.close [.closed name] now) else none
    | [] => none
  | .closing, .jammed resource =>
    if r.held.head? = some resource then some { state := { r with stage := .broken } } else none
  | _, _ => none

/-- The report of a ramp that is over. -/
def report? (r : Ramp) : Option RampReport :=
  match r.stage with
  | .done elapsed => some ⟨r.opened, r.failed, r.peak, elapsed⟩
  | _ => none

end Ramp

end Havoc.Load
