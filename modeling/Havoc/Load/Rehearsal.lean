import Havoc.Load.Script
import Havoc.Load.Shape
import Havoc.Time.Agenda

/-! # Rehearsals

    A machine on a scripted workload: the script answers what the machine asks for, the clock
    answers the rest, and the course of things is fixed. -/

namespace Havoc.Load

/-- What happens in a rehearsal. -/
inductive Happening where
  /-- The machine is heard. -/
  | ask (ask : Ask)
  /-- The machine is told something, at the end of the operation with a number. -/
  | signal (signal : Signal) (number : Nat := 0)
  deriving Repr

/-- A machine at work on a scripted workload. -/
structure Rehearsal where
  script : Script
  shape : Shape
  trace : Trace := {}
  registry : Metric.Registry := {}

namespace Rehearsal

/-- The name under which the metrics note what happens. -/
def label : String := "scripted"

/-- The machine takes a step, and then it is heard. -/
def take (r : Rehearsal) (step : Step Shape) : Reaction Rehearsal Happening :=
  { state := { r with shape := step.state, registry := r.registry.noteAll step.notes }
    next := step.asks.map .ask }

/-- What the machine asks for begins; an operation that takes no time ends at once. -/
def hear (r : Rehearsal) (now : Instant) (ask : Ask) : Reaction Rehearsal Happening :=
  match ask.timer? with
  | some (timing, signal) => .timed r now timing (.signal signal)
  | none =>
    match r.trace.start r.script now ask with
    | (some (span, signal, number), trace) =>
      .timed { r with trace } now (.at (now + span)) (.signal signal number)
    | (none, trace) => { state := { r with trace } }

/-- What becomes of a rehearsal when something happens. -/
def handle : Handler Rehearsal Happening := fun now event r =>
  match event with
  | .ask ask => r.hear now ask
  | .signal signal number =>
    let r := { r with trace := r.trace.settle now number signal }
    match r.shape.step label now signal with
    | some step => r.take step
    | none => { state := r }

/-- Whether the machine is over. -/
def isOver (r : Rehearsal) : Bool := r.shape.outcome?.isSome

/-- A machine that starts. -/
def start (script : Script) (step : Step Shape) : Course Rehearsal Happening :=
  let r := take { script, shape := step.state } step
  { now := startup, state := r.state, next := r.next }

/-- The most that happens in a rehearsal. -/
def patience : Nat := 10000000

/-- The last instant at which a machine may end for someone who gives up at an instant: workers
    that end at that very instant end too late, because word of it has still to come. -/
def lastChance (shape : Shape) (giveUp : Instant) : Instant :=
  match shape with
  | .many _ => giveUp - 1
  | _ => giveUp

/-- Goes on until the machine is over, or gives up at an instant. -/
def run (c : Course Rehearsal Happening) (giveUp : Instant) : Course Rehearsal Happening :=
  let c := c.runUntil handle isOver (lastChance c.state.shape giveUp) patience
  if c.state.isOver then c else { c with now := giveUp }

end Rehearsal

end Havoc.Load
