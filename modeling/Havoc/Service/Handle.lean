import Havoc.Service.Attend

/-! # Handling events

    What every event makes of the service.  A request passes the fault rules and is attended to; a
    job begins at once for a caller who waits, and when the reply is out for one who does not; it
    goes on with every signal, and its end is put on record before its caller hears of it. -/

namespace Havoc.Service

open Havoc.Json Havoc.Http

/-- Begins what a job does. -/
def Work.begin (w : Work) (now : Instant) : Load.Step Load.Shape :=
  match w with
  | .wait span => Load.Shape.keep span .null now
  | .keepMemory bytes span =>
    Load.Shape.take span (Value.ofMembers [("allocated_bytes", .nat bytes)])
  | .repeats cadence _ => (Load.Repeat.start cadence now).map .repeating
  | .drive resource cadence _ =>
    (Load.Worker.hold resource (.after cadence.duration) cadence.interval [] now).map .single
  | .fanOut cadence workers _ => (Load.FanOut.start cadence workers now).map .many
  | .rampUp plan _ => (Load.Ramp.start plan now).map .ramping

/-- The name under which the metrics note what happens to a job. -/
def Task.noteName (t : Task) : String :=
  match t.work with
  | .wait _ | .keepMemory .. | .repeats .. => t.name
  | .drive _ _ workload | .fanOut _ _ workload | .rampUp _ workload => workload.name

/-- What a caller is told about a job, with a message. -/
def Activity.told (a : Activity) (message : String) (more : List (String × Value)) : Value :=
  Value.ofMembers <| a.task.params ++
    [("job_id", .text a.id.text), ("message", .text (a.task.label ++ " " ++ message))] ++ more

/-- What a caller who does not wait is told about a job that has started. -/
def Activity.started (a : Activity) : Outcome := .ok (.document (a.told "started" []))

/-- What a caller who waited is told about a job that has ended. -/
def Activity.completed (a : Activity) : Job.Outcome → Outcome
  | .ok .null => .ok (.document (a.told "completed" []))
  | .ok report => .ok (.document (a.told "completed" [("report", report)]))
  | .error cause => .error (.internal cause)

namespace State

/-! ## Jobs -/

/-- Ends a job. -/
def finish (s : State) (now : Instant) (a : Activity) (outcome : Job.Outcome) : State :=
  let s := { s.dropActivity a.call with table := s.table.finish a.id (wallClock now) outcome }
  let s := s.note .jobFinished
  match s.call? a.call with
  | some c => s.answer now c (a.completed outcome)
  | none => s

/-- The chance that a request is left out. -/
def leftOutShare : Float := 0.2

/-- Draws how many of a number of requests are sent. -/
def drawSent : Nat → Draw Nat
  | 0 => return 0
  | n + 1 => do
    let isLeftOut := (← Draw.unit) < leftOutShare
    return (← drawSent n) + if isLeftOut then 0 else 1

/-- Draws what a chore leaves to chance. -/
def drawChore : Chore → Draw Chore
  | .request address count true => do return .request address (← drawSent count) false
  | chore => return chore

/-- Sets about what a job asks for. -/
def charge (s : State) (a : Activity) (ask : Load.Ask) : State × List Errand :=
  match ask.timer? with
  | some (timing, signal) => (s, [.timer a.call timing signal])
  | none =>
    match a.task.work, ask with
    | .repeats _ chore, .working _ =>
      let (chore, s) := s.draw (drawChore chore)
      (s, [.chore a.call chore])
    | .keepMemory bytes _, .opening _ => (s, [.take a.call bytes])
    | .drive _ _ workload, _ | .fanOut _ _ workload, _ | .rampUp _ workload, _ =>
      (s, [.resource a.call workload ask])
    | _, _ => (s, [])

/-- Sets about all that a job asks for. -/
def chargeAll (s : State) (a : Activity) : List Load.Ask → State × List Errand
  | [] => (s, [])
  | ask :: rest =>
    let (s, first) := s.charge a ask
    let (s, more) := s.chargeAll a rest
    (s, first ++ more)

/-- Takes a step of a job.  One that has broken off asks for nothing more and is not ended: its
    record stays as it is, and a caller who waits for it gets no reply. -/
def advance (s : State) (now : Instant) (a : Activity) (step : Load.Step Load.Shape) :
    State × List Errand :=
  let s := s.noteAll step.notes
  match step.state.outcome? with
  | some outcome => (s.finish now a outcome, [])
  | none =>
    let a := { a with shape := some step.state }
    (s.putActivity a).chargeAll a step.asks

/-- A made-up message of some lines. -/
def madeUpMessage (template : Log.Template) (time : Moment) (lines : Nat) : Draw String := do
  let events ← Draw.times lines (Log.Event.madeUp time)
  return "\n".intercalate (events.map template.render)

/-- What the cycle of a chore leaves behind. -/
def leave (s : State) (now : Instant) : Chore → State
  | .leak bytes => { s with leaked := s.leaked ++ [bytes] }
  | .writeLogs count lines =>
    let (messages, s) :=
      s.draw (Draw.times count (madeUpMessage s.config.template (wallClock now) lines))
    { s with madeUp := messages.reverse ++ s.madeUp }
  | _ => s

/-- What a signal to a job leaves behind: a cycle that fails leaves nothing. -/
def yield (s : State) (now : Instant) (a : Activity) (signal : Load.Signal) : State :=
  match a.task.work, signal with
  | .repeats _ chore, .worked _ false => s.leave now chore
  | _, _ => s

/-- Begins a job. -/
def begin (s : State) (now : Instant) (a : Activity) : State × List Errand :=
  s.advance now a (a.task.work.begin now)

/-- Puts a job on record, arms the fault rule that comes with it, and lets it begin at once if its
    caller waits.  The rule and the job then count from one reading of the clock; a service that
    reads it for the one and again for the other has them apart by what passes in between. -/
def start (s : State) (now : Instant) (c : Call) (order : Option Fault.Order) (task : Task) :
    State × List Errand :=
  let s := { s with rules := order.elim s.rules (s.rules.obey now) }
  let (id, s) := s.draw Job.Id.random
  let table := s.table.start id task.name task.mode (Value.ofMembers task.params) (wallClock now)
  let a : Activity := { call := c.number, id, task }
  let s := { s with table, activities := s.activities ++ [a] }.note
    (.jobStarted task.name task.mode.name)
  match task.mode with
  | .sync => (s.wait c .job).begin now a
  | .async => (s.answer now c a.started, [.begin c.number])

/-- A job whose resource was asked for before it starts. -/
def connected (s : State) (now : Instant) (c : Call) (kind : Backend.Kind) (workload : Workload)
    (task : Load.Resource → Task) : Load.Signal → State × List Errand
  | .opened resource => (s.note (.opened workload.name)).start now c none (task resource)
  | .refused _ cause =>
    let message := s!"failed to connect to {kind.displayName}: {cause}"
    ((s.note (.setupFailed workload.name)).answer now c (.error (.elsewhere kind.errorCode message)),
      [])
  | .broke _ => (s.dropCall c.number, [])
  | _ => (s, [])

/-! ## Requests -/

/-- Does what an answer takes. -/
def settle (s : State) (now : Instant) (c : Call) : Answer → State × List Errand
  | .document value => (s.answer now c (.ok (.document value)), [])
  | .page html => (s.answer now c (.ok (.page html)), [])
  | .later span value =>
    let due := deadlineAfter now span
    (s.wait c (.later due value), [.wake c.number due])
  | .job order task => s.start now c order task
  | .connect kind workload task =>
    (s.wait c (.connection kind workload task), [.resource c.number workload (.opening 0)])
  | .inquire inquiry => (s.wait c (.inquiry inquiry), [.inquire c.number inquiry])
  | .crash span .async value =>
    (s.answer now c (.ok (.document value)), [.exit (deadlineAfter now span)])
  | .crash span .sync _ => (s.wait c .crash, [.exit (deadlineAfter now span)])

/-- Attends to a request that no fault rule rejects. -/
def direct (s : State) (now : Instant) (c : Call) : State × List Errand :=
  match Route.resolve c.info.method c.info.path with
  | .error problem => (s.answer now c (.error problem), [])
  | .ok route =>
    match s.draw (s.attend now c.info route).run with
    | (.error problem, s) => (s.answer now c (.error problem), [])
    | (.ok answer, s) => s.settle now c answer

/-- Rejects a request.  What is known about a request comes with the access log, so an error tells
    nothing about it where there is none. -/
def reject (s : State) (now : Instant) (c : Call) (kind : Fault.Kind) : State :=
  (s.note (.faultInjected kind.label)).answerWith now c
    (if s.config.isLogging then c.info else {}) (.error (.fault kind))

/-- Rolls for a fault when the delay of a request is over. -/
def roll (s : State) (now : Instant) (c : Call) : State × List Errand :=
  match s.draw (s.rules.roll now) with
  | (some kind, s) => (s.reject now c kind, [])
  | (none, s) => s.direct now c

/-- Lets a request through the fault rules: downtime rejects it at once, and a delay holds it up
    before the roll. -/
def intercept (s : State) (now : Instant) (c : Call) : State × List Errand :=
  if s.rules.isDown now then (s.reject now c .serviceDown, [])
  else
    match s.rules.delay? now with
    | some delay =>
      let due := deadlineAfter now delay
      (s.wait c (.delay due), [.wake c.number due])
    | none => s.roll now c

/-- A request comes in. -/
def arrive (s : State) (now : Instant) (number : Nat) (request : Request) : State × List Errand :=
  let c : Call := { number, info := Info.ofRequest request, arrived := now, waiting := .job }
  if s.config.isFaulty then s.intercept now c else s.direct now c

/-! ## Events -/

/-- A caller goes away: what was done for the call alone is done no more, and nothing more is heard
    of it.  Only the work that the call itself carries on stops.  The workers that a job has sent
    out would go on by themselves until their deadline, and what becomes of them then is not
    followed: no one is left to collect it, and the record of the job knows nothing of it. -/
def abandon (s : State) (number : Nat) : State :=
  match s.call? number with
  | some _ => (s.dropCall number).dropActivity number
  | none => s

/-- A call is woken. -/
def wake (s : State) (now : Instant) (c : Call) : State × List Errand :=
  match c.waiting with
  | .delay due => if due ≤ now then s.roll now c else (s, [])
  | .later due value => if due ≤ now then (s.answer now c (.ok (.document value)), []) else (s, [])
  | _ => (s, [])

/-- A job that has begun hears a signal. -/
def heed (s : State) (now : Instant) (a : Activity) (signal : Load.Signal) : State × List Errand :=
  match a.shape.bind fun shape => shape.step a.task.noteName now signal with
  | some step => (s.yield now a signal).advance now a step
  | none => (s, [])

/-- A signal goes to the job of a call, or to the call itself if it waits for a resource. -/
def hear (s : State) (now : Instant) (number : Nat) (signal : Load.Signal) : State × List Errand :=
  match s.activity? number with
  | some a => s.heed now a signal
  | none =>
    match s.call? number with
    | some c =>
      match c.waiting with
      | .connection kind workload task => s.connected now c kind workload task signal
      | _ => (s, [])
    | none => (s, [])

/-- A call is told what was found out. -/
def learn (s : State) (now : Instant) (c : Call) (finding : Finding) : State :=
  match c.waiting with
  | .inquiry inquiry =>
    match conclude s.config.environment now inquiry finding with
    | some outcome => s.answer now c outcome
    | none => s
  | _ => s

/-- What an event makes of the service; after its end nothing does. -/
def handle (s : State) (now : Instant) (event : Event) : State × List Errand :=
  if s.hasEnded then (s, [])
  else
    match event with
    | .arrive number request => s.arrive now number request
    | .leave number => (s.abandon number, [])
    | .wake number => ((s.call? number).map (s.wake now)).getD (s, [])
    | .begin number =>
      match s.activity? number with
      | some a => if a.shape.isNone then s.begin now a else (s, [])
      | none => (s, [])
    | .signal number signal => s.hear now number signal
    | .told number finding => (((s.call? number).map fun c => s.learn now c finding).getD s, [])
    | .exit => ({ s with hasEnded := true }, [])

end State

end Havoc.Service
