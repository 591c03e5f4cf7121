import Havoc.Outside.World

/-! # Watching a world

    Someone sends requests to a service, lets time pass, and looks at what has come of it.  The
    clock jumps to the next thing that is due, or moves on in steps of one length. -/

namespace Havoc.Outside

open Havoc.Http Havoc.Service

/-- How the clock moves while someone waits. -/
inductive Pace where
  | jumping
  | stepping (step : Span)
  deriving DecidableEq, Repr

/-- A world that is being watched. -/
structure Watch where
  course : Course World Happening
  pace : Pace := .jumping
  /-- The number of the next request. -/
  nextCall : Nat := 0

/-- What was seen of a world since the last look. -/
structure Sight where
  log : List String
  madeUp : List String
  visits : List String
  sessions : List (String × List String)

namespace Watch

/-- A watch over a service that starts. -/
def start (service : State) (surroundings : Surroundings) (pace : Pace := .jumping) : Watch :=
  { course := { now := startup, state := { service, surroundings } }, pace }

/-- A watch over a service that has no settings and keeps metrics, with a scripted workload to put
    under load. -/
def overScript (script : Load.Script) : Watch :=
  let config : Config :=
    { settings := ⟨.table []⟩, template := ⟨"", []⟩, isLogging := false, isFaulty := false }
  start { config, words := Words.seeded 0, registry := some {} } { script }

/-- The most that happens while someone waits for one thing. -/
def patience : Nat := 100000000

/-- The most steps of the clock that someone waits for one thing. -/
def stepPatience : Nat := 100000

/-- The service as it is now. -/
def service (w : Watch) : State := w.course.state.service

/-- The milliseconds since the service started. -/
def clock (w : Watch) : Nat := Span.millis (w.course.now - startup)

/-- What came of a call, if it has been answered. -/
def answered? (w : Watch) (number : Nat) : Option Answered :=
  w.service.answered.find? fun a => a.call = number

/-- Whether there is nothing more to wait for: a call has been answered, or the service has
    ended. -/
def isSettled (number : Nat) (w : World) : Bool :=
  w.service.hasEnded || w.service.answered.any fun a => a.call = number

/-- Everything that is left to do by now happens, and what is slow too if someone waits for it. -/
def catchUp (w : Watch) (waits : Bool) : Watch :=
  let limit := if waits then w.course.now + 1 else w.course.now
  { w with course := w.course.runUntil World.handle (fun _ => false) limit patience }

/-- The clock moves on. -/
def moveOn (w : Watch) (span : Span) : Watch :=
  { w with course := { w.course with now := w.course.now + span } }

/-- Waits for a call by steps of the clock. -/
def awaitBySteps (number : Nat) (step : Span) : Nat → Watch → Watch
  | 0, w => w
  | fuel + 1, w =>
    if isSettled number w.course.state then w
    else awaitBySteps number step fuel ((w.moveOn step).catchUp true)

/-- Waits for a call. -/
def await (w : Watch) (number : Nat) : Watch :=
  match w.pace with
  | .jumping =>
    { w with course := w.course.runUntil World.handle (isSettled number) lastInstant patience }
  | .stepping step => awaitBySteps number step stepPatience (w.catchUp true)

/-- An event that nobody waits for comes before all else that is due. -/
def hear (w : Watch) (event : Event) : Watch :=
  { w with course := { w.course with next := .event event :: w.course.next } }

/-- Sends a request and waits for its reply; there is none if the service ends.  What is left to do
    then happens without anyone waiting for it. -/
def send (w : Watch) (request : Request) : Option Answered × Watch :=
  let number := w.nextCall
  let w := ({ w with nextCall := number + 1 }.hear (.arrive number request)).await number
  (w.answered? number, w.catchUp false)

/-- Has the service do what an answer takes for a new call that says nothing, and waits for the
    reply. -/
def order (w : Watch) (answer : Answer) : Option Answered × Watch :=
  let number := w.nextCall
  let now := w.course.now
  let c : Call := { number, info := {}, arrived := now, waiting := .job }
  let (service, errands) := w.service.settle now c answer
  let course := { w.course with
    state := { w.course.state with service }, next := errands.map .errand ++ w.course.next }
  let w := { w with course, nextCall := number + 1 }.await number
  (w.answered? number, w)

/-- Lets time pass by steps of the clock. -/
def passBySteps (step : Span) : Nat → Span → Watch → Watch
  | 0, _, w => w
  | fuel + 1, left, w =>
    if left = 0 then w
    else passBySteps step fuel (left - min step left) ((w.moveOn (min step left)).catchUp true)

/-- Lets time pass. -/
def pass (w : Watch) (span : Span) : Watch :=
  match w.pace with
  | .jumping =>
    let wake := w.course.now + span
    let course := w.course.runUntil World.handle (fun w => w.service.hasEnded) wake patience
    { w with course := { course with now := wake } }
  | .stepping step => passBySteps step stepPatience span (w.catchUp true)

/-- Looks at what has come of the world since the last look. -/
def look (w : Watch) : Sight × Watch :=
  let service := w.service
  let surroundings := w.course.state.surroundings
  let sight : Sight := {
    log := service.log.reverse
    madeUp := service.madeUp.reverse
    visits := (surroundings.site.elim [] fun site => site.visits).mergeSort (· ≤ ·)
    sessions := surroundings.standIns.flatMap fun x =>
      x.received.map fun statements => (x.kind.name, statements) }
  let surroundings := { surroundings with
    site := surroundings.site.map fun site => { site with visits := [] }
    standIns := surroundings.standIns.map StandIn.shown }
  let state : World := { service := { service with log := [], madeUp := [] }, surroundings }
  (sight, { w with course := { w.course with state } })

end Watch

end Havoc.Outside
