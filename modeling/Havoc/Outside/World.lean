import Havoc.Load.Script
import Havoc.Outside.Site
import Havoc.Outside.StandIn
import Havoc.Service.Handle
import Havoc.Time.Agenda

/-! # The service in its surroundings

    The surroundings do the errands of the service: they keep its timers, lend it memory, answer
    its requests and stand in for its back ends.  With them the course of things is fixed, so that
    a service can be watched as it goes on. -/

namespace Havoc.Outside

open Havoc.Http Havoc.Service

/-- What there is around a service. -/
structure Surroundings where
  /-- Another service that can be reached, which also tells where the service runs. -/
  site : Option Site := none
  standIns : List StandIn := []
  /-- What a scripted workload does. -/
  script : Load.Script := {}
  trace : Load.Trace := {}
  /-- The files that can be read. -/
  files : List String := ["/dev/null"]
  /-- How many bytes cannot be had at once. -/
  memory : Nat := 2 ^ 47

/-- What happens in a world. -/
inductive Happening where
  /-- The service hears of something. -/
  | event (event : Event)
  /-- The surroundings set about an errand. -/
  | errand (errand : Errand)
  /-- An operation of a scripted workload ends. -/
  | ended (call : Nat) (signal : Load.Signal) (number : Nat)

namespace Surroundings

/-- What the surroundings make of an errand. -/
abbrev Deed := Reaction Surroundings Happening

/-- Nothing is heard of an errand any more. -/
def silence (s : Surroundings) : Deed := { state := s }

/-- Something is heard at once. -/
def tell (s : Surroundings) (event : Event) : Deed := { state := s, next := [.event event] }

/-- Something is heard before the clock moves on. -/
def tellSoon (s : Surroundings) (event : Event) : Deed := { state := s, slow := [.event event] }

/-- Something is heard at an instant. -/
def tellAt (s : Surroundings) (due : Instant) (event : Event) (isUrgent : Bool := false) : Deed :=
  { state := s, later := [{ due, event := .event event, isUrgent }] }

/-! ## Memory, files and requests -/

/-- Whether so much memory can be had. -/
def has (s : Surroundings) (bytes : Nat) : Bool := bytes < s.memory

/-- What is told when there is not so much memory. -/
def tooMuch (bytes : Nat) : String := s!"cannot allocate {bytes} bytes"

/-- Why no reply comes where there is no site. -/
def unreachable : String := "error sending request"

/-- Sends a request. -/
def request (s : Surroundings) (o : Outgoing) : Option Incoming × Surroundings :=
  match s.site with
  | some site =>
    let (reply, site) := site.request o
    (reply, { s with site := some site })
  | none => (none, s)

/-- Sends the same request a number of times: whether any of them failed. -/
def requests (o : Outgoing) : Nat → Surroundings → Bool × Surroundings
  | 0, s => (false, s)
  | n + 1, s =>
    let (reply, s) := s.request o
    let (failed, s) := requests o n s
    (reply.isNone || failed, s)

/-- Runs the cycle of a chore: whether it failed. -/
def runChore (s : Surroundings) : Chore → Bool × Surroundings
  | .burn | .writeLogs .. => (false, s)
  | .leak bytes => (!s.has bytes, s)
  | .writeFiles size count => (0 < count && !s.has size, s)
  | .readFile path times => (0 < times && !s.files.contains path, s)
  | .request address count _ =>
    match Url.parse address with
    | .ok url => requests { url } count s
    | .error _ => (0 < count, s)

/-! ## Back ends -/

/-- The back end of a workload. -/
def kindOf? : Workload → Option Backend.Kind
  | .sql settings _ => some (.sql settings.engine)
  | .redis .. => some .redis
  | .kafka .. => some .kafka
  | .scripted => none

/-- Something is done with the stand-in for a back end. -/
def withStandIn (s : Surroundings) (kind : Backend.Kind) (absent : α)
    (use : StandIn → α × StandIn) : α × Surroundings :=
  match s.standIns.find? fun x => x.kind = kind with
  | some x =>
    let (answer, x) := use x
    (answer, { s with standIns := s.standIns.map fun y => if y.kind = kind then x else y })
  | none => (absent, s)

/-- How many connections the stand-in for a back end has taken. -/
def connections (s : Surroundings) (kind : Backend.Kind) : Nat :=
  (s.standIns.find? fun x => x.kind = kind).elim 0 StandIn.accepted

/-- A resource of a stand-in is opened, used or closed. -/
def serve (s : Surroundings) (call : Nat) (kind : Backend.Kind) (workload : Workload)
    (ask : Load.Ask) : Deed :=
  match ask with
  | .opening worker =>
    match s.withStandIn kind (refusal kind) (·.openFor call worker workload) with
    | (.ok, s) => s.tell (.signal call (.opened ⟨worker, s.connections kind⟩))
    | (.failed cause, s) => s.tell (.signal call (.refused worker cause))
    | (.silent, s) => s.silence
  | .working worker =>
    let (failed, s) := s.withStandIn kind true (·.workFor call worker workload)
    s.tell (.signal call (.worked worker failed))
  | .closing resource => s.tell (.signal call (.closed resource))
  | _ => s.silence

/-- An operation of a scripted workload begins; one that takes no time ends at once. -/
def play (s : Surroundings) (now : Instant) (call : Nat) (ask : Load.Ask) (isUrgent : Bool) : Deed :=
  match s.trace.start s.script now ask with
  | (some (span, signal, number), trace) =>
    .timed { s with trace } now (.at (now + span)) (.ended call signal number) isUrgent
  | (none, trace) => { state := { s with trace } }

/-! ## Inquiries -/

/-- What came of reaching for a stand-in. -/
def reachOf : Reception → Reach
  | .ok => .fine
  | .failed cause => .failed cause
  | .silent => .timedOut

/-- Reaches for back ends one after the other. -/
def reachAll (s : Surroundings) : List Backend.Kind → List (Backend.Kind × Reach) × Surroundings
  | [] => ([], s)
  | kind :: rest =>
    let (reception, s) := s.withStandIn kind (refusal kind) StandIn.probe
    let (found, s) := s.reachAll rest
    ((kind, reachOf reception) :: found, s)

/-- Asks the site something, if it can be reached. -/
def askSite (s : Surroundings) (path : String) (method : String := "GET")
    (headers : List Header := []) : Option Incoming × Surroundings :=
  match s.site with
  | none => (none, s)
  | some site =>
    match Url.parse (s!"http://{site.host}:{site.number}" ++ path) with
    | .ok url => s.request { method, url, headers }
    | .error _ => (none, s)

/-- The text of a reply that tells of success. -/
def successText (r : Option Incoming) : Option String :=
  (r.filter Incoming.isSuccess).map Incoming.text

/-- Asks the machine for its identity, with a token that it gives out and without. -/
def askMachine (s : Surroundings) : MachineFinding × Surroundings :=
  let identity := "/latest/meta-data/instance-id"
  let (token, s) := s.askSite "/latest/api/token" "PUT"
    [("x-aws-ec2-metadata-token-ttl-seconds", Text.utf8 "21600")]
  let (withToken, s) :=
    match successText token with
    | some token =>
      let value := Text.utf8 token
      if value.all isValueByte then s.askSite identity "GET" [("x-aws-ec2-metadata-token", value)]
      else (none, s)
    | none => (none, s)
  let (withoutToken, s) := s.askSite identity
  (⟨successText withToken, successText withoutToken⟩, s)

/-- Asks the task about itself. -/
def askTask (s : Surroundings) : TaskFinding × Surroundings :=
  match s.askSite "/v2/metadata" with
  | (some r, s) =>
    if 400 ≤ r.status then (.error s!"status {r.status}", s)
    else
      match Json.Value.read? r.body with
      | some v => (.ok v, s)
      | none => (.error Json.malformed, s)
  | (none, s) => (.error unreachable, s)

/-- Finds something out. -/
def inquire (s : Surroundings) (now : Instant) (call : Nat) : Inquiry → Deed
  | .relay o =>
    let (reply, s) := s.request o
    s.tell (.told call (.relayed (reply.elim (.missing unreachable) .whole)))
  | .reach kinds =>
    let (found, s) := s.reachAll kinds
    let event := Event.told call (.reached found)
    if found.any fun (_, reach) => reach = .timedOut then s.tellAt (now + probePatience) event true
    else s.tell event
  | .cloud =>
    let (machine, s) := s.askMachine
    let (task, s) := s.askTask
    s.tell (.told call (.cloud machine task))
  | .revision =>
    let (task, s) := s.askTask
    s.tell (.told call (.revision task))

/-! ## Errands -/

/-- Whether a chore is slow. -/
def isSlow : Chore → Bool
  | .burn | .writeFiles .. | .readFile .. => true
  | .leak _ | .writeLogs .. | .request .. => false

/-- Sets about an errand; `isAwaited` tells whether someone waits for the call that it is for, which
    makes its timers urgent. -/
def perform (s : Surroundings) (now : Instant) (isAwaited : Nat → Bool) : Errand → Deed
  | .wake call due => s.tellAt due (.wake call) (isAwaited call)
  | .begin call => s.tellAt now (.begin call)
  | .timer call timing signal => .timed s now timing (.event (.signal call signal)) (isAwaited call)
  | .resource call workload ask =>
    match kindOf? workload with
    | some kind => s.serve call kind workload ask
    | none => s.play now call ask (isAwaited call)
  | .take call bytes =>
    s.tellSoon <| .signal call <|
      if s.has bytes then .opened { worker := 0 } else .refused 0 (tooMuch bytes)
  | .chore call chore =>
    let (failed, s) := s.runChore chore
    let event := Event.signal call (.worked 0 failed)
    if isSlow chore then s.tellSoon event else s.tell event
  | .inquire call inquiry => s.inquire now call inquiry
  | .exit due => s.tellAt due .exit

end Surroundings

/-! ## Worlds -/

/-- A service and its surroundings. -/
structure World where
  service : State
  surroundings : Surroundings := {}

namespace World

/-- What becomes of a world when something happens. -/
def handle : Handler World Happening := fun now happening w =>
  match happening with
  | .event event =>
    let (service, errands) := w.service.handle now event
    { state := { w with service }, next := errands.map .errand }
  | .errand errand =>
    let deed := w.surroundings.perform now (fun call => (w.service.call? call).isSome) errand
    { deed with state := { w with surroundings := deed.state } }
  | .ended call signal number =>
    let trace := w.surroundings.trace.settle now number signal
    { state := { w with surroundings := { w.surroundings with trace } }
      next := [.event (.signal call signal)] }

end World

end Havoc.Outside
