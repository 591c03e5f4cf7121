import Havoc.Log.Format
import Havoc.Service.Cloud
import Havoc.Service.Health
import Havoc.Service.Report

/-! # The state of the service

    The service is a machine like its jobs: events come in, and it answers with errands for its
    surroundings, each of which comes back as an event.  The state holds the calls that have not
    been answered and the jobs that have not ended, beside the fault rules, the table of jobs and
    the metrics. -/

namespace Havoc.Service

open Havoc.Json Havoc.Http

/-- The wall clock at an instant: it counts from the start of 1970 as instants count from the
    start of the system. -/
def wallClock (now : Instant) : Moment := ⟨now / 1000000000, now % 1000000000⟩

/-- What is fixed for the life of a service. -/
structure Config where
  settings : Settings
  /-- The format of the access log. -/
  template : Log.Template
  /-- The colour of the colour page when nobody asks for another. -/
  color : String := "#000000"
  environment : Environment := []
  host : Host := {}
  /-- Whether requests are written to the access log. -/
  isLogging : Bool := true
  /-- Whether requests go through the fault rules. -/
  isFaulty : Bool := true

/-- What a reply holds. -/
inductive Content where
  | document (value : Value)
  | page (html : String)

/-- What comes of a call. -/
abbrev Outcome := Except Problem Content

/-- The reply to a call that something came of. -/
def replyTo (outcome : Outcome) (info : Info) (now : Moment) : Reply :=
  match outcome with
  | .ok (.document value) => Reply.document 200 now value
  | .ok (.page html) => Reply.page 200 html
  | .error problem => problem.reply info now

/-- What a call waits for. -/
inductive Waiting where
  /-- The delay of a fault rule. -/
  | delay (due : Instant)
  /-- The time to answer. -/
  | later (due : Instant) (value : Value)
  /-- The resource of a job. -/
  | connection (kind : Backend.Kind) (workload : Workload) (task : Load.Resource → Task)
  | inquiry (inquiry : Inquiry)
  /-- The end of its job. -/
  | job
  /-- The end of the service. -/
  | crash

/-- A request that has not been answered. -/
structure Call where
  number : Nat
  info : Info
  arrived : Instant
  waiting : Waiting

/-- A call that has been answered. -/
structure Answered where
  call : Nat
  outcome : Outcome
  reply : Reply

/-- A job that has not ended.  It goes by the number of the call that asked for it, and has no
    shape before it begins. -/
structure Activity where
  call : Nat
  id : Job.Id
  task : Task
  shape : Option Load.Shape := none

/-- The state of the service. -/
structure State where
  config : Config
  words : Words
  rules : Fault.Rules := {}
  table : Job.Table := {}
  registry : Option Metric.Registry := none
  /-- The sizes of the blocks of memory that are never given back. -/
  leaked : List Nat := []
  calls : List Call := []
  activities : List Activity := []
  /-- The lines of the access log, the last first. -/
  log : List String := []
  /-- The made-up messages in the log, the last first. -/
  madeUp : List String := []
  /-- The calls that have been answered, the last first. -/
  answered : List Answered := []
  hasEnded : Bool := false

/-! ## Errands and events -/

/-- What the service has its surroundings do. -/
inductive Errand where
  /-- To wake a call at an instant. -/
  | wake (call : Nat) (due : Instant)
  /-- To let a job begin once the reply to its call is out. -/
  | begin (call : Nat)
  /-- To give a job a signal when its time comes. -/
  | timer (call : Nat) (timing : Timing) (signal : Load.Signal)
  /-- To open, use or close a resource of a job. -/
  | resource (call : Nat) (workload : Workload) (ask : Load.Ask)
  /-- To take memory for a job. -/
  | take (call bytes : Nat)
  /-- To run one cycle of a job. -/
  | chore (call : Nat) (chore : Chore)
  | inquire (call : Nat) (inquiry : Inquiry)
  /-- To end the service at an instant. -/
  | exit (due : Instant)

/-- What was found out. -/
inductive Finding where
  | relayed (response : Response)
  | reached (found : List (Backend.Kind × Reach))
  | cloud (machine : MachineFinding) (task : TaskFinding)
  | revision (task : TaskFinding)

/-- What the service hears of. -/
inductive Event where
  /-- A request comes in; the number is new. -/
  | arrive (call : Nat) (request : Request)
  /-- The caller goes away without a reply. -/
  | leave (call : Nat)
  | wake (call : Nat)
  | begin (call : Nat)
  | signal (call : Nat) (signal : Load.Signal)
  | told (call : Nat) (finding : Finding)
  | exit

/-! ## Small operations -/

namespace State

/-- Takes note of several things, if metrics are kept. -/
def noteAll (s : State) (notes : List Metric.Note) : State :=
  { s with registry := s.registry.map (·.noteAll notes) }

/-- Takes note of something, if metrics are kept. -/
def note (s : State) (n : Metric.Note) : State := s.noteAll [n]

/-- Draws with the words of the service. -/
def draw (s : State) (d : Draw α) : α × State :=
  let (x, words) := d.run s.words
  (x, { s with words })

/-- The call with a number. -/
def call? (s : State) (number : Nat) : Option Call := s.calls.find? fun c => c.number = number

/-- Takes a call away. -/
def dropCall (s : State) (number : Nat) : State :=
  { s with calls := s.calls.filter fun c => c.number ≠ number }

/-- Lets a call wait. -/
def wait (s : State) (c : Call) (waiting : Waiting) : State :=
  let s := s.dropCall c.number
  { s with calls := s.calls ++ [{ c with waiting }] }

/-- The job that a call asked for. -/
def activity? (s : State) (call : Nat) : Option Activity := s.activities.find? fun a => a.call = call

/-- Takes a job away. -/
def dropActivity (s : State) (call : Nat) : State :=
  { s with activities := s.activities.filter fun a => a.call ≠ call }

/-- Puts a job in the place of the one that its call asked for. -/
def putActivity (s : State) (a : Activity) : State :=
  { s with activities := s.activities.map fun b => if b.call = a.call then a else b }

/-- Writes a line into the access log and takes note of a reply. -/
def record (s : State) (now : Instant) (c : Call) (reply : Reply) : State :=
  let event : Log.Event := {
    time := wallClock c.arrived, status := reply.status, method := c.info.method
    path := c.info.path, clientIp := c.info.clientIp, latency := now - c.arrived
    userAgent := c.info.userAgent, protocol := c.info.protocol
    requestSize := c.info.body.length, responseSize := reply.size }
  { s with log := s.config.template.render event :: s.log }.note <|
    .answered event.method event.status event.latency event.requestSize event.responseSize

/-- Answers a call; `info` is what its error is to tell about the request. -/
def answerWith (s : State) (now : Instant) (c : Call) (info : Info) (outcome : Outcome) : State :=
  let reply := replyTo outcome info (wallClock now)
  let s := s.dropCall c.number
  let s := { s with answered := ⟨c.number, outcome, reply⟩ :: s.answered }
  if s.config.isLogging then s.record now c reply else s

/-- Answers a call. -/
def answer (s : State) (now : Instant) (c : Call) (outcome : Outcome) : State :=
  s.answerWith now c c.info outcome

end State

end Havoc.Service
