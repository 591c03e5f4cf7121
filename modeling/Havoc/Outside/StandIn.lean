import Havoc.Service.State

/-! # Stand-ins for back ends

    A stand-in takes connections as a back end would, fails when it is told to, and keeps the
    statements that it receives, connection by connection. -/

namespace Havoc.Outside

open Havoc.Backend Havoc.Service

/-- How a stand-in treats those who come to it. -/
inductive Temper where
  | answers
  /-- It takes no connection. -/
  | refuses
  /-- It takes connections and never answers. -/
  | hangs
  deriving DecidableEq, Repr

/-- The statements that came through one connection. -/
structure Session where
  /-- The call whose job opened the connection, and the worker that it was opened for. -/
  call : Nat
  worker : Nat
  /-- The statements not yet shown, the last first. -/
  statements : List String := []

/-- A stand-in for a back end. -/
structure StandIn where
  kind : Kind
  temper : Temper := .answers
  failReads : List Nat := []
  failWrites : List Nat := []
  failSetup : Bool := false
  /-- The numbers of the connections that are closed at once. -/
  drops : List Nat := []
  /-- The topics that a broker has. -/
  topics : List String := []
  /-- Whether made-up messages are shown as such only. -/
  hidesFiller : Bool := false
  accepted : Nat := 0
  reads : Nat := 0
  writes : Nat := 0
  /-- The sessions, the last first. -/
  sessions : List Session := []

/-- What comes of coming to a stand-in. -/
inductive Reception where
  | ok
  | failed (cause : String)
  | silent
  deriving DecidableEq, Repr

/-- What comes of coming to a back end that takes no connection: those who look for a broker try
    again and again. -/
def refusal : Kind → Reception
  | .kafka => .silent
  | .sql _ | .redis => .failed "connection refused"

namespace StandIn

/-- A connection is asked for. -/
def accept (s : StandIn) : Reception × StandIn :=
  match s.temper with
  | .refuses => (refusal s.kind, s)
  | .hangs => (.silent, { s with accepted := s.accepted + 1 })
  | .answers =>
    let s := { s with accepted := s.accepted + 1 }
    (if s.drops.contains s.accepted then .failed "connection closed" else .ok, s)

/-- A session begins. -/
def enter (s : StandIn) (call worker : Nat) : StandIn :=
  { s with sessions := { call, worker } :: s.sessions }

/-- A statement is written down in the last session of a worker. -/
def write (s : StandIn) (call worker : Nat) (statement : String) : StandIn :=
  let rec go : List Session → List Session
    | [] => []
    | x :: rest =>
      if x.call = call ∧ x.worker = worker then
        { x with statements := statement :: x.statements } :: rest
      else x :: go rest
  { s with sessions := go s.sessions }

/-- A read or a write comes in: whether it failed. -/
def take (s : StandIn) (x : Statement) : Bool × StandIn :=
  match x with
  | .read => (s.failReads.contains (s.reads + 1), { s with reads := s.reads + 1 })
  | .write => (s.failWrites.contains (s.writes + 1), { s with writes := s.writes + 1 })

/-- The settings that lead to a stand-in on a port of a host, whose topic is used if it is a
    broker. -/
def settings (s : StandIn) (host : String) (number : Nat) (topic : String) :
    List (String × String) :=
  match s.kind with
  | .kafka => [("KAFKA_SERVERS", s!"{host}:{number}"), ("KAFKA_TOPIC", topic)]
  | kind =>
    [(kind.name ++ "_HOST", host), (kind.name ++ "_PORT", Number.decimal number),
      (kind.name ++ "_USERNAME", "app"), (kind.name ++ "_DBNAME", "stress")]

/-! ## Statements -/

/-- The statement of a read or a write. -/
def statementText (kind : Kind) (x : Statement) : String :=
  match kind, x with
  | .redis, .read => "GET stress_key"
  | .redis, .write => "SET stress_key stress"
  | _, .read => "SELECT 1"
  | _, .write => "INSERT INTO biggie_test_table(value) VALUES('stress')"

/-- The statement that makes the table. -/
def tableText : String := "CREATE TABLE IF NOT EXISTS biggie_test_table (value VARCHAR(255))"

/-- A read or a write of a session. -/
def issue (call worker : Nat) (x : Statement) (s : StandIn) : Bool × StandIn :=
  (s.write call worker (statementText s.kind x)).take x

/-- Whether a message is made up: ten to twenty words of lower-case letters. -/
def isFiller (message : String) : Bool :=
  let words := Text.splitOn ' ' message.toList
  10 ≤ words.length && words.length ≤ 20 &&
    words.all fun w => !w.isEmpty && w.all fun c => 'a' ≤ c && c ≤ 'z'

/-- The key of a record. -/
def recordKey (keyed : Bool) (worker n : Nat) : String :=
  if keyed then s!"conn-{worker}-key-{n}" else s!"key-{n}"

/-- How records are handed to a broker. -/
def produceText (s : StandIn) (topic message : String) (count worker : Nat) (keyed : Bool) : String :=
  let shown := if s.hidesFiller && isFiller message then "<lorem>" else message
  let records := (List.range count).map fun n => recordKey keyed worker n ++ "=" ++ shown
  " ".intercalate (["produce", topic ++ "/0", "acks=-1"] ++ records)

/-! ## Workloads -/

/-- Sets a session up: the table of an engine whose job writes. -/
def prepare (s : StandIn) (call worker : Nat) : Workload → Reception × StandIn
  | .sql _ mix =>
    if mix.writes then
      (if s.failSetup then .failed "statement refused" else .ok, s.write call worker tableText)
    else (.ok, s)
  | .redis .. => (if s.failSetup then .failed "command refused" else .ok, s)
  | .kafka settings .. =>
    (if s.topics.contains settings.topic then .ok else .failed "unknown topic", s)
  | .scripted => (.ok, s)

/-- A worker opens a resource. -/
def openFor (s : StandIn) (call worker : Nat) (workload : Workload) : Reception × StandIn :=
  match s.accept with
  | (.ok, s) => (s.enter call worker).prepare call worker workload
  | (reception, s) => (reception, s)

/-- A worker runs a cycle: whether it failed. -/
def workFor (s : StandIn) (call worker : Nat) : Workload → Bool × StandIn
  | .sql _ mix | .redis _ mix =>
    let (outcome, s) := mix.run (issue call worker) s
    (outcome.toOption.isNone, s)
  | .kafka settings message count keyed =>
    if count = 0 then (false, s)
    else (s.write call worker (s.produceText settings.topic message count worker keyed)).take .write
  | .scripted => (false, s)

/-- Someone looks whether the back end can be reached. -/
def probe (s : StandIn) : Reception × StandIn :=
  match s.accept with
  | (.ok, s) => (if s.failSetup && s.kind = .redis then .failed "command refused" else .ok, s)
  | (reception, s) => (reception, s)

/-! ## Sessions -/

/-- The statements of each session that received any. -/
def received (s : StandIn) : List (List String) :=
  (s.sessions.map fun x => x.statements.reverse).filter fun xs => !xs.isEmpty

/-- The sessions with nothing new to show. -/
def shown (s : StandIn) : StandIn :=
  { s with sessions := s.sessions.map fun x => { x with statements := [] } }

end StandIn

end Havoc.Outside
