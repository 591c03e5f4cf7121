import Havoc.Backend.Statement
import Havoc.Http.Exchange
import Havoc.Job.Table
import Havoc.Load.Shape
import Havoc.Service.Form
import Havoc.Settings.Backend

/-! # Tasks

    A task is a job before it starts: what it is called, what a caller is told about it and what
    it will do.  What it does is one of the shapes of a load, with work that is either a chore of
    the service itself or a cycle on a back end. -/

namespace Havoc.Service

open Havoc.Json

/-- The work of one cycle that needs no back end. -/
inductive Chore where
  /-- Keeps a processor busy. -/
  | burn
  /-- Takes memory for good. -/
  | leak (bytes : Nat)
  /-- Writes files of random bytes and deletes them. -/
  | writeFiles (size count : Nat)
  /-- Reads a file a number of times. -/
  | readFile (path : String) (times : Nat)
  /-- Writes messages of made-up log lines. -/
  | writeLogs (count lines : Nat)
  /-- Sends requests to an address at the same time; some of them may be left out by chance. -/
  | request (address : String) (count : Nat) (leavesOut : Bool)
  deriving DecidableEq, Repr

/-- What a job puts under load. -/
inductive Workload where
  | sql (settings : Settings.SqlSettings) (mix : Backend.QueryMix)
  | redis (settings : Settings.RedisSettings) (mix : Backend.QueryMix)
  /-- Records with one message; `keyed` puts the number of the worker into their keys. -/
  | kafka (settings : Settings.KafkaSettings) (message : String) (count : Nat) (keyed : Bool)
  /-- A workload that follows the script of the outside world. -/
  | scripted

namespace Workload

/-- The name of a workload in metrics. -/
def name : Workload → String
  | sql settings _ => settings.engine.name
  | redis .. => Backend.Kind.redis.name
  | kafka .. => Backend.Kind.kafka.name
  | scripted => "scripted"

end Workload

/-- What a job does. -/
inductive Work where
  /-- Waits until what was arranged lapses. -/
  | wait (span : Span)
  /-- Takes memory and keeps it for a while. -/
  | keepMemory (bytes : Nat) (span : Span)
  | repeats (cadence : Load.Cadence) (chore : Chore)
  /-- Cycles on a resource that is open already. -/
  | drive (resource : Load.Resource) (cadence : Load.Cadence) (workload : Workload)
  | fanOut (cadence : Load.Cadence) (workers : Nat) (workload : Workload)
  | rampUp (plan : Load.Plan) (workload : Workload)

/-- A job before it starts. -/
structure Task where
  /-- The name in records and metrics. -/
  name : String
  /-- The name in messages. -/
  label : String
  mode : Job.Mode
  /-- What a caller is told about the job and its record keeps. -/
  params : List (String × Value)
  work : Work

/-- What the service finds out elsewhere before it answers. -/
inductive Inquiry where
  /-- What comes back for a request. -/
  | relay (request : Http.Outgoing)
  /-- Whether some back ends can be reached. -/
  | reach (kinds : List Backend.Kind)
  /-- Where the service runs. -/
  | cloud
  /-- Which revision runs. -/
  | revision

/-- What comes of a request. -/
inductive Answer where
  | document (value : Value)
  | page (html : String)
  /-- A document after a while. -/
  | later (span : Span) (value : Value)
  /-- A job, and perhaps an order to arm a fault rule as it starts. -/
  | job (order : Option Fault.Order) (task : Task)
  /-- A job that starts when its resource is open, on that resource. -/
  | connect (kind : Backend.Kind) (workload : Workload) (task : Load.Resource → Task)
  /-- An answer that hangs on something elsewhere. -/
  | inquire (inquiry : Inquiry)
  /-- The end of the service after a while. -/
  | crash (span : Span) (mode : Job.Mode) (value : Value)

end Havoc.Service
