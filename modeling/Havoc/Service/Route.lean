import Havoc.Backend.Kind
import Havoc.Http.Reply

/-! # Routes

    The catalogue of paths, each with the one method that it takes.  Slashes at the end of a path
    do not count.  Besides the fixed paths there are those of the back-end jobs, which name a back
    end and an operation, and those of the job records, which name a job; these two also take
    slashes before their first name. -/

namespace Havoc.Service

open Havoc.Text Havoc.Http

/-- What the service does for a request. -/
inductive Route where
  | cpu | memory | memoryLeak | fileWrite | fileRead | logs
  | latency | packetLoss | errorInjection | downtime | crash
  | concurrentFlood | ddos | thirdParty
  | backend (kind : Backend.Kind) (operation : Backend.Operation)
  | jobs
  | job (id : String)
  | health | healthSlow | healthExternal | healthHops
  | simple | simpleFoo | simpleBar | simpleColor | simpleLarge
  | metadataAll | revisionColor | systemMetrics
  deriving DecidableEq, Repr

/-- The fixed paths, with their methods. -/
def catalogue : List (String × String × Route) := [
  ("/stress/cpu", "POST", .cpu),
  ("/stress/memory", "POST", .memory),
  ("/stress/memory_leak", "POST", .memoryLeak),
  ("/stress/filesystem/write", "POST", .fileWrite),
  ("/stress/filesystem/read", "POST", .fileRead),
  ("/stress/logs", "POST", .logs),
  ("/stress/network/latency", "POST", .latency),
  ("/stress/network/packet_loss", "POST", .packetLoss),
  ("/stress/error_injection", "POST", .errorInjection),
  ("/stress/downtime", "POST", .downtime),
  ("/stress/crash", "POST", .crash),
  ("/stress/concurrent_flood", "POST", .concurrentFlood),
  ("/stress/ddos", "POST", .ddos),
  ("/stress/third_party", "POST", .thirdParty),
  ("/stress/jobs", "GET", .jobs),
  ("/healthcheck", "GET", .health),
  ("/healthcheck/slow", "GET", .healthSlow),
  ("/healthcheck/external", "GET", .healthExternal),
  ("/healthcheck/hops", "POST", .healthHops),
  ("/simple", "GET", .simple),
  ("/simple/foo", "GET", .simpleFoo),
  ("/simple/bar", "POST", .simpleBar),
  ("/simple/color", "GET", .simpleColor),
  ("/simple/large", "GET", .simpleLarge),
  ("/metadata/all", "GET", .metadataAll),
  ("/metadata/revision_color", "GET", .revisionColor),
  ("/metrics/system", "GET", .systemMetrics)]

namespace Route

/-- A path without the slashes at its end. -/
def withoutTrailing (path : List Char) : List Char := dropRightWhile (· = '/') path

/-- The route of a path that names a job, or a back end and an operation, with its method. -/
def nested? (path : List Char) : Option (String × Route) :=
  match splitOn '/' (path.dropWhile (· = '/')) with
  | [first, second, id] =>
    if first = "stress".toList ∧ second = "jobs".toList then
      some ("GET", .job (String.ofList id))
    else none
  | [kind, operation] => do
    let kind ← Backend.Kind.ofName? (String.ofList kind)
    let operation ← Backend.Operation.ofName? (String.ofList operation)
    return ("POST", .backend kind operation)
  | _ => none

/-- The route of a path with the method that it takes. -/
def ofPath? (path : List Char) : Option (String × Route) :=
  (catalogue.lookup (String.ofList path)).or (nested? path)

/-- The route of a request. -/
def resolve (method path : String) : Except Problem Route :=
  match ofPath? (withoutTrailing path.toList) with
  | none => .error .notFound
  | some (allowed, route) => if method = allowed then .ok route else .error .methodNotAllowed

end Route

end Havoc.Service
