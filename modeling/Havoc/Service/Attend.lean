import Havoc.Service.BackendJob
import Havoc.Service.FaultControl
import Havoc.Service.Flood
import Havoc.Service.Relay
import Havoc.Service.Route
import Havoc.Service.State

/-! # Attending to a request

    What comes of a request with a route.  Nothing is done here: an answer that takes more than
    words names what is to be done, and a problem leaves everything as it was. -/

namespace Havoc.Service

open Havoc.Json Havoc.Http

namespace State

/-- The record of a job. -/
def jobRecord (s : State) (id : String) : Attempt Answer :=
  match (Job.Id.ofText? id.toList).bind s.table.get? with
  | some record => return .document record.value
  | none => throw .jobNotFound

/-- What comes of a request with a route. -/
def attend (s : State) (now : Instant) (info : Info) : Route → Attempt Answer
  | .cpu => do cpu (← cpuForm.read info.body)
  | .memory => do memory (← (memoryForm "memory_percent").read info.body)
  | .memoryLeak => do memoryLeak (← (memoryForm "leak_size_mb").read info.body)
  | .fileWrite => do fileWrite (← fileWriteForm.read info.body)
  | .fileRead => do fileRead (← fileReadForm.read info.body)
  | .logs => do logs (← logsForm.read info.body)
  | .latency => do latency (← (faultForm "latency_ms").read info.body)
  | .packetLoss => do packetLoss (← (faultForm "loss_percentage").read info.body)
  | .errorInjection => do errorInjection (← (faultForm "error_rate").read info.body)
  | .downtime => do downtime (← downtimeForm.read info.body)
  | .crash => do crash (← crashForm.read info.body)
  | .concurrentFlood => do concurrentFlood info (← floodForm.read info.body)
  | .ddos => do ddos info (← floodForm.read info.body)
  | .thirdParty => do thirdParty (← thirdPartyForm.read info.body)
  | .backend kind operation => do
    backendJob s.config.settings kind operation (← backendForm.read info.body)
  | .jobs => return .document (jobList s.table)
  | .job id => s.jobRecord id
  | .health => return .document fine
  | .healthSlow => do
    let seconds ← (waitOf info : Draw Nat)
    return .later (Span.ofSeconds seconds) (waited seconds)
  | .healthExternal => do
    return .inquire (.reach (← (configuredKinds s.config.settings Backend.Kind.all : Draw _)))
  | .healthHops => do return .inquire (.relay (← outgoing (← relayForm.read info.body)))
  | .simple => return .document fine
  | .simpleFoo => return .document (echo info)
  | .simpleBar => return .document (echoDocument info)
  | .simpleColor => do
    let color ← (pickColor s.config.settings s.config.color info : Draw String)
    return .page (colorPage color info (wallClock now))
  | .simpleLarge => do return .document (← large info)
  | .metadataAll => return .inquire .cloud
  | .revisionColor => return .inquire .revision
  | .systemMetrics =>
    return .document (systemReport s.config.host (s.rules.snapshot now) s.table.counts)

end State

/-- What a caller is told about what was found out; an answer to another question is none. -/
def conclude (environment : Environment) (now : Instant) : Inquiry → Finding → Option Outcome
  | .relay _, .relayed response => some ((relayOutcome response).map .document)
  | .reach _, .reached found => some (.ok (.document (reachReport found)))
  | .cloud, .cloud machine task => some (.ok (.document (cloudReport machine task environment)))
  | .revision, .revision task => some (.ok (.page (revisionPage task environment (wallClock now))))
  | _, _ => none

end Havoc.Service
