import Havoc.Service.HostStress

/-! # Arming faults

    Each of the four fault rules has an endpoint that arms it.  The job that comes with it lasts as
    long as the rule, so a caller who waits is answered when the rule has lapsed. -/

namespace Havoc.Service

open Havoc.Json Havoc.Http

/-- What a request for a fault says: a value, a lifetime and whether to wait. -/
structure FaultOrder where
  value : RawQuantity
  maintain : RawQuantity
  isAsync : Bool

/-- The body of a request for a fault whose value stands under a name. -/
def faultForm (valueName : String) : Form FaultOrder :=
  ⟨[valueName, "maintain_second", "async"], fun r => do
    return ⟨← r.quantity? valueName, ← r.quantity? "maintain_second", ← r.flag? "async"⟩⟩

/-- A job that arms a rule and lasts as long as it. -/
def arming (name label : String) (isAsync : Bool) (params : List (String × Value))
    (order : Fault.Order) : Answer :=
  .job (some order)
    { name, label, mode := .ofAsync isAsync, params, work := .wait order.lifetime }

/-- Delays every request. -/
def latency (p : FaultOrder) : Attempt Answer := do
  let delay ← amount (ownRange 100 1000) p.value
  let maintain ← integer maintainRange p.maintain
  return arming "network_latency" "network latency simulation" p.isAsync
    [count "latency_ms" delay, count "maintain_second" maintain.toNat]
    (.latency (Span.ofMillis delay) (secondsOf maintain))

/-- Loses a percentage of the requests. -/
def packetLoss (p : FaultOrder) : Attempt Answer := do
  let percent := min (← amount (ownRange 1 101) p.value) 100
  let maintain ← integer maintainRange p.maintain
  return arming "packet_loss" "packet loss simulation" p.isAsync
    [count "loss_percentage" percent, count "maintain_second" maintain.toNat]
    (.packetLoss percent (secondsOf maintain))

/-- Answers a share of the requests with an error. -/
def errorInjection (p : FaultOrder) : Attempt Answer := do
  let rate := Fault.clampShare (← double p.value)
  let maintain ← integer maintainRange p.maintain
  return arming "error_injection" "error injection" p.isAsync
    [("error_rate", .float rate), count "maintain_second" maintain.toNat]
    (.errorRate rate (secondsOf maintain))

/-- What a request for downtime says. -/
structure DowntimeOrder where
  downtime : RawQuantity
  isAsync : Bool

/-- The body of a request for downtime. -/
def downtimeForm : Form DowntimeOrder :=
  ⟨["downtime_second", "async"], fun r => do
    return ⟨← r.quantity? "downtime_second", ← r.flag? "async"⟩⟩

/-- Rejects every request. -/
def downtime (p : DowntimeOrder) : Attempt Answer := do
  let n ← integer maintainRange p.downtime
  return arming "downtime" "downtime simulation" p.isAsync [count "downtime_second" n.toNat]
    (.downtime (secondsOf n))

end Havoc.Service
