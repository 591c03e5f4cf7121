import Havoc.Service.HostStress
import Havoc.Url.Reader

/-! # Floods

    Jobs that send many requests at the same time: to this service itself, under the host that the
    caller used, or to an address that the caller names. -/

namespace Havoc.Service

open Havoc.Json Havoc.Http

/-- What a request for a flood of this service says. -/
structure FloodOrder where
  target : String
  requests : RawQuantity
  intensity : RawQuantity
  maintain : RawQuantity
  interval : RawQuantity
  isAsync : Bool

/-- The body of a request for a flood of this service. -/
def floodForm : Form FloodOrder :=
  ⟨["target_endpoint", "request_count", "attack_intensity", "maintain_second", "interval_second",
      "async"], fun r => do
    return ⟨← r.text? "target_endpoint", ← r.quantity? "request_count",
      ← r.quantity? "attack_intensity", ← r.quantity? "maintain_second",
      ← r.quantity? "interval_second", ← r.flag? "async"⟩⟩

/-- The address of an endpoint under the host that a request was sent to. -/
def ownAddress (info : Info) (target : String) : Except Problem String :=
  let target := Text.trimmed target
  if target.isEmpty then .error (.invalidPayload "target_endpoint is required")
  else if info.host.isEmpty then .error (.invalidPayload "request carries no host header")
  else
    let separator := if target.toList.head? = some '/' then "" else "/"
    .ok ("http://" ++ info.host ++ separator ++ target)

/-- A flood of this service with a number of requests that was resolved before. -/
def flood (name label countName : String) (requests : Nat) (info : Info) (p : FloodOrder) :
    Attempt Answer := do
  let address ← ownAddress info p.target
  let maintain ← integer maintainRange p.maintain
  let interval ← integer intervalRange p.interval
  return .job none {
    name, label, mode := .ofAsync p.isAsync
    params := [("target_endpoint", .text p.target), count "maintain_second" maintain.toNat,
      count "interval_second" interval.toNat, count countName requests]
    work := .repeats ⟨secondsOf maintain, secondsOf interval⟩ (.request address requests false) }

/-- A flood with some requests in every cycle. -/
def concurrentFlood (info : Info) (p : FloodOrder) : Attempt Answer := do
  let requests ← amount (ownRange 1 100) p.requests
  flood "concurrent_flood" "concurrent flood simulation" "request_count" requests info p

/-- A flood with very many requests in every cycle. -/
def ddos (info : Info) (p : FloodOrder) : Attempt Answer := do
  let requests ← amount (ownRange 1 1000) p.intensity
  flood "ddos" "DDoS attack simulation" "attack_intensity" requests info p

/-- What a request for calls of another service says. -/
structure ThirdPartyOrder where
  target : String
  rate : RawQuantity
  maintain : RawQuantity
  interval : RawQuantity
  leavesOut : Bool
  isAsync : Bool

/-- The body of a request for calls of another service. -/
def thirdPartyForm : Form ThirdPartyOrder :=
  ⟨["target_url", "call_rate", "maintain_second", "interval_second", "simulate_errors", "async"],
    fun r => do
      return ⟨← r.text? "target_url", ← r.quantity? "call_rate", ← r.quantity? "maintain_second",
        ← r.quantity? "interval_second", ← r.flag? "simulate_errors", ← r.flag? "async"⟩⟩

/-- Calls of another service. -/
def thirdParty (p : ThirdPartyOrder) : Attempt Answer := do
  let target := Text.trimmed p.target
  if let .error e := Url.parse target then
    throw (.invalidPayload s!"invalid target_url: {e.message}")
  let rate ← amount (ownRange 1 100) p.rate
  let maintain ← integer maintainRange p.maintain
  let interval ← integer intervalRange p.interval
  return .job none {
    name := "third_party", label := "third-party API call simulation"
    mode := .ofAsync p.isAsync
    params := [("target_url", .text target), count "maintain_second" maintain.toNat,
      count "call_rate" rate, count "interval_second" interval.toNat,
      ("simulate_errors", .bool p.leavesOut)]
    work := .repeats ⟨secondsOf maintain, secondsOf interval⟩ (.request target rate p.leavesOut) }

end Havoc.Service
