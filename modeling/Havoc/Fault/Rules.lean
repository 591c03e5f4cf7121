import Havoc.Draw.Uniform
import Havoc.Time.Clock

/-! # Faults

    Four rules can be armed, each with a value and a lifetime: a delay of every request, the loss
    of some, errors in place of some replies, and downtime.  A rule that is armed again forgets
    what it was; one whose lifetime has passed has no effect. -/

namespace Havoc.Fault

/-- The faults that a request can be rejected by. -/
inductive Kind where
  | serviceDown | packetLoss | randomError
  deriving DecidableEq, Repr

namespace Kind

/-- The name of a fault in metrics. -/
def label : Kind → String
  | serviceDown => "downtime"
  | packetLoss => "packet_loss"
  | randomError => "error_injection"

end Kind

/-- A rule that was armed: its value and when it lapses. -/
structure Armed (α : Type) where
  value : α
  expiry : Instant
  deriving Repr

/-- A rule that is in force, with the time it has left. -/
structure Active (α : Type) where
  value : α
  remaining : Span
  deriving Repr

/-- A rule armed at an instant for a lifetime. -/
def arm (value : α) (now : Instant) (lifetime : Span) : Option (Armed α) :=
  some ⟨value, deadlineAfter now lifetime⟩

/-- A rule as it is in force at an instant. -/
def active (rule : Option (Armed α)) (now : Instant) : Option (Active α) :=
  match rule with
  | some r => if now < r.expiry then some ⟨r.value, r.expiry - now⟩ else none
  | none => none

/-- The four rules. -/
structure Rules where
  latency : Option (Armed Span) := none
  /-- The percentage of requests to lose. -/
  packetLoss : Option (Armed Nat) := none
  /-- The share of requests to answer with an error. -/
  errorRate : Option (Armed Float) := none
  downtime : Option (Armed Unit) := none

/-- An order to arm one of the rules for a lifetime. -/
inductive Order where
  | latency (delay lifetime : Span)
  | packetLoss (percent : Nat) (lifetime : Span)
  | errorRate (rate : Float) (lifetime : Span)
  | downtime (lifetime : Span)

/-- The lifetime that an order gives. -/
def Order.lifetime : Order → Span
  | latency _ lifetime | packetLoss _ lifetime | errorRate _ lifetime | downtime lifetime => lifetime

/-- A share brought between zero and one; not a number stays what it is. -/
def clampShare (x : Float) : Float :=
  if x < 0.0 then 0.0 else if 1.0 < x then 1.0 else x

namespace Rules

/-- Delays every request. -/
def setLatency (r : Rules) (delay : Span) (now : Instant) (lifetime : Span) : Rules :=
  { r with latency := arm delay now lifetime }

/-- Loses a percentage of the requests. -/
def setPacketLoss (r : Rules) (percent : Nat) (now : Instant) (lifetime : Span) : Rules :=
  { r with packetLoss := arm (min percent 100) now lifetime }

/-- Answers a share of the requests with an error. -/
def setErrorRate (r : Rules) (rate : Float) (now : Instant) (lifetime : Span) : Rules :=
  { r with errorRate := arm (clampShare rate) now lifetime }

/-- Rejects every request. -/
def setDowntime (r : Rules) (now : Instant) (lifetime : Span) : Rules :=
  { r with downtime := arm () now lifetime }

/-- Arms the rule that an order is for. -/
def obey (r : Rules) (now : Instant) : Order → Rules
  | .latency delay lifetime => r.setLatency delay now lifetime
  | .packetLoss percent lifetime => r.setPacketLoss percent now lifetime
  | .errorRate rate lifetime => r.setErrorRate rate now lifetime
  | .downtime lifetime => r.setDowntime now lifetime

/-- Whether every request is rejected at an instant. -/
def isDown (r : Rules) (now : Instant) : Bool := (active r.downtime now).isSome

/-- The delay of a request at an instant. -/
def delay? (r : Rules) (now : Instant) : Option Span := (active r.latency now).map (·.value)

/-- Draws whether a request is lost. -/
def rollLoss (r : Rules) (now : Instant) : Draw Bool :=
  match active r.packetLoss now with
  | some a => do return (← Draw.belowShort 100) < a.value
  | none => return false

/-- Draws whether a request is answered with an error. -/
def rollError (r : Rules) (now : Instant) : Draw Bool :=
  match active r.errorRate now with
  | some a => do return (← Draw.unit) < a.value
  | none => return false

/-- Draws the fault of a request: first its loss, then an error. -/
def roll (r : Rules) (now : Instant) : Draw (Option Kind) := do
  if ← r.rollLoss now then return some .packetLoss
  else if ← r.rollError now then return some .randomError
  else return none

end Rules

/-- The rules in force at an instant, for a report. -/
structure Snapshot where
  latency : Option (Active Span)
  packetLoss : Option (Active Nat)
  errorRate : Option (Active Float)
  downtime : Option (Active Unit)

/-- The rules in force at an instant. -/
def Rules.snapshot (r : Rules) (now : Instant) : Snapshot :=
  { latency := active r.latency now
    packetLoss := active r.packetLoss now
    errorRate := active r.errorRate now
    downtime := active r.downtime now }

end Havoc.Fault
