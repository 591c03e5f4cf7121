import Havoc.Fault.Rules
import Havoc.Json.Value

/-! # Reports about faults

    The rules in force as a document: the value of each and the milliseconds it has left. -/

namespace Havoc.Fault

open Havoc.Json

/-- A rule in force as a document. -/
def activeValue (shown : α → Value) (a : Option (Active α)) : Value :=
  match a with
  | some a => Value.ofMembers
      [("value", shown a.value), ("remaining_ms", Value.nat a.remaining.millisWord)]
  | none => .null

/-- The rules in force as a document. -/
def Snapshot.value (s : Snapshot) : Value := Value.ofMembers
  [("latency_ms", activeValue (fun d => Value.nat (Span.millisWord d)) s.latency),
    ("packet_loss_percent", activeValue Value.nat s.packetLoss),
    ("error_rate", activeValue Value.float s.errorRate),
    ("downtime", activeValue (fun _ => .bool true) s.downtime)]

end Havoc.Fault
