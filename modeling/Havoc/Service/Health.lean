import Havoc.Service.Form
import Havoc.Settings.Backend

/-! # Health

    Whether the service answers, how long it can be made to take, and which back ends it can
    reach. -/

namespace Havoc.Service

open Havoc.Json Havoc.Http

/-- The seconds that a slow reply takes: as many as the request says, or one to five drawn ones. -/
def waitOf (info : Info) : Draw Nat :=
  match (info.queryParam? "wait").bind fun s => Number.readNat? (2 ^ 64 - 1) (Text.trim s.toList) with
  | some n => return n
  | none => do return 1 + (← Draw.below 5)

/-- What a slow reply tells. -/
def waited (seconds : Nat) : Value := Value.ofMembers
  [("message", .text "ok"), ("wait_second", .nat seconds)]

/-- How long a back end has to answer. -/
def probePatience : Span := Span.ofSeconds 5

/-- What came of reaching for a back end. -/
inductive Reach where
  | notConfigured
  | fine
  | failed (cause : String)
  | timedOut
  deriving DecidableEq, Repr

/-- What is told about it. -/
def Reach.text : Reach → String
  | notConfigured => "not configured"
  | fine => "ok"
  | failed cause => s!"failed: {cause}"
  | timedOut => "failed: probe timed out"

/-- The back ends that the settings tell how to reach. -/
def configuredKinds (settings : Settings) : List Backend.Kind → Draw (List Backend.Kind)
  | [] => return []
  | kind :: rest => do
    let found ← settings.isConfigured kind
    let more ← configuredKinds settings rest
    return if found then kind :: more else more

/-- What is told about every back end, when this came of those that were reached for. -/
def reachReport (found : List (Backend.Kind × Reach)) : Value := Value.ofMembers <|
  Backend.Kind.all.map fun kind =>
    (kind.name, .text ((found.lookup kind).getD .notConfigured).text)

end Havoc.Service
