import Havoc.Http.Page
import Havoc.Json.Printer
import Havoc.Service.Echo

/-! # Where the service runs

    What the machine, the task and the cluster tell about themselves, and a page in a colour made
    of the revision that runs there. -/

namespace Havoc.Service

open Havoc.Json Havoc.Http Havoc.Text

/-- The variables of the environment; of two with one name the later counts. -/
abbrev Environment := List (String × String)

/-- The value of a variable that is not empty. -/
def Environment.get? (e : Environment) (name : String) : Option String :=
  (e.reverse.lookup name).filter fun value => !value.isEmpty

/-- What the machine tells: its identity by each of two ways of asking. -/
structure MachineFinding where
  withToken : Option String := none
  withoutToken : Option String := none
  deriving Repr

/-- What the machine tells as a document. -/
def MachineFinding.value (m : MachineFinding) : Value := Value.ofMembers <|
  m.withToken.elim [] (fun id => [("instance_id_v2", .text id)]) ++
    m.withoutToken.elim [] (fun id => [("instance_id_v1", .text id)])

/-- What the task tells, or why it tells nothing. -/
abbrev TaskFinding := Except String Value

/-- What the task tells as a document. -/
def taskValue : TaskFinding → Value
  | .ok v => v
  | .error cause => .text s!"error: {cause}"

/-- The variables by which a cluster tells where a service runs. -/
def clusterNames : List String := ["POD_NAME", "POD_NAMESPACE", "POD_IP", "NODE_NAME", "REPLICA_SET"]

/-- What the cluster tells. -/
def clusterFinding (e : Environment) : List (String × String) :=
  clusterNames.filterMap fun name => (e.get? name).map fun value => (name, value)

/-- What the cluster tells as a document. -/
def clusterValue (found : List (String × String)) : Value :=
  if found.isEmpty then .text "not available"
  else Value.ofMembers (found.map fun (name, value) => (name, .text value))

/-- All that is told about where the service runs. -/
def cloudReport (machine : MachineFinding) (task : TaskFinding) (e : Environment) : Value :=
  Value.ofMembers [("ec2", machine.value), ("ecs", taskValue task),
    ("eks", clusterValue (clusterFinding e))]

/-! ## Revisions -/

/-- The text of a member that holds one. -/
def memberText? (v : Value) (name : String) : Option String :=
  match v.get? name with
  | some (.text s) => some s
  | _ => none

/-- What follows the first occurrence of a text. -/
def afterFirst? (sought : List Char) : List Char → Option (List Char)
  | [] => after? sought []
  | c :: rest => (after? sought (c :: rest)).or (afterFirst? sought rest)

/-- What follows the last occurrence of a character, if that is anything. -/
def ending? (c : Char) (s : List Char) : Option String :=
  match cutAtLast c s with
  | some (_, after) => if after.isEmpty then none else some (String.ofList after)
  | none => none

/-- The revision of a task: the one it names, or the end of the name of its definition. -/
def taskRevision? (v : Value) : Option String :=
  match (memberText? v "Revision").filter fun s => !s.isEmpty with
  | some revision => some revision
  | none => do
    let arn ← memberText? v "TaskARN"
    let resource ← afterFirst? "task-definition/".toList arn.toList
    ending? ':' resource

/-- The revision of a cluster: its replica set, or the end of the name of its pod. -/
def clusterRevision? (found : List (String × String)) : Option String :=
  match found.lookup "REPLICA_SET" with
  | some replica => some replica
  | none => (found.lookup "POD_NAME").bind fun pod => ending? '-' pod.toList

/-- Both revisions with a hyphen between them, or the one there is. -/
def combinedRevision? : Option String → Option String → Option String
  | some task, some cluster => some (task ++ "-" ++ cluster)
  | task, cluster => task.or cluster

/-- The colour of a revision. -/
def revisionColor (revision : String) : String :=
  colorText (revision.toList.foldl (fun n c => n + c.toNat) 0 % 2 ^ 32 % 0xFFFFFF)

/-- The revision that runs. -/
def revision? (task : TaskFinding) (e : Environment) : Option String :=
  combinedRevision? (task.toOption.bind taskRevision?) (clusterRevision? (clusterFinding e))

/-- The page of the revision that runs. -/
def revisionPage (task : TaskFinding) (e : Environment) (now : Moment) : String :=
  let (color, message) := match revision? task e with
    | some revision => (revisionColor revision, "Revision: " ++ revision)
    | none => ("#000000", "ECS or EKS metadata unavailable")
  layout "Revision Color" "Revision Color" color (paragraph message) now

end Havoc.Service
