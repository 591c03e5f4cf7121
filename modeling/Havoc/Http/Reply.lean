import Havoc.Fault.Rules
import Havoc.Http.Info
import Havoc.Json.Printer
import Havoc.Settings.Basic
import Havoc.Time.Calendar

/-! # Replies

    A reply is a document, a page or a plain text.  Every document says when it was made.  What
    goes wrong with a request is a problem, and a problem has a code, a message and a status of
    its own. -/

namespace Havoc.Http

open Havoc.Json

/-- A reply to a request. -/
structure Reply where
  status : Nat
  contentType : String
  body : String
  deriving DecidableEq, Repr

namespace Reply

/-- A reply with a document; one that is no object becomes the member `data` of one. -/
def document (status : Nat) (now : Moment) (value : Value) : Reply :=
  let members := match value with
    | .object members => members
    | other => [("data", other)]
  ⟨status, "application/json",
    (Value.object (insertMember "requested_at" (.text now.precise) members)).render⟩

/-- A reply with a page. -/
def page (status : Nat) (html : String) : Reply := ⟨status, "text/html; charset=utf-8", html⟩

/-- A reply with a text of some type. -/
def text (status : Nat) (contentType body : String) : Reply := ⟨status, contentType, body⟩

/-- The length of the body in bytes. -/
def size (r : Reply) : Nat := r.body.utf8ByteSize

end Reply

/-- What can be wrong with a request. -/
inductive Problem where
  | invalidPayload (cause : String)
  | invalidRange (cause : String)
  | settings (cause : SettingsError)
  /-- Something that the service depends on failed. -/
  | elsewhere (code message : String)
  | notFound
  | methodNotAllowed
  | jobNotFound
  | fault (kind : Fault.Kind)
  | internal (message : String)
  deriving DecidableEq, Repr

/-- What a caller is told when a fault was put in. -/
def faultMessage : Fault.Kind → String
  | .serviceDown => "service is temporarily unavailable"
  | .packetLoss => "simulated packet loss, request dropped"
  | .randomError => "simulated random error injection"

namespace Problem

/-- What a caller is told. -/
def message : Problem → String
  | invalidPayload cause => s!"invalid payload: {cause}"
  | invalidRange cause => s!"invalid range: {cause}"
  | settings cause => cause.message
  | elsewhere _ message => message
  | notFound => "route not found"
  | methodNotAllowed => "method not allowed"
  | jobNotFound => "job not found"
  | fault kind => faultMessage kind
  | internal message => message

/-- The status of the reply. -/
def status : Problem → Nat
  | invalidPayload _ | invalidRange _ => 400
  | notFound | jobNotFound => 404
  | methodNotAllowed => 405
  | fault .serviceDown | fault .packetLoss => 503
  | fault .randomError | settings _ | elsewhere .. | internal _ => 500

/-- The code of the problem. -/
def code : Problem → String
  | invalidPayload _ => "INVALID_PAYLOAD"
  | invalidRange _ => "INVALID_RANGE"
  | settings _ => "CONFIG_ERROR"
  | elsewhere code _ => code
  | notFound => "NOT_FOUND"
  | methodNotAllowed => "METHOD_NOT_ALLOWED"
  | jobNotFound => "JOB_NOT_FOUND"
  | fault .serviceDown => "SERVICE_DOWN"
  | fault .packetLoss => "PACKET_LOSS"
  | fault .randomError => "RANDOM_ERROR"
  | internal _ => "INTERNAL_ERROR"

/-- The problem with a field that is no quantity. -/
def ofQuantity (e : QuantityError) : Problem :=
  if e.isRangeError then invalidRange e.message else invalidPayload e.message

/-- The problem with a body that is no document of the kind asked for. -/
def malformed : Problem := invalidPayload Json.malformed

/-- The reply to a request with a problem. -/
def reply (p : Problem) (info : Info) (now : Moment) : Reply :=
  Reply.document p.status now <| Value.ofMembers
    [("error", .text p.code), ("message", .text p.message),
      ("request", Value.ofMembers info.details)]

end Problem

end Havoc.Http
