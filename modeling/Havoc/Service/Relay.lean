import Havoc.Http.Exchange
import Havoc.Service.Form

/-! # Relaying a request

    A caller names a request, the service sends it and tells what came back. -/

namespace Havoc.Service

open Havoc.Json Havoc.Http

/-- What a request for a relay says. -/
structure RelayOrder where
  url : String
  method : String
  headers : List (String × String)
  body : String

/-- The body of a request for a relay. -/
def relayForm : Form RelayOrder :=
  ⟨["url", "method", "headers", "body"], fun r => do
    return ⟨← r.text? "url", ← r.text? "method", ← r.get? "headers" Written.textMap? [],
      ← r.text? "body"⟩⟩

/-- The problem with a request that cannot be made. -/
def unmakeable (message : String) : Problem := .elsewhere "REQUEST_CREATION_FAILED" message

/-- The method that a caller names, in any case; a blank one is the one that only reads. -/
def methodOf (s : String) : Except Problem String :=
  let name := Text.trim s.toList
  if name.isEmpty then .ok "GET"
  else if isToken name then .ok (String.ofList (Text.asciiUpper name))
  else .error (unmakeable "invalid HTTP method")

/-- A header that a caller names. -/
def headerOf (h : String × String) : Except Problem Header :=
  let value := Text.utf8 h.2
  if isToken h.1.toList && value.all isValueByte then
    .ok (String.ofList (Text.asciiLower h.1.toList), value)
  else .error (unmakeable "builder error")

/-- The request that a caller names. -/
def outgoing (p : RelayOrder) : Except Problem Outgoing := do
  let method ← methodOf p.method
  let url ← match Url.parse (Text.trimmed p.url) with
    | .ok url => pure url
    | .error e => throw (unmakeable e.message)
  if url.host?.isNone then throw (unmakeable "builder error")
  let headers ← p.headers.mapM headerOf
  return { method, url, headers, body := Text.utf8 p.body }

/-- What came back as a document. -/
def relayed (r : Incoming) : Value :=
  let headers := Index.group (r.headers.map fun (name, value) => (name, Text.lossy value))
  Value.ofMembers
    [("status_code", .nat r.status),
      ("headers", .object (headers.map fun (name, values) => (name, .array (values.map .text)))),
      ("body", .text r.text)]

/-- What a caller is told about a relay. -/
def relayOutcome : Response → Except Problem Value
  | .whole reply => .ok (relayed reply)
  | .missing cause => .error (.elsewhere "REQUEST_FAILED" cause)
  | .broken cause => .error (.elsewhere "READ_RESPONSE_FAILED" cause)

end Havoc.Service
