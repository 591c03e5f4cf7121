import Havoc.Http.Query
import Havoc.Http.Syntax
import Havoc.Json.Value
import Havoc.Text.Blank

/-! # Requests

    A request as it came in, and what the service keeps of it: the access log, the bodies of errors
    and the echoing endpoints all speak of a request through the same information. -/

namespace Havoc.Http

open Havoc.Text Havoc.Json

/-- The versions of the protocol. -/
inductive Version where
  | http09 | http10 | http11 | http2 | http3
  deriving DecidableEq, Repr

/-- A version as text. -/
def Version.text : Version → String
  | http09 => "HTTP/0.9"
  | http10 => "HTTP/1.0"
  | http11 => "HTTP/1.1"
  | http2 => "HTTP/2.0"
  | http3 => "HTTP/3.0"

/-- Reads a version by its number. -/
def Version.ofNumber? (s : String) : Option Version :=
  [("0.9", http09), ("1.0", http10), ("1.1", http11), ("2", http2), ("3", http3)].lookup s

/-- A header: its name in lower case and its value. -/
abbrev Header := String × List UInt8

/-- A request as it came in. -/
structure Request where
  method : String
  target : Target
  version : Version := .http11
  headers : List Header := []
  /-- The address of the other side of the connection, if it is known. -/
  peer : Option String := none
  body : List UInt8 := []

namespace Request

/-- The value of the first header with a name, if it reads as text. -/
def header? (r : Request) (name : String) : Option String :=
  (r.headers.lookup name).bind visibleText?

/-- The first address that the request was forwarded for. -/
def forwardedFor? (r : Request) : Option String := do
  let value ← r.header? "x-forwarded-for"
  let first := String.ofList (trim ((splitOn ',' value.toList).headD []))
  if first.isEmpty then none else some first

/-- The cookies of the request. -/
def cookies (r : Request) : Index String :=
  let pairs := (splitOn ';' ((r.header? "cookie").getD "").toList).filterMap (cutAt '=')
  Index.ofPairs (pairs.map fun (name, value) =>
    (String.ofList (trim name), String.ofList (trim value)))

end Request

/-- What is known about a request. -/
structure Info where
  method : String := "GET"
  path : String := "/"
  query : String := ""
  host : String := ""
  clientIp : String := ""
  userAgent : String := ""
  protocol : String := "HTTP/1.1"
  cookies : Index String := []
  body : List UInt8 := []

namespace Info

/-- What is known about a request that came in. -/
def ofRequest (r : Request) : Info :=
  { method := r.method
    path := r.target.path
    query := r.target.query.getD ""
    host := ((r.header? "host").or r.target.authority).getD ""
    clientIp := (r.forwardedFor?.or r.peer).getD ""
    userAgent := (r.header? "user-agent").getD ""
    protocol := r.version.text
    cookies := r.cookies
    body := r.body }

/-- The values of the query by name, those of one name in the order in which they came. -/
def queryParams (i : Info) : Index (List String) := Index.group (queryPairs i.query)

/-- The first value of the query with a name. -/
def queryParam? (i : Info) (name : String) : Option String :=
  ((queryPairs i.query).find? fun p => p.1 = name).map (·.2)

/-- A text under each name as a document. -/
def textsValue (index : Index String) : Value := .object (index.map fun (k, x) => (k, .text x))

/-- What is told about a request in the bodies of errors. -/
def details (i : Info) : List (String × Value) :=
  [("method", .text i.method), ("ip", .text i.clientIp),
    ("query", .object (i.queryParams.map fun (k, xs) => (k, .array (xs.map .text)))),
    ("cookies", textsValue i.cookies),
    ("body", Value.ofMembers
      [("length", .nat i.body.length), ("payload", .text (lossy i.body))])]

end Info

end Havoc.Http
