import Havoc.Http.Charset
import Havoc.Url.Join

/-! # Exchanges with other services

    A request that the service itself sends, and what comes back.  A reply that points elsewhere is
    followed a few times; some of these replies turn the request into one that only reads. -/

namespace Havoc.Http

open Havoc.Text

/-- A request that is sent. -/
structure Outgoing where
  method : String := "GET"
  url : Url
  headers : List Header := []
  body : List UInt8 := []

/-- A reply that comes back. -/
structure Incoming where
  status : Nat
  headers : List Header
  body : List UInt8
  deriving Repr

/-- What comes of a request that was sent. -/
inductive Response where
  | whole (reply : Incoming)
  /-- No reply came, for a cause. -/
  | missing (cause : String)
  /-- The reply broke off behind its head, for a cause. -/
  | broken (cause : String)

/-- The first header of a reply with a name. -/
def Incoming.header? (r : Incoming) (name : String) : Option (List UInt8) := r.headers.lookup name

/-- Whether a reply tells of success. -/
def Incoming.isSuccess (r : Incoming) : Bool := 200 ≤ r.status && r.status < 300

/-- The body of a reply as text. -/
def Incoming.text (r : Incoming) : String :=
  bodyText ((r.header? "content-type").bind visibleText?) r.body

/-- The path and the query of an address. -/
def requestTarget (u : Url) : String :=
  String.ofList (u.path ++ u.query.elim [] ('?' :: ·))

/-! ## Redirections -/

/-- Where a reply points to, if it points anywhere. -/
def Incoming.location? (r : Incoming) (base : Url) : Option Url := do
  let bytes ← r.header? "location"
  let text ← text? bytes
  (Url.join base text).toOption

/-- The headers that tell about the body of a request. -/
def bodyHeaders : List String :=
  ["content-type", "content-length", "content-encoding", "transfer-encoding"]

/-- The request that a reply turns another into, if it redirects. -/
def Outgoing.redirected? (o : Outgoing) (r : Incoming) : Option Outgoing :=
  let reading (url : Url) : Outgoing :=
    { o with
      url
      method := if o.method = "GET" || o.method = "HEAD" then o.method else "GET"
      headers := o.headers.filter fun h => !bodyHeaders.contains h.1
      body := [] }
  match r.status with
  | 301 | 302 | 303 => (r.location? o.url).map reading
  | 307 | 308 => (r.location? o.url).map fun url => { o with url }
  | _ => none

/-- How many requests a chain of redirections may take. -/
def longestChain : Nat := 10

/-- Sends a request and follows redirections, no more than `fuel` requests in all; `send` is one
    exchange, which may fail. -/
def follow (send : Outgoing → σ → Option Incoming × σ) : Nat → Outgoing → σ → Option Incoming × σ
  | 0, _, s => (none, s)
  | fuel + 1, o, s =>
    match send o s with
    | (none, s) => (none, s)
    | (some r, s) =>
      match o.redirected? r with
      | some next => follow send fuel next s
      | none => (some r, s)

end Havoc.Http
