import Havoc.Http.Exchange

/-! # A site

    A site stands for another service: it answers requests with what is written down for them, and
    keeps a list of its visits. -/

namespace Havoc.Outside

open Havoc.Http

/-- What a site answers to one kind of request. -/
structure SitePage where
  method : String := "GET"
  /-- The path and the query. -/
  target : String := "/"
  status : Nat := 200
  headers : List Header := []
  body : List UInt8 := []
  /-- A header that the request must have with a value, or must not have at all. -/
  condition : Option (String × Option (List UInt8)) := none

/-- The pages of a site and its visits. -/
structure Site where
  /-- The host and the port of the site. -/
  host : String
  number : Nat
  pages : List SitePage
  /-- The visits, the last first. -/
  visits : List String := []

/-- A header as it arrives: the blanks around its value are left out. -/
def received (h : Header) : Header :=
  let isBlank (b : UInt8) : Bool := b = 32 || b = 9
  (h.1, ((h.2.dropWhile isBlank).reverse.dropWhile isBlank).reverse)

/-- A visit as a line: the method, the path, the headers that begin with `x-` and the body. -/
def visitLine (o : Outgoing) : String :=
  let marked := (o.headers.map received).filter fun h => h.1.startsWith "x-"
  let shown := (marked.map fun (name, value) => name ++ "=" ++ Text.lossy value).mergeSort (· ≤ ·)
  let body := if o.body.isEmpty then [] else ["body=" ++ Text.lossy o.body]
  " ".intercalate ([o.method, requestTarget o.url] ++ shown ++ body)

namespace SitePage

/-- The headers that every request has. -/
def usualHeaders (o : Outgoing) : List Header :=
  let headers := o.headers.map received
  if (headers.lookup "accept").isSome then headers else headers ++ [("accept", Text.utf8 "*/*")]

/-- Whether a page is the one for a request. -/
def isFor (p : SitePage) (o : Outgoing) : Bool :=
  p.method = o.method && p.target = requestTarget o.url &&
    p.condition.all fun (name, value) => (usualHeaders o).lookup name = value

/-- The headers of a page with those that every reply has. -/
def allHeaders (p : SitePage) (isHead : Bool) : List Header :=
  let date := if (p.headers.lookup "date").isSome then []
    else [("date", Text.utf8 "Thu, 01 Jan 1970 00:00:00 GMT")]
  let hasLength := !(p.status = 204 || (isHead && p.body.isEmpty) ||
    (p.headers.lookup "content-length").isSome)
  p.headers.map received ++ date ++
    if hasLength then [("content-length", Text.utf8 (Number.decimal p.body.length))] else []

/-- The reply that a page is. -/
def reply (p : SitePage) (isHead : Bool) : Incoming :=
  { status := p.status, headers := p.allHeaders isHead
    body := if isHead || p.status = 204 || p.status = 304 then [] else p.body }

end SitePage

namespace Site

/-- The reply to a request that no page is for. -/
def missing : SitePage := { status := 404 }

/-- Answers a request. -/
def visit (s : Site) (o : Outgoing) : Incoming × Site :=
  let page := (s.pages.find? (·.isFor o)).getD missing
  (page.reply (o.method = "HEAD"), { s with visits := visitLine o :: s.visits })

/-- Whether an address belongs to the site. -/
def isAt (s : Site) (u : Url) : Bool :=
  u.scheme = "http".toList &&
    u.authority.any fun a =>
      (a.host = s.host.toList || a.host = "localhost".toList) &&
        a.port.getD ((Url.defaultPort? u.scheme).getD 0) = s.number

/-- One exchange: a request to the site is answered, and one to anywhere else fails. -/
def send (s : Site) (o : Outgoing) : Option Incoming × Site :=
  if s.isAt o.url then
    let (r, s) := s.visit o
    (some r, s)
  else (none, s)

/-- Sends a request and follows where it is pointed. -/
def request (s : Site) (o : Outgoing) : Option Incoming × Site :=
  follow (fun o s => s.send o) longestChain o s

end Site

end Havoc.Outside
