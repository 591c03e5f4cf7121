import Havoc.Draw.Select
import Havoc.Time.Calendar

/-! # Events of the access log

    What one line of the log can tell about a request, and made-up events for a flood of lines. -/

namespace Havoc.Log

/-- A request as the log sees it. -/
structure Event where
  time : Moment
  status : Nat
  method : String
  path : String
  clientIp : String
  /-- How long the request took, in nanoseconds. -/
  latency : Nat
  userAgent : String
  protocol : String
  requestSize : Nat
  responseSize : Nat
  deriving DecidableEq, Repr

/-! ## Made-up events -/

/-- A plausible but made-up request. -/
def Event.madeUp (time : Moment) : Draw Event := do
  let status ← Draw.choose 200 [201, 204, 301, 400, 401, 404, 500, 502, 503]
  let method ← Draw.choose "GET" ["POST", "PUT", "PATCH", "DELETE"]
  let path ← Draw.choose "/api/random"
    ["/api/orders", "/api/users", "/test", "/stress", "/metrics", "/healthcheck"]
  let clientIp ← Draw.choose "192.168.1.1" ["10.0.0.5", "172.16.0.3", "10.42.0.12", "10.44.0.22"]
  let micros ← Draw.below (500000 - 100)
  let userAgent ← Draw.choose "curl/8.4.0"
    ["Mozilla/5.0 (X11; Linux x86_64)", "python-requests/2.31.0", "Go-http-client/1.1"]
  let protocol ← Draw.choose "HTTP/1.0" ["HTTP/1.1", "HTTP/2.0"]
  let requestSize ← Draw.below 16384
  let responseSize ← Draw.below (2000000 - 64)
  return {
    time, status, method, path, clientIp, userAgent, protocol, requestSize
    latency := (100 + micros) * 1000
    responseSize := 64 + responseSize }

end Havoc.Log
