import Havoc.Time.Clock

/-! # Serving on an address

    Before anything is served there must be something to serve with, and an address of the host
    that nobody else listens on.  Then the service goes on until it is told to stop. -/

namespace Havoc.Service

/-- What a service finds where it is to listen. -/
inductive Listening where
  /-- An address that is free, or one that was taken up for the service beforehand. -/
  | free
  /-- An address that someone else listens on. -/
  | taken
  /-- An address of another host. -/
  | foreign
  deriving DecidableEq, Repr

/-- Whether an address is one of the host itself: any of its addresses, or its loopback. -/
def isOwnAddress (address : String) : Bool :=
  ["0.0.0.0", "::", "::1"].contains address || address.startsWith "127." ||
    address.startsWith "::ffff:127."

/-- What a service finds at an address that it is the first to listen on. -/
def Listening.ofAddress (address : String) : Listening :=
  if isOwnAddress address then free else foreign

/-- Why a service does not start. -/
inductive ServeError where
  | noHandler
  | addressInUse
  | addressElsewhere
  deriving DecidableEq, Repr

/-- The message of an error. -/
def ServeError.message : ServeError → String
  | noHandler => "handler must be set via with_handler()"
  | addressInUse => "address already in use"
  | addressElsewhere => "address of another host"

/-- How far a service has come. -/
inductive Serving where
  | failed (error : ServeError)
  | stopped
  | going
  deriving DecidableEq, Repr

/-- What a service that starts now comes to within a while, and how long that takes: it fails at
    its start, or goes on until it is told to stop. -/
def serve (listening : Listening) (hasHandler : Bool) (stopAfter : Option Span) (limit : Span) :
    Serving × Span :=
  if !hasHandler then (.failed .noHandler, 0)
  else
    match listening, stopAfter with
    | .taken, _ => (.failed .addressInUse, 0)
    | .foreign, _ => (.failed .addressElsewhere, 0)
    | .free, some span => if span ≤ limit then (.stopped, span) else (.going, limit)
    | .free, none => (.going, limit)

end Havoc.Service
