import Havoc.Text.Blank
import Havoc.Log.Amount
import Havoc.Log.Event

/-! # Templates of log lines

    A template is a text with placeholders in braces.  A placeholder is a key, and behind the
    first colon a unit; a key that is not known is shown as a fixed word.  A brace that is never
    closed stands for itself, together with all that follows it.  Values are put in once and are
    never looked at again. -/

namespace Havoc.Log

open Havoc.Text

/-- What a placeholder can show. -/
inductive Key where
  | time | statusCode | method | path | clientIp
  | latency | userAgent | protocol | requestSize | responseSize
  deriving DecidableEq, Repr

namespace Key

/-- The keys of every random template. -/
def mandatory : List Key := [time, statusCode, method, path, clientIp]

/-- The keys of which a random template has at most two. -/
def optional : List Key := [latency, userAgent, protocol, requestSize, responseSize]

/-- The name of a key. -/
def name : Key → String
  | time => "time"
  | statusCode => "status_code"
  | method => "method"
  | path => "path"
  | clientIp => "client_ip"
  | latency => "latency"
  | userAgent => "user_agent"
  | protocol => "protocol"
  | requestSize => "request_size"
  | responseSize => "response_size"

/-- The key of a name, in any case of its letters and with blanks around it. -/
def ofText? (s : List Char) : Option Key :=
  let wanted := asciiLower (trim s)
  (mandatory ++ optional).find? fun k => k.name.toList = wanted

end Key

/-- The word shown for a key that is not known. -/
def unknownText : String := "ERR"

/-- A known key with its unit. -/
structure Placeholder where
  key : Key
  unit : Option (List Char)
  deriving DecidableEq, Repr

namespace Placeholder

/-- Reads the inside of a pair of braces. -/
def ofText? (content : List Char) : Option Placeholder :=
  match cutAt ':' content with
  | some (key, unit) => (Key.ofText? key).map (⟨·, some unit⟩)
  | none => (Key.ofText? content).map (⟨·, none⟩)

/-- The value that a placeholder shows. -/
def render (e : Event) (p : Placeholder) : String :=
  match p.key with
  | .time => timeText e.time p.unit
  | .statusCode => Number.decimal e.status
  | .method => e.method
  | .path => e.path
  | .clientIp => e.clientIp
  | .latency => latencyText e.latency p.unit
  | .userAgent => e.userAgent
  | .protocol => e.protocol
  | .requestSize => sizeText e.requestSize p.unit
  | .responseSize => sizeText e.responseSize p.unit

/-- The placeholder as a template writes it. -/
def chars (p : Placeholder) : List Char :=
  '\x7b' :: p.key.name.toList ++ (p.unit.elim [] (':' :: ·)) ++ ['\x7d']

end Placeholder

/-- The text that the inside of a pair of braces is replaced by. -/
def resolve (content : List Char) (e : Event) : String :=
  match Placeholder.ofText? content with
  | some p => p.render e
  | none => unknownText

/-- A piece of a template. -/
inductive Segment where
  | literal (text : List Char)
  | placeholder (p : Placeholder)
  /-- Braces around something that is no key. -/
  | unknown (content : List Char)
  deriving DecidableEq, Repr

namespace Segment

/-- The piece that a pair of braces is. -/
def ofContent (content : List Char) : Segment :=
  match Placeholder.ofText? content with
  | some p => .placeholder p
  | none => .unknown content

/-- A literal piece, unless it is empty. -/
def literals (text : List Char) : List Segment :=
  if text.isEmpty then [] else [.literal text]

/-- What a piece shows. -/
def render (e : Event) : Segment → String
  | .literal text => String.ofList text
  | .placeholder p => p.render e
  | .unknown _ => unknownText

/-- The piece as a template writes it. -/
def chars : Segment → List Char
  | .literal text => text
  | .placeholder p => p.chars
  | .unknown content => '\x7b' :: content ++ ['\x7d']

end Segment

/-- Where a reader of templates stands: in a literal text, or in a pair of braces after one.  The
    texts are held in reverse. -/
inductive Place where
  | outside (literal : List Char)
  | inside (literal content : List Char)

/-- The pieces of the rest of a template. -/
def segmentsFrom : Place → List Char → List Segment
  | .outside literal, [] => Segment.literals literal.reverse
  | .inside literal content, [] =>
    Segment.literals (literal.reverse ++ '\x7b' :: content.reverse)
  | .outside literal, c :: rest =>
    if c = '\x7b' then segmentsFrom (.inside literal []) rest
    else segmentsFrom (.outside (c :: literal)) rest
  | .inside literal content, c :: rest =>
    if c = '\x7d' then
      Segment.literals literal.reverse ++
        Segment.ofContent content.reverse :: segmentsFrom (.outside []) rest
    else segmentsFrom (.inside literal (c :: content)) rest

/-- A template with the text it was read from. -/
structure Template where
  source : String
  segments : List Segment
  deriving DecidableEq, Repr

namespace Template

/-- Reads a template; every text is one. -/
def ofString (source : String) : Template :=
  ⟨source, segmentsFrom (.outside []) source.toList⟩

/-- The line that a template makes of an event. -/
def render (t : Template) (e : Event) : String := String.join (t.segments.map (Segment.render e))

/-- The placeholders of a template with known keys. -/
def placeholders (t : Template) : List Placeholder :=
  t.segments.filterMap fun
    | .placeholder p => some p
    | _ => none

end Template

end Havoc.Log
