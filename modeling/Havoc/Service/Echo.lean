import Havoc.Http.Page
import Havoc.Service.Task

/-! # Echoes

    Cheap targets for floods and probes: they answer with what they were sent, with a page in some
    colour, or with a long text. -/

namespace Havoc.Service

open Havoc.Json Havoc.Http

/-- The shortest reply. -/
def fine : Value := Value.ofMembers [("message", .text "ok")]

/-- What is known about the request. -/
def echo (info : Info) : Value := Value.ofMembers (info.details ++ [("message", .text "foo ok")])

/-- What is known about the request, with its body as a document; a body that is none is null. -/
def echoDocument (info : Info) : Value :=
  let payload := (Value.read? info.body).getD .null
  Value.ofMembers <| info.details ++
    [("body", Value.ofMembers [("payload", payload)]), ("message", .text "bar ok")]

/-! ## Colours -/

/-- A colour as six hexadecimal digits. -/
def colorText (n : Nat) : String :=
  String.ofList ('#' :: (Number.hexPadded 6 n).map Char.toUpper)

/-- Draws a colour. -/
def randomColor : Draw String := do return colorText (← Draw.belowShort (2 ^ 24))

/-- The word that asks for something drawn. -/
def isRandomWord (s : String) : Bool := Text.trimmed s = "RANDOM"

/-- The colour of the page: the one asked for, else the one of the settings, else the service's
    own. -/
def pickColor (settings : Settings) (own : String) (info : Info) : Draw String :=
  match (info.queryParam? "color").filter fun c => !(Text.trimmed c).isEmpty with
  | some color => if isRandomWord color then randomColor else return color
  | none => return settings.htmlColor.getD own

/-- The page in a colour that tells what is known about the request. -/
def colorPage (color : String) (info : Info) (now : Moment) : String :=
  let members := match Value.ofMembers info.details with
    | .object members => members
    | _ => []
  let content := members.map fun (key, x) => paragraph (escape key ++ ": " ++ escape x.render)
  layout "Random Color API" "Color API" (escape color) (String.join content) now

/-! ## Long texts -/

/-- The sentence that is repeated when the request names none. -/
def usualSentence : String := "This is a sample sentence."

/-- How often a sentence is repeated when the request does not say. -/
def usualLength : Nat := 10

/-- The longest text in bytes. -/
def longestText : Nat := 256 * 1024 * 1024

/-- Draws a made-up sentence if the word for that stands in its place. -/
def sentenceOf (s : String) : Draw String :=
  if isRandomWord s then do return "randomValue-" ++ Number.decimal (← Draw.belowShort 1000)
  else return s

/-- How often the request wants its sentence. -/
def lengthOf (info : Info) : Nat :=
  match (info.queryParam? "length").bind fun s => Number.readInt64? (Text.trim s.toList) with
  | some n => if 0 < n then n.toNat else usualLength
  | none => usualLength

/-- A sentence again and again. -/
def large (info : Info) : Attempt Value := do
  let length := lengthOf info
  let sentence ← match (info.queryParam? "sentence").filter fun s => !s.isEmpty with
    | some s => (sentenceOf s : Draw String)
    | none => pure usualSentence
  if longestText < (sentence.utf8ByteSize + 1) * length then
    throw (.invalidPayload s!"length {length} exceeds {longestText} bytes of text")
  return Value.ofMembers
    [("large_text", .text (" ".intercalate (List.replicate length sentence)))]

end Havoc.Service
