import Havoc.Log.Template

/-! # Formats of the access log

    The format of the log is one of three fixed templates by name, a random template, or a
    template of one's own.  A random template has every mandatory key and up to two optional ones
    in a drawn order; each may be wrapped, and hyphens may stand between them. -/

namespace Havoc.Log

open Havoc.Text

/-- The format with the name `apache`, which is also the format without a name. -/
def apacheFormat : String :=
  "\x7bclient_ip\x7d - - \x7btime:%d/%m/%Y:%H:%M:%S\x7d \x7bmethod\x7d \x7bpath\x7d \x7bstatus_code\x7d -"

/-- The format with the name `nginx`. -/
def nginxFormat : String :=
  "\x7bclient_ip\x7d - \x7btime:%d/%b/%Y:%H:%M:%S\x7d \x7bmethod\x7d \x7bpath\x7d \x7bstatus_code\x7d \x7blatency:ms\x7d"

/-- The format with the name `full`, which shows every key. -/
def fullFormat : String :=
  "\x7btime\x7d \x7bstatus_code\x7d \x7bmethod\x7d \x7bpath\x7d \x7bclient_ip\x7d \x7blatency\x7d \"\x7buser_agent\x7d\" \x7bprotocol\x7d \x7brequest_size\x7d \x7bresponse_size\x7d"

/-! ## Random formats -/

/-- The chance of one half, out of `2^64`. -/
def evenChance : Nat := 2 ^ 63

/-- The chance of three tenths, as the nearest double has it, out of `2^64`. -/
def hyphenChance : Nat := 5404319552844595 * 2 ^ 10

/-- A pattern of a full date and time with one separator. -/
def dateTimePattern (separator : Char) : List Char :=
  '%' :: 'Y' :: separator :: '%' :: 'm' :: separator :: '%' :: 'd' :: 'T' :: '%' :: 'H' ::
    separator :: '%' :: 'M' :: separator :: ['%', 'S']

/-- Draws the unit of a key. -/
def randomUnit : Key → Draw (Option (List Char))
  | .time => do
    if ← Draw.chance evenChance then
      return some (dateTimePattern (← Draw.choose '-' ['/', ':', '.']))
    else return none
  | .latency => do return some (← Draw.choose "s" ["ms", "mcs", "ns"]).toList
  | .requestSize | .responseSize => do return some (← Draw.choose "b" ["kb", "mb", "gb"]).toList
  | _ => return none

/-- Draws how a key is written: its unit, whether it is wrapped and in what, and whether a hyphen
    follows. -/
def randomParts (key : Key) : Draw (List (List Char)) := do
  let body := (Placeholder.mk key (← randomUnit key)).chars
  let wrapped ←
    if ← Draw.chance evenChance then do
      let (opening, closing) ← Draw.choose ('"', '"') [('\'', '\''), ('[', ']')]
      pure (opening :: body ++ [closing])
    else pure body
  if ← Draw.chance hyphenChance then return [wrapped, ['-']] else return [wrapped]

/-- Draws how a list of keys is written. -/
def randomPartsOf : List Key → Draw (List (List Char))
  | [] => return []
  | key :: rest => do
    let parts ← randomParts key
    return parts ++ (← randomPartsOf rest)

/-- Draws a template. -/
def randomFormat : Draw Template := do
  let extra ← Draw.below 3
  let chosen ← Draw.several extra Key.optional
  let keys ← Draw.shuffle (Key.mandatory ++ chosen)
  let parts ← randomPartsOf keys
  return Template.ofString (String.ofList (joinWith ' ' parts))

/-- The template that a setting asks for. -/
def select (value : String) : Draw Template :=
  let chosen := trim value.toList
  match String.ofList (asciiLower chosen) with
  | "" | "apache" => return Template.ofString apacheFormat
  | "nginx" => return Template.ofString nginxFormat
  | "full" => return Template.ofString fullFormat
  | "random" => randomFormat
  | _ => return Template.ofString (String.ofList chosen)

end Havoc.Log
