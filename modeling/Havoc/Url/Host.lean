import Havoc.Text.Cut
import Havoc.Url.Percent

/-! # Hosts of addresses

    A host is an IPv6 address in brackets or a name.  Names of the special schemes are decoded,
    lowered and checked, and are IPv4 addresses when their last label is a number; the names of
    all other schemes are opaque. -/

namespace Havoc.Url

open Havoc.Text

/-- Why a text is no address. -/
inductive UrlError where
  | emptyHost | invalidName | invalidPort | invalidIpv4 | invalidIpv6 | invalidDomainCharacter
  | relative
  deriving DecidableEq, Repr

/-- What is told about the error. -/
def UrlError.message : UrlError → String
  | emptyHost => "empty host"
  | invalidName => "invalid international domain name"
  | invalidPort => "invalid port number"
  | invalidIpv4 => "invalid IPv4 address"
  | invalidIpv6 => "invalid IPv6 address"
  | invalidDomainCharacter => "invalid domain character"
  | relative => "relative URL without a base"

/-! ## Numbers of IPv4 addresses -/

/-- One part of an IPv4 address: decimal, octal after a zero, or hexadecimal after `0x`. -/
def ipv4Part? (s : List Char) : Option Nat :=
  let inBase (base : Nat) (ds : List Char) : Option Nat :=
    ds.foldlM (fun n c => (Number.hexValue? c).bind fun d =>
      if d < base then some (n * base + d) else none) 0
  match s with
  | [] => none
  | '0' :: 'x' :: rest | '0' :: 'X' :: rest => inBase 16 rest
  | '0' :: rest => inBase 8 rest
  | _ => inBase 10 s

/-- The labels of a name without an empty last one. -/
def labels (s : List Char) : List (List Char) :=
  let ls := splitOn '.' s
  if 1 < ls.length ∧ ls.getLast? = some [] then ls.dropLast else ls

/-- Whether the last label of a name is a number, so that the name has to be an address. -/
def endsInNumber (s : List Char) : Bool :=
  match (labels s).getLast? with
  | none => false
  | some l => (!l.isEmpty && l.all Char.isDigit) || (l.take 2 = ['0', 'x'] || l.take 2 = ['0', 'X']) && (ipv4Part? l).isSome

/-- The IPv4 address of a name. -/
def ipv4? (s : List Char) : Option Nat :=
  match (labels s).mapM ipv4Part? with
  | none => none
  | some parts =>
    let count := parts.length
    let last := parts.getLastD 0
    let heads := parts.dropLast
    if count = 0 ∨ 4 < count ∨ heads.any (255 < ·) ∨ 256 ^ (5 - count) ≤ last then none
    else
      let lead := heads.zipIdx.foldl (fun n (p, i) => n + p * 256 ^ (3 - i)) 0
      some (lead + last)

/-- An IPv4 address in four decimal parts. -/
def ipv4Text (n : Nat) : List Char :=
  joinWith '.' ([n / 2 ^ 24 % 256, n / 2 ^ 16 % 256, n / 2 ^ 8 % 256, n % 256].map Number.digits)

/-! ## IPv6 addresses -/

/-- A piece of an IPv6 address: one to four hexadecimal digits. -/
def ipv6Piece? (s : List Char) : Option Nat :=
  if s.isEmpty || 4 < s.length then none
  else s.foldlM (fun n c => (Number.hexValue? c).map (n * 16 + ·)) 0

/-- One of four decimal parts of an IPv4 address, written without leading zeros. -/
def decimalByte? (s : List Char) : Option Nat :=
  if s.isEmpty || !s.all Char.isDigit || (1 < s.length && s.head? = some '0') || 3 < s.length then none
  else
    let n := Number.valueOf s
    if n ≤ 255 then some n else none

/-- The two pieces that a trailing IPv4 address in decimal fills. -/
def embeddedIpv4? (s : List Char) : Option (List Nat) :=
  match (splitOn '.' s).mapM decimalByte? with
  | some [a, b, c, d] => some [a * 256 + b, c * 256 + d]
  | _ => none

/-- The pieces between colons; the last may be an IPv4 address. -/
def ipv6Pieces? (s : List Char) : Option (List Nat) :=
  let rec go : List (List Char) → Option (List Nat)
    | [] => some []
    | [l] => match ipv6Piece? l with
      | some n => some [n]
      | none => embeddedIpv4? l
    | l :: rest => match ipv6Piece? l with
      | some n => (go rest).map (n :: ·)
      | none => none
  if s.isEmpty then some [] else go (splitOn ':' s)

/-- The text before and after the first two colons in a row. -/
def cutAtGap : List Char → Option (List Char × List Char)
  | ':' :: ':' :: rest => some ([], rest)
  | c :: rest => (cutAtGap rest).map fun (before, after) => (c :: before, after)
  | [] => none

/-- The eight pieces of an IPv6 address. -/
def ipv6? (s : List Char) : Option (List Nat) :=
  match cutAtGap s with
  | none => (ipv6Pieces? s).bind fun ps => if ps.length = 8 then some ps else none
  | some (before, after) =>
    match (if before.contains '.' then none else ipv6Pieces? before), ipv6Pieces? after with
    | some front, some back =>
      let missing := 8 - (front.length + back.length)
      if front.length + back.length < 8 then some (front ++ List.replicate missing 0 ++ back) else none
    | _, _ => none

/-- The first of the longest runs of at least two zeros, as its start and length. -/
def longestZeros (ps : List Nat) : Option (Nat × Nat) :=
  let runAt (i : Nat) : Nat := ((ps.drop i).takeWhile (· = 0)).length
  (List.range ps.length).foldl (fun best i =>
    let n := runAt i
    if 2 ≤ n ∧ (best.elim 0 (·.2)) < n then some (i, n) else best) none

/-- An IPv6 address with its longest run of zeros left out. -/
def ipv6Text (ps : List Nat) : List Char :=
  let piece (n : Nat) : List Char := Nat.toDigits 16 n
  match longestZeros ps with
  | none => joinWith ':' (ps.map piece)
  | some (start, n) =>
    joinWith ':' ((ps.take start).map piece) ++ [':', ':'] ++
      joinWith ':' ((ps.drop (start + n)).map piece)

/-! ## Sockets -/

/-- An IPv6 address that stands for an IPv4 address shows that one. -/
def mappedText (ps : List Nat) : List Char :=
  match ps with
  | [0, 0, 0, 0, 0, 0xFFFF, high, low] => "::ffff:".toList ++ ipv4Text (high * 65536 + low)
  | _ => ipv6Text ps

/-- The address of a socket, which is written with a port behind it. -/
def socketAddress? (s : String) : Option String := do
  let (host, port) ← cutAtLast ':' s.toList
  let isPort := !port.isEmpty && port.all Char.isDigit && Number.valueOf port ≤ 65535
  if !isPort then none
  else if host.head? = some '[' && host.getLast? = some ']' then
    return String.ofList (mappedText (← ipv6? (host.drop 1).dropLast))
  else
    let _ ← embeddedIpv4? host
    return String.ofList host

/-! ## Hosts -/

/-- An address in brackets, with the brackets. -/
def bracketed? (s : List Char) : Except UrlError (List Char) :=
  if s.getLast? = some ']' then
    match ipv6? (s.drop 1).dropLast with
    | some ps => .ok ('[' :: ipv6Text ps ++ [']'])
    | none => .error .invalidIpv6
  else .error .invalidIpv6

/-- The characters that no host may hold. -/
def isForbidden (c : Char) : Bool :=
  ['\x00', '\t', '\n', '\r', ' ', '#', '/', ':', '<', '>', '?', '@', '[', '\\', ']', '^', '|'].contains c

/-- The host of a scheme that is not special. -/
def opaqueHost (s : List Char) : Except UrlError (List Char) :=
  if s.head? = some '[' then bracketed? s
  else if s.any isForbidden then .error .invalidDomainCharacter
  else .ok (encode controls s)

/-- The host of a special scheme. -/
def specialHost (s : List Char) : Except UrlError (List Char) :=
  if s.head? = some '[' then bracketed? s
  else
    match text? (decode s) with
    | none => .error .invalidName
    | some name =>
      let name := asciiLower name.toList
      if name.any (fun c => isForbidden c || c = '%' || c.toNat < 0x20 || c.toNat = 0x7F) then
        .error .invalidName
      else if name.isEmpty then .error .emptyHost
      else if endsInNumber name then
        match ipv4? name with
        | some n => .ok (ipv4Text n)
        | none => .error .invalidIpv4
      else .ok name

end Havoc.Url
