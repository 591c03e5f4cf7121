import Havoc.Text.Cut
import Havoc.Text.Index
import Havoc.Url.Percent

/-! # Queries

    A query is a list of names and values.  Pairs are parted by ampersands and a name from its
    value by the first equals sign; a plus sign stands for a space, and percent signs with two
    digits for bytes. -/

namespace Havoc.Http

open Havoc.Text

/-- A name or a value as it is meant. -/
def formText (s : List Char) : String :=
  lossy (Url.decode (s.map fun c => if c = '+' then ' ' else c))

/-- The name and the value of a written pair. -/
def formPair (s : List Char) : String × String :=
  match cutAt '=' s with
  | some (name, value) => (formText name, formText value)
  | none => (formText s, "")

/-- The pairs of a query in the order in which they are written. -/
def queryPairs (query : String) : List (String × String) :=
  ((splitOn '&' query.toList).filter fun s => !s.isEmpty).map formPair

end Havoc.Http
