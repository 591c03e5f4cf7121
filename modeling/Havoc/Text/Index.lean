/-! # Indexes

    An index has something under each of its names, in the order of the names. -/

namespace Havoc

/-- Names in order, each once, with what stands under it. -/
abbrev Index (α : Type) := List (String × α)

namespace Index

/-- Changes what stands under a name, which starts as `initial`. -/
def update (name : String) (initial : α) (f : α → α) : Index α → Index α
  | [] => [(name, f initial)]
  | (k, x) :: rest =>
    if k = name then (k, f x) :: rest
    else if name < k then (name, f initial) :: (k, x) :: rest
    else (k, x) :: update name initial f rest

/-- Pairs by name; of two with one name the later counts. -/
def ofPairs (pairs : List (String × α)) : Index α :=
  pairs.foldl (fun index (name, x) => index.update name x fun _ => x) []

/-- Pairs grouped by name, those of one name in their order. -/
def group (pairs : List (String × α)) : Index (List α) :=
  pairs.foldl (fun index (name, x) => index.update name [] (· ++ [x])) []

end Index

end Havoc
