import Havoc.Http.Info
import Havoc.Proofs.Text.Index

/-! # The values of a query

    What a query says is read in two ways: grouped by name, and one name at a time.  Both go by
    names as they are meant, so that two spellings of a name are one name.

    The values of a name are said on the written pairs (`valuesOf`).  The groups hold these by
    `Index.mem_group`, and a search finds the first of them.  The main theorem is
    `query_readers_agree`. -/

namespace Havoc.Http

open Text

/-- The pairs of a query as they are written. -/
def writtenPairs (query : String) : List (List Char) :=
  (splitOn '&' query.toList).filter fun s => !s.isEmpty

/-- What a query says under a name, in the order in which it is written: the values of the
    written pairs whose name is meant to be that name. -/
def valuesOf (query name : String) : List String :=
  ((writtenPairs query).filter fun s => (formPair s).1 = name).map fun s => (formPair s).2

theorem queryPairs_eq (query : String) : queryPairs query = (writtenPairs query).map formPair := rfl

theorem valuesOf_eq (query name : String) :
    valuesOf query name = Index.values name (queryPairs query) := by
  rw [Index.values, queryPairs_eq, List.filter_map, List.map_map]
  rfl

theorem queryParam?_eq (i : Info) (name : String) :
    i.queryParam? name = (valuesOf i.query name).head? := by
  rw [valuesOf_eq, Index.values, List.head?_map, List.head?_filter]
  rfl

/-- **BOTH READERS OF A QUERY AGREE.**  The groups stand in the order of their names, each name
    once, and under each name are its values and no others, in the order in which they came; all
    groups together are the pairs of the query.  The search for a name gives the first of its
    values, and nothing exactly if there is no group for it. -/
theorem query_readers_agree (i : Info) :
    (i.queryParams.map Prod.fst).Pairwise (· < ·) ∧
    (∀ name values, (name, values) ∈ i.queryParams ↔
      values ≠ [] ∧ values = valuesOf i.query name) ∧
    (Index.ungroup i.queryParams).Perm ((writtenPairs i.query).map formPair) ∧
    (i.queryParams.map fun p => p.2.length).sum = (queryPairs i.query).length ∧
    ∀ name, i.queryParam? name = (i.queryParams.lookup name).bind List.head? ∧
      (i.queryParam? name = none ↔ name ∉ i.queryParams.map Prod.fst) := by
  have hmem : ∀ name values, (name, values) ∈ i.queryParams ↔
      values ≠ [] ∧ values = valuesOf i.query name := by
    intro name values
    rw [valuesOf_eq]
    exact Index.mem_group
  have hperm := Index.perm_group (queryPairs i.query)
  refine ⟨Index.sorted_group _, hmem, hperm, ?_, fun name => ⟨?_, ?_⟩⟩
  · rw [← Index.length_ungroup]
    exact hperm.length_eq
  · rw [queryParam?_eq, Info.queryParams, Index.lookup_group, ← valuesOf_eq]
    split
    · next hempty => rw [List.isEmpty_iff.mp hempty]; rfl
    · rfl
  · rw [queryParam?_eq, List.head?_eq_none_iff]
    constructor
    · intro hnone hname
      obtain ⟨⟨_, values⟩, hgroup, rfl⟩ := List.mem_map.mp hname
      obtain ⟨hne, heq⟩ := (hmem _ values).mp hgroup
      exact hne (heq.trans hnone)
    · intro hname
      by_contra hne
      exact hname (List.mem_map_of_mem (f := Prod.fst) ((hmem name _).mpr ⟨hne, rfl⟩))

/-- Three spellings of one name, and a name alone. -/
example : (({ query := "a%20b=1&x&a+b=2&%61%20b=3" } : Info).queryParams) =
    [("a b", ["1", "2", "3"]), ("x", [""])] := by
  decide +kernel

end Havoc.Http
