import Havoc.Text.Index
import Mathlib.Algebra.GroupWithZero.Nat
import Mathlib.Data.List.Induction
import Mathlib.Data.List.Perm.Basic
import Mathlib.Data.String.Basic

/-! # What an index holds

    The names of an index stand in order while it is built (`Sorted`), so that a change under
    one name leaves the others alone (`lookup_update`).  Grouped pairs are therefore found under
    their names in the order in which they came (`lookup_group`), and taking the groups apart
    again gives the pairs back (`perm_group`). -/

namespace Havoc.Index

variable {α : Type} {index : Index α} {name k : String} {x initial : α} {f : α → α}

/-- The names stand in order, and so each of them once. -/
def Sorted (index : Index α) : Prop := (index.map Prod.fst).Pairwise (· < ·)

/-- The values of the pairs with a name, in the order of the pairs. -/
def values (name : String) (pairs : List (String × α)) : List α :=
  (pairs.filter fun p => p.1 = name).map Prod.snd

/-- The pairs that were grouped, group by group. -/
def ungroup (index : Index (List α)) : List (String × α) :=
  index.flatMap fun (name, xs) => xs.map fun x => (name, x)

/-! ## Looking up -/

theorem lookup_cons (name k : String) (x : α) (index : Index α) :
    List.lookup k ((name, x) :: index) = if k = name then some x else index.lookup k := by
  by_cases hk : k = name
  · rw [if_pos hk, hk, List.lookup_cons_self]
  · rw [if_neg hk, List.lookup_cons, beq_false_of_ne hk]

theorem sorted_cons : Sorted ((name, x) :: index) ↔
    (∀ p ∈ index, name < p.1) ∧ Sorted index := by
  rw [Sorted, List.map_cons, List.pairwise_cons, List.forall_mem_map]
  exact Iff.rfl

/-- No name stands before the first. -/
theorem lookup_eq_none_of_lt (h : ∀ p ∈ index, k < p.1) : index.lookup k = none := by
  rw [List.lookup_eq_none_iff]
  intro p hp
  exact bne_iff_ne.mpr (ne_of_lt (h p hp))

/-- In an index, what is found under a name is what stands under it. -/
theorem Sorted.mem_iff (h : Sorted index) : (name, x) ∈ index ↔ index.lookup name = some x := by
  induction index with
  | nil => exact ⟨(nomatch ·), (nomatch ·)⟩
  | cons entry index ih =>
      obtain ⟨first, y⟩ := entry
      obtain ⟨hfirst, hrest⟩ := sorted_cons.mp h
      rw [List.mem_cons, lookup_cons, Prod.mk.injEq]
      by_cases hname : name = first
      · have hnot : (name, x) ∉ index := fun hmem => ne_of_lt (hfirst _ hmem) hname.symm
        rw [if_pos hname, Option.some.injEq, eq_comm (a := y), or_iff_left hnot,
          and_iff_right hname]
      · rw [if_neg hname, ← ih hrest, or_iff_right fun heq => hname heq.1]

/-! ## Changing -/

theorem mem_update {p : String × α} (h : p ∈ index.update name initial f) :
    p.1 = name ∨ p ∈ index := by
  induction index with
  | nil => exact Or.inl (congrArg Prod.fst (List.mem_singleton.mp h))
  | cons entry index ih =>
      obtain ⟨first, y⟩ := entry
      rw [update] at h
      split at h
      · next heq =>
          rcases List.mem_cons.mp h with rfl | h
          · exact Or.inl heq
          · exact Or.inr (List.mem_cons_of_mem _ h)
      · split at h
        · exact (List.mem_cons.mp h).imp (congrArg Prod.fst) id
        · rcases List.mem_cons.mp h with rfl | h
          · exact Or.inr List.mem_cons_self
          · exact (ih h).imp id (List.mem_cons_of_mem _)

theorem Sorted.update (h : Sorted index) : Sorted (index.update name initial f) := by
  induction index with
  | nil => exact List.pairwise_singleton _ _
  | cons entry index ih =>
      obtain ⟨first, y⟩ := entry
      obtain ⟨hfirst, hrest⟩ := sorted_cons.mp h
      rw [Index.update]
      split
      · exact sorted_cons.mpr ⟨hfirst, hrest⟩
      · next hne =>
          split
          · next hlt =>
              refine sorted_cons.mpr ⟨List.forall_mem_cons.mpr ⟨hlt, ?_⟩, h⟩
              exact fun p hp => lt_trans hlt (hfirst p hp)
          · next hnot =>
              refine sorted_cons.mpr ⟨fun p hp => ?_, ih hrest⟩
              rcases mem_update hp with heq | hp
              · exact heq ▸ lt_of_le_of_ne (not_lt.mp hnot) hne
              · exact hfirst p hp

/-- A change under a name is seen under that name only. -/
theorem Sorted.lookup_update (h : Sorted index) :
    (index.update name initial f).lookup k =
      if k = name then some (f ((index.lookup name).getD initial)) else index.lookup k := by
  induction index with
  | nil => exact lookup_cons name k (f initial) []
  | cons entry index ih =>
      obtain ⟨first, y⟩ := entry
      obtain ⟨hfirst, hrest⟩ := sorted_cons.mp h
      rw [Index.update]
      split
      · next heq =>
          subst heq
          rw [lookup_cons, lookup_cons, lookup_cons, if_pos rfl]
          split <;> rfl
      · next hne =>
          split
          · next hlt =>
              have habsent : List.lookup name ((first, y) :: index) = none :=
                lookup_eq_none_of_lt (List.forall_mem_cons.mpr
                  ⟨hlt, fun p hp => lt_trans hlt (hfirst p hp)⟩)
              rw [lookup_cons, habsent]
              rfl
          · rw [lookup_cons, lookup_cons, lookup_cons, ih hrest, if_neg (Ne.symm hne)]
            by_cases hk : k = first
            · rw [if_pos hk, if_pos hk, if_neg (hk ▸ hne)]
            · rw [if_neg hk, if_neg hk]

/-! ## Grouping -/

variable {pairs : List (String × α)}

theorem group_concat (pairs : List (String × α)) (p : String × α) :
    group (pairs ++ [p]) = (group pairs).update p.1 [] (· ++ [p.2]) := by
  rw [group, List.foldl_append]
  rfl

theorem values_concat (name : String) (pairs : List (String × α)) (p : String × α) :
    values name (pairs ++ [p]) = values name pairs ++ if p.1 = name then [p.2] else [] := by
  rw [values, List.filter_append, List.map_append, List.filter_singleton]
  split <;> simp_all [values]

theorem sorted_group (pairs : List (String × α)) : Sorted (group pairs) := by
  induction pairs using List.reverseRecOn with
  | nil => exact .nil
  | append_singleton pairs p ih =>
      rw [group_concat]
      exact ih.update

/-- Under a name stand the values of the pairs with it, and nothing if there are none. -/
theorem lookup_group (name : String) (pairs : List (String × α)) :
    (group pairs).lookup name =
      if (values name pairs).isEmpty then none else some (values name pairs) := by
  induction pairs using List.reverseRecOn with
  | nil => rfl
  | append_singleton pairs p ih =>
      rw [group_concat, (sorted_group pairs).lookup_update, values_concat]
      by_cases hname : name = p.1
      · subst hname
        have hgiven : ((group pairs).lookup p.1).getD [] = values p.1 pairs := by
          rw [ih]
          split
          · next hempty => exact (List.isEmpty_iff.mp hempty).symm
          · rfl
        rw [if_pos rfl, if_pos rfl, hgiven, if_neg]
        simp
      · rw [if_neg hname, if_neg (Ne.symm hname), List.append_nil, ih]

theorem mem_group {xs : List α} :
    (name, xs) ∈ group pairs ↔ xs ≠ [] ∧ xs = values name pairs := by
  rw [(sorted_group pairs).mem_iff, lookup_group]
  split
  · next hempty =>
      refine ⟨(nomatch ·), fun hboth => ?_⟩
      exact absurd (hboth.2.trans (List.isEmpty_iff.mp hempty)) hboth.1
  · next hsome =>
      rw [Option.some.injEq, eq_comm]
      exact ⟨fun heq => ⟨fun hnil => hsome (List.isEmpty_iff.mpr (heq ▸ hnil)), heq⟩, And.right⟩

/-- One more value under a name is one more pair. -/
theorem ungroup_update (name : String) (x : α) (index : Index (List α)) :
    (ungroup (index.update name [] (· ++ [x]))).Perm (ungroup index ++ [(name, x)]) := by
  induction index with
  | nil => exact .refl _
  | cons entry index ih =>
      obtain ⟨first, xs⟩ := entry
      rw [update]
      split
      · next heq =>
          subst heq
          simp only [ungroup, List.flatMap_cons, List.map_append, List.map_cons, List.map_nil,
            List.append_assoc]
          exact List.perm_append_comm.append_left _
      · split
        · exact @List.perm_append_comm _ [(name, x)] _
        · simp only [ungroup, List.flatMap_cons, List.append_assoc] at ih ⊢
          exact ih.append_left _

/-- No pair is lost and none is made up. -/
theorem perm_group (pairs : List (String × α)) : (ungroup (group pairs)).Perm pairs := by
  induction pairs using List.reverseRecOn with
  | nil => exact .refl _
  | append_singleton pairs p ih =>
      rw [group_concat]
      exact (ungroup_update p.1 p.2 (group pairs)).trans (ih.append_right [p])

theorem length_ungroup (index : Index (List α)) :
    (ungroup index).length = (index.map fun p => p.2.length).sum := by
  rw [ungroup, List.length_flatMap]
  simp only [List.length_map]

end Havoc.Index
