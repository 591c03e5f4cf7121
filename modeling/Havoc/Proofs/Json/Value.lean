import Havoc.Json.Value

/-! # The members of an object

    An object is made of members one by one, and the last member with a key is the
    one that counts. -/

namespace Havoc.Json

/-- The first member is looked at first. -/
theorem lookup_cons_eq (key k : String) (x : Value) (ms : List (String × Value)) :
    ((key, x) :: ms).lookup k = if k = key then some x else ms.lookup k := by
  by_cases hk : k = key
  · rw [if_pos hk, hk]
    exact List.lookup_cons_self
  · rw [if_neg hk, List.lookup_cons, beq_false_of_ne hk]

/-- A member that is put in is found under its key, and the others as before. -/
theorem lookup_insertMember (key k : String) (x : Value) (ms : List (String × Value)) :
    (insertMember key x ms).lookup k = if k = key then some x else ms.lookup k := by
  induction ms with
  | nil => exact lookup_cons_eq key k x []
  | cons m rest ih =>
      obtain ⟨k', y⟩ := m
      unfold insertMember
      by_cases hlt : key < k'
      · rw [if_pos hlt, lookup_cons_eq]
      · rw [if_neg hlt]
        by_cases hsame : key = k'
        · rw [if_pos hsame, lookup_cons_eq, lookup_cons_eq, ← hsame]
          by_cases hk : k = key
          · rw [if_pos hk, if_pos hk]
          · rw [if_neg hk, if_neg hk, if_neg hk]
        · rw [if_neg hsame, lookup_cons_eq, lookup_cons_eq, ih]
          by_cases hk : k = key
          · rw [if_pos hk, if_neg fun heq => hsame (hk.symm.trans heq), if_pos hk]
          · rw [if_neg hk, if_neg hk]

namespace Value

/-- The last member counts. -/
theorem get?_ofMembers_snoc (ms : List (String × Value)) (key k : String) (x : Value) :
    (ofMembers (ms ++ [(key, x)])).get? k =
      if k = key then some x else (ofMembers ms).get? k := by
  unfold ofMembers get?
  rw [List.foldl_append]
  exact lookup_insertMember key k x _

/-- A member with another key changes nothing under a key. -/
theorem get?_ofMembers_snoc_of_ne (ms : List (String × Value)) {key k : String} (x : Value)
    (hne : k ≠ key) : (ofMembers (ms ++ [(key, x)])).get? k = (ofMembers ms).get? k := by
  rw [get?_ofMembers_snoc, if_neg hne]

end Value

end Havoc.Json
