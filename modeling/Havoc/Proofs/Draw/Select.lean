import Havoc.Draw.Select
import Mathlib.Data.List.Nodup

/-! # What a drawn choice always is

    A draw depends on the words of its stream, and some facts about it do not: one chosen
    member is a member, a shuffled list has the members that it had, and several chosen
    members are different ones.  `Always` says that a draw comes to something with a property
    on every stream; it passes through the steps of a draw (`Always.bind`), so each fact is
    put together from the facts about single draws. -/

namespace Havoc.Draw

variable {α β : Type} {P Q : α → Prop}

/-- A draw that is followed by another leaves it the rest of the words. -/
theorem bind_apply (d : Draw α) (f : α → Draw β) (w : Words) :
    (d >>= f) w = f (d w).1 (d w).2 := rfl

/-- On every stream of words a draw comes to something with a property. -/
def Always (d : Draw α) (P : α → Prop) : Prop := ∀ w, P (d w).1

theorem Always.return {x : α} (h : P x) : Always (return x) P := fun _ => h

theorem Always.bind {d : Draw α} {f : α → Draw β} {Q : β → Prop} (hd : Always d P)
    (hf : ∀ x, P x → Always (f x) Q) : Always (d >>= f) Q :=
  fun w => hf _ (hd w) (d w).2

theorem Always.mono {d : Draw α} (hd : Always d P) (h : ∀ x, P x → Q x) : Always d Q :=
  fun w => h _ (hd w)

/-- What holds of everything holds of a draw. -/
theorem always_of_all {d : Draw α} (h : ∀ x, P x) : Always d P := fun _ => h _

/-! ## One member -/

theorem always_belowShort {n : Nat} (h : 0 < n) : Always (belowShort n) (· < n) :=
  fun w => belowWith_lt h patience w

theorem always_choose (x : α) (xs : List α) : Always (choose x xs) (· ∈ x :: xs) := by
  refine (always_belowShort (Nat.succ_pos xs.length)).bind fun i hi => .return ?_
  rw [List.getD_eq_getElem?_getD, List.getElem?_eq_getElem hi]
  exact List.getElem_mem hi

/-! ## A drawn order -/

theorem exchange_perm (xs : List α) (i j : Nat) : (exchange xs i j).Perm xs := by
  rw [exchange]
  split
  · next x y hx hy =>
      obtain ⟨hi, rfl⟩ := List.getElem?_eq_some_iff.mp hx
      obtain ⟨hj, rfl⟩ := List.getElem?_eq_some_iff.mp hy
      exact List.set_set_perm hi hj
  · exact List.Perm.refl xs

theorem always_shuffleFrom (i : Nat) (xs : List α) : Always (shuffleFrom i xs) (·.Perm xs) := by
  induction i generalizing xs with
  | zero => exact .return (List.Perm.refl xs)
  | succ i ih =>
      rw [shuffleFrom]
      refine (always_of_all fun _ => trivial).bind fun j _ => ?_
      exact (ih _).mono fun ys hys => hys.trans (exchange_perm xs (i + 1) j)

theorem always_shuffle (xs : List α) : Always (shuffle xs) (·.Perm xs) :=
  always_shuffleFrom _ xs

/-! ## Several members -/

theorem insertAt_perm (xs : List α) (i : Nat) (x : α) : (insertAt xs i x).Perm (x :: xs) := by
  have h := @List.perm_middle _ x (xs.take i) (xs.drop i)
  rwa [List.take_append_drop] at h

/-- Positions are drawn one for each bound, all different: a number that was drawn before is
    left to the bound, which is above all that was drawn before. -/
theorem always_positionsFrom {js chosen : List Nat} (hjs : js.Pairwise (· < ·))
    (hbelow : ∀ c ∈ chosen, ∀ j ∈ js, c < j) (hnodup : chosen.Nodup) :
    Always (positionsFrom js chosen) fun drawn =>
      drawn.Nodup ∧ drawn.length = chosen.length + js.length ∧
        ∀ c ∈ drawn, c ∈ chosen ∨ ∃ j ∈ js, c ≤ j := by
  induction js generalizing chosen with
  | nil => exact .return ⟨hnodup, rfl, fun c hc => Or.inl hc⟩
  | cons j rest ih =>
      obtain ⟨hfirst, hrest⟩ := List.pairwise_cons.mp hjs
      rw [positionsFrom]
      refine (always_belowShort (Nat.succ_pos j)).bind fun t ht => ?_
      -- one more position, not above the bound, that was not drawn before
      have hgo : ∀ {more : List Nat} {c : Nat}, more.Perm (c :: chosen) → c ∉ chosen → c ≤ j →
          Always (positionsFrom rest more) fun drawn =>
            drawn.Nodup ∧ drawn.length = chosen.length + (j :: rest).length ∧
              ∀ c ∈ drawn, c ∈ chosen ∨ ∃ j' ∈ j :: rest, c ≤ j' := by
        intro more c hmore hnew hle
        have hbelow' : ∀ x ∈ more, ∀ j' ∈ rest, x < j' := by
          intro x hx j' hj'
          rcases List.mem_cons.mp (hmore.mem_iff.mp hx) with rfl | hx
          · exact Nat.lt_of_le_of_lt hle (hfirst j' hj')
          · exact hbelow x hx j' (List.mem_cons_of_mem j hj')
        refine (ih hrest hbelow' (hmore.nodup_iff.mpr (List.nodup_cons.mpr ⟨hnew, hnodup⟩))).mono ?_
        rintro drawn ⟨hdrawn, hlength, hmem⟩
        refine ⟨hdrawn, ?_, ?_⟩
        · rw [hlength, hmore.length_eq, List.length_cons, List.length_cons]
          omega
        · intro x hx
          rcases hmem x hx with hx | ⟨j', hj', hx⟩
          · rcases List.mem_cons.mp (hmore.mem_iff.mp hx) with rfl | hx
            · exact Or.inr ⟨j, List.mem_cons_self, hle⟩
            · exact Or.inl hx
          · exact Or.inr ⟨j', List.mem_cons_of_mem j hj', hx⟩
      split
      · refine hgo (insertAt_perm chosen _ j) ?_ (Nat.le_refl j)
        exact fun hmem => Nat.lt_irrefl j (hbelow j hmem j List.mem_cons_self)
      · next hfresh =>
          refine hgo (List.perm_append_singleton t chosen) ?_ (Nat.le_of_lt_succ ht)
          intro hmem
          have := List.findIdx?_eq_none_iff.mp hfresh t hmem
          exact absurd rfl (of_decide_eq_false this)

theorem always_positions {k n : Nat} (h : k ≤ n) :
    Always (positions k n) fun drawn =>
      drawn.Nodup ∧ drawn.length = k ∧ ∀ c ∈ drawn, c < n := by
  have hpairs : ((List.range k).map (n - k + ·)).Pairwise (· < ·) := by
    refine List.pairwise_map.mpr (List.pairwise_lt_range.imp ?_)
    intro a b hab
    exact Nat.add_lt_add_left hab _
  refine (always_positionsFrom hpairs (fun c hc => absurd hc List.not_mem_nil) List.nodup_nil).mono ?_
  rintro drawn ⟨hdrawn, hlength, hmem⟩
  refine ⟨hdrawn, ?_, ?_⟩
  · rw [hlength, List.length_map, List.length_range]
    exact Nat.zero_add k
  · intro c hc
    rcases hmem c hc with hc | ⟨j, hj, hle⟩
    · exact absurd hc List.not_mem_nil
    · obtain ⟨i, hi, rfl⟩ := List.mem_map.mp hj
      have := List.mem_range.mp hi
      omega

/-- Members at different positions of a list without repetition are different members. -/
theorem always_several {xs : List α} (hxs : xs.Nodup) (k : Nat) :
    Always (several k xs) fun ys => ys.Nodup ∧ ys ⊆ xs ∧ ys.length = min k xs.length := by
  refine (always_positions (Nat.min_le_right k xs.length)).bind fun chosen hchosen => ?_
  obtain ⟨hnodup, hlength, hmem⟩ := hchosen
  refine .return ⟨?_, ?_, ?_⟩
  · refine hnodup.filterMap ?_
    intro i j x hi hj
    obtain ⟨hilt, hx⟩ := List.getElem?_eq_some_iff.mp hi
    obtain ⟨hjlt, hy⟩ := List.getElem?_eq_some_iff.mp hj
    exact hxs.getElem_inj_iff.mp (hx.trans hy.symm)
  · intro x hx
    obtain ⟨i, -, hi⟩ := List.mem_filterMap.mp hx
    exact List.mem_of_getElem? hi
  · rw [← hlength, List.length_filterMap_eq_countP, List.countP_eq_length]
    intro i hi
    rw [List.getElem?_eq_getElem (hmem i hi)]
    rfl

end Havoc.Draw
