import Havoc.Job.Table
import Mathlib.Data.List.Sort

/-! # Which records are taken away

    The table numbers the jobs in the order in which they finish, and a reading of
    some records tells which jobs to take away.  This is worked out here once, for
    any reading:

    * `excess` takes the finished jobs of a reading that at least `capacity` others
      of the reading have followed (`mem_excess_iff`);
    * marking a job gives out the next number (`numbers_mark`), so that all numbers
      below the count of finished jobs are given out once. -/

namespace Havoc.Job

variable {records : List Record} {r : Record} {id : Id} {now : Moment} {outcome : Outcome}
  {n k : Nat}

/-- The finish numbers among records. -/
def numbers (records : List Record) : List Nat := records.filterMap Record.finishNumber

/-- How many of the records have finished after a number. -/
def later (records : List Record) (k : Nat) : Nat := (numbers records).countP fun j => k < j

/-- A finished record among the newest: fewer than `capacity` of the records have
    finished after it. -/
def isNewest (records : List Record) (r : Record) : Bool :=
  r.finishNumber.any fun k => later records k < capacity

/-! ## The order of finishing -/

/-- Finish numbers with the identifiers of their jobs. -/
def numbered (records : List Record) : List (Nat × Id) :=
  records.filterMap fun r => r.finishNumber.map (·, r.id)

/-- The table sorts by insertion. -/
theorem insertNumber_eq (x : Nat × Id) (l : List (Nat × Id)) :
    Table.insertNumber x l = l.orderedInsert (fun a b => a.1 ≤ b.1) x := by
  induction l with
  | nil => rfl
  | cons y rest ih =>
      rw [Table.insertNumber, ih]
      rfl

theorem finishedOf_eq (records : List Record) :
    Table.finishedOf records = (numbered records).insertionSort fun a b => a.1 ≤ b.1 := by
  have hinsert : Table.insertNumber = List.orderedInsert fun a b : Nat × Id => a.1 ≤ b.1 := by
    funext x l
    exact insertNumber_eq x l
  rw [Table.finishedOf, hinsert]
  rfl

/-- The first components of the numbered jobs are the numbers. -/
theorem map_fst_numbered (records : List Record) :
    (numbered records).map Prod.fst = numbers records := by
  rw [numbered, numbers, List.map_filterMap]
  refine congrArg (List.filterMap · records) ?_
  funext r
  cases r.finishNumber <;> rfl

/-- Distinct numbers are sorted strictly. -/
theorem finishedOf_sorted (hnodup : (numbers records).Nodup) :
    (Table.finishedOf records).Pairwise fun a b => a.1 < b.1 := by
  rw [finishedOf_eq]
  have hle := List.pairwise_insertionSort (fun a b : Nat × Id => a.1 ≤ b.1) (numbered records)
  have hne : ((numbered records).insertionSort fun a b => a.1 ≤ b.1).Pairwise
      fun a b => a.1 ≠ b.1 := by
    rw [← map_fst_numbered] at hnodup
    -- sorting changes no number
    have hperm := List.perm_insertionSort (fun a b : Nat × Id => a.1 ≤ b.1) (numbered records)
    exact List.pairwise_map.mp ((hperm.map Prod.fst).nodup_iff.mpr hnodup)
  refine (hle.and hne).imp ?_
  intro a b hab
  exact lt_of_le_of_ne hab.1 hab.2

/-- The first of a sorted list, up to some number from its end, are those that
    enough others follow. -/
theorem mem_take_iff {l : List (Nat × Id)} (hl : l.Pairwise fun a b => a.1 < b.1) {x : Nat × Id}
    (hx : x ∈ l) (c : Nat) :
    x ∈ l.take (l.length - c) ↔ c ≤ l.countP fun y => x.1 < y.1 := by
  -- what stands before has smaller numbers, what stands after larger ones
  obtain ⟨before, after, rfl⟩ := List.append_of_mem hx
  obtain ⟨-, hafter, hbefore⟩ := List.pairwise_append.mp hl
  have hb : before.countP (fun y => x.1 < y.1) = 0 := by
    refine List.countP_eq_zero.mpr ?_
    intro y hy hlt
    have := hbefore y hy x List.mem_cons_self
    exact absurd (of_decide_eq_true hlt) (Nat.not_lt.mpr (Nat.le_of_lt this))
  have ha : after.countP (fun y => x.1 < y.1) = after.length := by
    refine List.countP_eq_length.mpr ?_
    intro y hy
    exact decide_eq_true ((List.pairwise_cons.mp hafter).1 y hy)
  have hcount : (before ++ x :: after).countP (fun y => x.1 < y.1) = after.length := by
    rw [List.countP_append, hb, List.countP_cons_of_neg (by simp), ha, Nat.zero_add]
  have hlen : (before ++ x :: after).length = before.length + (after.length + 1) := by
    rw [List.length_append, List.length_cons]
  rw [hcount, hlen]
  constructor
  · intro htake
    by_contra hlt
    rw [List.take_append_of_le_length (by omega)] at htake
    have := hbefore x (List.mem_of_mem_take htake) x List.mem_cons_self
    exact Nat.lt_irrefl _ this
  · intro hle
    have hsplit : before.length + (after.length + 1) - c =
        before.length + (after.length - c + 1) := by omega
    rw [hsplit, List.take_length_add_append, List.take_succ_cons]
    exact List.mem_append_right _ List.mem_cons_self

/-- The jobs to take away are those of the reading that enough others of the
    reading have followed. -/
theorem mem_excess_iff (hnodup : (numbers records).Nodup) :
    id ∈ Table.excess records ↔
      ∃ r ∈ records, r.id = id ∧ ∃ k, r.finishNumber = some k ∧ capacity ≤ later records k := by
  have hsorted := finishedOf_sorted hnodup
  have hperm : (Table.finishedOf records).Perm (numbered records) := by
    rw [finishedOf_eq]
    exact List.perm_insertionSort _ _
  -- sorting changes no count either
  have hlater : ∀ x : Nat × Id,
      (Table.finishedOf records).countP (fun y => x.1 < y.1) = later records x.1 := by
    intro x
    rw [hperm.countP_eq, later, ← map_fst_numbered, List.countP_map]
    rfl
  rw [Table.excess, List.mem_map]
  constructor
  · rintro ⟨x, htake, rfl⟩
    have hx : x ∈ Table.finishedOf records := List.mem_of_mem_take htake
    obtain ⟨r, hr, hsome⟩ := List.mem_filterMap.mp (hperm.mem_iff.mp hx)
    obtain ⟨k, hk, rfl⟩ := Option.map_eq_some_iff.mp hsome
    refine ⟨r, hr, rfl, k, hk, ?_⟩
    have hcount := (mem_take_iff hsorted hx capacity).mp htake
    rw [hlater] at hcount
    exact hcount
  · rintro ⟨r, hr, rfl, k, hk, hle⟩
    have hmem : (k, r.id) ∈ numbered records :=
      List.mem_filterMap.mpr ⟨r, hr, Option.map_eq_some_iff.mpr ⟨k, hk, rfl⟩⟩
    refine ⟨(k, r.id), (mem_take_iff hsorted (hperm.mem_iff.mpr hmem) capacity).mpr ?_, rfl⟩
    rw [hlater]
    exact hle

/-! ## Counting numbers -/

/-- How many of the first numbers follow one of them. -/
theorem countP_range (n k : Nat) : (List.range n).countP (fun j => k < j) = n - (k + 1) := by
  induction n with
  | zero => exact (Nat.zero_sub _).symm
  | succ n ih =>
      rw [List.range_succ, List.countP_append, ih, List.countP_singleton]
      by_cases hlt : k < n
      · rw [if_pos (decide_eq_true hlt)]
        omega
      · rw [if_neg (by rw [decide_eq_true_iff]; exact hlt)]
        omega

/-- When the first numbers have all been given out once, the later ones are
    known. -/
theorem later_of_perm (hperm : (numbers records).Perm (List.range n)) (k : Nat) :
    later records k = n - (k + 1) := by
  rw [later, hperm.countP_eq, countP_range]

/-- Numbers below a bound, no two alike, leave no room for more. -/
theorem later_le (hnodup : (numbers records).Nodup) (hbound : ∀ j ∈ numbers records, j < n)
    (k : Nat) : later records k ≤ n - (k + 1) := by
  have hsub : (numbers records).Subperm (List.range n) :=
    List.subperm_of_subset hnodup fun j hj => List.mem_range.mpr (hbound j hj)
  rw [← countP_range]
  exact hsub.countP_le _

/-- Numbers that hold the last few below a bound leave as many after an earlier
    one. -/
theorem le_later {c : Nat} (hall : ∀ j, n - c ≤ j → j < n → j ∈ numbers records)
    (hk : k + c < n) : c ≤ later records k := by
  have hsub : (List.range' (n - c) c).Subperm (numbers records) := by
    refine List.subperm_of_subset List.nodup_range' ?_
    intro j hj
    obtain ⟨hle, hlt⟩ := List.mem_range'_1.mp hj
    exact hall j hle (by omega)
  -- the last numbers all come after this one
  have hcount : (List.range' (n - c) c).countP (fun j => k < j) = c := by
    refine (List.countP_eq_length.mpr ?_).trans List.length_range'
    intro j hj
    obtain ⟨hle, -⟩ := List.mem_range'_1.mp hj
    exact decide_eq_true (by omega)
  rw [← hcount]
  exact hsub.countP_le _

/-! ## What the steps of the table do -/

/-- The record of a job that has just started. -/
def entry (id : Id) (name : String) (mode : Mode) (params : Json.Value) (now : Moment) : Record :=
  { id, name, mode, params, status := .running, startedAt := now, finishedAt := none,
    report := none, finishNumber := none }

/-- What marking a job makes of each record. -/
def marked (id : Id) (n : Nat) (now : Moment) (outcome : Outcome) (r : Record) : Record :=
  if r.id = id then r.finish n now outcome else r

/-- Finishing keeps the identifier and sets the number. -/
theorem finish_id (r : Record) (n : Nat) (now : Moment) (outcome : Outcome) :
    (r.finish n now outcome).id = r.id ∧ (r.finish n now outcome).finishNumber = some n ∧
      (r.finish n now outcome).isRunning = false := by
  cases outcome with
  | ok report => exact ⟨rfl, rfl, rfl⟩
  | error e => exact ⟨rfl, rfl, rfl⟩

/-- Marking keeps identifiers. -/
theorem marked_id (id : Id) (n : Nat) (now : Moment) (outcome : Outcome) (r : Record) :
    (marked id n now outcome r).id = r.id := by
  rw [marked]
  split
  · exact (finish_id r n now outcome).1
  · rfl

/-- Marking leaves the records of other jobs alone. -/
theorem marked_of_ne (hne : r.id ≠ id) : marked id n now outcome r = r := if_neg hne

/-- A record is found by its identifier. -/
theorem get?_of_mem {t : Table} (hnodup : (t.records.map Record.id).Nodup) (hr : r ∈ t.records) :
    t.get? r.id = some r := by
  rw [Table.get?]
  cases hfind : t.records.find? fun x => x.id = r.id with
  | none =>
      exact absurd (decide_eq_true rfl) (List.find?_eq_none.mp hfind r hr)
  | some q =>
      have hq := List.mem_of_find?_eq_some hfind
      have hid := List.find?_some hfind
      rw [List.inj_on_of_nodup_map hnodup hq hr (of_decide_eq_true hid)]

/-- No record is found where there is none. -/
theorem get?_of_absent {t : Table} (habsent : ∀ r ∈ t.records, r.id ≠ id) : t.get? id = none :=
  List.find?_eq_none.mpr fun r hr heq => habsent r hr (of_decide_eq_true heq)

/-- Marking a record that is there. -/
theorem mark_eq {t : Table} (hmem : ∃ r ∈ t.records, r.id = id) :
    t.mark id now outcome =
      ⟨t.records.map (marked id t.finished now outcome), t.finished + 1⟩ := by
  obtain ⟨r, hr, heq⟩ := hmem
  refine if_pos (List.find?_isSome.mpr ⟨r, hr, decide_eq_true heq⟩)

/-- Marking a record that is not there. -/
theorem mark_absent {t : Table} (habsent : ∀ r ∈ t.records, r.id ≠ id) :
    t.mark id now outcome = t := by
  refine if_neg ?_
  intro hsome
  obtain ⟨r, hr, heq⟩ := List.find?_isSome.mp hsome
  exact habsent r hr (of_decide_eq_true heq)

/-- Marking changes nothing among the records of other jobs. -/
theorem map_marked (habsent : ∀ r ∈ records, r.id ≠ id) :
    records.map (marked id n now outcome) = records := by
  rw [List.map_congr_left fun r hr => marked_of_ne (habsent r hr)]
  exact List.map_id records

/-- Numbers of records one after the other. -/
theorem numbers_append (before after : List Record) :
    numbers (before ++ after) = numbers before ++ numbers after := List.filterMap_append

/-- Marking a job that has not finished gives out one more number. -/
theorem numbers_mark (hnodup : (records.map Record.id).Nodup) (hr : r ∈ records)
    (hnone : r.finishNumber = none) :
    (numbers (records.map (marked r.id n now outcome))).Perm (n :: numbers records) := by
  obtain ⟨before, after, rfl⟩ := List.append_of_mem hr
  rw [List.map_append, List.map_cons, List.nodup_middle, List.nodup_cons, List.mem_append] at hnodup
  obtain ⟨hother, -⟩ := hnodup
  -- no other record has this identifier
  have hb : before.map (marked r.id n now outcome) = before :=
    map_marked fun x hx heq => hother (Or.inl (heq ▸ List.mem_map_of_mem hx))
  have ha : after.map (marked r.id n now outcome) = after :=
    map_marked fun x hx heq => hother (Or.inr (heq ▸ List.mem_map_of_mem hx))
  have hself : (marked r.id n now outcome r).finishNumber = some n := by
    rw [marked, if_pos rfl]
    exact (finish_id r n now outcome).2.1
  have hnew : numbers (marked r.id n now outcome r :: after) = n :: numbers after :=
    List.filterMap_cons_some hself
  have hold : numbers (r :: after) = numbers after := List.filterMap_cons_none hnone
  rw [List.map_append, List.map_cons, hb, ha, numbers_append, numbers_append, hnew, hold]
  exact List.perm_middle

end Havoc.Job
