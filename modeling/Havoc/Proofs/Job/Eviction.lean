import Havoc.Proofs.Job.Table
import Mathlib.Logic.Function.Basic
import Mathlib.Logic.Relation

/-! # Eviction when finishes race

    A call of finish marks its record, reads the table record by record, and takes
    away the records that its reading tells it to.  Other calls go on between any
    two of these steps, so a reading can be stale when it is acted upon.  All the
    same no record is taken away too early, and none is left that should go.

    The route: a `Ledger` keeps, beside the table, every record that there ever
    was; `Step` lists the steps of all calls; `Sound` says what every reading has
    seen.  A reading finds only numbers that were given out, so what it takes away
    is old for good (`old_of_chosen`).  The call that marked last finds all of
    them, so what is old is on its list (`chosen_of_old`).  The main theorem is
    `newest_are_kept`. -/

namespace Havoc.Job

/-- How far a call of finish is after its record is marked. -/
inductive Stage where
  | marked
  /-- It reads the table: the jobs that were there when it began to, and the
      records that it has read. -/
  | reading (due : List Id) (readings : List Record)
  /-- It takes records away. -/
  | removing (ids : List Id)

/-- A table with the calls of finish that are in progress, and with all that has
    happened to it. -/
structure Ledger where
  table : Table := {}
  /-- Every record there ever was: a table that nothing is taken away from. -/
  archive : Table := {}
  /-- The jobs for which finish has been called. -/
  ended : List Id := []
  /-- The jobs whose records have been taken away. -/
  removed : List Id := []
  calls : Id → Option Stage := fun _ => none

namespace Ledger

variable {l l' : Ledger} {id x : Id} {name : String} {mode : Mode} {params : Json.Value}
  {now : Moment} {outcome : Outcome} {r : Record} {k : Nat} {stage : Option Stage}

/-- Adds the record of a new job. -/
def start (l : Ledger) (id : Id) (name : String) (mode : Mode) (params : Json.Value)
    (now : Moment) : Ledger :=
  { l with
    table := l.table.start id name mode params now
    archive := l.archive.start id name mode params now }

/-- Sets how far a call of finish is. -/
def put (l : Ledger) (id : Id) (stage : Option Stage) : Ledger :=
  { l with calls := Function.update l.calls id stage }

/-- Marks a job as ended, the first step of its finish. -/
def mark (l : Ledger) (id : Id) (now : Moment) (outcome : Outcome) : Ledger :=
  { l with
    table := l.table.mark id now outcome
    archive := l.archive.mark id now outcome
    ended := id :: l.ended }.put id (some .marked)

/-- Takes a record away. -/
def remove (l : Ledger) (id : Id) : Ledger :=
  { l with table := l.table.remove id, removed := id :: l.removed }

/-! Setting how far a call is leaves everything else alone. -/

@[simp] theorem put_table (l : Ledger) (id : Id) (a : Option Stage) :
    (l.put id a).table = l.table := rfl

@[simp] theorem put_archive (l : Ledger) (id : Id) (a : Option Stage) :
    (l.put id a).archive = l.archive := rfl

@[simp] theorem put_ended (l : Ledger) (id : Id) (a : Option Stage) :
    (l.put id a).ended = l.ended := rfl

@[simp] theorem put_calls (l : Ledger) (id : Id) (a : Option Stage) : (l.put id a).calls id = a :=
  Function.update_self _ _ _

theorem put_calls_of_ne {x : Id} (l : Ledger) (a : Option Stage) (hne : x ≠ id) :
    (l.put id a).calls x = l.calls x :=
  Function.update_of_ne hne _ _

/-- A call that is set anew forgets where it was. -/
theorem put_put (l : Ledger) (id : Id) (a b : Option Stage) :
    (l.put id a).put id b = l.put id b := by
  simp only [put, Function.update_idem]

/-- Whether a job is new: it has no record, and nobody has ended it. -/
def Fresh (l : Ledger) (id : Id) : Prop :=
  id ∉ l.ended ∧ ∀ r ∈ l.archive.records, r.id ≠ id

/-- The steps of a call of finish after its record is marked. -/
inductive Sweep (id : Id) (l : Ledger) : Ledger → Prop where
  | look : l.calls id = some .marked →
      Sweep id l (l.put id (some (.reading (l.table.records.map Record.id) [])))
  | read {due : List Id} {readings : List Record} {r : Record} :
      l.calls id = some (.reading due readings) → r ∈ l.table.records →
      r.id ∉ readings.map Record.id →
      Sweep id l (l.put id (some (.reading due (readings ++ [r]))))
  | choose {due : List Id} {readings : List Record} :
      l.calls id = some (.reading due readings) →
      (∀ r ∈ l.table.records, r.id ∈ due → r.id ∈ readings.map Record.id) →
      Sweep id l (l.put id (some (.removing (Table.excess readings))))
  | remove {x : Id} {ids : List Id} :
      l.calls id = some (.removing (x :: ids)) →
      Sweep id l ((l.remove x).put id (some (.removing ids)))

/-- A sweep touches neither the archive nor the list of ended jobs, and never
    gives back what it has taken away. -/
theorem Sweep.frame (hsweep : Sweep id l l') :
    l'.archive = l.archive ∧ l'.ended = l.ended ∧ ∀ x ∈ l.removed, x ∈ l'.removed := by
  cases hsweep with
  | look hcall => exact ⟨rfl, rfl, fun _ hx => hx⟩
  | read hcall hr hnew => exact ⟨rfl, rfl, fun _ hx => hx⟩
  | choose hcall hread => exact ⟨rfl, rfl, fun _ hx => hx⟩
  | remove hcall => exact ⟨rfl, rfl, fun _ hx => List.mem_cons_of_mem _ hx⟩

/-- The steps of all calls. -/
inductive Step (l : Ledger) : Ledger → Prop where
  | start {id : Id} (name : String) (mode : Mode) (params : Json.Value) (now : Moment) :
      l.Fresh id → Step l (l.start id name mode params now)
  | mark {id : Id} (now : Moment) (outcome : Outcome) :
      id ∉ l.ended → Step l (l.mark id now outcome)
  | sweep {id : Id} {l' : Ledger} : Sweep id l l' → Step l l'
  | leave {id : Id} : l.calls id = some (.removing []) → Step l (l.put id none)

/-- The ledgers that any interleaving of calls leads to. -/
inductive Reachable : Ledger → Prop where
  | empty : Reachable {}
  | step {l l' : Ledger} : Reachable l → Step l l' → Reachable l'

/-! ## What calls have seen -/

/-- A job is old when `capacity` others have finished after it. -/
def Old (l : Ledger) (id : Id) : Prop :=
  ∃ r ∈ l.archive.records, r.id = id ∧
    ∃ k, r.finishNumber = some k ∧ k + capacity < l.archive.finished

/-- A call has read no number that was not given out, and takes away old jobs
    only. -/
def Truthful (l : Ledger) : Option Stage → Prop
  | some (.reading _ readings) =>
      (readings.map Record.id).Nodup ∧ ∀ q ∈ readings, ∀ k, q.finishNumber = some k →
        ∃ r ∈ l.archive.records, r.id = q.id ∧ r.finishNumber = some k
  | some (.removing ids) => ∀ id ∈ ids, l.Old id
  | some .marked | none => True

/-- A call that knows of every finished record: each of them is to be read or has
    been read as it is, and each old one will go. -/
def Thorough (l : Ledger) : Option Stage → Prop
  | some .marked => True
  | some (.reading due readings) =>
      ∀ r ∈ l.table.records, r.finishNumber ≠ none →
        r.id ∈ due ∧ ∀ q ∈ readings, q.id = r.id → q.finishNumber = r.finishNumber
  | some (.removing ids) => ∀ r ∈ l.table.records, l.Old r.id → r.id ∈ ids
  | none => ∀ r ∈ l.table.records, ¬ l.Old r.id

/-- What holds of a ledger whatever the order of the steps. -/
structure Sound (l : Ledger) : Prop where
  ids : (l.archive.records.map Record.id).Nodup
  kept : l.table.records = l.archive.records.filter fun r => r.id ∉ l.removed
  count : l.table.finished = l.archive.finished
  given : (numbers l.archive.records).Perm (List.range l.archive.finished)
  running : ∀ r ∈ l.archive.records, r.isRunning = true ↔ r.finishNumber = none
  ended : ∀ r ∈ l.archive.records, r.finishNumber ≠ none → r.id ∈ l.ended
  gone : ∀ id ∈ l.removed, l.Old id
  truthful : ∀ id, l.Truthful (l.calls id)
  /-- The call that took the last number is thorough. -/
  last : ∀ r ∈ l.archive.records, ∀ k, r.finishNumber = some k →
    k + 1 = l.archive.finished → l.Thorough (l.calls r.id)

namespace Sound

/-- A record is known by its identifier. -/
theorem eq_of_id (sound : Sound l) {r r' : Record} (hr : r ∈ l.archive.records)
    (hr' : r' ∈ l.archive.records) (heq : r.id = r'.id) : r = r' :=
  List.inj_on_of_nodup_map sound.ids hr hr' heq

/-- The numbers that were given out are below the count. -/
theorem number_lt (sound : Sound l) (hr : r ∈ l.archive.records)
    (hk : r.finishNumber = some k) : k < l.archive.finished := by
  have hmem : k ∈ numbers l.archive.records := List.mem_filterMap.mpr ⟨r, hr, hk⟩
  exact List.mem_range.mp (sound.given.mem_iff.mp hmem)

/-- No number was given out twice. -/
theorem eq_of_number (sound : Sound l) {r r' : Record} (hr : r ∈ l.archive.records)
    (hr' : r' ∈ l.archive.records) (hk : r.finishNumber = some k)
    (hk' : r'.finishNumber = some k) : r = r' := by
  have hnodup : (numbers l.archive.records).Nodup :=
    sound.given.nodup_iff.mpr List.nodup_range
  have hpair := List.pairwise_filterMap.mp hnodup
  have hsame : l.archive.records.Pairwise fun a b =>
      ∀ k, a.finishNumber = some k → b.finishNumber = some k → a = b :=
    hpair.imp fun hab k ha hb => absurd rfl (hab k ha k hb)
  -- the two records may stand in either order
  have hflip : l.archive.records.Pairwise fun a b =>
      ∀ k, b.finishNumber = some k → a.finishNumber = some k → b = a :=
    hsame.imp fun hab k hb ha => (hab k ha hb).symm
  exact List.Pairwise.forall_of_forall_of_flip (fun _ _ _ _ _ => rfl) hsame hflip hr hr' k hk hk'

/-- A record in the table is in the archive. -/
theorem archived (sound : Sound l) (hr : r ∈ l.table.records) : r ∈ l.archive.records := by
  rw [sound.kept] at hr
  exact (List.mem_filter.mp hr).1

/-- A record that has not been taken away is in the table. -/
theorem mem_table (sound : Sound l) (hr : r ∈ l.archive.records) (hkept : r.id ∉ l.removed) :
    r ∈ l.table.records := by
  rw [sound.kept]
  exact List.mem_filter.mpr ⟨hr, decide_eq_true hkept⟩

/-- A record that has been taken away is not in the table. -/
theorem not_mem_table (sound : Sound l) (hgone : id ∈ l.removed) :
    ∀ r ∈ l.table.records, r.id ≠ id := by
  intro r hr heq
  rw [sound.kept] at hr
  exact of_decide_eq_true (List.mem_filter.mp hr).2 (heq ▸ hgone)

/-- A record that is not old is in the table. -/
theorem in_table (sound : Sound l) (hr : r ∈ l.archive.records) (hnew : ¬ l.Old r.id) :
    r ∈ l.table.records :=
  sound.mem_table hr fun hmem => hnew (sound.gone _ hmem)

/-- Whether a job is old is seen from its record. -/
theorem old_iff (sound : Sound l) (hr : r ∈ l.archive.records) :
    l.Old r.id ↔ ∃ k, r.finishNumber = some k ∧ k + capacity < l.archive.finished := by
  constructor
  · rintro ⟨r', hr', heq, hold⟩
    rw [sound.eq_of_id hr' hr heq] at hold
    exact hold
  · intro hold
    exact ⟨r, hr, rfl, hold⟩

/-- The record of a running job is not old. -/
theorem not_running_of_old (sound : Sound l) (hr : r ∈ l.archive.records) (hold : l.Old r.id) :
    r.isRunning = false := by
  obtain ⟨k, hk, -⟩ := (sound.old_iff hr).mp hold
  rw [← Bool.not_eq_true, sound.running r hr, hk]
  exact Option.some_ne_none k

/-- The table counts all running jobs. -/
theorem running_count (sound : Sound l) :
    l.table.records.countP Record.isRunning = l.archive.records.countP Record.isRunning := by
  rw [sound.kept, List.countP_filter]
  refine List.countP_congr ?_
  intro r hr
  rw [Bool.and_eq_true, decide_eq_true_iff]
  constructor
  · exact fun h => h.1
  · intro hrun
    refine ⟨hrun, ?_⟩
    intro hgone
    rw [sound.not_running_of_old hr (sound.gone _ hgone)] at hrun
    exact Bool.noConfusion hrun

/-- A record is among the newest just if it has finished and is not old. -/
theorem isNewest_iff (sound : Sound l) (hr : r ∈ l.archive.records) :
    isNewest l.archive.records r = true ↔ r.finishNumber ≠ none ∧ ¬ l.Old r.id := by
  rw [sound.old_iff hr, isNewest]
  cases hk : r.finishNumber with
  | none => exact ⟨fun h => Bool.noConfusion h, fun h => absurd rfl h.1⟩
  | some k =>
      have hlt := sound.number_lt hr hk
      have hlater := later_of_perm sound.given k
      have hpos : 0 < capacity := by decide
      rw [Option.any_some, hlater, decide_eq_true_iff]
      constructor
      · intro hfew
        refine ⟨Option.some_ne_none k, ?_⟩
        rintro ⟨k', hk', hmany⟩
        cases hk'
        omega
      · rintro ⟨-, hnew⟩
        by_contra hmany
        exact hnew ⟨k, rfl, by omega⟩

end Sound

/-! ## Steps keep a ledger sound -/

/-- Finished records stay as they are, and numbers are given out upwards. -/
structure Grows (l l' : Ledger) : Prop where
  keeps : ∀ r ∈ l.archive.records, r.finishNumber ≠ none → r ∈ l'.archive.records
  finished : l.archive.finished ≤ l'.archive.finished

/-- What is old stays old. -/
theorem Old.mono (grows : Grows l l') (hold : l.Old id) : l'.Old id := by
  obtain ⟨r, hr, heq, k, hk, hlt⟩ := hold
  have hmem := grows.keeps r hr (by rw [hk]; exact Option.some_ne_none k)
  exact ⟨r, hmem, heq, k, hk, Nat.lt_of_lt_of_le hlt grows.finished⟩

/-- What a call has read stays true. -/
theorem Truthful.mono (grows : Grows l l') (htrue : l.Truthful stage) : l'.Truthful stage := by
  match stage with
  | none => trivial
  | some .marked => trivial
  | some (.reading due readings) =>
      refine ⟨htrue.1, ?_⟩
      intro q hq k hk
      obtain ⟨r, hr, heq, hrk⟩ := htrue.2 q hq k hk
      exact ⟨r, grows.keeps r hr (by rw [hrk]; exact Option.some_ne_none k), heq, hrk⟩
  | some (.removing ids) => exact fun id hid => (htrue id hid).mono grows

/-- A start adds a record that has not finished. -/
theorem grows_start : Grows l (l.start id name mode params now) :=
  ⟨fun _ hr _ => List.mem_append_left _ hr, Nat.le_refl _⟩

/-- A start makes no job old. -/
theorem old_start (hold : (l.start id name mode params now).Old x) : l.Old x := by
  obtain ⟨r, hr, heq, k, hk, hlt⟩ := hold
  rcases List.mem_append.mp hr with hr | hr
  · exact ⟨r, hr, heq, k, hk, hlt⟩
  · rw [List.mem_singleton.mp hr] at hk
    exact nomatch hk

/-- A call that knows of all finished records need not know of a new one. -/
theorem Thorough.start (fresh : l.Fresh id) (hall : l.Thorough stage) :
    (l.start id name mode params now).Thorough stage := by
  have hnew : ¬ l.Old id := by
    rintro ⟨r, hr, heq, -⟩
    exact fresh.2 r hr heq
  match stage with
  | some .marked => trivial
  | some (.reading due readings) =>
      intro r hr hfin
      rcases List.mem_append.mp hr with hr | hr
      · exact hall r hr hfin
      · rw [List.mem_singleton.mp hr] at hfin
        exact absurd rfl hfin
  | some (.removing ids) =>
      intro r hr hold
      rcases List.mem_append.mp hr with hr | hr
      · exact hall r hr (old_start hold)
      · rw [List.mem_singleton.mp hr] at hold
        exact absurd (old_start hold) hnew
  | none =>
      intro r hr hold
      rcases List.mem_append.mp hr with hr | hr
      · exact hall r hr (old_start hold)
      · rw [List.mem_singleton.mp hr] at hold
        exact absurd (old_start hold) hnew

/-- A start keeps a ledger sound. -/
theorem Sound.start (sound : Sound l) (fresh : l.Fresh id) :
    Sound (l.start id name mode params now) := by
  -- a new job has not been taken away
  have hkept : id ∉ l.removed := by
    intro hmem
    obtain ⟨r, hr, heq, -⟩ := sound.gone id hmem
    exact fresh.2 r hr heq
  refine ⟨?_, ?_, sound.count, ?_, ?_, ?_, ?_, ?_, ?_⟩
  · show ((l.archive.records ++ [entry id name mode params now]).map Record.id).Nodup
    rw [List.map_append]
    refine List.nodup_append.mpr ⟨sound.ids, List.nodup_singleton _, ?_⟩
    intro a ha b hb heq
    obtain ⟨r, hr, rfl⟩ := List.mem_map.mp ha
    exact fresh.2 r hr (heq.trans (List.mem_singleton.mp hb))
  · show l.table.records ++ [entry id name mode params now] =
      (l.archive.records ++ [entry id name mode params now]).filter fun r => r.id ∉ l.removed
    have hone : [entry id name mode params now].filter (fun r => r.id ∉ l.removed) =
        [entry id name mode params now] := List.filter_cons_of_pos (decide_eq_true hkept)
    rw [List.filter_append, ← sound.kept, hone]
  · show (numbers (l.archive.records ++ [entry id name mode params now])).Perm _
    rw [numbers_append]
    exact (List.append_nil _).symm ▸ sound.given
  · intro r hr
    rcases List.mem_append.mp hr with hr | hr
    · exact sound.running r hr
    · rw [List.mem_singleton.mp hr]
      exact ⟨fun _ => rfl, fun _ => rfl⟩
  · intro r hr hfin
    rcases List.mem_append.mp hr with hr | hr
    · exact sound.ended r hr hfin
    · rw [List.mem_singleton.mp hr] at hfin
      exact absurd rfl hfin
  · exact fun x hx => (sound.gone x hx).mono grows_start
  · exact fun x => (sound.truthful x).mono grows_start
  · intro r hr k hk hlast
    rcases List.mem_append.mp hr with hr | hr
    · exact (sound.last r hr k hk hlast).start fresh
    · rw [List.mem_singleton.mp hr] at hk
      exact nomatch hk

/-- A call that knows of all records knows of fewer. -/
theorem Thorough.shrink (htable : ∀ r ∈ l'.table.records, r ∈ l.table.records)
    (hold : ∀ x, l'.Old x → l.Old x) (hall : l.Thorough stage) : l'.Thorough stage := by
  match stage with
  | some .marked => trivial
  | some (.reading due readings) => exact fun r hr hfin => hall r (htable r hr) hfin
  | some (.removing ids) => exact fun r hr h => hall r (htable r hr) (hold _ h)
  | none => exact fun r hr h => hall r (htable r hr) (hold _ h)

/-- A record that has not been ended is in the table, and both tables mark it. -/
theorem Sound.mark_eq (sound : Sound l) (hr : r ∈ l.archive.records) (hnew : r.id ∉ l.ended) :
    r.finishNumber = none ∧
      (l.mark r.id now outcome).archive =
        ⟨l.archive.records.map (marked r.id l.archive.finished now outcome),
          l.archive.finished + 1⟩ ∧
      (l.mark r.id now outcome).table =
        ⟨l.table.records.map (marked r.id l.archive.finished now outcome),
          l.archive.finished + 1⟩ := by
  have hnone : r.finishNumber = none := by
    by_contra hfin
    exact hnew (sound.ended r hr hfin)
  -- a job without a number is not old, so its record is in the table
  have hyoung : ¬ l.Old r.id := by
    rw [sound.old_iff hr]
    rintro ⟨k, hk, -⟩
    rw [hnone] at hk
    exact nomatch hk
  refine ⟨hnone, Job.mark_eq ⟨r, hr, rfl⟩, ?_⟩
  rw [← sound.count]
  exact Job.mark_eq ⟨r, sound.in_table hr hyoung, rfl⟩

/-- Marking an ended job leaves the records of finished jobs alone. -/
theorem Sound.grows_mark (sound : Sound l) (hr : r ∈ l.archive.records) (hnew : r.id ∉ l.ended) :
    Grows l (l.mark r.id now outcome) := by
  obtain ⟨-, harchive, -⟩ := @Sound.mark_eq l now outcome r sound hr hnew
  constructor
  · intro r' hr' hfin
    rw [harchive]
    have hne : r'.id ≠ r.id := fun heq => hnew (heq ▸ sound.ended r' hr' hfin)
    exact List.mem_map.mpr ⟨r', hr', marked_of_ne hne⟩
  · rw [harchive]
    exact Nat.le_succ _

/-- Marking the record of a job that has not been ended keeps a ledger sound. -/
theorem Sound.mark_present (sound : Sound l) (hr : r ∈ l.archive.records)
    (hnew : r.id ∉ l.ended) : Sound (l.mark r.id now outcome) := by
  have grows : Grows l (l.mark r.id now outcome) := sound.grows_mark hr hnew
  obtain ⟨hnone, harchive, htable⟩ := @Sound.mark_eq l now outcome r sound hr hnew
  refine ⟨?_, ?_, ?_, ?_, ?_, ?_, ?_, ?_, ?_⟩
  · rw [harchive, List.map_map]
    have hids : Record.id ∘ marked r.id l.archive.finished now outcome = Record.id :=
      funext fun r' => marked_id _ _ _ _ r'
    rw [hids]
    exact sound.ids
  · rw [harchive, htable, sound.kept, List.filter_map]
    refine congrArg (List.map _) (List.filter_congr ?_)
    intro r' _
    show decide (r'.id ∉ l.removed) =
      decide ((marked r.id l.archive.finished now outcome r').id ∉ l.removed)
    rw [marked_id]
  · rw [harchive, htable]
  -- the next number is given out
  · rw [harchive, List.range_succ]
    refine (numbers_mark sound.ids hr hnone).trans ?_
    exact (sound.given.cons _).trans (List.perm_append_singleton _ _).symm
  · intro r' hr'
    rw [harchive] at hr'
    obtain ⟨q, hq, rfl⟩ := List.mem_map.mp hr'
    by_cases heq : q.id = r.id
    · obtain ⟨-, hnumber, hended⟩ := finish_id q l.archive.finished now outcome
      rw [marked, if_pos heq, hnumber, hended]
      refine ⟨fun h => Bool.noConfusion h, fun h => ?_⟩
      cases h
    · rw [marked_of_ne heq]
      exact sound.running q hq
  · intro r' hr' hfin
    rw [harchive] at hr'
    obtain ⟨q, hq, rfl⟩ := List.mem_map.mp hr'
    rw [marked_id]
    by_cases heq : q.id = r.id
    · rw [heq]
      exact List.mem_cons_self
    · rw [marked_of_ne heq] at hfin
      exact List.mem_cons_of_mem _ (sound.ended q hq hfin)
  · exact fun x hx => (sound.gone x hx).mono grows
  -- the call has read nothing yet
  · intro x
    by_cases heq : x = r.id
    · rw [heq, mark, put_calls]
      trivial
    · rw [mark, put_calls_of_ne _ _ heq]
      exact (sound.truthful x).mono grows
  -- this call is the one that marked last, and it has yet to read
  · intro r' hr' k hk hlast
    rw [harchive] at hr' hlast
    obtain ⟨q, hq, rfl⟩ := List.mem_map.mp hr'
    by_cases heq : q.id = r.id
    · rw [marked_id, heq, mark, put_calls]
      trivial
    · rw [marked_of_ne heq] at hk
      have hlt := sound.number_lt hq hk
      exact absurd (Nat.succ.inj hlast) (Nat.ne_of_lt hlt)

/-- A call may go on if what it has read is true, and if it stays thorough. -/
theorem Sound.put (sound : Sound l) (htrue : l.Truthful stage)
    (hall : l.Thorough (l.calls id) → l.Thorough stage) : Sound (l.put id stage) := by
  refine ⟨sound.ids, sound.kept, sound.count, sound.given, sound.running, sound.ended,
    sound.gone, ?_, ?_⟩
  · intro x
    by_cases heq : x = id
    · rw [heq, put_calls]
      exact htrue
    · rw [put_calls_of_ne _ _ heq]
      exact sound.truthful x
  · intro r hr k hk hlast
    have hthorough := sound.last r hr k hk hlast
    by_cases heq : r.id = id
    · rw [heq] at hthorough
      rw [heq, put_calls]
      exact hall hthorough
    · rw [put_calls_of_ne _ _ heq]
      exact hthorough

/-- Ending a job without a record keeps a ledger sound. -/
theorem Sound.mark_absent (sound : Sound l) (habsent : ∀ r ∈ l.archive.records, r.id ≠ id) :
    Sound (l.mark id now outcome) := by
  have hmark : l.mark id now outcome =
      Ledger.put { l with ended := id :: l.ended } id (some .marked) := by
    have htable : ∀ r ∈ l.table.records, r.id ≠ id := fun r hr => habsent r (sound.archived hr)
    rw [mark, Job.mark_absent habsent, Job.mark_absent htable]
  have hended : Sound { l with ended := id :: l.ended } :=
    ⟨sound.ids, sound.kept, sound.count, sound.given, sound.running,
      fun r hr hfin => List.mem_cons_of_mem _ (sound.ended r hr hfin), sound.gone,
      sound.truthful, sound.last⟩
  rw [hmark]
  exact hended.put trivial fun _ => trivial

/-- The numbers of a true reading are distinct, and were given out. -/
theorem Sound.numbers_of_reading (sound : Sound l) {due : List Id} {readings : List Record}
    (htrue : l.Truthful (some (.reading due readings))) :
    (numbers readings).Nodup ∧ ∀ j ∈ numbers readings, j < l.archive.finished := by
  constructor
  · refine List.pairwise_filterMap.mpr ((List.pairwise_map.mp htrue.1).imp_of_mem ?_)
    intro q q' hq hq' hne k hk k' hk' heq
    rw [← heq] at hk'
    obtain ⟨r, hr, hid, hrk⟩ := htrue.2 q hq k hk
    obtain ⟨r', hr', hid', hrk'⟩ := htrue.2 q' hq' k hk'
    have hsame : r = r' := sound.eq_of_number hr hr' hrk hrk'
    exact hne (hid.symm.trans (hsame ▸ hid'))
  · intro j hj
    obtain ⟨q, hq, hk⟩ := List.mem_filterMap.mp hj
    obtain ⟨r, hr, -, hrk⟩ := htrue.2 q hq j hk
    exact sound.number_lt hr hrk

/-- What a true reading tells to take away is old. -/
theorem Sound.old_of_chosen (sound : Sound l) {due : List Id} {readings : List Record}
    (htrue : l.Truthful (some (.reading due readings))) :
    ∀ x ∈ Table.excess readings, l.Old x := by
  intro x hx
  obtain ⟨hnodup, hbound⟩ := sound.numbers_of_reading htrue
  obtain ⟨q, hq, rfl, k, hk, hmany⟩ := (mem_excess_iff hnodup).mp hx
  obtain ⟨r, hr, hid, hrk⟩ := htrue.2 q hq k hk
  have hlt := sound.number_lt hr hrk
  have hle := later_le hnodup hbound k
  exact ⟨r, hr, hid, k, hrk, by omega⟩

/-- A thorough reading tells to take away all that is old. -/
theorem Sound.chosen_of_old (sound : Sound l) {due : List Id} {readings : List Record}
    (htrue : l.Truthful (some (.reading due readings)))
    (hall : l.Thorough (some (.reading due readings)))
    (hread : ∀ r ∈ l.table.records, r.id ∈ due → r.id ∈ readings.map Record.id) :
    ∀ r ∈ l.table.records, l.Old r.id → r.id ∈ Table.excess readings := by
  -- a finished record of the table has been read with its number
  have hseen : ∀ r ∈ l.table.records, ∀ k, r.finishNumber = some k →
      ∃ q ∈ readings, q.id = r.id ∧ q.finishNumber = some k := by
    intro r hr k hk
    obtain ⟨hdue, hsame⟩ := hall r hr (by rw [hk]; exact Option.some_ne_none k)
    obtain ⟨q, hq, hid⟩ := List.mem_map.mp (hread r hr hdue)
    exact ⟨q, hq, hid, (hsame q hq hid).trans hk⟩
  -- and so the last `capacity` numbers have been read
  have hlast : ∀ j, l.archive.finished - capacity ≤ j → j < l.archive.finished →
      j ∈ numbers readings := by
    intro j hle hlt
    obtain ⟨r, hr, hk⟩ := List.mem_filterMap.mp (sound.given.mem_iff.mpr (List.mem_range.mpr hlt))
    have hyoung : ¬ l.Old r.id := by
      rw [sound.old_iff hr]
      rintro ⟨k, hk', hold⟩
      rw [hk] at hk'
      cases hk'
      omega
    obtain ⟨q, hq, -, hqk⟩ := hseen r (sound.in_table hr hyoung) j hk
    exact List.mem_filterMap.mpr ⟨q, hq, hqk⟩
  intro r hr hold
  obtain ⟨k, hk, hlt⟩ := (sound.old_iff (sound.archived hr)).mp hold
  obtain ⟨q, hq, hid, hqk⟩ := hseen r hr k hk
  refine (mem_excess_iff (sound.numbers_of_reading htrue).1).mpr ⟨q, hq, hid, k, hqk, ?_⟩
  exact le_later hlast hlt

/-- Taking away an old record keeps a ledger sound. -/
theorem Sound.remove (sound : Sound l) (hold : l.Old x) : Sound (l.remove x) := by
  refine ⟨sound.ids, ?_, sound.count, sound.given, sound.running, sound.ended, ?_,
    sound.truthful, ?_⟩
  · show l.table.records.filter (fun r => r.id ≠ x) =
      l.archive.records.filter fun r => r.id ∉ x :: l.removed
    rw [sound.kept, List.filter_filter]
    refine List.filter_congr ?_
    intro r _
    rw [Bool.eq_iff_iff, Bool.and_eq_true, decide_eq_true_iff, decide_eq_true_iff,
      decide_eq_true_iff, List.mem_cons, not_or]
  · intro y hy
    rcases List.mem_cons.mp hy with rfl | hy
    · exact hold
    · exact sound.gone y hy
  · intro r hr k hk hlast
    exact (sound.last r hr k hk hlast).shrink (fun _ hr => (List.mem_filter.mp hr).1)
      fun _ hx => hx

/-- A sweep keeps a ledger sound. -/
theorem Sound.sweep (sound : Sound l) (hsweep : Sweep id l l') : Sound l' := by
  cases hsweep with
  | look hcall =>
      -- all records that are there now are to be read
      refine sound.put ⟨List.nodup_nil, fun q hq => nomatch hq⟩ ?_
      intro _ r hr hfin
      exact ⟨List.mem_map_of_mem hr, fun q hq => nomatch hq⟩
  | @read due readings r hcall hr hnew =>
      have htrue := sound.truthful id
      rw [hcall] at htrue
      refine sound.put ⟨?_, ?_⟩ ?_
      · rw [List.map_append]
        refine List.nodup_append.mpr ⟨htrue.1, List.nodup_singleton _, ?_⟩
        intro a ha b hb heq
        exact hnew (heq.trans (List.mem_singleton.mp hb) ▸ ha)
      · intro q hq k hk
        rcases List.mem_append.mp hq with hq | hq
        · exact htrue.2 q hq k hk
        · rw [List.mem_singleton.mp hq] at hk ⊢
          exact ⟨r, sound.archived hr, rfl, hk⟩
      -- a finished record is read as it is
      · rw [hcall]
        intro hall r' hr' hfin
        obtain ⟨hdue, hread⟩ := hall r' hr' hfin
        refine ⟨hdue, ?_⟩
        intro q hq heq
        rcases List.mem_append.mp hq with hq | hq
        · exact hread q hq heq
        · rw [List.mem_singleton.mp hq] at heq ⊢
          rw [sound.eq_of_id (sound.archived hr) (sound.archived hr') heq]
  | @choose due readings hcall hread =>
      have htrue := sound.truthful id
      rw [hcall] at htrue
      refine sound.put (sound.old_of_chosen htrue) ?_
      rw [hcall]
      exact fun hall => sound.chosen_of_old htrue hall hread
  | @remove x ids hcall =>
      have htrue := sound.truthful id
      rw [hcall] at htrue
      have hremoved := sound.remove (htrue x List.mem_cons_self)
      refine hremoved.put (fun y hy => htrue y (List.mem_cons_of_mem x hy)) ?_
      show (l.remove x).Thorough (l.calls id) → _
      rw [hcall]
      -- the record that was taken away is in the table no more
      intro hall r hr hold
      rcases List.mem_cons.mp (hall r hr hold) with heq | hmem
      · exact absurd heq (of_decide_eq_true (List.mem_filter.mp hr).2)
      · exact hmem

/-- **EVERY STEP KEEPS A LEDGER SOUND.** -/
theorem Sound.step (sound : Sound l) (hstep : Step l l') : Sound l' := by
  cases hstep with
  | start name mode params now fresh => exact sound.start fresh
  | @mark id now outcome hnew =>
      by_cases hmem : ∃ r ∈ l.archive.records, r.id = id
      · obtain ⟨r, hr, rfl⟩ := hmem
        exact sound.mark_present hr hnew
      · exact sound.mark_absent fun r hr heq => hmem ⟨r, hr, heq⟩
  | sweep hsweep => exact sound.sweep hsweep
  | leave hcall =>
      refine sound.put trivial ?_
      rw [hcall]
      exact fun hall r hr hold => nomatch hall r hr hold

/-- Every ledger that an interleaving of calls leads to is sound. -/
theorem sound_of_reachable (reach : Reachable l) : Sound l := by
  induction reach with
  | empty =>
      exact ⟨List.nodup_nil, rfl, rfl, List.Perm.nil, (fun _ hr => nomatch hr),
        (fun _ hr => nomatch hr), (fun _ hx => nomatch hx), fun _ => trivial,
        (fun _ hr => nomatch hr)⟩
  | step reach hstep ih => exact ih.step hstep

/-- **THE NEWEST ARE KEPT.**  Whatever the interleaving of starts and of the steps
    of finishes, the table keeps every record of a running job; what has been
    taken away has finished and is not among the newest; and when no finish is in
    progress, the finished records in the table are just the newest ones. -/
theorem newest_are_kept (reach : Reachable l) :
    (∀ r ∈ l.archive.records, r.isRunning = true → r ∈ l.table.records) ∧
      (∀ r ∈ l.archive.records, r.id ∈ l.removed →
        r.isRunning = false ∧ isNewest l.archive.records r = false) ∧
      ((∀ id, l.calls id = none) → ∀ r,
        (r ∈ l.table.records ∧ r.isRunning = false) ↔
          (r ∈ l.archive.records ∧ isNewest l.archive.records r = true)) := by
  have sound := sound_of_reachable reach
  refine ⟨?_, ?_, ?_⟩
  · intro r hr hrun
    refine sound.in_table hr ?_
    intro hold
    rw [sound.not_running_of_old hr hold] at hrun
    exact Bool.noConfusion hrun
  · intro r hr hgone
    have hold := sound.gone _ hgone
    refine ⟨sound.not_running_of_old hr hold, ?_⟩
    rw [Bool.eq_false_iff]
    exact fun h => ((sound.isNewest_iff hr).mp h).2 hold
  · intro hidle r
    constructor
    · rintro ⟨hr, hrun⟩
      have harch := sound.archived hr
      have hfin : r.finishNumber ≠ none := by
        rw [← Bool.not_eq_true, sound.running r harch] at hrun
        exact hrun
      refine ⟨harch, (sound.isNewest_iff harch).mpr ⟨hfin, ?_⟩⟩
      -- the call that marked last has left, so it has taken away what is old
      have hpos : 0 < l.archive.finished := by
        obtain ⟨k, hk⟩ := Option.ne_none_iff_exists'.mp hfin
        exact Nat.lt_of_le_of_lt (Nat.zero_le k) (sound.number_lt harch hk)
      have hlast : l.archive.finished - 1 ∈ numbers l.archive.records :=
        sound.given.mem_iff.mpr (List.mem_range.mpr (by omega))
      obtain ⟨q, hq, hk⟩ := List.mem_filterMap.mp hlast
      have hall := sound.last q hq _ hk (by omega)
      rw [hidle] at hall
      exact hall r hr
    · rintro ⟨hr, hnewest⟩
      obtain ⟨hfin, hyoung⟩ := (sound.isNewest_iff hr).mp hnewest
      refine ⟨sound.in_table hr hyoung, ?_⟩
      rw [← Bool.not_eq_true, sound.running r hr]
      exact hfin

/-! ## Finishing without a break -/

/-- All steps of a call of finish, one after the other. -/
def finish (l : Ledger) (id : Id) (now : Moment) (outcome : Outcome) : Ledger :=
  ((Table.excess (l.mark id now outcome).table.records).foldl remove
    (l.mark id now outcome)).put id none

/-- The table then finishes as a whole. -/
theorem finish_table : (l.finish id now outcome).table = l.table.finish id now outcome := by
  have hremove : ∀ (ids : List Id) (l : Ledger),
      (ids.foldl remove l).table = ids.foldl Table.remove l.table := by
    intro ids
    induction ids with
    | nil => intro l; rfl
    | cons x ids ih => intro l; exact ih (l.remove x)
  have hmark : l.table.mark id now outcome = (l.mark id now outcome).table := rfl
  rw [finish, put_table, Table.finish, Table.evict, hmark, hremove]

/-- Taking records away changes nothing but the table. -/
theorem foldl_remove_frame (ids : List Id) :
    ∀ l : Ledger, (ids.foldl remove l).archive = l.archive ∧
      (ids.foldl remove l).ended = l.ended ∧ (ids.foldl remove l).calls = l.calls := by
  induction ids with
  | nil => intro l; exact ⟨rfl, rfl, rfl⟩
  | cons x ids ih => intro l; exact ih (l.remove x)

/-- The archive then has one more finished job. -/
theorem finish_archive :
    (l.finish id now outcome).archive = l.archive.mark id now outcome ∧
      (l.finish id now outcome).ended = id :: l.ended := by
  obtain ⟨harchive, hended, -⟩ := foldl_remove_frame
    (Table.excess (l.mark id now outcome).table.records) (l.mark id now outcome)
  rw [finish, put_archive, put_ended, harchive, hended]
  exact ⟨rfl, rfl⟩

/-- No call is in progress then that was not before. -/
theorem finish_calls (hidle : ∀ x, l.calls x = none) :
    ∀ x, (l.finish id now outcome).calls x = none := by
  obtain ⟨-, -, hcalls⟩ := foldl_remove_frame
    (Table.excess (l.mark id now outcome).table.records) (l.mark id now outcome)
  intro x
  rw [finish]
  by_cases heq : x = id
  · rw [heq, put_calls]
  · rw [put_calls_of_ne _ _ heq, hcalls, mark, put_calls_of_ne _ _ heq]
    exact hidle x

/-- A call may read all records one after the other. -/
theorem sweeps_read {due : List Id} (hnodup : (l.table.records.map Record.id).Nodup)
    (rest : List Record) :
    ∀ {done : List Record}, l.table.records = done ++ rest →
      Relation.ReflTransGen (Sweep id) (l.put id (some (.reading due done)))
        (l.put id (some (.reading due l.table.records))) := by
  induction rest with
  | nil =>
      intro done hsplit
      rw [hsplit, List.append_nil]
  | cons r rest ih =>
      intro done hsplit
      have hmem : r ∈ l.table.records := by
        rw [hsplit]
        exact List.mem_append_right _ List.mem_cons_self
      -- identifiers are distinct, so the next record has not been read
      have hnew : r.id ∉ done.map Record.id := by
        rw [hsplit, List.map_append, List.map_cons, List.nodup_middle, List.nodup_cons,
          List.mem_append, not_or] at hnodup
        exact hnodup.1.1
      have hread := Sweep.read (put_calls l id (some (.reading due done))) hmem hnew
      rw [put_put] at hread
      refine Relation.ReflTransGen.head hread (ih ?_)
      rw [hsplit, List.append_assoc]
      rfl

/-- A call may take all records away one after the other. -/
theorem sweeps_remove (ids : List Id) :
    ∀ l : Ledger, Relation.ReflTransGen (Sweep id) (l.put id (some (.removing ids)))
      ((ids.foldl remove l).put id (some (.removing []))) := by
  induction ids with
  | nil => intro l; exact Relation.ReflTransGen.refl
  | cons x ids ih =>
      intro l
      have hremove := Sweep.remove (put_calls l id (some (.removing (x :: ids))))
      have heq : ((l.put id (some (.removing (x :: ids)))).remove x).put id (some (.removing ids)) =
          (l.remove x).put id (some (.removing ids)) := put_put (l.remove x) id _ _
      rw [heq] at hremove
      exact Relation.ReflTransGen.head hremove (ih (l.remove x))

/-- A call that has marked its record may go through its sweep without a break. -/
theorem sweeps_all (hnodup : (l.table.records.map Record.id).Nodup)
    (hcall : l.calls id = some .marked) :
    Relation.ReflTransGen (Sweep id) l
      (((Table.excess l.table.records).foldl remove l).put id (some (.removing []))) := by
  have hlook := Relation.ReflTransGen.single (Sweep.look hcall)
  have hread := @sweeps_read l id (l.table.records.map Record.id) hnodup
    l.table.records [] rfl
  have hchoose := Sweep.choose
    (put_calls l id (some (.reading (l.table.records.map Record.id) l.table.records)))
    fun r hr _ => List.mem_map_of_mem hr
  rw [put_put] at hchoose
  exact ((hlook.trans hread).tail hchoose).trans (sweeps_remove _ l)

/-- A sweep leads from one reachable ledger to another. -/
theorem Reachable.sweeps (reach : Reachable l) (hsweeps : Relation.ReflTransGen (Sweep id) l l') :
    Reachable l' := by
  induction hsweeps with
  | refl => exact reach
  | tail _ hsweep ih => exact ih.step (.sweep hsweep)

/-- The records of the table have distinct identifiers. -/
theorem Sound.table_ids (sound : Sound l) : (l.table.records.map Record.id).Nodup := by
  rw [sound.kept]
  exact sound.ids.sublist (List.filter_sublist.map _)

/-- **FINISHING AS A WHOLE IS ONE INTERLEAVING.** -/
theorem reachable_finish (reach : Reachable l) (hnew : id ∉ l.ended) :
    Reachable (l.finish id now outcome) := by
  have hmark := reach.step (.mark now outcome hnew)
  have hcall : (l.mark id now outcome).calls id = some .marked := put_calls _ _ _
  have hsweeps := hmark.sweeps (sweeps_all (sound_of_reachable hmark).table_ids hcall)
  have hleave := hsweeps.step (.leave (put_calls _ _ _))
  rw [put_put] at hleave
  exact hleave

/-- The ledger of a number of jobs, each of which ends before the next one
    starts. -/
def afterJobs : Nat → Ledger
  | 0 => {}
  | n + 1 =>
      ((afterJobs n).start ⟨n⟩ "cpu" .sync .null ⟨n, 0⟩).finish ⟨n⟩ ⟨n, 0⟩ (.ok .null)

/-- Jobs one after the other are one interleaving, too. -/
theorem afterJobs_spec (n : Nat) :
    Reachable (afterJobs n) ∧ (∀ id, (afterJobs n).calls id = none) ∧
      (afterJobs n).archive.finished = n ∧ (∀ id ∈ (afterJobs n).ended, id.bits < n) ∧
      ∀ r ∈ (afterJobs n).archive.records, r.id.bits < n := by
  induction n with
  | zero =>
      exact ⟨.empty, fun _ => rfl, rfl, (fun _ hid => nomatch hid), (fun _ hr => nomatch hr)⟩
  | succ n ih =>
      obtain ⟨reach, hidle, hcount, hended, hids⟩ := ih
      have hnew : (⟨n⟩ : Id) ∉ (afterJobs n).ended := fun hmem =>
        Nat.lt_irrefl n (hended _ hmem)
      have fresh : (afterJobs n).Fresh ⟨n⟩ := by
        refine ⟨hnew, ?_⟩
        intro r hr heq
        have hlt := hids r hr
        rw [heq] at hlt
        exact Nat.lt_irrefl n hlt
      have hstart := reach.step (.start "cpu" .sync .null ⟨n, 0⟩ fresh)
      obtain ⟨harchive, hended'⟩ := @finish_archive
        ((afterJobs n).start ⟨n⟩ "cpu" .sync .null ⟨n, 0⟩) ⟨n⟩ ⟨n, 0⟩ (.ok .null)
      have hmark := @mark_eq ⟨n⟩ ⟨n, 0⟩ (.ok .null)
        ((afterJobs n).start ⟨n⟩ "cpu" .sync .null ⟨n, 0⟩).archive
        ⟨_, List.mem_append_right _ List.mem_cons_self, rfl⟩
      refine ⟨reachable_finish hstart hnew, finish_calls hidle, ?_, ?_, ?_⟩
      · rw [afterJobs, harchive, hmark]
        exact congrArg Nat.succ hcount
      · rw [afterJobs, hended']
        intro id hid
        rcases List.mem_cons.mp hid with rfl | hid
        · exact Nat.lt_succ_self n
        · exact Nat.lt_succ_of_lt (hended id hid)
      · rw [afterJobs, harchive, hmark]
        intro r hr
        obtain ⟨q, hq, rfl⟩ := List.mem_map.mp hr
        rw [marked_id]
        rcases List.mem_append.mp hq with hq | hq
        · exact Nat.lt_succ_of_lt (hids q hq)
        · rw [List.mem_singleton.mp hq]
          exact Nat.lt_succ_self n

/-- After one job more than is kept, the record of the first one to end is gone. -/
theorem newest_are_kept_past_capacity :
    ∃ r ∈ (afterJobs 513).archive.records, r.finishNumber = some 0 ∧
      r ∉ (afterJobs 513).table.records := by
  obtain ⟨reach, hidle, hcount, -, -⟩ := afterJobs_spec 513
  have sound := sound_of_reachable reach
  have hzero : 0 ∈ numbers (afterJobs 513).archive.records :=
    sound.given.mem_iff.mpr (List.mem_range.mpr (by rw [hcount]; decide))
  obtain ⟨r, hr, hk⟩ := List.mem_filterMap.mp hzero
  refine ⟨r, hr, hk, ?_⟩
  intro hmem
  have hstill := ((newest_are_kept reach).2.2 hidle r).mp ⟨hmem, by
    rw [← Bool.not_eq_true, sound.running r hr, hk]
    exact Option.some_ne_none 0⟩
  have hold : ¬ (afterJobs 513).Old r.id := ((sound.isNewest_iff hr).mp hstill.2).2
  exact hold ⟨r, hr, rfl, 0, hk, by rw [hcount]; decide⟩

end Ledger

end Havoc.Job
