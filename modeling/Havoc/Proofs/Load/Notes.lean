import Havoc.Load.Shape
import Havoc.Proofs.Metric.Count

/-! # What jobs take note of

    A job notes what becomes of its work and of its resources, and nothing else: answers,
    and the starts and ends of jobs, are left to the service. -/

namespace Havoc.Load

open Havoc.Metric

variable {name : String} {n : Nat} {now : Instant} {signal : Signal} {α β : Type}

/-- The notes of a step tell of work and of resources only. -/
def NotesWork (st : Step α) : Prop := ∀ note ∈ st.notes, note.isOfWork = true

theorem notesWork_nil {state : α} {asks : List Ask} : NotesWork ⟨state, [], asks⟩ :=
  fun _ h => absurd h List.not_mem_nil

theorem notesWork_single {state : α} {asks : List Ask} {note : Note}
    (h : note.isOfWork = true) : NotesWork ⟨state, [note], asks⟩ := by
  intro x hx
  rw [List.mem_singleton.mp hx]
  exact h

/-- A machine that contains another notes what that one notes. -/
theorem notesWork_map {x : Option (Step α)} {f : α → β} {st : Step β}
    (hx : ∀ st, x = some st → NotesWork st) (h : x.map (·.map f) = some st) :
    NotesWork st := by
  obtain ⟨inner, hinner, rfl⟩ := Option.map_eq_some_iff.mp h
  exact hx inner hinner

theorem failureNotes_notesWork :
    ∀ note ∈ failureNotes name signal, note.isOfWork = true := by
  intro note h
  unfold failureNotes at h
  split at h
  · rw [List.mem_singleton.mp h]
    rfl
  · exact absurd h List.not_mem_nil

/-! ## One loop and one worker -/

theorem Repeat.ofTurn_notesWork {notes : List Note} (h : ∀ note ∈ notes, note.isOfWork = true)
    (turn : Turn) : NotesWork (Repeat.ofTurn now notes turn) := by
  cases turn <;> exact h

theorem Repeat.step_notesWork {r : Repeat} {st : Step Repeat}
    (h : r.step name now signal = some st) : NotesWork st := by
  cases r with
  | cycling loop =>
      obtain ⟨turn, -, rfl⟩ := Option.map_eq_some_iff.mp h
      exact ofTurn_notesWork failureNotes_notesWork turn
  | done | broken => exact nomatch h

theorem Worker.ofTurn_notesWork {resource : Resource} {notes : List Note}
    (h : ∀ note ∈ notes, note.isOfWork = true) (turn : Turn) :
    NotesWork (Worker.ofTurn resource notes turn) := by
  cases turn <;> exact h

theorem Worker.step_notesWork {w : Worker} {st : Step Worker}
    (h : w.step name n now signal = some st) : NotesWork st := by
  cases w with
  | opening limit interval =>
      cases signal with
      | opened r =>
          obtain rfl := Option.some.inj (Option.ite_none_right_eq_some.mp h).2
          exact ofTurn_notesWork (fun x hx => by rw [List.mem_singleton.mp hx]; rfl) _
      | refused m cause =>
          obtain rfl := Option.some.inj (Option.ite_none_right_eq_some.mp h).2
          exact notesWork_single rfl
      | broke m =>
          obtain rfl := Option.some.inj (Option.ite_none_right_eq_some.mp h).2
          exact notesWork_nil
      | _ => exact nomatch h
  | cycling resource loop =>
      obtain ⟨turn, -, rfl⟩ := Option.map_eq_some_iff.mp h
      exact ofTurn_notesWork failureNotes_notesWork turn
  | closing resource loop =>
      cases signal with
      | closed r =>
          obtain rfl := Option.some.inj (Option.ite_none_right_eq_some.mp h).2
          exact notesWork_single rfl
      | jammed r =>
          obtain rfl := Option.some.inj (Option.ite_none_right_eq_some.mp h).2
          exact notesWork_nil
      | _ => exact nomatch h
  | done | failed | broken => exact nomatch h

/-! ## Many workers and a ramp -/

theorem FanOut.step_notesWork {f : FanOut} {st : Step FanOut}
    (h : f.step name now signal = some st) : NotesWork st := by
  obtain ⟨m, -, h⟩ := Option.bind_eq_some_iff.mp h
  obtain ⟨w, -, h⟩ := Option.bind_eq_some_iff.mp h
  obtain ⟨next, hnext, h⟩ := Option.bind_eq_some_iff.mp h
  obtain rfl := Option.some.inj h
  exact Worker.step_notesWork hnext

theorem Ramp.close_notesWork {r : Ramp} {notes : List Note}
    (h : ∀ note ∈ notes, note.isOfWork = true) : NotesWork (r.close notes now) := by
  unfold Ramp.close
  split <;> exact h

theorem Ramp.tick_notesWork (r : Ramp) : NotesWork (r.tick now) := by
  unfold Ramp.tick
  dsimp only
  split <;> exact notesWork_nil

theorem Ramp.step_notesWork {r : Ramp} {st : Step Ramp}
    (h : r.step name now signal = some st) : NotesWork st := by
  unfold Ramp.step at h
  split at h
  · obtain rfl := Option.some.inj (Option.ite_none_right_eq_some.mp h).2
    exact r.tick_notesWork
  · obtain rfl := Option.some.inj (Option.ite_none_right_eq_some.mp h).2
    exact notesWork_nil
  · obtain rfl := Option.some.inj (Option.ite_none_right_eq_some.mp h).2
    exact notesWork_single rfl
  · obtain rfl := Option.some.inj (Option.ite_none_right_eq_some.mp h).2
    exact notesWork_single rfl
  · obtain rfl := Option.some.inj (Option.ite_none_right_eq_some.mp h).2
    exact notesWork_nil
  · obtain rfl := Option.some.inj (Option.ite_none_right_eq_some.mp h).2
    exact close_notesWork fun _ hx => absurd hx List.not_mem_nil
  · split at h
    · obtain rfl := Option.some.inj (Option.ite_none_right_eq_some.mp h).2
      exact close_notesWork fun x hx => by rw [List.mem_singleton.mp hx]; rfl
    · exact nomatch h
  · obtain rfl := Option.some.inj (Option.ite_none_right_eq_some.mp h).2
    exact notesWork_nil
  · exact nomatch h

/-! ## Any job -/

/-- A step of a job notes what becomes of its work and of its resources. -/
theorem Shape.step_notesWork {s : Shape} {st : Step Shape}
    (h : s.step name now signal = some st) : NotesWork st := by
  cases s with
  | taking span report =>
      unfold Shape.step at h
      dsimp only at h
      split at h
      · obtain rfl := Option.some.inj h
        exact notesWork_nil
      · obtain rfl := Option.some.inj h
        exact notesWork_nil
      · exact nomatch h
  | keeping wake report =>
      obtain rfl := Option.some.inj (Option.ite_none_right_eq_some.mp h).2
      exact notesWork_nil
  | kept | missed => exact nomatch h
  | repeating loop => exact notesWork_map (fun _ => Repeat.step_notesWork) h
  | single worker => exact notesWork_map (fun _ => Worker.step_notesWork) h
  | many workers => exact notesWork_map (fun _ => FanOut.step_notesWork) h
  | ramping ramp => exact notesWork_map (fun _ => Ramp.step_notesWork) h

end Havoc.Load
