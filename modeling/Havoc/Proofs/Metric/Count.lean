import Havoc.Metric.Registry

/-! # Counting samples

    A counter has one sample for each list of labels, and a test of labels picks some of
    them.  One more of something adds one to every count whose test its labels pass, and
    nothing to the others (`Samples.counted_update`). -/

namespace Havoc.Metric

/-- What the samples whose labels pass a test come to. -/
def Samples.counted (p : List String → Bool) (s : Samples Nat) : Nat :=
  (s.filter fun x => p x.1).foldr (fun x total => x.2 + total) 0

theorem Samples.counted_cons (p : List String → Bool) (key : List String) (x : Nat)
    (s : Samples Nat) :
    Samples.counted p ((key, x) :: s) = (if p key then x else 0) + s.counted p := by
  unfold Samples.counted
  rw [List.filter_cons]
  by_cases h : p key = true
  · rw [if_pos h, if_pos h]
    rfl
  · rw [if_neg h, if_neg h, Nat.zero_add]

theorem Samples.counted_update (p : List String → Bool) (labels : List String) (s : Samples Nat) :
    (s.update labels 0 (· + 1)).counted p = s.counted p + if p labels then 1 else 0 := by
  induction s with
  | nil =>
      show Samples.counted p [(labels, 1)] = 0 + _
      rw [counted_cons, Nat.zero_add]
      rfl
  | cons sample rest ih =>
      obtain ⟨key, x⟩ := sample
      unfold Samples.update
      split
      · next hsame =>
          rw [counted_cons, counted_cons, hsame]
          by_cases h : p labels = true
          · rw [if_pos h, if_pos h, if_pos h]
            omega
          · rw [if_neg h, if_neg h, if_neg h, Nat.add_zero]
      · split
        · rw [counted_cons, Nat.add_comm]
        · rw [counted_cons, counted_cons, ih, Nat.add_assoc]

/-! ## Notes that leave a counter alone -/

/-- Whether a note tells of a request that was answered. -/
def Note.isAnswer : Note → Bool
  | .answered .. => true
  | _ => false

/-- Whether a note tells of a request that a fault rule turned away. -/
def Note.isFault : Note → Bool
  | .faultInjected _ => true
  | _ => false

/-- Whether a note tells of what becomes of work or of a resource. -/
def Note.isOfWork : Note → Bool
  | .workFailed _ | .setupFailed _ | .opened _ | .closed _ => true
  | _ => false

theorem Note.isAnswer_of_isOfWork {note : Note} (h : note.isOfWork = true) :
    note.isAnswer = false := by
  cases note with
  | answered => exact Bool.noConfusion h
  | _ => rfl

theorem Registry.requests_note (r : Registry) {note : Note} (h : note.isAnswer = false) :
    (r.note note).requests = r.requests := by
  cases note with
  | answered => exact Bool.noConfusion h
  | _ => rfl

theorem Registry.faults_note (r : Registry) {note : Note} (h : note.isFault = false) :
    (r.note note).faults = r.faults := by
  cases note with
  | faultInjected => exact Bool.noConfusion h
  | _ => rfl

theorem Registry.requests_noteAll {notes : List Note} :
    ∀ r : Registry, (∀ note ∈ notes, note.isAnswer = false) →
      (r.noteAll notes).requests = r.requests := by
  induction notes with
  | nil =>
      intro r _
      rfl
  | cons note rest ih =>
      intro r h
      show ((r.note note).noteAll rest).requests = _
      rw [ih _ fun x hx => h x (List.mem_cons_of_mem _ hx)]
      exact r.requests_note (h note List.mem_cons_self)

end Havoc.Metric
