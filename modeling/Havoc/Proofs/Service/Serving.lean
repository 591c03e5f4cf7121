import Havoc.Proofs.Service.Share

/-! # A call with a job

    From the moment a call is granted a job its own events do no more than work for that
    job.  The call waits for nothing but the job, no second job comes to stand under its
    number, and all that its caller is told is that the job has started or how it ended.

    The route: `Suits` says which outcomes jobs of a kind have for their callers, and
    `Serving` what then holds of the share of the call.  One lemma for each operation, from
    `Serving.finish` up to `Serving.handle`, shows that it stays so; `serving_start` shows
    that it is so when the job starts. -/

namespace Havoc.Service.State

open Havoc.Http

/-- The outcomes that jobs of a kind have for their callers: a job keeps its kind whatever its
    shape, and is told to have started, or how it ended. -/
structure Suits (good : Activity → Prop) (fine : Outcome → Prop) : Prop where
  shaped : ∀ a shape, good a → good { a with shape }
  started : ∀ a, good a → fine (.ok (.document (a.told "started" [])))
  completed : ∀ a ended, good a → fine (a.completed ended)

/-- A call waits for its job if it waits; its job is of a kind, and so is what was told. -/
structure Serving (good : Activity → Prop) (fine : Outcome → Prop) (n : Nat) (s : State) :
    Prop where
  calls : ∀ c ∈ (s.share n).calls, c.waiting = .job
  activities : ∀ a ∈ (s.share n).activities, good a
  answered : ∀ x ∈ (s.share n).answered, fine x.outcome

variable {good : Activity → Prop} {fine : Outcome → Prop} {s s' : State} {n : Nat}
  {now : Instant} {c : Call} {a : Activity}

theorem Serving.of_share (h : Serving good fine n s) (hshare : s'.share n = s.share n) :
    Serving good fine n s' := by
  obtain ⟨hcalls, hactivities, hanswered⟩ := h
  rw [← hshare] at hcalls hactivities hanswered
  exact ⟨hcalls, hactivities, hanswered⟩

theorem Serving.good_of_activity? (h : Serving good fine n s) (ha : s.activity? n = some a) :
    good a :=
  h.activities a (mem_share_activities.mpr ⟨List.mem_of_find?_eq_some ha, call_of_activity? ha⟩)

/-! ## Answers -/

theorem serving_answer {out : Outcome} (hc : c.number = n)
    (hactivities : ∀ a ∈ (s.share n).activities, good a)
    (hanswered : ∀ x ∈ (s.share n).answered, fine x.outcome) (hout : fine out) :
    Serving good fine n (s.answer now c out) := by
  refine ⟨?_, ?_, ?_⟩
  · rw [answer, share_answerWith_self hc]
    exact fun _ h => absurd h List.not_mem_nil
  · rw [answer, share_answerWith_self hc]
    exact hactivities
  · rw [answer, share_answerWith_self hc]
    intro x hx
    rcases List.mem_cons.mp hx with rfl | hx
    · exact hout
    · exact hanswered x hx

theorem Serving.answer {out : Outcome} (h : Serving good fine n s) (hc : c.number = n)
    (hout : fine out) : Serving good fine n (s.answer now c out) :=
  serving_answer hc h.activities h.answered hout

theorem Serving.dropCall (h : Serving good fine n s) : Serving good fine n (s.dropCall n) := by
  refine ⟨?_, ?_, ?_⟩
  · rw [share_dropCall_self]
    exact fun _ hc => absurd hc List.not_mem_nil
  · rw [share_dropCall_self]
    exact h.activities
  · rw [share_dropCall_self]
    exact h.answered

theorem Serving.dropActivity (h : Serving good fine n s) :
    Serving good fine n (s.dropActivity n) := by
  refine ⟨?_, ?_, ?_⟩
  · rw [share_dropActivity_self]
    exact h.calls
  · rw [share_dropActivity_self]
    exact fun _ ha => absurd ha List.not_mem_nil
  · rw [share_dropActivity_self]
    exact h.answered

theorem Serving.abandon (h : Serving good fine n s) : Serving good fine n (s.abandon n) := by
  unfold State.abandon
  split
  · exact h.dropCall.dropActivity
  · exact h

/-! ## Work for the job -/

section

variable (suits : Suits good fine)

include suits

theorem Serving.finish {ended : Job.Outcome} (h : Serving good fine n s) (ha : a.call = n)
    (hgood : good a) : Serving good fine n (s.finish now a ended) := by
  subst ha
  unfold State.finish
  dsimp only
  generalize s.table.finish a.id (wallClock now) ended = table
  have hdropped : Serving good fine a.call
      (State.note { s.dropActivity a.call with table } .jobFinished) :=
    h.dropActivity.of_share (share_congr rfl rfl rfl)
  split
  · next c hc => exact hdropped.answer (number_of_call? hc) (suits.completed a ended hgood)
  · exact hdropped

theorem Serving.advance {step : Load.Step Load.Shape} (h : Serving good fine n s)
    (ha : a.call = n) (hgood : good a) : Serving good fine n (s.advance now a step).1 := by
  have hnoted : Serving good fine n (s.noteAll step.notes) :=
    h.of_share (share_congr rfl rfl rfl)
  rcases advance_eq s now a step with ⟨outcome, -, heq⟩ | ⟨-, words, heq⟩
  · rw [heq]
    exact hnoted.finish suits ha hgood
  · rw [heq]
    refine ⟨hnoted.calls, ?_, hnoted.answered⟩
    intro x hx
    obtain ⟨hx, hcall⟩ := mem_share_activities.mp hx
    obtain ⟨y, hy, rfl⟩ := List.mem_map.mp hx
    dsimp only at hcall ⊢
    split at hcall
    · next hsame =>
        rw [if_pos hsame]
        exact suits.shaped a _ hgood
    · next hother =>
        rw [if_neg hother]
        exact hnoted.activities y (mem_share_activities.mpr ⟨hy, hcall⟩)

theorem Serving.heed {signal : Load.Signal} (h : Serving good fine n s) (ha : a.call = n)
    (hgood : good a) : Serving good fine n (s.heed now a signal).1 := by
  unfold State.heed
  split
  · exact (h.of_share share_yield).advance suits ha hgood
  · exact h

/-- A call under whose number nothing stands is served from the start of its job on. -/
theorem serving_start {order : Option Fault.Order} {task : Task} (hc : c.number = n)
    (hactivities : (s.share n).activities = []) (hanswered : (s.share n).answered = [])
    (hgood : ∀ id, good { call := n, id, task }) :
    Serving good fine n (s.start now c order task).1 := by
  subst hc
  -- the job that starts is the only one under the number
  have hone : ∀ (id : Job.Id) (s' : State),
      s'.activities = s.activities ++ [⟨c.number, id, task, none⟩] →
        ∀ a ∈ (s'.share c.number).activities, good a := by
    intro id s' heq a ha
    rw [activities_share_enter rfl hactivities heq] at ha
    rw [List.mem_singleton.mp ha]
    exact hgood id
  have hnone : ∀ s' : State, s'.answered = s.answered →
      ∀ x ∈ (s'.share c.number).answered, fine x.outcome := by
    intro s' heq x hx
    have hempty : (s'.share c.number).answered = [] := by
      rw [share, heq]
      exact hanswered
    rw [hempty] at hx
    exact absurd hx List.not_mem_nil
  unfold start
  dsimp only
  split
  · refine Serving.advance suits ?_ rfl (hgood _)
    refine ⟨?_, ?_, ?_⟩
    · rw [share_wait_self rfl]
      intro x hx
      rw [List.mem_singleton.mp hx]
    · exact hone _ _ rfl
    · exact hnone _ rfl
  · exact serving_answer rfl (hone _ _ rfl) (hnone _ rfl) (suits.started _ (hgood _))

/-- What events make of a call with a job is work for the job. -/
theorem Serving.handle {event : Event} (h : Serving good fine n s)
    (harrive : ∀ request, event ≠ .arrive n request) :
    Serving good fine n (s.handle now event).1 := by
  by_cases hown : event.call? = some n
  · have hjob : ∀ c, s.call? n = some c → c.waiting = .job :=
      fun c hc => h.calls c (share_of_call? hc)
    have hhandles := s.handles now event
    generalize (s.handle now event).1 = s' at hhandles ⊢
    cases hhandles with
    | nothing => exact h
    | @arrives number request =>
        obtain rfl : number = n := Option.some.inj hown
        exact absurd rfl (harrive request)
    | @leaves number =>
        obtain rfl : number = n := Option.some.inj hown
        exact h.abandon
    | @wakes number c hc =>
        obtain rfl : number = n := Option.some.inj hown
        rw [wake, hjob c hc]
        exact h
    | @begins number a ha =>
        obtain rfl : number = n := Option.some.inj hown
        exact h.advance suits (call_of_activity? ha) (h.good_of_activity? ha)
    | @heeds number signal a ha =>
        obtain rfl : number = n := Option.some.inj hown
        exact h.heed suits (call_of_activity? ha) (h.good_of_activity? ha)
    | @connects number signal c kind workload task _ hc hwaiting =>
        obtain rfl : number = n := Option.some.inj hown
        rw [hjob c hc] at hwaiting
        cases hwaiting
    | @learns number finding c hc =>
        obtain rfl : number = n := Option.some.inj hown
        rw [learn, hjob c hc]
        exact h
    | exits => cases hown
  · exact h.of_share (share_handle hown)

end

end Havoc.Service.State
