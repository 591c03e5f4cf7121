import Havoc.Proofs.Service.AccessLog
import Havoc.Proofs.Service.Dispatch

/-! # What an event does for the jobs

    Whatever comes in, an event does one of four things for the jobs of the service: nothing, the
    start of one job, a step of one job, or it takes a job away with the caller who waits for it.

    The route: `Aside` is what leaves the jobs alone.  A call without a job is left aside or its
    job starts (`Fares`), with one lemma for each operation up to `fares_arrive`.  Under a number
    stands one job at most, and a call beside it just if its caller waits (`Orderly`); so an event
    of the number has one of the four effects (`effect_of_handle`), and each of them keeps that
    order (`Orderly.handle`). -/

namespace Havoc.Service.State

open Havoc.Http

variable {s s₁ s' : State} {n : Nat} {now : Instant} {c : Call} {a : Activity}
  {e : Instant × Event}

/-! ## Leaving the jobs alone -/

/-- The jobs and their records stay, and so does what was told; other things may be noted and
    told. -/
structure Aside (s s' : State) : Prop where
  table : s'.table = s.table
  activities : s'.activities = s.activities
  registry : ∃ notes, (∀ note ∈ notes, Desk.isOther note = true) ∧
    s'.registry = s.registry.map (·.noteAll notes)
  answered : ∀ x ∈ s.answered, x ∈ s'.answered

theorem aside_of_eq (htable : s'.table = s.table) (hactivities : s'.activities = s.activities)
    (hregistry : s'.registry = s.registry) (hanswered : s'.answered = s.answered) :
    Aside s s' where
  table := htable
  activities := hactivities
  registry := ⟨[], fun _ h => absurd h List.not_mem_nil, hregistry.trans Option.map_id'.symm⟩
  answered _ hx := hanswered ▸ hx

theorem Aside.refl : Aside s s := aside_of_eq rfl rfl rfl rfl

theorem Aside.trans (h : Aside s s₁) (h' : Aside s₁ s') : Aside s s' where
  table := h'.table.trans h.table
  activities := h'.activities.trans h.activities
  registry := by
    obtain ⟨notes, hnotes, heq⟩ := h.registry
    obtain ⟨notes', hnotes', heq'⟩ := h'.registry
    refine ⟨notes ++ notes', ?_, ?_⟩
    · intro note hmem
      rcases List.mem_append.mp hmem with hmem | hmem
      · exact hnotes note hmem
      · exact hnotes' note hmem
    · rw [heq', heq, Option.map_map]
      refine congrArg (Option.map · s.registry) (funext fun r => ?_)
      exact List.foldl_append.symm
  answered x hx := h'.answered x (h.answered x hx)

theorem aside_noteAll {notes : List Metric.Note} (h : ∀ note ∈ notes, Desk.isOther note = true) :
    Aside s (s.noteAll notes) where
  table := rfl
  activities := rfl
  registry := ⟨notes, h, rfl⟩
  answered _ hx := hx

theorem aside_note {note : Metric.Note} (h : Desk.isOther note = true) : Aside s (s.note note) := by
  refine aside_noteAll fun x hx => ?_
  rw [List.mem_singleton.mp hx]
  exact h

theorem aside_answerWith {info : Info} {out : Outcome} :
    Aside s (s.answerWith now c info out) where
  table := (Desk.answer_frame s now c info out).1
  activities := activities_answerWith
  registry := (Desk.answer_frame s now c info out).2
  answered x hx := by
    rw [answered_answerWith]
    exact List.mem_cons_of_mem _ hx

theorem aside_answer {out : Outcome} : Aside s (s.answer now c out) := aside_answerWith

theorem aside_wait {waiting : Waiting} : Aside s (s.wait c waiting) :=
  aside_of_eq rfl rfl rfl rfl

theorem aside_reject {kind : Fault.Kind} : Aside s (s.reject now c kind) :=
  (aside_note rfl).trans aside_answerWith

theorem aside_yield {signal : Load.Signal} : Aside s (s.yield now a signal) := by
  unfold yield
  split
  · unfold State.leave
    split
    · exact aside_of_eq rfl rfl rfl rfl
    · exact aside_of_eq rfl rfl rfl rfl
    · exact .refl
  · exact .refl

theorem aside_learn {finding : Finding} : Aside s (s.learn now c finding) := by
  unfold learn
  split
  · split
    · exact aside_answer
    · exact .refl
  · exact .refl

/-! ## Calls without a job -/

/-- What can become of a call without a job: the jobs are left alone, or its own job starts. -/
inductive Fares (s : State) (now : Instant) (c : Call) (s' : State) : Prop where
  | aside (h : Aside s s')
  | starts {s₁ : State} (order : Option Fault.Order) (task : Task) (h : Aside s s₁)
      (hshare : ∀ n, s₁.share n = s.share n) (hstart : s' = (s₁.start now c order task).1)

/-- What was drawn and noted before does not count. -/
theorem Fares.of_aside (h : Fares s₁ now c s') (haside : Aside s s₁)
    (hshare : ∀ n, s₁.share n = s.share n) : Fares s now c s' := by
  cases h with
  | aside h => exact .aside (haside.trans h)
  | starts order task h hshare' hstart =>
      exact .starts order task (haside.trans h) (fun n => (hshare' n).trans (hshare n)) hstart

theorem fares_settle {answer : Answer} : Fares s now c (s.settle now c answer).1 := by
  unfold settle
  split
  · exact .aside aside_answer
  · exact .aside aside_answer
  · exact .aside aside_wait
  · exact .starts _ _ .refl (fun _ => rfl) rfl
  · exact .aside aside_wait
  · exact .aside aside_wait
  · exact .aside aside_answer
  · exact .aside aside_wait

theorem fares_direct : Fares s now c (s.direct now c).1 := by
  unfold direct
  split
  · exact .aside aside_answer
  · next route _ =>
      have hdraw : Aside s (s.draw (s.attend now c.info route).run).2 := aside_of_eq rfl rfl rfl rfl
      have hshare : ∀ n, (s.draw (s.attend now c.info route).run).2.share n = s.share n :=
        fun _ => rfl
      split
      · next heq =>
          rw [heq] at hdraw
          exact .aside (hdraw.trans aside_answer)
      · next heq =>
          rw [heq] at hdraw hshare
          exact fares_settle.of_aside hdraw hshare

theorem fares_roll : Fares s now c (s.roll now c).1 := by
  unfold roll
  have hdraw : Aside s (s.draw (s.rules.roll now)).2 := aside_of_eq rfl rfl rfl rfl
  have hshare : ∀ n, (s.draw (s.rules.roll now)).2.share n = s.share n := fun _ => rfl
  split
  · next heq =>
      rw [heq] at hdraw
      exact .aside (hdraw.trans aside_reject)
  · next heq =>
      rw [heq] at hdraw hshare
      exact fares_direct.of_aside hdraw hshare

theorem fares_arrive {request : Request} :
    Fares s now (incoming n now request) (s.arrive now n request).1 := by
  unfold arrive
  dsimp only
  split
  · unfold intercept
    split
    · exact .aside aside_reject
    · split
      · exact .aside aside_wait
      · exact fares_roll
  · exact fares_direct

theorem fares_wake : Fares s now c (s.wake now c).1 := by
  unfold wake
  split
  · split
    · exact fares_roll
    · exact .aside .refl
  · split
    · exact .aside aside_answer
    · exact .aside .refl
  · exact .aside .refl

theorem fares_connected {kind : Backend.Kind} {workload : Workload}
    {task : Load.Resource → Task} {signal : Load.Signal} :
    Fares s now c (s.connected now c kind workload task signal).1 := by
  unfold connected
  split
  · exact .starts _ _ (aside_note rfl) (fun _ => share_congr rfl rfl rfl) rfl
  · exact .aside ((aside_note rfl).trans aside_answer)
  · exact .aside (aside_of_eq rfl rfl rfl rfl)
  · exact .aside .refl

/-! ## What stands under a number -/

/-- Under a number stands one job at most.  A call stands beside it just if its caller waits, and
    it waits for nothing else. -/
inductive Orderly (sh : Share) : Prop where
  | free (hactivities : sh.activities = [])
  | awaited (a : Activity) (c : Call) (hactivities : sh.activities = [a])
      (hmode : a.task.mode = .sync) (hcalls : sh.calls = [c]) (hwaiting : c.waiting = .job)
  | sent (a : Activity) (hactivities : sh.activities = [a]) (hmode : a.task.mode = .async)
      (hcalls : sh.calls = [])

/-- A call that waits for something else has no job. -/
theorem Orderly.free_of_waiting (h : Orderly (s.share n)) (hc : s.call? n = some c)
    (hwaiting : c.waiting ≠ .job) : (s.share n).activities = [] := by
  have hmem := share_of_call? hc
  cases h with
  | free hactivities => exact hactivities
  | awaited a c' _ _ hcalls hjob =>
      rw [hcalls] at hmem
      rw [List.mem_singleton.mp hmem] at hwaiting
      exact absurd hjob hwaiting
  | sent a _ _ hcalls =>
      rw [hcalls] at hmem
      exact absurd hmem List.not_mem_nil

/-- A job is the only one under its number. -/
theorem Orderly.alone (h : Orderly (s.share a.call)) (ha : a ∈ s.activities) :
    (s.share a.call).activities = [a] := by
  have hmem : a ∈ (s.share a.call).activities := mem_share_activities.mpr ⟨ha, rfl⟩
  cases h with
  | free hactivities =>
      rw [hactivities] at hmem
      exact absurd hmem List.not_mem_nil
  | awaited b _ hactivities | sent b hactivities =>
      rw [hactivities] at hmem ⊢
      rw [List.mem_singleton.mp hmem]

/-- The caller of a job is there just if he waits for it. -/
theorem Orderly.isSome_call? (h : Orderly (s.share a.call)) (ha : a ∈ s.activities) :
    (s.call? a.call).isSome ↔ a.task.mode = .sync := by
  have halone := h.alone ha
  rw [call?_eq_head?]
  cases h with
  | free hactivities =>
      rw [hactivities] at halone
      exact absurd halone (List.cons_ne_nil _ _).symm
  | awaited b c hactivities hmode hcalls =>
      rw [hactivities] at halone
      obtain rfl := List.head_eq_of_cons_eq halone
      rw [hcalls, hmode]
      exact ⟨fun _ => rfl, fun _ => rfl⟩
  | sent b hactivities hmode hcalls =>
      rw [hactivities] at halone
      obtain rfl := List.head_eq_of_cons_eq halone
      rw [hcalls, hmode]
      exact ⟨fun h => Bool.noConfusion h, fun h => Job.Mode.noConfusion h⟩

theorem activities_share_finish {outcome : Job.Outcome} (ha : a.call = n) :
    ((s.finish now a outcome).share n).activities = [] := by
  subst ha
  have hshare := congrArg Share.activities (@share_dropActivity_self s a.call)
  rw [share, activities_finish]
  exact hshare

/-- A step of a job leaves the order under its number. -/
theorem Orderly.advance {step : Load.Step Load.Shape} (h : Orderly (s.share n))
    (ha : (s.share n).activities = [a]) : Orderly ((s.advance now a step).1.share n) := by
  have hcall : a.call = n := (mem_share_activities.mp (ha ▸ List.mem_singleton.mpr rfl)).2
  rcases advance_eq s now a step with ⟨outcome, -, heq⟩ | ⟨-, words, heq⟩
  · rw [heq]
    exact .free (activities_share_finish hcall)
  · have hput : (((s.noteAll step.notes).putActivity { a with shape := some step.state }).share
        n).activities = [{ a with shape := some step.state }] := by
      rw [share_putActivity_self (a := { a with shape := some step.state }) hcall]
      show (s.share n).activities.map _ = _
      rw [ha]
      rfl
    rw [heq]
    cases h with
    | free hactivities =>
        rw [ha] at hactivities
        exact absurd hactivities (List.cons_ne_nil _ _)
    | awaited b c hactivities hmode hcalls hwaiting =>
        rw [ha] at hactivities
        obtain rfl := List.head_eq_of_cons_eq hactivities
        exact .awaited _ c hput hmode hcalls hwaiting
    | sent b hactivities hmode hcalls =>
        rw [ha] at hactivities
        obtain rfl := List.head_eq_of_cons_eq hactivities
        exact .sent _ hput hmode hcalls

/-- A job that starts is the only one under its number. -/
theorem orderly_start {order : Option Fault.Order} {task : Task}
    (hnew : (s.share c.number).activities = []) :
    Orderly ((s.start now c order task).1.share c.number) := by
  unfold start
  dsimp only
  split
  · next hmode =>
      refine Orderly.advance (.awaited _ { c with waiting := .job }
        (activities_share_enter rfl hnew rfl) hmode ?_ rfl) (activities_share_enter rfl hnew rfl)
      rw [share_wait_self rfl]
  · next hmode =>
      refine .sent _ (activities_share_enter rfl hnew activities_answerWith) hmode ?_
      rw [answer, share_answerWith_self rfl]

/-! ## Events -/

/-- An event puts the job of a call that has none on record, under an identifier that is drawn. -/
def Registers (s : State) (e : Instant × Event) (id : Job.Id) : Prop :=
  ∃ (c : Call) (s₁ : State) (order : Option Fault.Order) (task : Task),
    e.2.call? = some c.number ∧ (s.share c.number).activities = [] ∧ Aside s s₁ ∧
      (∀ n, s₁.share n = s.share n) ∧
      (s.handle e.1 e.2).1 = (s₁.start e.1 c order task).1 ∧ (Job.Id.random.run s₁.words).1 = id

/-- What an event does for the jobs. -/
inductive Effect (s : State) (e : Instant × Event) : Prop where
  | aside (h : Aside s (s.handle e.1 e.2).1)
      (hown : ∀ n, e.2.call? = some n →
        (s.share n).activities = [] ∨ (s.handle e.1 e.2).1 = s)
  | registers (id : Job.Id) (h : Registers s e id)
  | advances {t : State} {a : Activity} (step : Load.Step Load.Shape)
      (hown : e.2.call? = some a.call) (ha : a ∈ s.activities) (h : Aside s t)
      (hshare : ∀ n, t.share n = s.share n) (hnotes : Load.NotesWork step)
      (hadvance : (s.handle e.1 e.2).1 = (t.advance e.1 a step).1)
  | leaves {n : Nat} {c : Call} (hown : e.2.call? = some n) (hc : s.call? n = some c)
      (hsome : (s.share n).activities ≠ []) (h : (s.handle e.1 e.2).1 = s.abandon n)

theorem effect_of_eq (h : (s.handle e.1 e.2).1 = s) : Effect s e :=
  .aside (h.symm ▸ .refl) fun _ _ => Or.inr h

theorem effect_of_fares (hown : e.2.call? = some c.number)
    (hnew : (s.share c.number).activities = []) (h : Fares s e.1 c (s.handle e.1 e.2).1) :
    Effect s e := by
  cases h with
  | aside h =>
      refine .aside h fun n hn => Or.inl ?_
      obtain rfl := Option.some.inj (hown.symm.trans hn)
      exact hnew
  | starts order task h hshare hstart =>
      exact .registers _ ⟨c, _, order, task, hown, hnew, h, hshare, hstart, rfl⟩

/-- **AN EVENT DOES ONE OF FOUR THINGS FOR THE JOBS.** -/
theorem effect_of_handle (horderly : ∀ n, Orderly (s.share n))
    (hnew : ∀ n, arrival? e = some n → (s.share n).activities = []) : Effect s e := by
  obtain ⟨now, event⟩ := e
  have hhandles := s.handles now event
  generalize hhandle : (s.handle now event).1 = s' at hhandles
  cases hhandles with
  | nothing => exact effect_of_eq hhandle
  | @arrives number request =>
      exact effect_of_fares (c := incoming number now request) rfl (hnew number rfl)
        (hhandle ▸ fares_arrive)
  | @leaves number =>
      cases hc : s.call? number with
      | none =>
          refine effect_of_eq (hhandle.trans ?_)
          rw [abandon, hc]
      | some c =>
          by_cases hnone : (s.share number).activities = []
          · refine .aside ?_ fun n hn => Or.inl (Option.some.inj hn ▸ hnone)
            rw [hhandle, abandon, hc]
            refine aside_of_eq rfl ?_ rfl rfl
            exact List.filter_eq_self.mpr fun a ha => decide_eq_true fun hcall =>
              absurd (mem_share_activities.mpr ⟨ha, hcall⟩) (hnone ▸ List.not_mem_nil)
          · exact .leaves rfl hc hnone hhandle
  | @wakes number c hc =>
      obtain rfl := number_of_call? hc
      by_cases hjob : c.waiting = .job
      · refine effect_of_eq (hhandle.trans ?_)
        rw [wake, hjob]
      · exact effect_of_fares (c := c) rfl ((horderly _).free_of_waiting hc hjob)
          (hhandle ▸ fares_wake)
  | @begins number a ha =>
      refine .advances (t := s) (a := a) (a.task.work.begin now) ?_
        (List.mem_of_find?_eq_some ha) .refl (fun _ => rfl) (a.task.work.begin_notesWork now) hhandle
      exact congrArg some (call_of_activity? ha).symm
  | @heeds number signal a ha =>
      cases hstep : a.shape.bind fun shape => shape.step a.task.noteName now signal with
      | none =>
          refine effect_of_eq (hhandle.trans ?_)
          rw [heed, hstep]
      | some step =>
          obtain ⟨shape, -, hshape⟩ := Option.bind_eq_some_iff.mp hstep
          refine .advances (t := s.yield now a signal) (a := a) step ?_
            (List.mem_of_find?_eq_some ha) aside_yield (fun _ => share_yield)
            (Load.Shape.step_notesWork hshape) (hhandle.trans ?_)
          · exact congrArg some (call_of_activity? ha).symm
          · rw [heed, hstep]
  | @connects number signal c kind workload task _ hc hwaiting =>
      obtain rfl := number_of_call? hc
      have hjob : c.waiting ≠ .job := fun hjob => by
        rw [hwaiting] at hjob
        cases hjob
      exact effect_of_fares (c := c) rfl ((horderly _).free_of_waiting hc hjob)
        (hhandle ▸ fares_connected)
  | @learns number finding c hc =>
      by_cases hjob : c.waiting = .job
      · refine effect_of_eq (hhandle.trans ?_)
        rw [learn, hjob]
      · refine .aside (hhandle ▸ aside_learn) fun n hn => Or.inl ?_
        exact Option.some.inj hn ▸ (horderly _).free_of_waiting hc hjob
  | exits =>
      refine .aside ?_ fun n hn => by cases hn
      rw [hhandle]
      exact aside_of_eq rfl rfl rfl rfl

/-- Whatever comes in, the order under all numbers stays. -/
theorem Orderly.handle (horderly : ∀ n, Orderly (s.share n))
    (hnew : ∀ n, arrival? e = some n → (s.share n).activities = []) :
    ∀ n, Orderly ((s.handle e.1 e.2).1.share n) := by
  intro n
  by_cases hown : e.2.call? = some n
  · cases effect_of_handle horderly hnew with
    | aside h hfree =>
        rcases hfree n hown with hnone | hsame
        · refine .free ?_
          rw [share, h.activities]
          exact hnone
        · rw [hsame]
          exact horderly n
    | registers id h =>
        obtain ⟨c, s₁, order, task, hcall, hnone, -, hshare, hstart, -⟩ := h
        obtain rfl := Option.some.inj (hcall.symm.trans hown)
        rw [hstart]
        exact orderly_start (by rw [hshare, hnone])
    | @advances s₁ a step hcall ha h hshare hnotes hadvance =>
        obtain rfl := Option.some.inj (hcall.symm.trans hown)
        rw [hadvance]
        refine Orderly.advance ?_ ?_
        · rw [hshare]
          exact horderly _
        · rw [hshare]
          exact (horderly _).alone ha
    | leaves hcall hc hsome h =>
        obtain rfl := Option.some.inj (hcall.symm.trans hown)
        refine .free ?_
        rw [h, abandon, hc]
        dsimp only
        rw [share_dropActivity_self]
  · rw [share_handle hown]
    exact horderly n

end Havoc.Service.State
