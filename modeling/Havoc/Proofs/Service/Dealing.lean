import Havoc.Proofs.Load.Notes
import Havoc.Proofs.Service.Share

/-! # What becomes of a call

    An event concerns one call at most, and does one of few things for it.  Either it
    answers the call, with all that an answer takes (`Closes`), or it lets the call
    wait for something that a handler asked for, or it tells nobody anything
    (`Still`).  Only a request that comes in while a delay is in force is held up
    before a handler has seen it.

    The route: `Dealt` is what happens to a call that got past the fault rules, one
    lemma for each operation from `advance_cases` up to `dealt_roll`.
    `handle_cases` is what an event can do.  A handler is called with what is known
    about the request (`Attended`).  What handlers have come to is gathered in a
    relation `seen`, which grows with a run; so an answer has a source even where the
    handler was called much earlier (`Source`). -/

namespace Havoc.Service

open Havoc.Http

/-- The handler of a request is called in a state, with what is known about the request
    and after some draws, and comes to a result. -/
def Attended (s : State) (now : Instant) (info : Info) (result : Except Problem Answer) : Prop :=
  ∃ words route, Route.resolve info.method info.path = .ok route ∧
    (({ s with words } : State).draw (State.attend { s with words } now info route).run).1 = result

/-- Which handlers were called: the number of the call, what is known about its request,
    and what the handler came to. -/
abbrev Attendance : Type := Nat → Info → Except Problem Answer → Prop

/-- Where the outcome of a call comes from, when `seen` gathers the handlers that were called:
    all but the fault rules were told what is known about the request. -/
inductive Source (seen : Attendance) (number : Nat) (info : Info) : Outcome → Prop where
  | faultRules (kind : Fault.Kind) : Source seen number info (.error (.fault kind))
  | routes {problem : Problem} (h : Route.resolve info.method info.path = .error problem) :
      Source seen number info (.error problem)
  | refused {problem : Problem} (h : seen number info (.error problem)) :
      Source seen number info (.error problem)
  | attended {answer : Answer} {outcome : Outcome} (h : seen number info (.ok answer)) :
      Source seen number info outcome

theorem Source.mono {seen seen' : Attendance} {number : Nat} {info : Info} {outcome : Outcome}
    (h : Source seen number info outcome)
    (hle : ∀ number info result, seen number info result → seen' number info result) :
    Source seen' number info outcome := by
  cases h with
  | faultRules kind => exact .faultRules kind
  | routes hroute => exact .routes hroute
  | refused hseen => exact .refused (hle _ _ _ hseen)
  | attended hseen => exact .attended (hle _ _ _ hseen)

/-- What the access log is to tell about a call and its reply. -/
def Call.event (c : Call) (now : Instant) (reply : Reply) : Log.Event :=
  { time := wallClock c.arrived, status := reply.status, method := c.info.method
    path := c.info.path, clientIp := c.info.clientIp, latency := now - c.arrived
    userAgent := c.info.userAgent, protocol := c.info.protocol
    requestSize := c.info.body.length, responseSize := reply.size }

/-- The call of a request that comes in. -/
def incoming (number : Nat) (now : Instant) (request : Request) : Call :=
  { number, info := Info.ofRequest request, arrived := now, waiting := .job }

/-- A job that begins has nothing to note yet. -/
theorem Work.notes_begin (w : Work) (now : Instant) : (w.begin now).notes = [] := by
  have hrepeat : ∀ turn, (Load.Repeat.ofTurn now [] turn).notes = [] := by
    intro turn
    cases turn <;> rfl
  have hworker : ∀ resource turn, (Load.Worker.ofTurn resource [] turn).notes = [] := by
    intro resource turn
    cases turn <;> rfl
  cases w with
  | wait | keepMemory | fanOut => rfl
  | repeats cadence chore => exact hrepeat _
  | drive resource cadence workload => exact hworker _ _
  | rampUp plan workload =>
      show (Load.Ramp.start plan now).notes = []
      unfold Load.Ramp.start
      dsimp only
      split <;> rfl

theorem Work.begin_notesWork (w : Work) (now : Instant) : Load.NotesWork (w.begin now) := by
  rw [Load.NotesWork, w.notes_begin]
  exact fun _ h => absurd h List.not_mem_nil

namespace State

variable {s s₁ s' : State} {n : Nat} {now : Instant} {c : Call} {a : Activity}
  {outcome : Outcome} {seen : Attendance}

/-- How many requests were answered, by method and status. -/
def requests (s : State) : Option (Metric.Samples Nat) := s.registry.map (·.requests)

/-- Nobody is told anything. -/
structure Quiet (s s' : State) : Prop where
  config : s'.config = s.config
  answered : s'.answered = s.answered
  log : s'.log = s.log
  requests : s'.requests = s.requests

/-- Nobody is told anything, and no call and no job is added. -/
structure Still (s s' : State) : Prop extends Quiet s s' where
  calls : ∀ x ∈ s'.calls, x ∈ s.calls
  activities : ∀ x ∈ s'.activities, ∃ y ∈ s.activities, y.call = x.call

/-- A call is answered once, written down once and counted once, and waits no more. -/
structure Closes (s : State) (now : Instant) (c : Call) (outcome : Outcome) (s' : State) :
    Prop where
  config : s'.config = s.config
  calls : ∀ x ∈ s'.calls, x ∈ s.calls ∧ x.number ≠ c.number
  answered : s.config.isLogging = true → s'.answered =
    ⟨c.number, outcome, replyTo outcome c.info (wallClock now)⟩ :: s.answered
  log : s.config.isLogging = true → s'.log = s.config.template.render
    (c.event now (replyTo outcome c.info (wallClock now))) :: s.log
  requests : s.config.isLogging = true → s'.requests = s.requests.map (·.update
    [c.info.method, toString (replyTo outcome c.info (wallClock now)).status] 0 (· + 1))

/-- A handler had an answer for a call. -/
def Heard (seen : Attendance) (c : Call) : Prop :=
  ∃ answer, seen c.number c.info (.ok answer)

/-- What happens to a call that got past the fault rules, or did not. -/
inductive Dealt (seen : Attendance) (s : State) (now : Instant) (c : Call) (s' : State) :
    Prop where
  | waits (quiet : Quiet s s') (heard : Heard seen c)
      (calls : ∀ x ∈ s'.calls, (x ∈ s.calls ∧ x.number ≠ c.number) ∨
        ∃ waiting, x = { c with waiting } ∧ ∀ due, waiting ≠ .delay due)
  | answers (outcome : Outcome) (source : Source seen c.number c.info outcome)
      (closes : Closes s now c outcome s')

/-! ## Putting operations together -/

theorem Quiet.refl : Quiet s s := ⟨rfl, rfl, rfl, rfl⟩

theorem Quiet.trans (h : Quiet s s₁) (h' : Quiet s₁ s') : Quiet s s' where
  config := h'.config.trans h.config
  answered := h'.answered.trans h.answered
  log := h'.log.trans h.log
  requests := h'.requests.trans h.requests

theorem still_of_eq (hq : Quiet s s') (hcalls : s'.calls = s.calls)
    (hactivities : s'.activities = s.activities) : Still s s' where
  toQuiet := hq
  calls _ hx := hcalls ▸ hx
  activities x hx := ⟨x, hactivities ▸ hx, rfl⟩

theorem Still.refl : Still s s := still_of_eq Quiet.refl rfl rfl

theorem Still.trans (h : Still s s₁) (h' : Still s₁ s') : Still s s' where
  toQuiet := h.toQuiet.trans h'.toQuiet
  calls x hx := h.calls x (h'.calls x hx)
  activities x hx := by
    obtain ⟨y, hy, hyx⟩ := h'.activities x hx
    obtain ⟨z, hz, hzy⟩ := h.activities y hy
    exact ⟨z, hz, hzy.trans hyx⟩

theorem Closes.of_quiet (h : Closes s₁ now c outcome s') (hq : Quiet s s₁)
    (hcalls : ∀ x ∈ s₁.calls, x.number ≠ c.number → x ∈ s.calls) :
    Closes s now c outcome s' where
  config := h.config.trans hq.config
  calls x hx := ⟨hcalls x (h.calls x hx).1 (h.calls x hx).2, (h.calls x hx).2⟩
  answered hlog := by
    rw [h.answered (hq.config ▸ hlog), hq.answered]
  log hlog := by
    rw [h.log (hq.config ▸ hlog), hq.config, hq.log]
  requests hlog := by
    rw [h.requests (hq.config ▸ hlog), hq.requests]

theorem Dealt.of_quiet (h : Dealt seen s₁ now c s') (hq : Quiet s s₁)
    (hcalls : ∀ x ∈ s₁.calls, x.number ≠ c.number → x ∈ s.calls) : Dealt seen s now c s' := by
  cases h with
  | waits quiet heard calls =>
      refine .waits (hq.trans quiet) heard ?_
      intro x hx
      rcases calls x hx with ⟨hold, hother⟩ | hnew
      · exact Or.inl ⟨hcalls x hold hother, hother⟩
      · exact Or.inr hnew
  | answers outcome source closes => exact .answers outcome source (closes.of_quiet hq hcalls)

/-- Nothing comes to stand under a number. -/
theorem Still.no_calls (h : Still s s') (hnone : (s.share n).calls = []) :
    (s'.share n).calls = [] := by
  refine List.eq_nil_iff_forall_not_mem.mpr fun x hx => ?_
  obtain ⟨hx, hown⟩ := mem_share_calls.mp hx
  have hmem : x ∈ (s.share n).calls := mem_share_calls.mpr ⟨h.calls x hx, hown⟩
  rw [hnone] at hmem
  exact absurd hmem List.not_mem_nil

theorem Still.no_activities (h : Still s s') (hnone : (s.share n).activities = []) :
    (s'.share n).activities = [] := by
  refine List.eq_nil_iff_forall_not_mem.mpr fun x hx => ?_
  obtain ⟨hx, hown⟩ := mem_share_activities.mp hx
  obtain ⟨y, hy, hsame⟩ := h.activities x hx
  have hmem : y ∈ (s.share n).activities := mem_share_activities.mpr ⟨hy, hsame.trans hown⟩
  rw [hnone] at hmem
  exact absurd hmem List.not_mem_nil

/-! ## Notes and words -/

theorem requests_noteAll {notes : List Metric.Note} (h : ∀ note ∈ notes, note.isAnswer = false) :
    (s.noteAll notes).requests = s.requests := by
  show Option.map _ (Option.map _ s.registry) = Option.map _ s.registry
  cases s.registry with
  | none => rfl
  | some r => exact congrArg some (r.requests_noteAll h)

theorem quiet_noteAll {notes : List Metric.Note} (h : ∀ note ∈ notes, note.isAnswer = false) :
    Quiet s (s.noteAll notes) :=
  ⟨rfl, rfl, rfl, requests_noteAll h⟩

theorem requests_note {note : Metric.Note} (h : note.isAnswer = false) :
    (s.note note).requests = s.requests := by
  refine requests_noteAll ?_
  intro x hx
  rw [List.mem_singleton.mp hx]
  exact h

theorem quiet_note {note : Metric.Note} (h : note.isAnswer = false) : Quiet s (s.note note) :=
  ⟨rfl, rfl, rfl, requests_note h⟩

/-! ## Answers -/

theorem closes_answerWith {info : Info} (hinfo : s.config.isLogging = true → info = c.info) :
    Closes s now c outcome (s.answerWith now c info outcome) := by
  have hcalls : ∀ x ∈ (s.dropCall c.number).calls, x ∈ s.calls ∧ x.number ≠ c.number := by
    intro x hx
    obtain ⟨hold, hother⟩ := List.mem_filter.mp hx
    exact ⟨hold, of_decide_eq_true hother⟩
  unfold answerWith
  dsimp only
  split
  · next hlog =>
      obtain rfl := hinfo hlog
      refine ⟨rfl, hcalls, fun _ => rfl, fun _ => rfl, fun _ => ?_⟩
      show Option.map _ (Option.map _ s.registry) = Option.map _ (Option.map _ s.registry)
      cases s.registry with
      | none => rfl
      | some r => rfl
  · next hlog =>
      exact ⟨rfl, hcalls, fun h => absurd h hlog, fun h => absurd h hlog, fun h => absurd h hlog⟩

theorem closes_answer : Closes s now c outcome (s.answer now c outcome) :=
  closes_answerWith fun _ => rfl

theorem mem_wait {waiting : Waiting} {x : Call} :
    x ∈ (s.wait c waiting).calls ↔
      (x ∈ s.calls ∧ x.number ≠ c.number) ∨ x = { c with waiting } := by
  show x ∈ s.calls.filter (fun x => x.number ≠ c.number) ++ [{ c with waiting }] ↔ _
  rw [List.mem_append, List.mem_filter, List.mem_singleton, decide_eq_true_iff]

theorem call?_wait {waiting : Waiting} :
    (s.wait c waiting).call? c.number = some { c with waiting } := by
  show List.find? _ (s.calls.filter (fun x => x.number ≠ c.number) ++ [{ c with waiting }]) = _
  rw [List.find?_append]
  have hnone : (s.calls.filter fun x => x.number ≠ c.number).find?
      (fun x => x.number = c.number) = none := by
    rw [List.find?_eq_none]
    intro x hx
    simpa using (List.mem_filter.mp hx).2
  rw [hnone]
  simp

theorem Heard.source (h : Heard seen c) : Source seen c.number c.info outcome := by
  obtain ⟨answer, hanswer⟩ := h
  exact .attended hanswer

theorem dealt_wait {waiting : Waiting} (h : Heard seen c)
    (hwaiting : ∀ due, waiting ≠ .delay due) : Dealt seen s now c (s.wait c waiting) := by
  refine .waits ⟨rfl, rfl, rfl, rfl⟩ h ?_
  intro x hx
  rcases mem_wait.mp hx with hold | rfl
  · exact Or.inl hold
  · exact Or.inr ⟨waiting, rfl, hwaiting⟩

theorem dealt_answer (h : Heard seen c) : Dealt seen s now c (s.answer now c outcome) :=
  .answers outcome h.source closes_answer

/-! ## Jobs -/

/-- The end of a job answers its call, if there is one. -/
theorem finish_cases (s : State) (now : Instant) (a : Activity) (ended : Job.Outcome) :
    Still s (s.finish now a ended) ∨
      ∃ c, s.call? a.call = some c ∧
        Closes s now c (a.completed ended) (s.finish now a ended) := by
  unfold finish
  dsimp only
  generalize s.table.finish a.id (wallClock now) ended = table
  have hnoted : Still s (State.note { s.dropActivity a.call with table } .jobFinished) := {
    toQuiet := ⟨rfl, rfl, rfl, requests_note rfl⟩
    calls := fun _ hx => hx
    activities := fun x hx => ⟨x, (List.mem_filter.mp hx).1, rfl⟩ }
  split
  · next c hc =>
      exact Or.inr ⟨c, hc, closes_answer.of_quiet hnoted.toQuiet fun x hx _ => hx⟩
  · exact Or.inl hnoted

/-- A step of a job answers its call, or nobody is told anything. -/
theorem advance_cases (s : State) (now : Instant) (a : Activity) {step : Load.Step Load.Shape}
    (hstep : Load.NotesWork step) :
    Still s (s.advance now a step).1 ∨
      ∃ c outcome, s.call? a.call = some c ∧ Closes s now c outcome (s.advance now a step).1 := by
  have hnoted : Still s (s.noteAll step.notes) :=
    still_of_eq (quiet_noteAll fun note hn => note.isAnswer_of_isOfWork (hstep note hn)) rfl rfl
  rcases advance_eq s now a step with ⟨ended, -, heq⟩ | ⟨-, words, heq⟩
  · rw [heq]
    rcases finish_cases (s.noteAll step.notes) now a ended with hstill | ⟨c, hc, hcloses⟩
    · exact Or.inl (hnoted.trans hstill)
    · exact Or.inr ⟨c, _, hc, hcloses.of_quiet hnoted.toQuiet fun x hx _ => hx⟩
  · refine Or.inl (hnoted.trans ?_)
    rw [heq]
    refine { toQuiet := ⟨rfl, rfl, rfl, rfl⟩, calls := fun _ hx => hx, activities := ?_ }
    intro x hx
    obtain ⟨b, hb, rfl⟩ := List.mem_map.mp hx
    refine ⟨b, hb, ?_⟩
    dsimp only
    split
    · next hsame => exact hsame
    · rfl

theorem yield_still {signal : Load.Signal} : Still s (s.yield now a signal) := by
  unfold yield
  split
  · unfold State.leave
    split
    · exact still_of_eq ⟨rfl, rfl, rfl, rfl⟩ rfl rfl
    · exact still_of_eq ⟨rfl, rfl, rfl, rfl⟩ rfl rfl
    · exact Still.refl
  · exact Still.refl

theorem calls_yield {signal : Load.Signal} : (s.yield now a signal).calls = s.calls := by
  unfold yield
  split
  · unfold State.leave
    split <;> rfl
  · rfl

theorem heed_cases {signal : Load.Signal} :
    Still s (s.heed now a signal).1 ∨
      ∃ c outcome, s.call? a.call = some c ∧ Closes s now c outcome (s.heed now a signal).1 := by
  unfold heed
  split
  · next step hstep =>
      obtain ⟨shape, -, hshape⟩ := Option.bind_eq_some_iff.mp hstep
      rcases advance_cases (s.yield now a signal) now a
        (Load.Shape.step_notesWork hshape) with hstill | ⟨c, outcome, hc, hcloses⟩
      · exact Or.inl (yield_still.trans hstill)
      · refine Or.inr ⟨c, outcome, ?_, hcloses.of_quiet yield_still.toQuiet ?_⟩
        · rw [← hc, call?, call?, calls_yield]
        · intro x hx _
          rw [← calls_yield]
          exact hx
  · exact Or.inl Still.refl

/-- A job that begins for a caller who waits may end at once. -/
theorem dealt_begin (h : Heard seen c) (hq : Quiet s s₁) (hcalls : s₁.calls = s.calls)
    (ha : a.call = c.number) : Dealt seen s now c ((s₁.wait c .job).begin now a).1 := by
  have hwait : Quiet s (s₁.wait c .job) := hq.trans ⟨rfl, rfl, rfl, rfl⟩
  rcases advance_cases (s₁.wait c .job) now a
    (a.task.work.begin_notesWork now) with hstill | ⟨c', outcome, hc', hcloses⟩
  · refine .waits (hwait.trans hstill.toQuiet) h ?_
    intro x hx
    rcases mem_wait.mp (hstill.calls x hx) with ⟨hold, hother⟩ | rfl
    · exact Or.inl ⟨hcalls ▸ hold, hother⟩
    · exact Or.inr ⟨.job, rfl, nofun⟩
  · -- the call that the end of the job finds is the one that was just put to wait
    rw [ha, call?_wait] at hc'
    obtain rfl := Option.some.inj hc'
    have hown : Closes (s₁.wait c .job) now c outcome _ :=
      ⟨hcloses.config, hcloses.calls, hcloses.answered, hcloses.log, hcloses.requests⟩
    refine .answers outcome h.source (hown.of_quiet hwait ?_)
    intro x hx hother
    rcases mem_wait.mp hx with ⟨hold, -⟩ | rfl
    · exact hcalls ▸ hold
    · exact absurd rfl hother

theorem dealt_start {order : Option Fault.Order} {task : Task} (h : Heard seen c) :
    Dealt seen s now c (s.start now c order task).1 := by
  unfold start
  dsimp only
  split
  · exact dealt_begin h ⟨rfl, rfl, rfl, requests_note rfl⟩ rfl rfl
  · exact (dealt_answer h).of_quiet ⟨rfl, rfl, rfl, requests_note rfl⟩ fun x hx _ => hx

theorem connected_cases {kind : Backend.Kind} {workload : Workload}
    {task : Load.Resource → Task} {signal : Load.Signal} (h : Heard seen c) :
    Still s (s.connected now c kind workload task signal).1 ∨
      Dealt seen s now c (s.connected now c kind workload task signal).1 := by
  unfold connected
  split
  · exact Or.inr ((dealt_start h).of_quiet (quiet_note rfl) fun x hx _ => hx)
  · exact Or.inr ((dealt_answer h).of_quiet (quiet_note rfl) fun x hx _ => hx)
  · exact Or.inl {
      toQuiet := ⟨rfl, rfl, rfl, rfl⟩
      calls := fun x hx => (List.mem_filter.mp hx).1
      activities := fun x hx => ⟨x, hx, rfl⟩ }
  · exact Or.inl Still.refl

/-! ## Requests -/

theorem dealt_settle {answer : Answer} (h : Heard seen c) :
    Dealt seen s now c (s.settle now c answer).1 := by
  unfold settle
  split
  · exact dealt_answer h
  · exact dealt_answer h
  · exact dealt_wait h nofun
  · exact dealt_start h
  · exact dealt_wait h nofun
  · exact dealt_wait h nofun
  · exact dealt_answer h
  · exact dealt_wait h nofun

theorem dealt_direct
    (hseen : ∀ info result, Attended s now info result → seen c.number info result) :
    Dealt seen s now c (s.direct now c).1 := by
  unfold direct
  split
  · next problem hroute => exact .answers _ (.routes hroute) closes_answer
  · next route hroute =>
      have hdraw : Quiet s (s.draw (s.attend now c.info route).run).2 := ⟨rfl, rfl, rfl, rfl⟩
      have hcalls : (s.draw (s.attend now c.info route).run).2.calls = s.calls := rfl
      split
      · next problem s₁ heq =>
          rw [heq] at hdraw hcalls
          have hproblem : (s.draw (s.attend now c.info route).run).1 = .error problem := by
            rw [heq]
          exact Dealt.of_quiet
            (.answers _ (.refused (hseen _ _ ⟨s.words, route, hroute, hproblem⟩))
              closes_answer) hdraw
            fun x hx _ => hcalls ▸ hx
      · next answer s₁ heq =>
          rw [heq] at hdraw hcalls
          have hanswer : (s.draw (s.attend now c.info route).run).1 = .ok answer := by
            rw [heq]
          have hheard : Heard seen c :=
            ⟨answer, hseen _ _ ⟨s.words, route, hroute, hanswer⟩⟩
          exact (dealt_settle hheard).of_quiet hdraw fun x hx _ => hcalls ▸ hx

theorem dealt_reject {kind : Fault.Kind} : Dealt seen s now c (s.reject now c kind) := by
  have hanswered : Dealt seen (s.note (.faultInjected kind.label)) now c (s.reject now c kind) :=
    .answers _ (.faultRules kind) (closes_answerWith fun hlog => if_pos hlog)
  exact hanswered.of_quiet (quiet_note rfl) fun x hx _ => hx

theorem dealt_roll
    (hseen : ∀ info result, Attended s now info result → seen c.number info result) :
    Dealt seen s now c (s.roll now c).1 := by
  have hdraw : Quiet s (s.draw (s.rules.roll now)).2 := ⟨rfl, rfl, rfl, rfl⟩
  have hcalls : (s.draw (s.rules.roll now)).2.calls = s.calls := rfl
  -- the handler is called in the same state but for the words of the roll
  have hwords : ∀ info result, Attended (s.draw (s.rules.roll now)).2 now info result →
      seen c.number info result := fun info result h => hseen info result h
  unfold roll
  split
  · next heq =>
      rw [heq] at hdraw hcalls
      exact dealt_reject.of_quiet hdraw fun x hx _ => hcalls ▸ hx
  · next heq =>
      rw [heq] at hdraw hcalls hwords
      exact (dealt_direct hwords).of_quiet hdraw fun x hx _ => hcalls ▸ hx

theorem arrive_cases (s : State) (now : Instant) (n : Nat) (request : Request)
    (hseen : ∀ info result, Attended s now info result → seen n info result) :
    (∃ due, (s.arrive now n request).1 = s.wait (incoming n now request) (.delay due)) ∨
      Dealt seen s now (incoming n now request) (s.arrive now n request).1 := by
  unfold arrive
  dsimp only
  split
  · unfold intercept
    split
    · exact Or.inr dealt_reject
    · split
      · exact Or.inl ⟨_, rfl⟩
      · exact Or.inr (dealt_roll hseen)
  · exact Or.inr (dealt_direct hseen)

/-- If the call that was dealt with still waits, a handler had an answer for it, and no
    delay holds it up. -/
theorem Dealt.own (h : Dealt seen s now c s') :
    ∀ x ∈ (s'.share c.number).calls, Heard seen x ∧ ∀ due, x.waiting ≠ .delay due := by
  intro x hx
  obtain ⟨hx, hnumber⟩ := mem_share_calls.mp hx
  cases h with
  | waits _ heard calls =>
      rcases calls x hx with ⟨-, hother⟩ | ⟨waiting, rfl, hwaiting⟩
      · exact absurd hnumber hother
      · exact ⟨heard, hwaiting⟩
  | answers _ _ closes => exact absurd hnumber (closes.calls x hx).2

/-! ## Events -/

/-- A handler had an answer for a call, or it waits for a delay to pass and has no job.
    Without the second part the end of a job might answer a call that no handler has seen. -/
def Standing (seen : Attendance) (sh : Share) : Prop :=
  ∀ c ∈ sh.calls, Heard seen c ∨ ((∃ due, c.waiting = .delay due) ∧ sh.activities = [])

theorem Standing.mono {seen' : Attendance} {sh : Share} (h : Standing seen sh)
    (hle : ∀ number info result, seen number info result → seen' number info result) :
    Standing seen' sh := by
  intro c hc
  rcases h c hc with ⟨answer, hanswer⟩ | hdelay
  · exact Or.inl ⟨answer, hle _ _ _ hanswer⟩
  · exact Or.inr hdelay

theorem Standing.heard_of_waiting (h : Standing seen (s.share n)) (hc : s.call? n = some c)
    (hwaiting : ∀ due, c.waiting ≠ .delay due) : Heard seen c := by
  rcases h c (share_of_call? hc) with hheard | ⟨⟨due, hdue⟩, -⟩
  · exact hheard
  · exact absurd hdue (hwaiting due)

theorem Standing.heard_of_activity (h : Standing seen (s.share n)) (hc : s.call? n = some c)
    (ha : s.activity? n = some a) : Heard seen c := by
  rcases h c (share_of_call? hc) with hheard | ⟨-, hnone⟩
  · exact hheard
  · have hmem : a ∈ (s.share n).activities :=
      mem_share_activities.mpr ⟨List.mem_of_find?_eq_some ha, call_of_activity? ha⟩
    rw [hnone] at hmem
    exact absurd hmem List.not_mem_nil

/-- What an event can do. -/
inductive Happens (seen : Attendance) (s : State) (now : Instant) (event : Event) (s' : State) :
    Prop where
  | still (h : Still s s')
  | held (n : Nat) (request : Request) (due : Instant) (hevent : event = .arrive n request)
      (h : s' = s.wait (incoming n now request) (.delay due))
  | dealt (c : Call) (hown : event.call? = some c.number)
      (hfrom : c ∈ s.calls ∨
        ∃ request, event = .arrive c.number request ∧ c = incoming c.number now request)
      (h : Dealt seen s now c s')

theorem happens_of_advance {event : Event} {number : Nat} (hown : event.call? = some number)
    (hstanding : Standing seen (s.share number)) (ha : s.activity? number = some a)
    (h : Still s s' ∨ ∃ c outcome, s.call? a.call = some c ∧ Closes s now c outcome s') :
    Happens seen s now event s' := by
  rcases h with hstill | ⟨c, outcome, hc, hcloses⟩
  · exact .still hstill
  · rw [call_of_activity? ha] at hc
    refine .dealt c ?_ (Or.inl (List.mem_of_find?_eq_some hc)) ?_
    · rw [hown, number_of_call? hc]
    · exact .answers outcome (hstanding.heard_of_activity hc ha).source hcloses

theorem happens_of_call {event : Event} {number : Nat} (hown : event.call? = some number)
    (hc : s.call? number = some c) (h : Still s s' ∨ Dealt seen s now c s') :
    Happens seen s now event s' := by
  rcases h with hstill | hdealt
  · exact .still hstill
  · refine .dealt c ?_ (Or.inl (List.mem_of_find?_eq_some hc)) hdealt
    rw [hown, number_of_call? hc]

theorem abandon_still {number : Nat} : Still s (s.abandon number) := by
  unfold abandon
  split
  · exact {
      toQuiet := ⟨rfl, rfl, rfl, rfl⟩
      calls := fun x hx => (List.mem_filter.mp hx).1
      activities := fun x hx => ⟨x, (List.mem_filter.mp hx).1, rfl⟩ }
  · exact Still.refl

theorem wake_cases (h : (∀ due, c.waiting ≠ .delay due) → Heard seen c)
    (hseen : ∀ info result, Attended s now info result → seen c.number info result) :
    Still s (s.wake now c).1 ∨ Dealt seen s now c (s.wake now c).1 := by
  unfold wake
  split
  · split
    · exact Or.inr (dealt_roll hseen)
    · exact Or.inl Still.refl
  · next due value hwaiting =>
      have hheard : Heard seen c := h (by rw [hwaiting]; exact nofun)
      split
      · exact Or.inr (dealt_answer hheard)
      · exact Or.inl Still.refl
  · exact Or.inl Still.refl

theorem learn_cases {finding : Finding}
    (h : ∀ inquiry, c.waiting = .inquiry inquiry → Heard seen c) :
    Still s (s.learn now c finding) ∨ Dealt seen s now c (s.learn now c finding) := by
  unfold learn
  split
  · next inquiry hwaiting =>
      split
      · exact Or.inr (dealt_answer (h inquiry hwaiting))
      · exact Or.inl Still.refl
  · exact Or.inl Still.refl

theorem handle_cases (s : State) (now : Instant) (event : Event)
    (hstanding : ∀ number, event.call? = some number → Standing seen (s.share number))
    (hseen : ∀ number, event.call? = some number →
      ∀ info result, Attended s now info result → seen number info result) :
    Happens seen s now event (s.handle now event).1 := by
  have hhandles := s.handles now event
  generalize (s.handle now event).1 = s' at hhandles ⊢
  cases hhandles with
  | nothing => exact .still Still.refl
  | @arrives number request =>
      rcases arrive_cases s now number request (hseen number rfl) with ⟨due, hheld⟩ | hdealt
      · exact .held number request due rfl hheld
      · exact .dealt (incoming number now request) rfl (Or.inr ⟨request, rfl, rfl⟩) hdealt
  | leaves => exact .still abandon_still
  | @wakes number c hc =>
      have hnumber : c.number = number := number_of_call? hc
      exact happens_of_call rfl hc (wake_cases
        ((hstanding number rfl).heard_of_waiting hc) (hnumber ▸ hseen number rfl))
  | @begins number a ha =>
      exact happens_of_advance rfl (hstanding number rfl) ha
        (advance_cases s now a (a.task.work.begin_notesWork now))
  | @heeds number signal a ha =>
      exact happens_of_advance rfl (hstanding number rfl) ha heed_cases
  | @connects number signal c kind workload task _ hc hwaiting =>
      refine happens_of_call rfl hc (connected_cases ?_)
      refine (hstanding number rfl).heard_of_waiting hc ?_
      rw [hwaiting]
      exact nofun
  | @learns number finding c hc =>
      refine happens_of_call rfl hc (learn_cases ?_)
      intro inquiry hwaiting
      refine (hstanding number rfl).heard_of_waiting hc ?_
      rw [hwaiting]
      exact nofun
  | exits => exact .still (still_of_eq ⟨rfl, rfl, rfl, rfl⟩ rfl rfl)

end State

end Havoc.Service
