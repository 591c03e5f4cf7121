import Havoc.Service.Handle

/-! # One call among many

    The service keeps its calls, its jobs and its answers in three lists, each entry
    under the number of a call.  The share of a number is what stands under it, and
    an event touches no share but that of its own number.

    The route: each operation of the service is for one number, and leaves the share
    of every other number as it was (`share_answerWith`, `share_wait`, and so on).
    `Handles` lists everything that an event can make of a service, so that a fact about
    events has one case for each of them; the first is `share_handle`. -/

namespace Havoc.Service

/-- The number of the call that an event is for; the end of the service is for none. -/
def Event.call? : Event → Option Nat
  | .arrive number _ | .leave number | .wake number | .begin number | .signal number _
  | .told number _ => some number
  | .exit => none

/-- What stands under one number. -/
structure Share where
  calls : List Call
  activities : List Activity
  answered : List Answered

namespace State

/-- What the service keeps under a number. -/
def share (s : State) (n : Nat) : Share where
  calls := s.calls.filter fun c => c.number = n
  activities := s.activities.filter fun a => a.call = n
  answered := s.answered.filter fun a => a.call = n

variable {s : State} {n : Nat} {now : Instant} {c : Call} {a : Activity}

theorem mem_share_calls : c ∈ (s.share n).calls ↔ c ∈ s.calls ∧ c.number = n := by
  simp [share]

theorem mem_share_activities : a ∈ (s.share n).activities ↔ a ∈ s.activities ∧ a.call = n := by
  simp [share]

theorem mem_share_answered {x : Answered} :
    x ∈ (s.share n).answered ↔ x ∈ s.answered ∧ x.call = n := by
  simp [share]

theorem number_of_call? {number : Nat} (h : s.call? number = some c) : c.number = number := by
  simpa using List.find?_some h

theorem share_of_call? (h : s.call? n = some c) : c ∈ (s.share n).calls :=
  mem_share_calls.mpr ⟨List.mem_of_find?_eq_some h, number_of_call? h⟩

theorem call_of_activity? {number : Nat} (h : s.activity? number = some a) : a.call = number := by
  simpa using List.find?_some h

theorem call?_eq_head? : s.call? n = (s.share n).calls.head? := (List.head?_filter ..).symm

theorem activity?_eq_head? : s.activity? n = (s.share n).activities.head? :=
  (List.head?_filter ..).symm

theorem activity?_of_share (h : (s.share n).activities = [a]) : s.activity? n = some a :=
  activity?_eq_head?.trans (congrArg List.head? h)

/-! ## Taking entries away and putting them in -/

theorem share_congr {s' : State} (hcalls : s'.calls = s.calls)
    (hactivities : s'.activities = s.activities) (hanswered : s'.answered = s.answered) :
    s'.share n = s.share n := by
  rw [share, share, hcalls, hactivities, hanswered]

theorem filter_away {α : Type} (key : α → Nat) {m : Nat} (h : m ≠ n) (l : List α) :
    (l.filter fun x => key x ≠ m).filter (fun x => key x = n) = l.filter fun x => key x = n := by
  rw [List.filter_filter]
  refine List.filter_congr ?_
  intro x _
  by_cases hx : key x = n
  · simp [hx, Ne.symm h]
  · simp [hx]

theorem share_dropCall {m : Nat} (h : m ≠ n) : (s.dropCall m).share n = s.share n := by
  rw [share, dropCall, filter_away Call.number h]
  rfl

theorem share_dropActivity {m : Nat} (h : m ≠ n) : (s.dropActivity m).share n = s.share n := by
  rw [share, dropActivity, filter_away Activity.call h]
  rfl

theorem share_putActivity (h : a.call ≠ n) : (s.putActivity a).share n = s.share n := by
  have hmap : (s.activities.map fun b => if b.call = a.call then a else b).filter
      (fun b => b.call = n) = s.activities.filter fun b => b.call = n := by
    induction s.activities with
    | nil => rfl
    | cons b rest ih =>
        rw [List.map_cons, List.filter_cons, List.filter_cons, ih]
        by_cases hb : b.call = a.call
        · rw [if_pos hb]
          simp [hb, h]
        · rw [if_neg hb]
  rw [share, putActivity, hmap]
  rfl

theorem share_wait {w : Waiting} (h : c.number ≠ n) : (s.wait c w).share n = s.share n := by
  have hdrop : (s.dropCall c.number).share n = s.share n := share_dropCall h
  rw [← hdrop, share, wait, List.filter_append]
  simp [share, h]

theorem share_answerWith {info : Http.Info} {out : Outcome} (h : c.number ≠ n) :
    (s.answerWith now c info out).share n = s.share n := by
  have hdrop : (s.dropCall c.number).share n = s.share n := share_dropCall h
  have hcons : (s.answerWith now c info out).share n =
      { (s.dropCall c.number).share n with
        answered := (⟨c.number, out, replyTo out info (wallClock now)⟩ :: s.answered).filter
          fun a => a.call = n } := by
    rw [answerWith]
    split
    · rfl
    · rfl
  rw [hcons, hdrop, List.filter_cons_of_neg (by simpa using h)]
  rfl

theorem share_answer {out : Outcome} (h : c.number ≠ n) :
    (s.answer now c out).share n = s.share n :=
  share_answerWith h

/-! ## The share of the number itself -/

theorem filter_own {α : Type} (key : α → Nat) (l : List α) :
    (l.filter fun x => key x ≠ n).filter (fun x => key x = n) = [] := by
  rw [List.filter_filter, List.filter_eq_nil_iff]
  intro x _
  simp

theorem share_dropCall_self : (s.dropCall n).share n = { s.share n with calls := [] } := by
  rw [share, dropCall, filter_own Call.number]
  rfl

theorem share_dropActivity_self :
    (s.dropActivity n).share n = { s.share n with activities := [] } := by
  rw [share, dropActivity, filter_own Activity.call]
  rfl

/-- A job takes the place of the one under its number. -/
theorem share_putActivity_self (ha : a.call = n) :
    ((s.putActivity a).share n).activities = (s.share n).activities.map fun _ => a := by
  subst ha
  show (s.activities.map fun b => if b.call = a.call then a else b).filter
    (fun b => b.call = a.call) = (s.activities.filter fun b => b.call = a.call).map fun _ => a
  induction s.activities with
  | nil => rfl
  | cons b rest ih =>
      rw [List.map_cons, List.filter_cons, List.filter_cons, ih]
      by_cases hb : b.call = a.call
      · simp [hb]
      · simp [hb]

theorem share_wait_self {w : Waiting} (h : c.number = n) :
    (s.wait c w).share n = { s.share n with calls := [{ c with waiting := w }] } := by
  subst h
  rw [share, wait, List.filter_append, dropCall, filter_own Call.number]
  simp [share]

theorem share_answerWith_self {info : Http.Info} {out : Outcome} (h : c.number = n) :
    (s.answerWith now c info out).share n =
      { s.share n with
        calls := []
        answered := ⟨n, out, replyTo out info (wallClock now)⟩ :: (s.share n).answered } := by
  subst h
  have hcons : (s.answerWith now c info out).share c.number =
      { (s.dropCall c.number).share c.number with
        answered := (⟨c.number, out, replyTo out info (wallClock now)⟩ :: s.answered).filter
          fun a => a.call = c.number } := by
    rw [answerWith]
    split
    · rfl
    · rfl
  rw [hcons, share_dropCall_self, List.filter_cons_of_pos (by simp)]
  rfl

/-! ## Jobs -/

/-- What a job asks for costs the service nothing but words. -/
theorem chargeAll_eq (s : State) (a : Activity) (asks : List Load.Ask) :
    ∃ words, (s.chargeAll a asks).1 = { s with words } := by
  induction asks generalizing s with
  | nil => exact ⟨s.words, rfl⟩
  | cons ask rest ih =>
      obtain ⟨words, hfirst⟩ : ∃ words, (s.charge a ask).1 = { s with words } := by
        unfold charge
        split
        · exact ⟨s.words, rfl⟩
        · split
          · exact ⟨_, rfl⟩
          all_goals exact ⟨s.words, rfl⟩
      obtain ⟨words', hrest⟩ := ih (s.charge a ask).1
      refine ⟨words', ?_⟩
      show ((s.charge a ask).1.chargeAll a rest).1 = _
      rw [hrest, hfirst]

theorem activities_answerWith {info : Http.Info} {out : Outcome} :
    (s.answerWith now c info out).activities = s.activities := by
  unfold answerWith
  dsimp only
  split <;> rfl

/-- A job that ends is there no more, and the others are. -/
theorem activities_finish {outcome : Job.Outcome} :
    (s.finish now a outcome).activities = (s.dropActivity a.call).activities := by
  unfold finish
  dsimp only
  generalize s.table.finish a.id (wallClock now) outcome = table
  split
  · exact activities_answerWith
  · rfl

/-- A step of a job ends it, or goes on with the shape that it has come to. -/
theorem advance_eq (s : State) (now : Instant) (a : Activity) (step : Load.Step Load.Shape) :
    (∃ outcome, step.state.outcome? = some outcome ∧
        (s.advance now a step).1 = (s.noteAll step.notes).finish now a outcome) ∨
      step.state.outcome? = none ∧ ∃ words, (s.advance now a step).1 =
        { (s.noteAll step.notes).putActivity { a with shape := some step.state } with words } := by
  unfold advance
  dsimp only
  split
  · next outcome h => exact Or.inl ⟨outcome, h, rfl⟩
  · next h => exact Or.inr ⟨h, chargeAll_eq _ _ _⟩

theorem share_finish {outcome : Job.Outcome} (h : a.call ≠ n) :
    (s.finish now a outcome).share n = s.share n := by
  have hdrop : (s.dropActivity a.call).share n = s.share n := share_dropActivity h
  unfold finish
  dsimp only
  split
  · next c hc =>
      refine (share_answer (number_of_call? hc ▸ h)).trans (Eq.trans ?_ hdrop)
      exact share_congr rfl rfl rfl
  · refine Eq.trans ?_ hdrop
    exact share_congr rfl rfl rfl

theorem answered_answerWith {info : Http.Info} {out : Outcome} :
    (s.answerWith now c info out).answered =
      ⟨c.number, out, replyTo out info (wallClock now)⟩ :: s.answered := by
  unfold answerWith
  dsimp only
  split <;> rfl

theorem answered_answer {out : Outcome} :
    (s.answer now c out).answered =
      ⟨c.number, out, replyTo out c.info (wallClock now)⟩ :: s.answered :=
  answered_answerWith

/-- The end of a job is told to the caller who waits for it, and to nobody else. -/
theorem answered_finish {outcome : Job.Outcome} :
    (s.finish now a outcome).answered = match s.call? a.call with
      | some c => ⟨c.number, a.completed outcome,
          replyTo (a.completed outcome) c.info (wallClock now)⟩ :: s.answered
      | none => s.answered := by
  unfold finish
  dsimp only
  generalize s.table.finish a.id (wallClock now) outcome = table
  have hcall : (State.note { s.dropActivity a.call with table } .jobFinished).call? a.call =
      s.call? a.call := rfl
  rw [hcall]
  cases s.call? a.call with
  | some c => exact answered_answer
  | none => rfl

theorem share_advance {step : Load.Step Load.Shape} (h : a.call ≠ n) :
    (s.advance now a step).1.share n = s.share n := by
  have hnote : (s.noteAll step.notes).share n = s.share n := share_congr rfl rfl rfl
  rcases advance_eq s now a step with ⟨outcome, -, heq⟩ | ⟨-, words, heq⟩
  · rw [heq]
    exact (share_finish h).trans hnote
  · rw [heq]
    exact (share_putActivity (a := { a with shape := some step.state }) h).trans hnote

theorem share_begin (h : a.call ≠ n) : (s.begin now a).1.share n = s.share n :=
  share_advance h

theorem share_yield {signal : Load.Signal} : (s.yield now a signal).share n = s.share n := by
  unfold yield
  split
  · unfold State.leave
    split
    · exact share_congr rfl rfl rfl
    · exact share_congr rfl rfl rfl
    · rfl
  · rfl

theorem share_heed {signal : Load.Signal} (h : a.call ≠ n) :
    (s.heed now a signal).1.share n = s.share n := by
  unfold heed
  split
  · exact (share_advance h).trans share_yield
  · rfl

/-- A job under another number does not count. -/
theorem share_enter {s' : State} (h : a.call ≠ n) (hcalls : s'.calls = s.calls)
    (hactivities : s'.activities = s.activities ++ [a]) (hanswered : s'.answered = s.answered) :
    s'.share n = s.share n := by
  rw [share, share, hcalls, hactivities, hanswered, List.filter_append]
  simp [h]

/-- A job that comes to stand under a number without a job is the only one there. -/
theorem activities_share_enter {s' : State} (ha : a.call = n) (hnew : (s.share n).activities = [])
    (hactivities : s'.activities = s.activities ++ [a]) : (s'.share n).activities = [a] := by
  have hold : s.activities.filter (fun b => b.call = n) = [] := hnew
  rw [share, hactivities, List.filter_append, hold]
  simp [ha]

theorem share_start {order : Option Fault.Order} {task : Task} (h : c.number ≠ n) :
    (s.start now c order task).1.share n = s.share n := by
  unfold start
  dsimp only
  split
  · refine (share_begin h).trans ((share_wait h).trans ?_)
    exact share_enter (a := { call := c.number, id := _, task }) h rfl rfl rfl
  · refine (share_answer h).trans ?_
    exact share_enter (a := { call := c.number, id := _, task }) h rfl rfl rfl

theorem share_connected {kind : Backend.Kind} {workload : Workload}
    {task : Load.Resource → Task} {signal : Load.Signal} (h : c.number ≠ n) :
    (s.connected now c kind workload task signal).1.share n = s.share n := by
  unfold connected
  split
  · exact (share_start h).trans (share_congr rfl rfl rfl)
  · exact (share_answer h).trans (share_congr rfl rfl rfl)
  · exact share_dropCall h
  · rfl

/-! ## Requests -/

theorem share_settle {answer : Answer} (h : c.number ≠ n) :
    (s.settle now c answer).1.share n = s.share n := by
  unfold settle
  split
  · exact share_answer h
  · exact share_answer h
  · exact share_wait h
  · exact share_start h
  · exact share_wait h
  · exact share_wait h
  · exact share_answer h
  · exact share_wait h

theorem share_direct (h : c.number ≠ n) : (s.direct now c).1.share n = s.share n := by
  unfold direct
  split
  · exact share_answer h
  · next route _ =>
      have hdraw : (s.draw (s.attend now c.info route).run).2.share n = s.share n :=
        share_congr rfl rfl rfl
      split
      · next heq =>
          rw [heq] at hdraw
          exact (share_answer h).trans hdraw
      · next heq =>
          rw [heq] at hdraw
          exact (share_settle h).trans hdraw

theorem share_reject {kind : Fault.Kind} (h : c.number ≠ n) :
    (s.reject now c kind).share n = s.share n :=
  (share_answerWith h).trans (share_congr rfl rfl rfl)

theorem share_roll (h : c.number ≠ n) : (s.roll now c).1.share n = s.share n := by
  unfold roll
  have hdraw : (s.draw (s.rules.roll now)).2.share n = s.share n := share_congr rfl rfl rfl
  split
  · next heq =>
      rw [heq] at hdraw
      exact (share_reject h).trans hdraw
  · next heq =>
      rw [heq] at hdraw
      exact (share_direct h).trans hdraw

theorem share_intercept (h : c.number ≠ n) : (s.intercept now c).1.share n = s.share n := by
  unfold intercept
  split
  · exact share_reject h
  · split
    · exact share_wait h
    · exact share_roll h

/-! ## Events -/

theorem share_arrive {number : Nat} {request : Http.Request} (h : number ≠ n) :
    (s.arrive now number request).1.share n = s.share n := by
  unfold arrive
  dsimp only
  split
  · exact share_intercept h
  · exact share_direct h

theorem share_abandon {number : Nat} (h : number ≠ n) :
    (s.abandon number).share n = s.share n := by
  unfold abandon
  split
  · exact (share_dropActivity h).trans (share_dropCall h)
  · rfl

theorem share_wake (h : c.number ≠ n) : (s.wake now c).1.share n = s.share n := by
  unfold wake
  split
  · split
    · exact share_roll h
    · rfl
  · split
    · exact share_answer h
    · rfl
  · rfl

theorem share_learn {finding : Finding} (h : c.number ≠ n) :
    (s.learn now c finding).share n = s.share n := by
  unfold learn
  split
  · split
    · exact share_answer h
    · rfl
  · rfl

/-! ## What an event does -/

theorem handle_of_ended {event : Event} (hended : s.hasEnded = true) :
    s.handle now event = (s, []) :=
  if_pos hended

section

variable (hended : ¬ s.hasEnded = true)

include hended

theorem handle_arrive {request : Http.Request} :
    s.handle now (.arrive n request) = s.arrive now n request :=
  if_neg hended

theorem handle_leave : s.handle now (.leave n) = (s.abandon n, []) := if_neg hended

theorem handle_wake (hc : s.call? n = some c) : s.handle now (.wake n) = s.wake now c := by
  refine (if_neg hended).trans ?_
  show ((s.call? n).map (s.wake now)).getD (s, []) = _
  rw [hc]
  rfl

theorem handle_begin (ha : s.activity? n = some a) :
    s.handle now (.begin n) = if a.shape.isNone then s.begin now a else (s, []) := by
  refine (if_neg hended).trans ?_
  simp only [ha]

theorem handle_signal {signal : Load.Signal} :
    s.handle now (.signal n signal) = s.hear now n signal :=
  if_neg hended

theorem handle_told {finding : Finding} (hc : s.call? n = some c) :
    s.handle now (.told n finding) = (s.learn now c finding, []) := by
  refine (if_neg hended).trans ?_
  show (((s.call? n).map fun c => s.learn now c finding).getD s, ([] : List Errand)) = _
  rw [hc]
  rfl

end

/-- Everything that an event can make of a service. -/
inductive Handles (s : State) (now : Instant) : Event → State → Prop where
  | nothing {event : Event} : Handles s now event s
  | arrives {number : Nat} {request : Http.Request} :
      Handles s now (.arrive number request) (s.arrive now number request).1
  | leaves {number : Nat} : Handles s now (.leave number) (s.abandon number)
  | wakes {number : Nat} {c : Call} :
      s.call? number = some c → Handles s now (.wake number) (s.wake now c).1
  | begins {number : Nat} {a : Activity} :
      s.activity? number = some a → a.shape.isNone = true →
      Handles s now (.begin number) (s.begin now a).1
  | heeds {number : Nat} {signal : Load.Signal} {a : Activity} :
      s.activity? number = some a →
      Handles s now (.signal number signal) (s.heed now a signal).1
  | connects {number : Nat} {signal : Load.Signal} {c : Call} {kind : Backend.Kind}
      {workload : Workload} {task : Load.Resource → Task} :
      s.activity? number = none → s.call? number = some c →
      c.waiting = .connection kind workload task →
      Handles s now (.signal number signal) (s.connected now c kind workload task signal).1
  | learns {number : Nat} {finding : Finding} {c : Call} :
      s.call? number = some c → Handles s now (.told number finding) (s.learn now c finding)
  | exits : Handles s now .exit { s with hasEnded := true }

/-- An event makes nothing else of a service. -/
theorem handles (s : State) (now : Instant) (event : Event) :
    Handles s now event (s.handle now event).1 := by
  by_cases hended : s.hasEnded = true
  · rw [handle_of_ended hended]
    exact .nothing
  cases event with
  | arrive number request =>
      rw [handle_arrive hended]
      exact .arrives
  | leave number =>
      rw [handle_leave hended]
      exact .leaves
  | wake number =>
      cases hc : s.call? number with
      | some c =>
          rw [handle_wake hended hc]
          exact .wakes hc
      | none =>
          have hsame : s.handle now (.wake number) = (s, []) := by
            simp [handle, hended, hc]
          rw [hsame]
          exact .nothing
  | begin number =>
      cases ha : s.activity? number with
      | some a =>
          rw [handle_begin hended ha]
          split
          · next hshape => exact .begins ha hshape
          · exact .nothing
      | none =>
          have hsame : s.handle now (.begin number) = (s, []) := by
            simp [handle, hended, ha]
          rw [hsame]
          exact .nothing
  | signal number signal =>
      rw [handle_signal hended, hear]
      cases ha : s.activity? number with
      | some a => exact .heeds ha
      | none =>
          dsimp only
          split
          · next c hc =>
              split
              · next hwaiting => exact .connects ha hc hwaiting
              · exact .nothing
          · exact .nothing
  | told number finding =>
      cases hc : s.call? number with
      | some c =>
          rw [handle_told hended hc]
          exact .learns hc
      | none =>
          have hsame : s.handle now (.told number finding) = (s, []) := by
            simp [handle, hended, hc]
          rw [hsame]
          exact .nothing
  | exit =>
      have hexit : s.handle now .exit = ({ s with hasEnded := true }, []) := if_neg hended
      rw [hexit]
      exact .exits

/-- **AN EVENT TOUCHES ITS OWN NUMBER ONLY.** -/
theorem share_handle {event : Event} (h : event.call? ≠ some n) :
    (s.handle now event).1.share n = s.share n := by
  have hhandles := s.handles now event
  generalize (s.handle now event).1 = s' at hhandles ⊢
  cases hhandles with
  | nothing => rfl
  | arrives => exact share_arrive fun heq => h (congrArg some heq)
  | leaves => exact share_abandon fun heq => h (congrArg some heq)
  | wakes hc => exact share_wake (number_of_call? hc ▸ fun heq => h (congrArg some heq))
  | begins ha => exact share_begin (call_of_activity? ha ▸ fun heq => h (congrArg some heq))
  | heeds ha => exact share_heed (call_of_activity? ha ▸ fun heq => h (congrArg some heq))
  | connects _ hc => exact share_connected (number_of_call? hc ▸ fun heq => h (congrArg some heq))
  | learns hc => exact share_learn (number_of_call? hc ▸ fun heq => h (congrArg some heq))
  | exits => exact share_congr rfl rfl rfl

/-- A call that waits for its job, and a job that has begun, do not change but by a signal, or
    because the caller leaves. -/
theorem share_unheeded {event : Event} (hcall : ∀ c, s.call? n = some c → c.waiting = .job)
    (hactivity : ∀ a, s.activity? n = some a → a.shape.isNone = false)
    (harrive : ∀ request, event ≠ .arrive n request) (hleave : event ≠ .leave n)
    (hsignal : ∀ signal, event ≠ .signal n signal) :
    (s.handle now event).1.share n = s.share n := by
  by_cases hown : event.call? = some n
  · have hhandles := s.handles now event
    generalize (s.handle now event).1 = s' at hhandles ⊢
    cases hhandles with
    | nothing => rfl
    | @arrives number request =>
        obtain rfl : number = n := Option.some.inj hown
        exact absurd rfl (harrive request)
    | @leaves number =>
        obtain rfl : number = n := Option.some.inj hown
        exact absurd rfl hleave
    | @wakes number c hc =>
        obtain rfl : number = n := Option.some.inj hown
        rw [wake, hcall c hc]
    | @begins number a ha hshape =>
        obtain rfl : number = n := Option.some.inj hown
        rw [hactivity a ha] at hshape
        cases hshape
    | @heeds number signal | @connects number signal =>
        obtain rfl : number = n := Option.some.inj hown
        exact absurd rfl (hsignal signal)
    | @learns number finding c hc =>
        obtain rfl : number = n := Option.some.inj hown
        rw [learn, hcall c hc]
    | exits => cases hown
  · exact share_handle hown

/-- Where nobody waits and nothing works, nothing comes of events but of a new request. -/
theorem share_idle {event : Event} (hcalls : (s.share n).calls = [])
    (hactivities : (s.share n).activities = []) (harrive : ∀ request, event ≠ .arrive n request) :
    (s.handle now event).1.share n = s.share n := by
  have hcall : s.call? n = none := by rw [call?_eq_head?, hcalls, List.head?_nil]
  have hactivity : s.activity? n = none := by rw [activity?_eq_head?, hactivities, List.head?_nil]
  by_cases hown : event.call? = some n
  · have hhandles := s.handles now event
    generalize (s.handle now event).1 = s' at hhandles ⊢
    cases hhandles with
    | nothing => rfl
    | @arrives number request =>
        obtain rfl : number = n := Option.some.inj hown
        exact absurd rfl (harrive request)
    | @leaves number =>
        obtain rfl : number = n := Option.some.inj hown
        rw [abandon, hcall]
    | @wakes number c hc | @connects number signal c kind workload task _ hc
    | @learns number finding c hc =>
        obtain rfl : number = n := Option.some.inj hown
        rw [hcall] at hc
        cases hc
    | @begins number a ha | @heeds number signal a ha =>
        obtain rfl : number = n := Option.some.inj hown
        rw [hactivity] at ha
        cases ha
    | exits => cases hown
  · exact share_handle hown

end State

end Havoc.Service
