import Havoc.Proofs.Service.Serving

/-! # A rejected request leaves no trace

    A request can be turned down when it comes in, after the delay of a fault rule,
    when its resource is refused and when what it asked for elsewhere fails.  Events
    of other calls may come at any time between.

    The route: `Marks` is what a request might leave behind.  A call without a job
    (`Bare`) does one of two things with an event of its own (`Turn`): it leaves all
    marks alone and stays without a job, or it is granted one.  A call that was
    granted a job is never told of any problem but one of the service itself
    (`Granted`), and stays so, because no event touches the share of another call.
    So a call that is told of another problem left all marks alone at every one of
    its events.  The main theorem is `rejected_leaves_no_trace`. -/

namespace Havoc.Service

open Havoc.Http

/-- What a request might leave behind. -/
structure Marks where
  table : Job.Table
  rules : Fault.Rules
  leaked : List Nat
  jobsStarted : Option (Metric.Samples Nat)
  jobsActive : Option Int
  resourcesOpen : Option (Metric.Samples Int)

/-- The code of a problem of the service itself. -/
def internalCode : String := "INTERNAL_ERROR"

namespace State

variable {s s' : State} {n : Nat} {now : Instant} {c : Call} {a : Activity}

/-- What requests have left behind. -/
def marks (s : State) : Marks where
  table := s.table
  rules := s.rules
  leaked := s.leaked
  jobsStarted := s.registry.map (·.jobsStarted)
  jobsActive := s.registry.map (·.jobsActive)
  resourcesOpen := s.registry.map (·.resourcesOpen)

/-- What events at their instants make of the service. -/
def run (s : State) (events : List (Instant × Event)) : State :=
  events.foldl (fun s e => (s.handle e.1 e.2).1) s

/-- Nothing stands under a number. -/
def Unknown (n : Nat) (s : State) : Prop := s.share n = ⟨[], [], []⟩

/-- The numbers of the calls that were told of a problem, with its code. -/
def problems (s : State) : List (Nat × String) :=
  s.answered.filterMap fun a => match a.outcome with
    | .ok _ => none
    | .error p => some (a.call, p.code)

/-- A call has been told of a problem that is not one of the service itself. -/
def Rejected (n : Nat) (s : State) : Prop :=
  ∃ x ∈ s.problems, x.1 = n ∧ x.2 ≠ internalCode

instance (n : Nat) (s : State) : Decidable (Rejected n s) :=
  inferInstanceAs (Decidable (∃ x ∈ s.problems, x.1 = n ∧ x.2 ≠ internalCode))

/-- A call waits for its resource to be opened. -/
def AsksResource (n : Nat) (s : State) : Prop :=
  ∃ c kind workload task, s.call? n = some c ∧ c.waiting = .connection kind workload task

/-! ## Operations that leave no marks -/

/-- Whether a note is about no job and no resource. -/
def isPassing : Metric.Note → Bool
  | .answered .. | .faultInjected _ | .workFailed _ | .setupFailed _ => true
  | .jobStarted .. | .jobFinished | .opened _ | .closed _ => false

theorem marks_note {note : Metric.Note} (h : isPassing note = true) :
    (s.note note).marks = s.marks := by
  have hnote : ∀ r : Metric.Registry, (r.note note).jobsStarted = r.jobsStarted ∧
      (r.note note).jobsActive = r.jobsActive ∧ (r.note note).resourcesOpen = r.resourcesOpen := by
    intro r
    cases note with
    | answered | faultInjected | workFailed | setupFailed => exact ⟨rfl, rfl, rfl⟩
    | jobStarted | jobFinished | opened | closed => exact Bool.noConfusion h
  show Marks.mk _ _ _ _ _ _ = Marks.mk _ _ _ _ _ _
  cases hr : s.registry with
  | none => rw [State.note, noteAll, hr]; rfl
  | some r =>
      obtain ⟨hstarted, hactive, hopen⟩ := hnote r
      simp [State.note, noteAll, hr, Metric.Registry.noteAll, hstarted, hactive, hopen]

theorem marks_answerWith {info : Info} {out : Outcome} :
    (s.answerWith now c info out).marks = s.marks := by
  unfold answerWith
  dsimp only
  split
  · unfold record
    exact marks_note rfl
  · rfl

/-! ## Calls without a job -/

/-- No job stands under the number, and no answer while there is a call. -/
def Bare (n : Nat) (s : State) : Prop :=
  (s.share n).activities = [] ∧ ((s.share n).calls = [] ∨ (s.share n).answered = [])

/-- A call without a job and without an answer. -/
def Pending (n : Nat) (s : State) : Prop :=
  (s.share n).activities = [] ∧ (s.share n).answered = []

/-- A call that was granted a job waits for that job if it waits, and was told of no
    problem but one of the service itself. -/
def Granted (n : Nat) (s : State) : Prop :=
  (∀ c ∈ (s.share n).calls, c.waiting = .job) ∧
    ∀ a ∈ (s.share n).answered, ∀ p, a.outcome = .error p → p.code = internalCode

/-- What an event of its own can make of a call without a job. -/
def Turn (n : Nat) (s s' : State) : Prop := (s'.marks = s.marks ∧ Bare n s') ∨ Granted n s'

theorem turn_answerWith {info : Info} {out : Outcome} (h : Pending n s) (hc : c.number = n) :
    Turn n s (s.answerWith now c info out) := by
  refine Or.inl ⟨marks_answerWith, ?_⟩
  rw [Bare, share_answerWith_self hc]
  exact ⟨h.1, Or.inl rfl⟩

theorem turn_answer {out : Outcome} (h : Pending n s) (hc : c.number = n) :
    Turn n s (s.answer now c out) :=
  turn_answerWith h hc

theorem turn_wait {w : Waiting} (h : Pending n s) (hc : c.number = n) :
    Turn n s (s.wait c w) := by
  refine Or.inl ⟨rfl, ?_⟩
  rw [Bare, share_wait_self hc]
  exact ⟨h.1, Or.inr h.2⟩

theorem turn_refl (h : Bare n s) : Turn n s s := Or.inl ⟨rfl, h⟩

/-- Words and passing notes do not count. -/
theorem Turn.of_eq {s₁ : State} (h : Turn n s₁ s') (hmarks : s₁.marks = s.marks) :
    Turn n s s' := by
  rcases h with ⟨hsame, hbare⟩ | hgranted
  · exact Or.inl ⟨hsame.trans hmarks, hbare⟩
  · exact Or.inr hgranted

theorem Pending.of_eq (h : Pending n s) (hshare : s'.share n = s.share n) : Pending n s' := by
  rw [Pending, hshare]
  exact h

/-! ## Calls with a job -/

/-- An outcome tells of no problem but one of the service itself. -/
def ToldInternal (out : Outcome) : Prop := ∀ p, out = .error p → p.code = internalCode

theorem toldInternal_completed (a : Activity) (outcome : Job.Outcome) :
    ToldInternal (a.completed outcome) := by
  intro p h
  unfold Activity.completed at h
  split at h
  · exact nomatch h
  · exact nomatch h
  · obtain rfl := Except.error.inj h
    rfl

theorem suits_internal : Suits (fun _ => True) ToldInternal where
  shaped _ _ _ := trivial
  started _ _ _ h := nomatch h
  completed a outcome _ := toldInternal_completed a outcome

theorem granted_iff : Granted n s ↔ Serving (fun _ => True) ToldInternal n s :=
  ⟨fun h => ⟨h.1, fun _ _ => trivial, h.2⟩, fun h => ⟨h.calls, h.answered⟩⟩

theorem granted_start {order : Option Fault.Order} {task : Task} (h : Pending n s)
    (hc : c.number = n) : Granted n (s.start now c order task).1 :=
  granted_iff.mpr (serving_start suits_internal hc h.1 h.2 fun _ => trivial)

/-! ## Turns of a call -/

theorem turn_settle {ans : Answer} (h : Pending n s) (hc : c.number = n) :
    Turn n s (s.settle now c ans).1 := by
  unfold settle
  split
  · exact turn_answer h hc
  · exact turn_answer h hc
  · exact turn_wait h hc
  · exact Or.inr (granted_start h hc)
  · exact turn_wait h hc
  · exact turn_wait h hc
  · exact turn_answer h hc
  · exact turn_wait h hc

theorem turn_direct (h : Pending n s) (hc : c.number = n) : Turn n s (s.direct now c).1 := by
  unfold direct
  split
  · exact turn_answer h hc
  · next route _ =>
      have hshare : (s.draw (s.attend now c.info route).run).2.share n = s.share n :=
        share_congr rfl rfl rfl
      have hmarks : (s.draw (s.attend now c.info route).run).2.marks = s.marks := rfl
      split
      · next heq =>
          rw [heq] at hshare hmarks
          exact (turn_answer (h.of_eq hshare) hc).of_eq hmarks
      · next heq =>
          rw [heq] at hshare hmarks
          exact (turn_settle (h.of_eq hshare) hc).of_eq hmarks

theorem turn_reject {kind : Fault.Kind} (h : Pending n s) (hc : c.number = n) :
    Turn n s (s.reject now c kind) := by
  have hpending : Pending n (s.note (.faultInjected kind.label)) :=
    h.of_eq (share_congr rfl rfl rfl)
  exact (turn_answerWith hpending hc).of_eq (marks_note rfl)

theorem turn_roll (h : Pending n s) (hc : c.number = n) : Turn n s (s.roll now c).1 := by
  unfold roll
  have hshare : (s.draw (s.rules.roll now)).2.share n = s.share n := share_congr rfl rfl rfl
  have hmarks : (s.draw (s.rules.roll now)).2.marks = s.marks := rfl
  split
  · next heq =>
      rw [heq] at hshare hmarks
      exact (turn_reject (h.of_eq hshare) hc).of_eq hmarks
  · next heq =>
      rw [heq] at hshare hmarks
      exact (turn_direct (h.of_eq hshare) hc).of_eq hmarks

theorem turn_arrive {request : Request} (h : Pending n s) : Turn n s (s.arrive now n request).1 := by
  unfold arrive
  dsimp only
  split
  · unfold intercept
    split
    · exact turn_reject h rfl
    · split
      · exact turn_wait h rfl
      · exact turn_roll h rfl
  · exact turn_direct h rfl

theorem turn_connected {signal : Load.Signal} {kind : Backend.Kind} {workload : Workload}
    {task : Load.Resource → Task} (h : Pending n s) (hc : c.number = n) :
    Turn n s (s.connected now c kind workload task signal).1 := by
  unfold connected
  split
  · next resource => exact Or.inr (granted_start (h.of_eq (share_congr rfl rfl rfl)) hc)
  · have hpending : Pending n (s.note (.setupFailed workload.name)) :=
      h.of_eq (share_congr rfl rfl rfl)
    exact (turn_answer hpending hc).of_eq (marks_note rfl)
  · refine Or.inl ⟨rfl, ?_⟩
    rw [Bare, hc, share_dropCall_self]
    exact ⟨h.1, Or.inl rfl⟩
  · exact turn_refl ⟨h.1, Or.inr h.2⟩

theorem turn_wake (h : Pending n s) (hc : c.number = n) : Turn n s (s.wake now c).1 := by
  have hbare : Bare n s := ⟨h.1, Or.inr h.2⟩
  unfold wake
  split
  · split
    · exact turn_roll h hc
    · exact turn_refl hbare
  · split
    · exact turn_answer h hc
    · exact turn_refl hbare
  · exact turn_refl hbare

theorem turn_learn {finding : Finding} (h : Pending n s) (hc : c.number = n) :
    Turn n s (s.learn now c finding) := by
  have hbare : Bare n s := ⟨h.1, Or.inr h.2⟩
  unfold learn
  split
  · split
    · exact turn_answer h hc
    · exact turn_refl hbare
  · exact turn_refl hbare

/-! ## Events -/

theorem Bare.no_activity (h : Bare n s) : s.activity? n = none := by
  rw [activity?, List.find?_eq_none]
  intro a ha hcall
  have hmem := mem_share_activities.mpr ⟨ha, of_decide_eq_true hcall⟩
  rw [h.1] at hmem
  exact absurd hmem List.not_mem_nil

/-- A call that has not been answered is pending. -/
theorem Bare.pending (h : Bare n s) (hc : s.call? n = some c) : Pending n s := by
  refine ⟨h.1, ?_⟩
  rcases h.2 with hcalls | hanswered
  · have hmem := share_of_call? hc
    rw [hcalls] at hmem
    exact absurd hmem List.not_mem_nil
  · exact hanswered

theorem Bare.abandon (h : Bare n s) : Turn n s (s.abandon n) := by
  unfold State.abandon
  split
  · refine Or.inl ⟨rfl, ?_⟩
    rw [Bare, share_dropActivity_self, share_dropCall_self]
    exact ⟨rfl, Or.inl rfl⟩
  · exact turn_refl h

/-- An event of a call without a job is a turn. -/
theorem Bare.handle {event : Event} (h : Bare n s) (hown : event.call? = some n)
    (harrive : ∀ request, event = .arrive n request → Pending n s) :
    Turn n s (s.handle now event).1 := by
  have hhandles := s.handles now event
  generalize (s.handle now event).1 = s' at hhandles ⊢
  cases hhandles with
  | nothing => exact turn_refl h
  | @arrives number request =>
      obtain rfl : number = n := Option.some.inj hown
      exact turn_arrive (harrive request rfl)
  | @leaves number =>
      obtain rfl : number = n := Option.some.inj hown
      exact h.abandon
  | @wakes number c hc =>
      obtain rfl : number = n := Option.some.inj hown
      exact turn_wake (h.pending hc) (number_of_call? hc)
  | @begins number a ha | @heeds number signal a ha =>
      obtain rfl : number = n := Option.some.inj hown
      rw [h.no_activity] at ha
      cases ha
  | @connects number signal c kind workload task _ hc =>
      obtain rfl : number = n := Option.some.inj hown
      exact turn_connected (h.pending hc) (number_of_call? hc)
  | @learns number finding c hc =>
      obtain rfl : number = n := Option.some.inj hown
      exact turn_learn (h.pending hc) (number_of_call? hc)
  | exits => cases hown

/-- A call whose resource is opened is granted its job. -/
theorem Bare.opened {resource : Load.Resource} (h : Bare n s) (hasks : AsksResource n s)
    (hgoing : s.hasEnded = false) :
    Granted n (s.handle now (.signal n (.opened resource))).1 := by
  obtain ⟨c, kind, workload, task, hc, hwaiting⟩ := hasks
  simp only [State.handle, hgoing, hear, h.no_activity, hc, hwaiting, connected]
  exact granted_start ((h.pending hc).of_eq (share_congr rfl rfl rfl)) (number_of_call? hc)

/-- A call that was granted a job hears of no other problems. -/
theorem Granted.handle {event : Event} (h : Granted n s)
    (harrive : ∀ request, event ≠ .arrive n request) : Granted n (s.handle now event).1 :=
  granted_iff.mpr ((granted_iff.mp h).handle suits_internal harrive)

/-! ## Runs -/

variable {events : List (Instant × Event)}

theorem run_cons (s : State) (e : Instant × Event) (events : List (Instant × Event)) :
    s.run (e :: events) = (s.handle e.1 e.2).1.run events := rfl

theorem run_append (s : State) (before after : List (Instant × Event)) :
    s.run (before ++ after) = (s.run before).run after :=
  List.foldl_append

/-- A call with a job is served for the rest of a run. -/
theorem Serving.run {good : Activity → Prop} {fine : Outcome → Prop} (suits : Suits good fine)
    (h : Serving good fine n s) (honce : ∀ e ∈ events, ∀ request, e.2 ≠ .arrive n request) :
    Serving good fine n (s.run events) := by
  induction events generalizing s with
  | nil => exact h
  | cons e events ih =>
      rw [run_cons]
      exact ih (h.handle suits (honce e List.mem_cons_self))
        fun x hx => honce x (List.mem_cons_of_mem e hx)

theorem Granted.run (h : Granted n s) (honce : ∀ e ∈ events, ∀ request, e.2 ≠ .arrive n request) :
    Granted n (s.run events) :=
  granted_iff.mpr ((granted_iff.mp h).run suits_internal honce)

/-- A rejected call has an answer, and the answer is its problem. -/
theorem Rejected.answered (h : Rejected n s) :
    ∃ a ∈ (s.share n).answered, ∃ p, a.outcome = .error p ∧ p.code ≠ internalCode := by
  obtain ⟨x, hx, hnumber, hcode⟩ := h
  obtain ⟨a, ha, heq⟩ := List.mem_filterMap.mp hx
  split at heq
  · exact nomatch heq
  · next p hp =>
      obtain rfl := Option.some.inj heq
      exact ⟨a, mem_share_answered.mpr ⟨ha, hnumber⟩, p, hp, hcode⟩

theorem Granted.not_rejected (h : Granted n s) : ¬ Rejected n s := by
  intro hrejected
  obtain ⟨a, ha, p, hp, hcode⟩ := hrejected.answered
  exact hcode (h.2 a ha p hp)

theorem run_of_ended (h : s.hasEnded = true) (events : List (Instant × Event)) :
    s.run events = s := by
  induction events with
  | nil => rfl
  | cons e events ih =>
      rw [run_cons, handle_of_ended h]
      exact ih

/-- What a call without a job does with one event of a run in which it is rejected. -/
theorem Bare.step {e : Instant × Event} (h : Bare n s)
    (hpending : ∀ request, e.2 = .arrive n request → Pending n s)
    (honce : ∀ x ∈ events, ∀ request, x.2 ≠ .arrive n request)
    (hrejected : Rejected n (s.run (e :: events))) :
    Bare n (s.handle e.1 e.2).1 ∧
      (e.2.call? = some n → (s.handle e.1 e.2).1.marks = s.marks ∧
        ∀ resource, e.2 = .signal n (.opened resource) → ¬ AsksResource n s) := by
  have hnot : ¬ Granted n (s.handle e.1 e.2).1 :=
    fun hgranted => (hgranted.run honce).not_rejected hrejected
  by_cases hown : e.2.call? = some n
  · have hturn : Turn n s (s.handle e.1 e.2).1 := h.handle hown hpending
    rcases hturn with ⟨hmarks, hbare⟩ | hgranted
    · refine ⟨hbare, fun _ => ⟨hmarks, ?_⟩⟩
      intro resource heq hasks
      cases hended : s.hasEnded with
      | false =>
          rw [heq] at hnot
          exact hnot (h.opened hasks hended)
      | true =>
          -- a service that has ended answers nobody
          obtain ⟨c, -, -, -, hc, -⟩ := hasks
          rw [run_of_ended hended] at hrejected
          obtain ⟨a, ha, -⟩ := hrejected.answered
          rw [(h.pending hc).2] at ha
          exact absurd ha List.not_mem_nil
    · exact absurd hgranted hnot
  · refine ⟨?_, fun heq => absurd heq hown⟩
    rw [Bare, share_handle hown]
    exact h

/-- A call that is rejected in the end never has a job. -/
theorem Bare.stays (h : Bare n s) (honce : ∀ e ∈ events, ∀ request, e.2 ≠ .arrive n request)
    (hrejected : Rejected n (s.run events)) : Bare n (s.run events) := by
  induction events generalizing s with
  | nil => exact h
  | cons e events ih =>
      have hlater := fun x hx => honce x (List.mem_cons_of_mem e hx)
      have hno : ∀ request, e.2 = .arrive n request → Pending n s :=
        fun request heq => absurd heq (honce e List.mem_cons_self request)
      exact ih (h.step hno hlater hrejected).1 hlater hrejected

theorem Bare.run (h : Bare n s) (honce : ∀ e ∈ events, ∀ request, e.2 ≠ .arrive n request)
    (hrejected : Rejected n (s.run events)) {before after : List (Instant × Event)}
    {e : Instant × Event} (hsplit : events = before ++ e :: after) (hown : e.2.call? = some n) :
    (s.run (before ++ [e])).marks = (s.run before).marks ∧
      ∀ resource, e.2 = .signal n (.opened resource) → ¬ AsksResource n (s.run before) := by
  induction before generalizing s events with
  | nil =>
      subst hsplit
      have hlater := fun x hx => honce x (List.mem_cons_of_mem e hx)
      have hno : ∀ request, e.2 = .arrive n request → Pending n s :=
        fun request heq => absurd heq (honce e List.mem_cons_self request)
      exact (h.step hno hlater hrejected).2 hown
  | cons x before ih =>
      subst hsplit
      have hlater := fun y hy => honce y (List.mem_cons_of_mem x hy)
      have hno : ∀ request, x.2 = .arrive n request → Pending n s :=
        fun request heq => absurd heq (honce x List.mem_cons_self request)
      exact ih (h.step hno hlater hrejected).1 hlater hrejected rfl

/-- Marks that no event touches stay. -/
theorem marks_run (h : ∀ before e after, events = before ++ e :: after →
    (s.run (before ++ [e])).marks = (s.run before).marks) : (s.run events).marks = s.marks := by
  induction events generalizing s with
  | nil => rfl
  | cons e events ih =>
      rw [run_cons]
      refine (ih ?_).trans (h [] e events rfl)
      intro before x after hsplit
      exact h (e :: before) x after (congrArg (e :: ·) hsplit)

/-- **A REJECTED REQUEST LEAVES NO TRACE.**  A request comes in, and in the end its
    caller has been told of a problem that is not one of the service itself.  Then
    none of its own events, whatever came between them, touched the table of jobs,
    the fault rules, the leaked memory or the metrics of jobs and resources, and no
    resource that it asked for was opened; nothing is left of it that waits or
    works.  If nothing else went on, everything is as it was before the request. -/
theorem rejected_leaves_no_trace {request : Request} {later : List (Instant × Event)}
    (hnew : Unknown n s) (honce : ∀ e ∈ later, ∀ request, e.2 ≠ .arrive n request)
    (hrejected : Rejected n (s.run ((now, .arrive n request) :: later))) :
    (∀ before e after, (now, Event.arrive n request) :: later = before ++ e :: after →
      e.2.call? = some n →
        (s.run (before ++ [e])).marks = (s.run before).marks ∧
        ∀ resource, e.2 = .signal n (.opened resource) → ¬ AsksResource n (s.run before)) ∧
      (let s' := s.run ((now, .arrive n request) :: later)
       (s'.share n).calls = [] ∧ (s'.share n).activities = []) ∧
      ((∀ e ∈ later, e.2.call? = some n) →
        (s.run ((now, .arrive n request) :: later)).marks = s.marks) := by
  have hpending : Pending n s := by
    rw [Pending, hnew]
    exact ⟨rfl, rfl⟩
  have hfirst := Bare.step ⟨hpending.1, Or.inr hpending.2⟩ (fun _ _ => hpending) honce hrejected
  have hown : ∀ before e after, (now, Event.arrive n request) :: later = before ++ e :: after →
      e.2.call? = some n →
        (s.run (before ++ [e])).marks = (s.run before).marks ∧
        ∀ resource, e.2 = .signal n (.opened resource) → ¬ AsksResource n (s.run before) := by
    intro before e after hsplit hcall
    cases before with
    | nil =>
        obtain ⟨rfl, rfl⟩ := List.cons.inj hsplit
        exact hfirst.2 hcall
    | cons x before =>
        obtain ⟨rfl, hlater⟩ := List.cons.inj hsplit
        exact Bare.run (s := (s.handle now (.arrive n request)).1) hfirst.1 honce hrejected hlater
          hcall
  have hbare := Bare.stays (s := (s.handle now (.arrive n request)).1) hfirst.1 honce hrejected
  obtain ⟨a, ha, -⟩ := hrejected.answered
  refine ⟨hown, ⟨?_, hbare.1⟩, ?_⟩
  · rcases hbare.2 with hcalls | hanswered
    · exact hcalls
    · exact absurd (hanswered ▸ ha) List.not_mem_nil
  intro hall
  refine marks_run fun before e after hsplit => (hown before e after hsplit ?_).1
  have hmem : e ∈ (now, Event.arrive n request) :: later := by
    rw [hsplit]
    exact List.mem_append_right _ List.mem_cons_self
  rcases List.mem_cons.mp hmem with rfl | hmem
  · rfl
  · exact hall e hmem

/-- A service with a cache to put under load and some memory leaked. -/
def cacheService : State where
  config := {
    settings := ⟨.table [("redis_host".toList, .leaf "cache")]⟩
    template := .ofString ""
    isLogging := false }
  words := ⟨fun _ => 0, 0⟩
  registry := some {}
  leaked := [4096]

/-- A request for a job on the cache. -/
def cacheRequest : Request := { method := "POST", target := ⟨none, "/redis/heavy", none⟩ }

/-- The cache refuses the connection. -/
theorem rejected_leaves_no_trace_refused :
    let later : List (Instant × Event) := [(5, .signal 0 (.refused 0 "connection refused"))]
    let s := cacheService.run ((3, .arrive 0 cacheRequest) :: later)
    Unknown 0 cacheService ∧ Rejected 0 s ∧ s.marks = cacheService.marks := by
  intro later s
  have hrejected : Rejected 0 s := by decide +kernel
  have honce : ∀ e ∈ later, ∀ request, e.2 ≠ .arrive 0 request := by
    intro e he request
    rw [List.mem_singleton.mp he]
    exact nofun
  have hnew : Unknown 0 cacheService := rfl
  refine ⟨hnew, hrejected, (rejected_leaves_no_trace hnew honce hrejected).2.2 ?_⟩
  intro e he
  rw [List.mem_singleton.mp he]
  rfl

end State

end Havoc.Service
