import Havoc.Proofs.Fault.Roll
import Havoc.Proofs.Json.Value
import Havoc.Proofs.Service.Dealing
import Havoc.Proofs.Service.Rejection

/-! # How the fault rules decide

    A request that comes in meets the fault rules before any handler does.  Downtime
    turns it away at once, without a delay and without a draw.  Otherwise it waits for
    the delay in force, and then it is drawn for with the rules as they are by then,
    whatever was armed or has lapsed in the meantime: it is lost, or answered with an
    error, or its handler goes to work.

    The route: `turnedAway_reject` says all that a rejection does, and
    `decided_roll` takes a roll apart by `Fault.roll_spec`.  Events of other calls do
    not touch the call that waits (`share_run`), and once a request has been drawn
    for, no later event brings it before the rules again (`Behind.run`).  The main
    theorem is `faults_decide`. -/

namespace Havoc.Service

open Havoc.Http Havoc.Json Fault

/-- The status and the code that tell of a fault. -/
def faultCode : Fault.Kind → Nat × String
  | .serviceDown => (503, "SERVICE_DOWN")
  | .packetLoss => (503, "PACKET_LOSS")
  | .randomError => (500, "RANDOM_ERROR")

/-- A reply has a status and is a document that tells a code. -/
def Reports (reply : Reply) (told : Nat × String) : Prop :=
  reply.status = told.1 ∧ ∃ members, reply.body = (Value.object members).render ∧
    members.lookup "error" = some (.text told.2)

namespace State

variable {s s' : State} {n : Nat} {now : Instant} {c : Call} {a : Activity}
  {kind : Fault.Kind} {events : List (Instant × Event)}

/-- How many requests the fault rules turned away, by kind. -/
def faults (s : State) : Option (Metric.Samples Nat) := s.registry.map (·.faults)

/-- A call is turned away for a fault: its reply says so, the fault is counted, some
    words are left, and nothing else is any different. -/
structure TurnedAway (s : State) (c : Call) (kind : Fault.Kind) (left : Words)
    (out : State × List Errand) : Prop where
  errands : out.2 = []
  answered : ∃ reply, Reports reply (faultCode kind) ∧
    out.1.answered = ⟨c.number, .error (.fault kind), reply⟩ :: s.answered
  calls : out.1.calls = s.calls.filter fun x => x.number ≠ c.number
  counted : ∀ p, out.1.faults.map (·.counted p) =
    s.faults.map (·.counted p + if p [kind.label] then 1 else 0)
  words : out.1.words = left
  untouched : out.1.config = s.config ∧ out.1.rules = s.rules ∧ out.1.table = s.table ∧
    out.1.leaked = s.leaked ∧ out.1.activities = s.activities ∧ out.1.madeUp = s.madeUp ∧
    out.1.hasEnded = s.hasEnded

/-- No delay holds up the call with a number. -/
def Behind (n : Nat) (s : State) : Prop :=
  ∀ c ∈ (s.share n).calls, ∀ due, c.waiting ≠ .delay due

/-- The request that is drawn for now is lost. -/
def IsLost (s : State) (now : Instant) : Prop := Lost (s.rules.percent? now) s.words

/-- The words left behind the draw of a loss. -/
def wordsAfterLoss (s : State) (now : Instant) : Words := afterLoss (s.rules.percent? now) s.words

/-- The request that is drawn for now, and is not lost, is answered with an error. -/
def IsFailed (s : State) (now : Instant) : Prop :=
  Failed (s.rules.share? now) (s.wordsAfterLoss now)

/-- The words left behind the draws of a loss and of an error. -/
def wordsAfterRoll (s : State) (now : Instant) : Words :=
  afterFailure (s.rules.share? now) (s.wordsAfterLoss now)

/-- A call is drawn for with the rules as they are. -/
structure Decided (s : State) (now : Instant) (c : Call) (out : State × List Errand) :
    Prop where
  lost : s.IsLost now → TurnedAway s c .packetLoss (s.wordsAfterLoss now) out
  failed : ¬ s.IsLost now → s.IsFailed now →
    TurnedAway s c .randomError (s.wordsAfterRoll now) out
  /-- The handler takes it from here, and what it makes of the service stays. -/
  passed : ¬ s.IsLost now → ¬ s.IsFailed now →
    out = ({ s with words := s.wordsAfterRoll now } : State).direct now c ∧
      out.1.faults = s.faults
  /-- The call does not come before the rules again. -/
  once : ∀ later : List (Instant × Event),
    (∀ e ∈ later, ∀ request, e.2 ≠ .arrive c.number request) → Behind c.number (out.1.run later)

/-! ## Rejections -/

theorem reports_problem (problem : Problem) (info : Info) (time : Moment) :
    Reports (problem.reply info time) (problem.status, problem.code) := by
  refine ⟨rfl, _, rfl, ?_⟩
  rw [lookup_insertMember, if_neg (by decide)]
  have hother : ∀ (key : String) (x : Value) (ms : List (String × Value)), "error" ≠ key →
      (Value.ofMembers (ms ++ [(key, x)])).get? "error" = (Value.ofMembers ms).get? "error" :=
    fun key x ms hne => Value.get?_ofMembers_snoc_of_ne ms x hne
  show (Value.ofMembers ([("error", .text problem.code)] ++
    [("message", .text problem.message)] ++
      [("request", Value.ofMembers info.details)])).get? "error" = _
  rw [hother _ _ _ (by decide), hother _ _ _ (by decide)]
  rfl

/-- What an answer does, apart from what it writes down. -/
theorem answerWith_frame (s : State) (now : Instant) (c : Call) (info : Info)
    (outcome : Outcome) :
    let s' := s.answerWith now c info outcome
    (s'.answered = ⟨c.number, outcome, replyTo outcome info (wallClock now)⟩ :: s.answered ∧
      s'.calls = (s.calls.filter fun x => x.number ≠ c.number) ∧ s'.words = s.words) ∧
    s'.config = s.config ∧ s'.rules = s.rules ∧ s'.table = s.table ∧ s'.leaked = s.leaked ∧
      s'.activities = s.activities ∧ s'.madeUp = s.madeUp ∧ s'.hasEnded = s.hasEnded := by
  unfold answerWith
  dsimp only
  split
  · exact ⟨⟨rfl, rfl, rfl⟩, rfl, rfl, rfl, rfl, rfl, rfl, rfl⟩
  · exact ⟨⟨rfl, rfl, rfl⟩, rfl, rfl, rfl, rfl, rfl, rfl, rfl⟩

theorem faults_note {note : Metric.Note} (h : note.isFault = false) :
    (s.note note).faults = s.faults := by
  show Option.map _ (Option.map _ s.registry) = Option.map _ s.registry
  cases s.registry with
  | none => rfl
  | some r => exact congrArg some (r.faults_note h)

theorem faults_answerWith {info : Info} {outcome : Outcome} :
    (s.answerWith now c info outcome).faults = s.faults := by
  unfold answerWith
  dsimp only
  split
  · exact faults_note rfl
  · rfl

theorem counted_fault (s : State) (kind : Fault.Kind) (p : List String → Bool) :
    (s.note (.faultInjected kind.label)).faults.map (·.counted p) =
      s.faults.map (·.counted p + if p [kind.label] then 1 else 0) := by
  show Option.map _ (Option.map _ (Option.map _ s.registry)) =
    Option.map _ (Option.map _ s.registry)
  cases s.registry with
  | none => rfl
  | some r => exact congrArg some (Metric.Samples.counted_update p _ r.faults)

theorem turnedAway_reject (s : State) (now : Instant) (c : Call) (kind : Fault.Kind)
    (left : Words) :
    TurnedAway s c kind left (({ s with words := left }).reject now c kind, []) := by
  have hcode : ((Problem.fault kind).status, (Problem.fault kind).code) = faultCode kind := by
    cases kind <;> rfl
  obtain ⟨⟨hanswered, hcalls, hwords⟩, hrest⟩ := answerWith_frame
    (State.note { s with words := left } (.faultInjected kind.label)) now c
    (if s.config.isLogging then c.info else {}) (.error (.fault kind))
  refine ⟨rfl, ⟨_, ?_, hanswered⟩, hcalls, ?_, hwords, hrest⟩
  · rw [← hcode]
    exact reports_problem (.fault kind) _ _
  · intro p
    show (answerWith _ _ _ _ _).faults.map _ = _
    rw [faults_answerWith]
    exact counted_fault { s with words := left } kind p

/-! ## Handlers count no faults -/

theorem faults_answer {outcome : Outcome} : (s.answer now c outcome).faults = s.faults :=
  faults_answerWith

theorem faults_finish {ended : Job.Outcome} : (s.finish now a ended).faults = s.faults := by
  unfold finish
  dsimp only
  generalize s.table.finish a.id (wallClock now) ended = table
  have hnoted : (State.note { s.dropActivity a.call with table } .jobFinished).faults =
      s.faults := faults_note rfl
  split
  · exact faults_answer.trans hnoted
  · exact hnoted

theorem faults_begin : (s.begin now a).1.faults = s.faults := by
  have hnone : (s.noteAll (a.task.work.begin now).notes).faults = s.faults := by
    rw [a.task.work.notes_begin]
    show Option.map _ (Option.map _ s.registry) = Option.map _ s.registry
    cases s.registry <;> rfl
  unfold begin advance
  dsimp only
  split
  · exact faults_finish.trans hnone
  · obtain ⟨words, hcharge⟩ := chargeAll_eq
      ((s.noteAll (a.task.work.begin now).notes).putActivity
        { a with shape := some (a.task.work.begin now).state })
      { a with shape := some (a.task.work.begin now).state } (a.task.work.begin now).asks
    rw [hcharge]
    exact hnone

theorem faults_start {order : Option Order} {task : Task} :
    (s.start now c order task).1.faults = s.faults := by
  unfold start
  dsimp only
  split
  · exact faults_begin.trans (faults_note rfl)
  · exact faults_answer.trans (faults_note rfl)

theorem faults_direct : (s.direct now c).1.faults = s.faults := by
  unfold direct
  split
  · exact faults_answer
  · next route _ =>
      have hdraw : (s.draw (s.attend now c.info route).run).2.faults = s.faults := rfl
      split
      · next heq =>
          rw [heq] at hdraw
          exact faults_answer.trans hdraw
      · next heq =>
          rw [heq] at hdraw
          unfold settle
          split
          · exact faults_answer.trans hdraw
          · exact faults_answer.trans hdraw
          · exact hdraw
          · exact faults_start.trans hdraw
          · exact hdraw
          · exact hdraw
          · exact faults_answer.trans hdraw
          · exact hdraw

/-! ## Once and no more -/

theorem behind_of_dealt {seen : Attendance} (h : Dealt seen s now c s') : Behind c.number s' :=
  fun x hx => (h.own x hx).2

theorem Behind.handle (h : Behind n s) {event : Event}
    (hno : ∀ request, event ≠ .arrive n request) : Behind n (s.handle now event).1 := by
  by_cases hown : event.call? = some n
  · -- what the handlers have come to does not matter here
    let seen : Attendance := fun _ _ _ => True
    have hstanding : ∀ number, event.call? = some number → Standing seen (s.share number) :=
      fun _ _ _ _ => Or.inl ⟨.page "", trivial⟩
    cases handle_cases s now event hstanding (fun _ _ _ _ _ => trivial) with
    | still hstill =>
        intro x hx
        obtain ⟨hx, hnumber⟩ := mem_share_calls.mp hx
        exact h x (mem_share_calls.mpr ⟨hstill.calls x hx, hnumber⟩)
    | held m request due hevent _ =>
        rw [hevent] at hown
        obtain rfl := Option.some.inj hown
        exact absurd hevent (hno request)
    | dealt c hc _ hdealt =>
        obtain rfl := Option.some.inj (hc.symm.trans hown)
        exact behind_of_dealt hdealt
  · rw [Behind, share_handle hown]
    exact h

theorem Behind.run (h : Behind n s) (hno : ∀ e ∈ events, ∀ request, e.2 ≠ .arrive n request) :
    Behind n (s.run events) := by
  induction events generalizing s with
  | nil => exact h
  | cons e events ih =>
      rw [run_cons]
      exact ih (h.handle (hno e List.mem_cons_self)) fun x hx => hno x (List.mem_cons_of_mem e hx)

theorem share_run (h : ∀ e ∈ events, e.2.call? ≠ some n) :
    (s.run events).share n = s.share n := by
  induction events generalizing s with
  | nil => rfl
  | cons e events ih =>
      rw [run_cons, ih fun x hx => h x (List.mem_cons_of_mem e hx)]
      exact share_handle (h e List.mem_cons_self)

/-! ## The roll -/

theorem draw_roll {fault : Option Fault.Kind} {left : Words}
    (h : s.rules.roll now s.words = (fault, left)) :
    s.draw (s.rules.roll now) = (fault, { s with words := left }) := by
  show ((s.rules.roll now s.words).1, { s with words := (s.rules.roll now s.words).2 }) = _
  rw [h]

theorem roll_of_fault {left : Words} (h : s.rules.roll now s.words = (some kind, left)) :
    s.roll now c = (({ s with words := left } : State).reject now c kind, []) := by
  unfold roll
  rw [draw_roll h]

theorem roll_of_none {left : Words} (h : s.rules.roll now s.words = (none, left)) :
    s.roll now c = ({ s with words := left } : State).direct now c := by
  unfold roll
  rw [draw_roll h]

theorem decided_roll (s : State) (now : Instant) (c : Call) :
    Decided s now c (s.roll now c) := by
  obtain ⟨hlost, hfailed, hpassed, hwords⟩ := roll_spec s.rules now s.words
  have hdealt : Dealt (fun _ _ _ => True) s now c (s.roll now c).1 :=
    dealt_roll fun _ _ _ => trivial
  refine ⟨?_, ?_, ?_, fun later hno => (behind_of_dealt hdealt).run hno⟩
  · intro h
    have hfault := hlost.mpr h
    rw [if_pos hfault] at hwords
    rw [roll_of_fault (Prod.ext hfault hwords)]
    exact turnedAway_reject s now c .packetLoss _
  · intro h h'
    have hfault := hfailed.mpr ⟨h, h'⟩
    rw [if_neg (by rw [hfault]; exact nofun)] at hwords
    rw [roll_of_fault (Prod.ext hfault hwords)]
    exact turnedAway_reject s now c .randomError _
  · intro h h'
    have hfault := hpassed.mpr ⟨h, h'⟩
    rw [if_neg (by rw [hfault]; exact nofun)] at hwords
    rw [roll_of_none (Prod.ext hfault hwords)]
    exact ⟨rfl, faults_direct⟩

/-! ## Requests -/

theorem call?_of_share (h : (s.share n).calls = [c]) : s.call? n = some c := by
  rw [call?_eq_head?, h, List.head?_cons]

/-- A call that waits for a delay is drawn for when the delay is over, and not before. -/
theorem wake_decides {due later : Instant} (hlive : s.hasEnded = false)
    (hwaits : s.call? n = some { c with waiting := .delay due }) :
    (later < due → s.handle later (.wake n) = (s, [])) ∧
      (due ≤ later →
        Decided s later { c with waiting := .delay due } (s.handle later (.wake n))) := by
  have hwake : s.handle later (.wake n) =
      if due ≤ later then s.roll later { c with waiting := .delay due } else (s, []) := by
    rw [handle_wake (by rw [hlive]; exact Bool.false_ne_true) hwaits]
    rfl
  rw [hwake]
  constructor
  · intro h
    rw [if_neg (Nat.not_le.mpr h)]
  · intro h
    rw [if_pos h]
    exact decided_roll s later _

/-- **THE FAULT RULES DECIDE.**  A request that comes in during downtime is turned away
    at once, with no draw.  Without downtime it waits for the delay in force, if there
    is one, and is drawn for when that is over, by the rules as they are then, whatever
    other calls did in the meantime.  The numbers drawn are below one hundred, and from
    zero up to but not including one; so all of the requests are lost at one hundred
    percent and none at zero, and likewise for errors. -/
theorem faults_decide (s : State) (now : Instant) (n : Nat) (request : Request)
    (hfaulty : s.config.isFaulty = true) (hlive : s.hasEnded = false) :
    let c := incoming n now request
    let out := s.handle now (.arrive n request)
    (s.rules.isDown now = true → TurnedAway s c .serviceDown s.words out) ∧
      (s.rules.isDown now = false → s.rules.delay? now = none → Decided s now c out) ∧
      (s.rules.isDown now = false → ∀ delay, s.rules.delay? now = some delay →
        let due := deadlineAfter now delay
        out = (s.wait c (.delay due), [.wake n due]) ∧
          ∀ between : List (Instant × Event), (∀ e ∈ between, e.2.call? ≠ some n) →
            let s' := out.1.run between
            s'.hasEnded = false → ∀ later,
              (later < due → s'.handle later (.wake n) = (s', [])) ∧
              (due ≤ later → Decided s' later { c with waiting := .delay due }
                (s'.handle later (.wake n)))) ∧
      ∀ w : Words, (Draw.belowShort 100 w).1 < 100 ∧ 0.0 ≤ (Draw.unit w).1 ∧
        (Draw.unit w).1 < 1.0 ∧ Lost (some 100) w ∧ ¬ Lost (some 0) w ∧
        (∀ x : Float, (x == 1.0) = true → Failed (some x) w) ∧
        ∀ x : Float, (x == 0.0) = true → ¬ Failed (some x) w := by
  intro c out
  have hout : out = s.intercept now c := by
    show s.handle now (.arrive n request) = _
    rw [handle_arrive (by rw [hlive]; exact Bool.false_ne_true)]
    unfold arrive
    rw [if_pos hfaulty]
    rfl
  refine ⟨?_, ?_, ?_, ?_⟩
  · intro hdown
    rw [hout, intercept, if_pos hdown]
    exact turnedAway_reject s now c .serviceDown s.words
  · intro hup hnone
    rw [hout, intercept, if_neg (by rw [hup]; exact Bool.false_ne_true), hnone]
    exact decided_roll s now c
  · intro hup delay hdelay due
    have hwait : out = (s.wait c (.delay due), [.wake n due]) := by
      rw [hout, intercept, if_neg (by rw [hup]; exact Bool.false_ne_true), hdelay]
      rfl
    refine ⟨hwait, ?_⟩
    -- no event in between is for this call, so it still waits when its delay is over
    intro between hothers s' hlive' later
    refine wake_decides hlive' (call?_of_share ?_)
    show ((out.1.run between).share n).calls = _
    rw [share_run hothers, hwait]
    exact congrArg Share.calls (share_wait_self rfl)
  · intro w
    exact ⟨Draw.belowShort_lt w, (Draw.belowOne_unit w).nonneg,
      (Draw.belowOne_unit w).lt_one rfl, lost_of_hundred w, not_lost_of_zero w,
      fun x hx => failed_of_one hx w, fun x hx => not_failed_of_zero hx w⟩

/-- A service whose requests are delayed by a second and lost, for ten seconds each. -/
def lossyService : State where
  config := { settings := ⟨.table []⟩, template := .ofString "" }
  words := ⟨fun _ => 0, 0⟩
  rules := {
    latency := Fault.arm (Span.ofSeconds 1) 0 (Span.ofSeconds 10)
    packetLoss := Fault.arm 100 0 (Span.ofSeconds 10) }
  registry := some {}

/-- A request that comes in after two seconds is lost after three. -/
theorem faults_decide_lost :
    let request : Request := { method := "GET", target := ⟨none, "/simple", none⟩ }
    let c := incoming 0 (Span.ofSeconds 2) request
    let due := Span.ofSeconds 3
    let s := (lossyService.handle (Span.ofSeconds 2) (.arrive 0 request)).1.run []
    TurnedAway s { c with waiting := .delay due } .packetLoss (s.wordsAfterLoss due)
      (s.handle due (.wake 0)) := by
  intro request c due s
  have hdelay := (faults_decide lossyService (Span.ofSeconds 2) 0 request rfl rfl).2.2.1 rfl
    (Span.ofSeconds 1) rfl
  have hdecided := (hdelay.2 [] (fun _ h => absurd h List.not_mem_nil) rfl due).2 (Nat.le_refl _)
  refine hdecided.lost ?_
  have hpercent : s.rules.percent? due = some 100 := rfl
  rw [IsLost, hpercent]
  exact lost_of_hundred _

end State

end Havoc.Service
