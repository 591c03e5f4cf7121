import Havoc.Proofs.Service.ArmedRates
import Havoc.Proofs.Service.Repeating

/-! # Callers who wait for a rule to lapse

    A request that arms a rule comes with a job that does nothing but wait.  Its caller is told
    when the job is over, or at once if it does not wait.  The rule has a deadline of its own and
    so has the job; they are computed from the same instant and the same span, and so the caller
    is told when the rule has lapsed, and never before.

    The route: four endpoints arm a slot, and what they make of a request is a command for it
    (`Commands`).  The expiry of a slot stays until another command for it is accepted
    (`expiryOf_run`).  What stands under the number of a caller who waits is one of three things
    (`Vigil`), and it only goes on to a reply by the timer of the job, at the deadline or later
    (`Vigil.handle`).  The main theorem is `control_replies_follow_the_lapse`. -/

namespace Havoc.Service

open Havoc.Http Havoc.Json Havoc.Text Fault

/-! ## Commands -/

/-- The slot that an endpoint arms. -/
def armedSlot : Route → Option Slot
  | .latency => some .latency
  | .packetLoss => some .packetLoss
  | .errorInjection => some .errorRate
  | .downtime => some .downtime
  | _ => none

/-- The name under which a caller is told what a slot is armed with. -/
def toldName : Slot → Option String
  | .latency => some "latency_ms"
  | .packetLoss => some "loss_percentage"
  | .errorRate => some "error_rate"
  | .downtime => none

/-- What a slot is armed with is told beside what is told of every job. -/
theorem toldName_ne {slot : Slot} {name : String} (h : toldName slot = some name) :
    name ≠ "job_id" ∧ name ≠ "message" ∧ name ≠ "report" := by
  cases slot with
  | downtime => exact nomatch h
  | latency | packetLoss | errorRate =>
      obtain rfl := Option.some.inj h
      decide

/-- What the body of a request for a slot asks for: for how long, and whether the caller does not
    wait. -/
inductive Asks (body : List UInt8) : Slot → RawQuantity → Bool → Prop where
  | latency {p : FaultOrder} : (faultForm "latency_ms").read body = .ok p →
      Asks body .latency p.maintain p.isAsync
  | packetLoss {p : FaultOrder} : (faultForm "loss_percentage").read body = .ok p →
      Asks body .packetLoss p.maintain p.isAsync
  | errorRate {p : FaultOrder} : (faultForm "error_rate").read body = .ok p →
      Asks body .errorRate p.maintain p.isAsync
  | downtime {p : DowntimeOrder} : downtimeForm.read body = .ok p →
      Asks body .downtime p.downtime p.isAsync

/-- An order for a slot that lasts as long as the request asks for, and a job that waits as long
    as the order lasts and tells its value. -/
structure Commands (body : List UInt8) (slot : Slot) (order : Order) (task : Task) : Prop where
  arms : order.slot = slot
  asked : ∃ q isAsync n, Asks body slot q isAsync ∧ Resolves maintainRange q n ∧
    order.lifetime = secondsOf n ∧ task.mode = .ofAsync isAsync
  work : task.work = .wait order.lifetime
  told : ∀ name, toldName slot = some name →
    (Value.ofMembers task.params).get? name = some order.shown

/-- What the endpoint of a slot makes of a request, if it accepts it. -/
theorem gives_commands (s : State) (now : Instant) (info : Info) {route : Route} {slot : Slot}
    (hslot : armedSlot route = some slot) : Gives (s.attend now info route) fun x =>
      ∃ order task, x = .job (some order) task ∧ Commands info.body slot order task := by
  cases route with
  | latency =>
      obtain rfl := Option.some.inj hslot
      refine (gives_read _ _).bind fun p hread => ?_
      refine (gives_amount (by decide)).bind fun delay hdelay => ?_
      refine gives_integer.bind fun n hn => .return ⟨_, _, rfl, rfl, ?_, rfl, ?_⟩
      · exact ⟨_, _, n, .latency hread, hn, rfl, rfl⟩
      · rintro name ⟨⟩
        rw [shown_latency _ (Nat.lt_trans hdelay.small (by decide))]
        exact get?_first _ _ (by decide)
  | packetLoss =>
      obtain rfl := Option.some.inj hslot
      refine (gives_read _ _).bind fun p hread => gives_behind fun percent => ?_
      refine gives_integer.bind fun n hn => .return ⟨_, _, rfl, rfl, ?_, rfl, ?_⟩
      · exact ⟨_, _, n, .packetLoss hread, hn, rfl, rfl⟩
      · rintro name ⟨⟩
        rw [Order.shown, Nat.min_eq_left (Nat.min_le_right _ _)]
        exact get?_first _ _ (by decide)
  | errorInjection =>
      obtain rfl := Option.some.inj hslot
      refine (gives_read _ _).bind fun p hread => gives_behind fun rate => ?_
      refine gives_integer.bind fun n hn => .return ⟨_, _, rfl, rfl, ?_, rfl, ?_⟩
      · exact ⟨_, _, n, .errorRate hread, hn, rfl, rfl⟩
      · rintro name ⟨⟩
        rw [Order.shown, clampShare_idem]
        exact get?_first _ _ (by decide)
  | downtime =>
      obtain rfl := Option.some.inj hslot
      refine (gives_read _ _).bind fun p hread => ?_
      refine gives_integer.bind fun n hn => .return ⟨_, _, rfl, rfl, ?_, rfl, ?_⟩
      · exact ⟨_, _, n, .downtime hread, hn, rfl, rfl⟩
      · rintro name ⟨⟩
  | _ => cases hslot

theorem commands_of_attended {s : State} {now : Instant} {info : Info} {route : Route}
    {slot : Slot} {x : Answer} (h : Attended s now info (.ok x))
    (hroute : Route.resolve info.method info.path = .ok route)
    (hslot : armedSlot route = some slot) :
    ∃ order task, x = .job (some order) task ∧ Commands info.body slot order task := by
  obtain ⟨words, route', hroute', hresult⟩ := h
  obtain rfl := Except.ok.inj (hroute'.symm.trans hroute)
  exact gives_commands { s with words } now info hslot words x hresult

theorem onlyOrders_of_armedSlot {info : Info} {route : Route} {slot : Slot}
    (hroute : Route.resolve info.method info.path = .ok route)
    (hslot : armedSlot route = some slot) : OnlyOrders info := by
  intro s now x hattended horderless
  obtain ⟨order, task, rfl, -⟩ := commands_of_attended hattended hroute hslot
  exact horderless

/-! ## Slots in force -/

/-- Whether the rule of a slot is in force at an instant. -/
def isLive (r : Rules) (t : Instant) : Slot → Bool
  | .latency => (active r.latency t).isSome
  | .packetLoss => (active r.packetLoss t).isSome
  | .errorRate => (active r.errorRate t).isSome
  | .downtime => r.isDown t

theorem isSome_active_iff {α : Type} {rule : Option (Armed α)} {t : Instant} :
    (active rule t).isSome = true ↔ ∃ expiry, rule.map (·.expiry) = some expiry ∧ t < expiry := by
  cases rule with
  | none => exact iff_of_false Bool.false_ne_true nofun
  | some armed =>
      unfold active
      dsimp only
      split
      · next hlt => exact iff_of_true rfl ⟨armed.expiry, rfl, hlt⟩
      · next hlt =>
          refine iff_of_false Bool.false_ne_true ?_
          rintro ⟨expiry, ⟨⟩, hless⟩
          exact hlt hless

/-- A slot is in force until its expiry. -/
theorem isLive_iff {r : Rules} {t : Instant} {slot : Slot} :
    isLive r t slot = true ↔ ∃ expiry, expiryOf r slot = some expiry ∧ t < expiry := by
  cases slot with
  | latency | packetLoss | errorRate | downtime => exact isSome_active_iff

theorem expiryOf_obey_of_ne (r : Rules) (now : Instant) {order : Order} {slot : Slot}
    (h : order.slot ≠ slot) : expiryOf (r.obey now order) slot = expiryOf r slot := by
  cases order with
  | latency | packetLoss | errorRate | downtime =>
      cases slot with
      | latency | packetLoss | errorRate | downtime => first | rfl | exact absurd rfl h

namespace State

variable {s s' : State} {n : Nat} {now : Instant} {c : Call} {event : Event}
  {events : List (Instant × Event)} {order : Order} {task : Task} {slot : Slot}
  {expiry : Instant} {span : Span} {body : List UInt8}

/-- No event of a run accepts a command for a slot. -/
def Unarmed (slot : Slot) (s : State) (events : List (Instant × Event)) : Prop :=
  ∀ before e after, events = before ++ e :: after →
    ∀ c order task, Accepts (s.run before) e.1 e.2 c order task → order.slot ≠ slot

theorem unarmed_nil : Unarmed slot s [] :=
  fun before e after hempty => absurd hempty.symm (List.append_ne_nil_of_right_ne_nil before
    (List.cons_ne_nil e after))

/-- A slot keeps its expiry. -/
theorem expiryOf_run (h : Unarmed slot s events) :
    expiryOf (s.run events).rules slot = expiryOf s.rules slot := by
  induction events generalizing s with
  | nil => rfl
  | cons e events ih =>
      have hrest : Unarmed slot (s.handle e.1 e.2).1 events := by
        intro before x after hsplit
        exact h (e :: before) x after (congrArg (e :: ·) hsplit)
      rw [run_cons, ih hrest]
      rcases rules_cases s e.1 e.2 with hsame | ⟨c, order, task, haccepts⟩
      · rw [hsame]
      · rw [haccepts.rules]
        exact expiryOf_obey_of_ne _ _ (h [] e events rfl c order task haccepts)

/-! ## Callers who wait -/

/-- No more requests come in under a number. -/
def Once (n : Nat) (events : List (Instant × Event)) : Prop :=
  ∀ e ∈ events, ∀ request, e.2 ≠ .arrive n request

/-- What stands under the number of a caller who waits for a deadline: the call and its job, the
    reply, or nothing any more if the caller has left. -/
inductive Vigil (n : Nat) (task : Task) (expiry : Instant) (s : State) : Prop where
  | waits {c : Call} {id : Job.Id}
      (share : s.share n = ⟨[c], [⟨n, id, task, some (.keeping expiry .null)⟩], []⟩)
      (job : c.waiting = .job)
  | told {x : Answered} {a : Activity} (share : s.share n = ⟨[], [], [x]⟩) (task : a.task = task)
      (outcome : x.outcome = .ok (.document (a.told "completed" [])))
  | left (share : s.share n = ⟨[], [], []⟩)

/-- The end of a job is told to the caller who waits for it. -/
theorem share_finish_self {a : Activity} {ended : Job.Outcome} (hc : s.call? a.call = some c) :
    ∃ x : Answered, x.outcome = a.completed ended ∧
      (s.finish now a ended).share a.call = ⟨[], [], x :: (s.share a.call).answered⟩ := by
  unfold finish
  dsimp only
  generalize s.table.finish a.id (wallClock now) ended = table
  have hshare : (State.note { s.dropActivity a.call with table } .jobFinished).share a.call =
      { s.share a.call with activities := [] } := by
    rw [← share_dropActivity_self]
    exact share_congr rfl rfl rfl
  have hcall : (State.note { s.dropActivity a.call with table } .jobFinished).call? a.call =
      some c := hc
  rw [hcall]
  dsimp only
  rw [answer, share_answerWith_self (number_of_call? hc), hshare]
  exact ⟨_, rfl, rfl⟩

theorem yield_lapsed {a : Activity} : s.yield now a .lapsed = s := by
  unfold yield
  cases a.task.work <;> rfl

/-- The timer of a job that waits for a deadline ends the job when the deadline has come, and its
    caller is told. -/
theorem share_lapsed {id : Job.Id} (hended : s.hasEnded = false)
    (h : s.share n = ⟨[c], [⟨n, id, task, some (.keeping expiry .null)⟩], []⟩)
    (hdue : expiry ≤ now) : ∃ x : Answered,
      x.outcome = .ok (.document (Activity.told ⟨n, id, task, none⟩ "completed" [])) ∧
        (s.handle now (.signal n .lapsed)).1.share n = ⟨[], [], [x]⟩ ∧
        (s.handle now (.signal n .lapsed)).1.rules = s.rules := by
  have hcall : s.call? n = some c := call?_of_share (by rw [h])
  have hactivity : s.activity? n = some ⟨n, id, task, some (.keeping expiry .null)⟩ :=
    activity?_of_share (by rw [h])
  generalize hjob : (⟨n, id, task, some (.keeping expiry .null)⟩ : Activity) = a at hactivity
  have hstep : (a.shape.bind fun shape => shape.step a.task.noteName now .lapsed) =
      some { state := .kept .null } := by
    rw [← hjob]
    exact if_pos ⟨rfl, hdue⟩
  have hhandle : (s.handle now (.signal n .lapsed)).1 =
      (s.noteAll []).finish now a (.ok .null) := by
    rw [handle_signal (by rw [hended]; exact Bool.false_ne_true), hear, hactivity]
    dsimp only
    rw [heed, hstep]
    dsimp only
    rw [yield_lapsed]
    rfl
  obtain rfl : a.call = n := by rw [← hjob]
  obtain ⟨x, hx, hshare⟩ := @share_finish_self (s.noteAll []) now c a (.ok .null) hcall
  have hnone : (s.share a.call).answered = [] := congrArg Share.answered h
  refine ⟨x, ?_, ?_, ?_⟩
  · rw [hx, ← hjob]
    rfl
  · rw [hhandle, hshare]
    exact congrArg (Share.mk [] [] <| x :: ·) hnone
  · rw [hhandle]
    exact rules_finish

theorem Vigil.of_share (h : Vigil n task expiry s) (hshare : s'.share n = s.share n) :
    Vigil n task expiry s' := by
  cases h with
  | waits hwaits hjob => exact .waits (hshare.trans hwaits) hjob
  | told htold htask houtcome => exact .told (hshare.trans htold) htask houtcome
  | left hleft => exact .left (hshare.trans hleft)

/-- If an event brings a reply, it is no sooner than at an instant, and changes no rule. -/
def RepliesFrom (expiry : Instant) (n : Nat) (s s' : State) (now : Instant) : Prop :=
  (s.share n).answered = [] → (s'.share n).answered ≠ [] → expiry ≤ now ∧ s'.rules = s.rules

/-- A caller who waits is told when the timer of the job comes, at the deadline or later, and by
    nothing else. -/
theorem Vigil.handle (h : Vigil n task expiry s) (harrive : ∀ request, event ≠ .arrive n request) :
    Vigil n task expiry (s.handle now event).1 ∧
      RepliesFrom expiry n s (s.handle now event).1 now := by
  have hstays : (s.handle now event).1.share n = s.share n →
      Vigil n task expiry (s.handle now event).1 ∧
        RepliesFrom expiry n s (s.handle now event).1 now := by
    intro hsame
    refine ⟨h.of_share hsame, fun hnone hsome => ?_⟩
    rw [hsame] at hsome
    exact absurd hnone hsome
  cases h with
  | told hshare | left hshare =>
      exact hstays (share_idle (by rw [hshare]) (by rw [hshare]) harrive)
  | @waits c id hshare hjob =>
      have hcall : s.call? n = some c := call?_of_share (by rw [hshare])
      have hactivity : s.activity? n = some ⟨n, id, task, some (.keeping expiry .null)⟩ :=
        activity?_of_share (by rw [hshare])
      by_cases hended : s.hasEnded = true
      · refine hstays ?_
        rw [handle_of_ended hended]
      by_cases hleave : event = .leave n
      · subst hleave
        have hleft : (s.handle now (.leave n)).1.share n = ⟨[], [], []⟩ := by
          rw [handle_leave hended, State.abandon, hcall]
          dsimp only
          rw [share_dropActivity_self, share_dropCall_self, hshare]
        refine ⟨.left hleft, fun _ hsome => ?_⟩
        rw [hleft] at hsome
        exact absurd rfl hsome
      by_cases hsignal : ∃ signal, event = .signal n signal
      · obtain ⟨signal, rfl⟩ := hsignal
        by_cases hlapse : signal = .lapsed ∧ expiry ≤ now
        · obtain ⟨rfl, hdue⟩ := hlapse
          obtain ⟨x, hx, htold, hrules⟩ :=
            share_lapsed (Bool.eq_false_of_not_eq_true hended) hshare hdue
          exact ⟨.told htold rfl hx, fun _ _ => ⟨hdue, hrules⟩⟩
        · refine hstays ?_
          rw [handle_signal hended, hear, hactivity]
          dsimp only [heed, Option.bind_some, Load.Shape.step]
          rw [if_neg hlapse]
      refine hstays (share_unheeded ?_ ?_ harrive hleave fun signal heq => hsignal ⟨signal, heq⟩)
      · exact fun x hx => Option.some.inj (hcall.symm.trans hx) ▸ hjob
      · exact fun a ha => Option.some.inj (hactivity.symm.trans ha) ▸ rfl

theorem Vigil.run (h : Vigil n task expiry s) (honce : Once n events) :
    Vigil n task expiry (s.run events) := by
  induction events generalizing s with
  | nil => exact h
  | cons e events ih =>
      rw [run_cons]
      exact ih (h.handle (honce e List.mem_cons_self)).1
        fun x hx => honce x (List.mem_cons_of_mem e hx)

/-! ## Starting -/

/-- A job is put on record, and has not begun. -/
structure Enters (s : State) (now : Instant) (n : Nat) (id : Job.Id) (task : Task) (s' : State) :
    Prop where
  activities : s'.activities = s.activities ++ [⟨n, id, task, none⟩]
  answered : s'.answered = s.answered
  table : s'.table = s.table.start id task.name task.mode (Value.ofMembers task.params)
    (wallClock now)

/-- A job is put on record before it begins or its caller is told. -/
theorem start_enters (s : State) (now : Instant) (c : Call) (order : Option Order) (task : Task) :
    ∃ id s', Enters s now c.number id task s' ∧
      s.start now c order task = match task.mode with
        | .sync => (s'.wait c .job).begin now ⟨c.number, id, task, none⟩
        | .async => (s'.answer now c
            (.ok (.document (Activity.told ⟨c.number, id, task, none⟩ "started" []))),
              [.begin c.number]) := by
  refine ⟨_, _, ?_, rfl⟩
  exact ⟨rfl, rfl, rfl⟩

/-- The job that starts is the only one under its number, and nothing was told before. -/
theorem Enters.share {id : Job.Id} (h : Enters s now n id task s') (hpending : Pending n s) :
    s'.share n = ⟨(s'.share n).calls, [⟨n, id, task, none⟩], []⟩ := by
  have hold : s.activities.filter (fun a => a.call = n) = [] := hpending.1
  have hnone : s.answered.filter (fun a => a.call = n) = [] := hpending.2
  rw [State.share, h.activities, h.answered, List.filter_append, hold, hnone]
  simp

/-- A job takes the place of the only one under its number. -/
theorem share_putActivity_only {a b : Activity} {calls : List Call} {answered : List Answered}
    (h : s.share a.call = ⟨calls, [b], answered⟩) :
    (s.putActivity a).share a.call = ⟨calls, [a], answered⟩ := by
  have hput : (s.putActivity a).share a.call = ⟨(s.share a.call).calls,
      (s.share a.call).activities.map fun _ => a, (s.share a.call).answered⟩ :=
    congrArg (Share.mk _ · _) (share_putActivity_self rfl)
  rw [hput, h]
  rfl

/-- The caller of a job that waits for a while waits with it. -/
theorem share_start_wait (hpending : Pending c.number s) (hmode : task.mode = .sync)
    (hwork : task.work = .wait span) :
    ∃ id c', c'.waiting = .job ∧ (s.start now c (some order) task).1.share c.number =
      ⟨[c'], [⟨c.number, id, task, some (.keeping (deadlineAfter now span) .null)⟩], []⟩ := by
  obtain ⟨id, s₁, henters, hstart⟩ := start_enters s now c (some order) task
  refine ⟨id, { c with waiting := .job }, rfl, ?_⟩
  have hbegin : task.work.begin now = Load.Shape.keep span .null now := by
    rw [hwork]
    rfl
  have hwaits : (s₁.wait c .job).share c.number =
      ⟨[{ c with waiting := .job }], [⟨c.number, id, task, none⟩], []⟩ := by
    rw [share_wait_self rfl, henters.share hpending]
  let a : Activity := ⟨c.number, id, task, some (.keeping (deadlineAfter now span) .null)⟩
  have hput : (((s₁.wait c .job).noteAll []).putActivity a).share c.number =
      ⟨[{ c with waiting := .job }], [a], []⟩ := share_putActivity_only hwaits
  obtain ⟨words, hcharge⟩ := chargeAll_eq (((s₁.wait c .job).noteAll []).putActivity a) a
    [.lapsing (deadlineAfter now span)]
  rw [hstart, hmode]
  dsimp only
  rw [State.begin, hbegin]
  exact (congrArg (State.share · c.number) hcharge).trans hput

/-- A caller who does not wait is told at once that the job has started. -/
theorem share_start_async (hpending : Pending c.number s) (hmode : task.mode = .async) :
    ∃ id x, (s.start now c (some order) task).1.share c.number =
        ⟨[], [⟨c.number, id, task, none⟩], [x]⟩ ∧
      x.outcome = .ok (.document (Activity.told ⟨c.number, id, task, none⟩ "started" [])) ∧
      ∃ r ∈ (s.start now c (some order) task).1.table.records, r.id = id ∧ r.isRunning = true := by
  obtain ⟨id, s₁, henters, hstart⟩ := start_enters s now c (some order) task
  let out : Outcome := .ok (.document (Activity.told ⟨c.number, id, task, none⟩ "started" []))
  have hanswer : (s.start now c (some order) task).1 = s₁.answer now c out := by
    rw [hstart, hmode]
  have hshare : (s₁.answer now c out).share c.number = ⟨[], [⟨c.number, id, task, none⟩],
      [⟨c.number, out, replyTo out c.info (wallClock now)⟩]⟩ := by
    rw [answer, share_answerWith_self rfl, henters.share hpending]
  have htable : (s₁.answer now c out).table = s₁.table :=
    (answerWith_frame s₁ now c c.info out).2.2.2.1
  rw [hanswer]
  refine ⟨id, _, hshare, rfl, ?_⟩
  rw [htable, henters.table]
  exact ⟨_, List.mem_append_right _ (List.mem_singleton.mpr rfl), rfl, rfl⟩

/-! ## Replies -/

/-- A caller waits for a slot to lapse.  The slot is in force until its expiry while nobody else
    arms it.  The caller is told that the job is over, with the timer of the job at the expiry or
    later, and not before; then the slot is not in force any more. -/
structure AnswersAfterLapse (n : Nat) (slot : Slot) (task : Task) (expiry : Instant) (s : State) :
    Prop where
  waits : (s.share n).answered = []
  live : ∀ events, Unarmed slot s events →
    ∀ t, isLive (s.run events).rules t slot = true ↔ t < expiry
  told : ∀ events, Once n events → ∀ x ∈ ((s.run events).share n).answered,
    ∃ a : Activity, a.task = task ∧ x.outcome = .ok (.document (a.told "completed" []))
  lapsed : ∀ events e, Once n (events ++ [e]) → ((s.run events).share n).answered = [] →
    ((s.run (events ++ [e])).share n).answered ≠ [] →
      expiry ≤ e.1 ∧
        (Unarmed slot s events → isLive (s.run (events ++ [e])).rules e.1 slot = false)
  timely : ∀ events t, Once n events → (s.run events).hasEnded = false →
    ((s.run events).share n).calls ≠ [] → expiry ≤ t →
      ((s.run (events ++ [(t, .signal n .lapsed)])).share n).answered ≠ []

/-- A caller is told at once that a job has started.  The job is running then, and the slot is in
    force with the value that is told, unless it was armed for no time at all. -/
structure AnswersAtOnce (n : Nat) (slot : Slot) (order : Order) (task : Task) (now : Instant)
    (s : State) (doc : Value) : Prop where
  told : ∃ id x, s.share n = ⟨[], [⟨n, id, task, none⟩], [x]⟩ ∧ x.outcome = .ok (.document doc) ∧
    Tells ⟨n, id, task, none⟩ "started" none doc ∧
      ∃ r ∈ s.table.records, r.id = id ∧ r.isRunning = true
  live : 0 < order.lifetime → isLive s.rules now slot = true ∧ Shows s.rules now slot order.shown
  value : ∀ name, toldName slot = some name → doc.get? name = some order.shown

theorem Vigil.tells (h : Vigil n task expiry s) : ∀ x ∈ (s.share n).answered,
    ∃ a : Activity, a.task = task ∧ x.outcome = .ok (.document (a.told "completed" [])) := by
  cases h with
  | waits hshare hjob | left hshare =>
      rw [hshare]
      exact fun x hx => absurd hx List.not_mem_nil
  | @told y a hshare htask houtcome =>
      rw [hshare]
      intro x hx
      obtain rfl := List.mem_singleton.mp hx
      exact ⟨a, htask, houtcome⟩

/-- A caller who still waits when the timer comes is told. -/
theorem Vigil.lapses (h : Vigil n task expiry s) (hended : s.hasEnded = false)
    (hcalls : (s.share n).calls ≠ []) (hdue : expiry ≤ now) :
    ((s.handle now (.signal n .lapsed)).1.share n).answered ≠ [] := by
  cases h with
  | told hshare | left hshare =>
      rw [hshare] at hcalls
      exact absurd rfl hcalls
  | @waits c id hshare hjob =>
      obtain ⟨x, -, htold, -⟩ := share_lapsed hended hshare hdue
      rw [htold]
      exact List.cons_ne_nil _ _

theorem Accepts.expiryOf (h : Accepts s now event c order task) :
    Service.expiryOf (s.handle now event).1.rules order.slot =
      some (deadlineAfter now order.lifetime) := by
  rw [h.rules, expiryOf_obey]

theorem Accepts.answersAfterLapse (h : Accepts s now event c order task)
    (hpending : Pending c.number s) (hcommands : Commands body slot order task)
    (hmode : task.mode = .sync) :
    AnswersAfterLapse c.number slot task (deadlineAfter now order.lifetime)
      (s.handle now event).1 := by
  obtain ⟨harms, -, hwork, -⟩ := hcommands
  subst harms
  obtain ⟨words, hstart⟩ := h.starts
  obtain ⟨id, c', hjob, hshare⟩ : ∃ id c', c'.waiting = .job ∧
      (s.handle now event).1.share c.number = ⟨[c'], [⟨c.number, id, task,
        some (.keeping (deadlineAfter now order.lifetime) .null)⟩], []⟩ := by
    rw [hstart]
    exact @share_start_wait { s with words } now c order task _ hpending hmode hwork
  have hvigil : Vigil c.number task (deadlineAfter now order.lifetime) (s.handle now event).1 :=
    .waits hshare hjob
  have hlive : ∀ events, Unarmed order.slot (s.handle now event).1 events →
      ∀ t, isLive ((s.handle now event).1.run events).rules t order.slot = true ↔
        t < deadlineAfter now order.lifetime := by
    intro events hunarmed t
    rw [isLive_iff, expiryOf_run hunarmed, h.expiryOf]
    exact ⟨fun ⟨_, heq, hlt⟩ => Option.some.inj heq ▸ hlt, fun hlt => ⟨_, rfl, hlt⟩⟩
  refine ⟨by rw [hshare], hlive, fun events honce => (hvigil.run honce).tells, ?_, ?_⟩
  · intro events e honce hnone hsome
    have hbefore : Once c.number events := fun x hx => honce x (List.mem_append_left _ hx)
    have hsnoc : ((s.handle now event).1.run (events ++ [e])) =
        (((s.handle now event).1.run events).handle e.1 e.2).1 := run_append ..
    rw [hsnoc] at hsome
    obtain ⟨hdue, hrules⟩ := ((hvigil.run hbefore).handle
      (honce e (List.mem_append_right _ (List.mem_singleton.mpr rfl)))).2 hnone hsome
    refine ⟨hdue, fun hunarmed => Bool.eq_false_of_not_eq_true fun htrue => ?_⟩
    rw [hsnoc, hrules] at htrue
    exact absurd ((hlive events hunarmed e.1).mp htrue) (Nat.not_lt_of_le hdue)
  · intro events t honce hended hcalls hdue
    rw [run_append]
    exact (hvigil.run honce).lapses hended hcalls hdue

theorem Accepts.answersAtOnce (h : Accepts s now event c order task)
    (hpending : Pending c.number s) (hcommands : Commands body slot order task)
    (hmode : task.mode = .async) :
    ∃ doc, AnswersAtOnce c.number slot order task now (s.handle now event).1 doc := by
  obtain ⟨harms, -, -, htold⟩ := hcommands
  subst harms
  obtain ⟨words, hstart⟩ := h.starts
  obtain ⟨id, x, hshare, hx, hrunning⟩ :=
    @share_start_async { s with words } now c order task hpending hmode
  rw [← hstart] at hshare hrunning
  have htells := tells_told ⟨c.number, id, task, none⟩ "started"
  refine ⟨_, ⟨id, x, hshare, hx, htells, hrunning⟩, fun hlong => ⟨?_, ?_⟩, fun name hname => ?_⟩
  · exact isLive_iff.mpr ⟨_, h.expiryOf, lt_deadlineAfter hlong⟩
  · rw [h.rules]
    exact shows_obey _ _ hlong
  · obtain ⟨hjob, hmessage, hreport⟩ := toldName_ne hname
    rw [← htold name hname]
    exact htells.params name hjob hmessage hreport

/-- **WHOEVER WAITS IS TOLD AFTER THE LAPSE.**  A request to one of the endpoints that arm a slot
    is not accepted, or one of its events accepts it, with an order for the slot that lasts as
    long as the request asks for and a job that waits as long.  If the caller waits, the slot is
    in force until its expiry as long as nobody else arms it, and the caller is told then or
    later, when it is in force no more.  If not, the caller is told at once, while the job runs
    and the slot is in force with the value that is told, unless the order is for no time at
    all. -/
theorem control_replies_follow_the_lapse (s : State) (n : Nat) (first : Instant)
    (request : Request) (later : List (Instant × Event)) (route : Route) (slot : Slot)
    (hnew : Unknown n s) (honce : Once n later)
    (hroute : Route.resolve (Info.ofRequest request).method (Info.ofRequest request).path =
      .ok route)
    (hslot : armedSlot route = some slot) :
    Held n (Info.ofRequest request) (s.run ((first, .arrive n request) :: later)) ∨
      ∃ before e after c order task, (first, .arrive n request) :: later = before ++ e :: after ∧
        Accepts (s.run before) e.1 e.2 c order task ∧ c.number = n ∧
        Commands request.body slot order task ∧
        (task.mode = .sync → AnswersAfterLapse n slot task (deadlineAfter e.1 order.lifetime)
          (s.run (before ++ [e]))) ∧
        (task.mode = .async → ∃ doc,
          AnswersAtOnce n slot order task e.1 (s.run (before ++ [e])) doc) := by
  have honly : OnlyOrders (Info.ofRequest request) := onlyOrders_of_armedSlot hroute hslot
  refine (held_or_accepted hnew honce honly).imp_right ?_
  rintro ⟨before, e, after, hsplit, ⟨c, order, task, haccepts, rfl, hinfo, hpending⟩, -⟩
  obtain ⟨order', task', heq, hcommands⟩ :=
    commands_of_attended haccepts.attended (hinfo ▸ hroute) hslot
  rw [hinfo] at hcommands
  obtain ⟨horder, rfl⟩ := Answer.job.inj heq
  obtain rfl := Option.some.inj horder
  have hrun : s.run (before ++ [e]) = ((s.run before).handle e.1 e.2).1 := run_append ..
  refine ⟨before, e, after, c, order, task, hsplit, haccepts, rfl, hcommands, ?_, ?_⟩
  · rw [hrun]
    exact haccepts.answersAfterLapse hpending hcommands
  · rw [hrun]
    exact haccepts.answersAtOnce hpending hcommands

/-- A request for a downtime of two seconds, whose caller waits for its end. -/
def shortDowntimeRequest : Request :=
  { method := "POST"
    target := ⟨none, "/stress/downtime", none⟩
    body := utf8 "\x7b\"downtime_second\":2\x7d" }

/-- The service is down for two seconds, and the caller is told when it is up again. -/
theorem control_replies_follow_the_lapse_downtime :
    let e : Instant × Event := (3, .arrive 0 shortDowntimeRequest)
    let lapse : Instant × Event := (3 + Span.ofSeconds 2, .signal 0 .lapsed)
    (freshService.run [e]).rules.isDown 3 = true ∧
      ((freshService.run [e]).share 0).answered = [] ∧
      ((freshService.run [e, lapse]).share 0).answered.length = 1 ∧
      (freshService.run [e, lapse]).rules.isDown (3 + Span.ofSeconds 2) = false := by
  intro e lapse
  have hdown : (freshService.run [e]).rules.isDown 3 = true := by decide +kernel
  have hlength : ((freshService.run [e, lapse]).share 0).answered.length = 1 := by decide +kernel
  have hone : ((freshService.run [e]).share 0).activities.length = 1 := by decide +kernel
  have hnone : ((freshService.run [e]).share 0).answered = [] :=
    List.eq_nil_of_length_eq_zero (by decide +kernel)
  rcases control_replies_follow_the_lapse freshService 0 3 shortDowntimeRequest [] .downtime
    .downtime rfl (fun _ h => absurd h List.not_mem_nil) rfl rfl with hheld | haccepted
  · rw [hheld.bare.1] at hone
    exact nomatch hone
  obtain ⟨before, x, after, c, order, task, hsplit, -, -, -, hsync, hasync⟩ := haccepted
  obtain ⟨rfl, rfl⟩ : before = [] ∧ x = e := by
    rcases List.append_eq_singleton_iff.mp hsplit.symm with ⟨hbefore, hx⟩ | ⟨-, hx⟩
    · exact ⟨hbefore, (List.cons.inj hx).1⟩
    · exact nomatch hx
  have hsnoc : freshService.run [e, lapse] = (freshService.run [e]).run ([] ++ [lapse]) :=
    run_append freshService [e] [lapse]
  rw [hsnoc] at hlength ⊢
  rw [List.nil_append] at hsync hasync
  generalize freshService.run [e] = s at *
  cases hmode : task.mode with
  | async =>
      obtain ⟨doc, hat⟩ := hasync hmode
      obtain ⟨id, y, hshare, -⟩ := hat.told
      rw [hshare] at hnone
      exact nomatch hnone
  | sync =>
      have honce : Once 0 ([] ++ [lapse]) := by
        intro y hy request
        rw [List.mem_singleton.mp hy]
        exact nofun
      have htold : ((s.run ([] ++ [lapse])).share 0).answered ≠ [] := by
        rw [← List.length_pos_iff, hlength]
        exact Nat.one_pos
      exact ⟨hdown, hnone, hlength,
        ((hsync hmode).lapsed [] lapse honce hnone htold).2 unarmed_nil⟩

end State

end Havoc.Service
