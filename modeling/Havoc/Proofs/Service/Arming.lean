import Havoc.Proofs.Service.FaultLayer
import Havoc.Proofs.Service.Lasting

/-! # Who arms a rule

    The fault rules change in one way only: an endpoint answers a request with a job and an
    order that comes with it, and the order is obeyed as the job starts.

    The route: no other operation touches the rules, so an event leaves them alone or is the
    one by which such a request is accepted (`rules_cases`, `Accepts`).  Four endpoints have
    orders to give, and `Ordered` is what each makes of its request: the order, and what is
    told about it.  All other endpoints have none (`Orderless`), one line for each. -/

namespace Havoc.Service

open Havoc.Http Havoc.Json Fault

/-! ## Answers with orders -/

/-- If an answer comes with an order, the order and the job have a property. -/
def Answer.Orders (P : Order → Task → Prop) : Answer → Prop
  | .job (some order) task => P order task
  | _ => True

/-- An answer that comes with no order. -/
def Orderless (x : Answer) : Prop := x.Orders fun _ _ => False

/-! ## Events -/

namespace State

variable {s s' : State} {n : Nat} {now : Instant} {c : Call} {a : Activity} {outcome : Outcome}

/-- An event is the one by which a request is accepted that comes with an order: its handler is
    called, when it comes in or when its delay is over, and its job starts. -/
structure Accepts (s : State) (now : Instant) (event : Event) (c : Call) (order : Order)
    (task : Task) : Prop where
  own : event.call? = some c.number
  origin : (s.call? c.number = some c ∧ ∃ due, c.waiting = .delay due) ∨
    ∃ request, event = .arrive c.number request ∧ c = incoming c.number now request
  attended : Attended s now c.info (.ok (.job (some order) task))
  starts : ∃ words, (s.handle now event).1 =
    (({ s with words } : State).start now c (some order) task).1

theorem rules_answer : (s.answer now c outcome).rules = s.rules :=
  (answerWith_frame s now c c.info outcome).2.2.1

theorem rules_finish {ended : Job.Outcome} : (s.finish now a ended).rules = s.rules := by
  unfold finish
  dsimp only
  generalize s.table.finish a.id (wallClock now) ended = table
  split
  · exact rules_answer
  · rfl

theorem rules_advance {step : Load.Step Load.Shape} :
    (s.advance now a step).1.rules = s.rules := by
  rcases advance_eq s now a step with ⟨outcome, -, heq⟩ | ⟨-, words, heq⟩
  · rw [heq]
    exact rules_finish
  · rw [heq]
    rfl

theorem rules_heed {signal : Load.Signal} : (s.heed now a signal).1.rules = s.rules := by
  have hyield : (s.yield now a signal).rules = s.rules := by
    unfold State.yield
    split
    · unfold State.leave
      split <;> rfl
    · rfl
  unfold heed
  split
  · exact rules_advance.trans hyield
  · rfl

theorem rules_start {order : Option Order} {task : Task} :
    (s.start now c order task).1.rules = order.elim s.rules (s.rules.obey now) := by
  unfold start
  dsimp only
  split
  · exact rules_advance
  · exact rules_answer

theorem rules_connected {kind : Backend.Kind} {workload : Workload}
    {task : Load.Resource → Task} {signal : Load.Signal} :
    (s.connected now c kind workload task signal).1.rules = s.rules := by
  unfold connected
  split
  · exact rules_start
  · exact rules_answer
  · rfl
  · rfl

/-- What a handler makes of a call when its answer comes with an order. -/
def Starts (s : State) (now : Instant) (c : Call) (s' : State) : Prop :=
  ∃ order task words, Attended s now c.info (.ok (.job (some order) task)) ∧
    s' = (({ s with words } : State).start now c (some order) task).1

/-- What else becomes of a call: it is told of a problem, or its answer comes with no order. -/
inductive Passes (s : State) (now : Instant) (c : Call) (s' : State) : Prop where
  | refused {s₁ : State} {info : Info} {problem : Problem} :
      (∀ n, s₁.share n = s.share n) → s' = s₁.answerWith now c info (.error problem) →
      Passes s now c s'
  | orderless {x : Answer} : Attended s now c.info (.ok x) → Orderless x → Passes s now c s'

/-- Words drawn before do not count. -/
theorem Passes.of_words {words : Words} (h : Passes { s with words } now c s') :
    Passes s now c s' := by
  cases h with
  | refused hshare heq => exact .refused (fun n => (hshare n).trans (share_congr rfl rfl rfl)) heq
  | orderless hattended horderless => exact .orderless hattended horderless

theorem direct_cases :
    ((s.direct now c).1.rules = s.rules ∧ Passes s now c (s.direct now c).1) ∨
      Starts s now c (s.direct now c).1 := by
  unfold direct
  split
  · exact Or.inl ⟨rules_answer, .refused (fun _ => rfl) rfl⟩
  · next route hroute =>
      have hattended : Attended s now c.info (s.draw (s.attend now c.info route).run).1 :=
        ⟨s.words, route, hroute, rfl⟩
      have hwords : ∃ words, (s.draw (s.attend now c.info route).run).2 = { s with words } :=
        ⟨_, rfl⟩
      split
      · next heq =>
          rw [heq] at hwords
          obtain ⟨words, rfl⟩ := hwords
          have hshare : ∀ n, ({ s with words } : State).share n = s.share n := fun _ => rfl
          exact Or.inl ⟨rules_answer, .refused hshare rfl⟩
      · next answer s₁ heq =>
          rw [heq] at hwords hattended
          obtain ⟨words, rfl⟩ := hwords
          unfold settle
          split
          · exact Or.inl ⟨rules_answer, .orderless hattended trivial⟩
          · exact Or.inl ⟨rules_answer, .orderless hattended trivial⟩
          · exact Or.inl ⟨rfl, .orderless hattended trivial⟩
          · next order task =>
              cases order with
              | none => exact Or.inl ⟨rules_start, .orderless hattended trivial⟩
              | some order => exact Or.inr ⟨order, task, words, hattended, rfl⟩
          · exact Or.inl ⟨rfl, .orderless hattended trivial⟩
          · exact Or.inl ⟨rfl, .orderless hattended trivial⟩
          · exact Or.inl ⟨rules_answer, .orderless hattended trivial⟩
          · exact Or.inl ⟨rfl, .orderless hattended trivial⟩

theorem reject_passes {kind : Kind} :
    (s.reject now c kind).rules = s.rules ∧ Passes s now c (s.reject now c kind) := by
  have hshare : ∀ n, (s.note (.faultInjected kind.label)).share n = s.share n :=
    fun _ => share_congr rfl rfl rfl
  exact ⟨(answerWith_frame _ now c _ _).2.2.1, .refused hshare rfl⟩

theorem roll_cases :
    ((s.roll now c).1.rules = s.rules ∧ Passes s now c (s.roll now c).1) ∨
      Starts s now c (s.roll now c).1 := by
  unfold roll
  have hwords : ∃ words, (s.draw (s.rules.roll now)).2 = { s with words } := ⟨_, rfl⟩
  split
  · next heq =>
      rw [heq] at hwords
      obtain ⟨words, rfl⟩ := hwords
      obtain ⟨hrules, hpasses⟩ := @reject_passes { s with words } now c _
      exact Or.inl ⟨hrules, hpasses.of_words⟩
  · next heq =>
      rw [heq] at hwords
      obtain ⟨words, rfl⟩ := hwords
      have hdirect := @direct_cases { s with words } now c
      exact hdirect.imp_left fun h => ⟨h.1, h.2.of_words⟩

/-- A request that comes in is held up by a delay, or gets past the fault rules or not. -/
theorem arrive_rules (s : State) (now : Instant) (number : Nat) (request : Request) :
    ((s.arrive now number request).1.rules = s.rules ∧
        (Passes s now (incoming number now request) (s.arrive now number request).1 ∨
          ∃ due, (s.arrive now number request).1 =
            s.wait (incoming number now request) (.delay due))) ∨
      Starts s now (incoming number now request) (s.arrive now number request).1 := by
  unfold arrive
  dsimp only
  split
  · unfold intercept
    split
    · exact Or.inl (reject_passes.imp_right Or.inl)
    · split
      · exact Or.inl ⟨rfl, Or.inr ⟨_, rfl⟩⟩
      · exact roll_cases.imp_left fun h => h.imp_right Or.inl
  · exact direct_cases.imp_left fun h => h.imp_right Or.inl

theorem rules_learn {finding : Finding} : (s.learn now c finding).rules = s.rules := by
  unfold learn
  split
  · split
    · exact rules_answer
    · rfl
  · rfl

theorem rules_abandon : (s.abandon n).rules = s.rules := by
  unfold abandon
  split <;> rfl

theorem wake_rules :
    (s.wake now c).1.rules = s.rules ∨
      (∃ due, c.waiting = .delay due) ∧ Starts s now c (s.wake now c).1 := by
  unfold wake
  split
  · next due hwaiting =>
      split
      · exact roll_cases.imp And.left fun h => ⟨⟨due, hwaiting⟩, h⟩
      · exact Or.inl rfl
  · split
    · exact Or.inl rules_answer
    · exact Or.inl rfl
  · exact Or.inl rfl

theorem accepts_arrive {request : Request}
    (hhandle : (s.handle now (.arrive n request)).1 = (s.arrive now n request).1)
    (h : Starts s now (incoming n now request) (s.arrive now n request).1) :
    ∃ order task, Accepts s now (.arrive n request) (incoming n now request) order task := by
  obtain ⟨order, task, words, hattended, hstart⟩ := h
  exact ⟨order, task, rfl, Or.inr ⟨request, rfl, rfl⟩, hattended, words, hhandle.trans hstart⟩

theorem accepts_wake (hhandle : (s.handle now (.wake n)).1 = (s.wake now c).1)
    (hc : s.call? n = some c) (hdelay : ∃ due, c.waiting = .delay due)
    (h : Starts s now c (s.wake now c).1) :
    ∃ order task, Accepts s now (.wake n) c order task := by
  obtain rfl := number_of_call? hc
  obtain ⟨order, task, words, hattended, hstart⟩ := h
  exact ⟨order, task, rfl, Or.inl ⟨hc, hdelay⟩, hattended, words, hhandle.trans hstart⟩

/-- An event leaves the rules alone, or accepts a request with an order. -/
theorem rules_cases (s : State) (now : Instant) (event : Event) :
    (s.handle now event).1.rules = s.rules ∨
      ∃ c order task, Accepts s now event c order task := by
  have hhandles := s.handles now event
  generalize hhandle : (s.handle now event).1 = s' at hhandles ⊢
  cases hhandles with
  | nothing => exact Or.inl rfl
  | @arrives number request =>
      rcases arrive_rules s now number request with hsame | hstarts
      · exact Or.inl hsame.1
      · exact Or.inr ⟨_, accepts_arrive hhandle hstarts⟩
  | leaves => exact Or.inl rules_abandon
  | @wakes number c hc =>
      rcases @wake_rules s now c with hsame | ⟨hdelay, hstarts⟩
      · exact Or.inl hsame
      · exact Or.inr ⟨c, accepts_wake hhandle hc hdelay hstarts⟩
  | begins => exact Or.inl rules_advance
  | heeds => exact Or.inl rules_heed
  | connects => exact Or.inl rules_connected
  | learns => exact Or.inl rules_learn
  | exits => exact Or.inl rfl

end State

/-! ## Endpoints with orders -/

/-- The doubles that a field can come to. -/
def ComesTo (q : RawQuantity) (x : Float) : Prop := ∃ w, ((double q).run w).1 = .ok x

/-- What an endpoint makes of a request: an order, and a job that tells what was ordered. -/
inductive Ordered (info : Info) : Order → Task → Prop where
  | latency {delay lifetime : Span} {task : Task} : Ordered info (.latency delay lifetime) task
  | packetLoss {percent : Nat} {lifetime : Span} {task : Task} : percent ≤ 100 →
      (Value.ofMembers task.params).get? "loss_percentage" = some (.nat percent) →
      Ordered info (.packetLoss percent lifetime) task
  | errorRate {p : FaultOrder} {x : Float} {lifetime : Span} {task : Task} :
      Route.resolve info.method info.path = .ok .errorInjection →
      (faultForm "error_rate").read info.body = .ok p → ComesTo p.value x →
      (Value.ofMembers task.params).get? "error_rate" = some (.float (clampShare x)) →
      Ordered info (.errorRate (clampShare x) lifetime) task
  | downtime {lifetime : Span} {task : Task} : Ordered info (.downtime lifetime) task

theorem get?_first {key other : String} (x y : Value) (hne : key ≠ other) :
    (Value.ofMembers [(key, x), (other, y)]).get? key = some x := by
  have hpair : [(key, x), (other, y)] = [] ++ [(key, x)] ++ [(other, y)] := rfl
  rw [hpair, Value.get?_ofMembers_snoc_of_ne _ _ hne, Value.get?_ofMembers_snoc, if_pos rfl]

theorem gives_double {q : RawQuantity} : Gives (double q) (ComesTo q) := fun w _ hx => ⟨w, hx⟩

theorem gives_read {α : Type} (f : Form α) (body : List UInt8) :
    Gives (f.read body : Attempt α) fun p => f.read body = .ok p := by
  intro w p hp
  cases hread : f.read body with
  | ok q =>
      rw [hread] at hp
      exact congrArg Except.ok (Except.ok.inj hp)
  | error problem =>
      rw [hread] at hp
      exact nomatch hp

theorem gives_latency (info : Info) (p : FaultOrder) :
    Gives (latency p) (Answer.Orders (Ordered info)) :=
  gives_behind fun _ => gives_behind fun _ => .return .latency

theorem gives_packetLoss (info : Info) (p : FaultOrder) :
    Gives (packetLoss p) (Answer.Orders (Ordered info)) := by
  refine gives_behind fun percent => gives_behind fun maintain => .return ?_
  exact .packetLoss (Nat.min_le_right _ _) (get?_first _ _ (by decide))

theorem gives_errorInjection {info : Info} {p : FaultOrder}
    (hroute : Route.resolve info.method info.path = .ok .errorInjection)
    (hread : (faultForm "error_rate").read info.body = .ok p) :
    Gives (errorInjection p) (Answer.Orders (Ordered info)) := by
  refine gives_double.bind fun x hx => gives_behind fun maintain => .return ?_
  exact .errorRate hroute hread hx (get?_first _ _ (by decide))

theorem gives_downtime (info : Info) (p : DowntimeOrder) :
    Gives (downtime p) (Answer.Orders (Ordered info)) :=
  gives_behind fun _ => .return .downtime

/-! ## Endpoints without orders -/

theorem orderless_flood (name label countName : String) (requests : Nat) (info : Info)
    (p : FloodOrder) : Gives (flood name label countName requests info p) Orderless := by
  refine gives_behind fun address => gives_behind fun maintain => ?_
  exact gives_behind fun interval => .return trivial

theorem orderless_cpu (p : CpuOrder) : Gives (cpu p) Orderless := by
  refine gives_behind fun percent => gives_behind fun maintain => ?_
  exact .return trivial

theorem orderless_memory (p : MemoryOrder) : Gives (memory p) Orderless := by
  refine gives_behind fun mib => gives_behind fun maintain => ?_
  exact gives_behind fun bytes => .return trivial

theorem orderless_memoryLeak (p : MemoryOrder) : Gives (memoryLeak p) Orderless := by
  refine gives_behind fun mib => gives_behind fun maintain => ?_
  exact gives_behind fun bytes => .return trivial

theorem orderless_fileWrite (p : FileWriteOrder) : Gives (fileWrite p) Orderless := by
  refine gives_behind fun size => gives_behind fun files => gives_behind fun maintain => ?_
  exact gives_behind fun interval => .return trivial

theorem orderless_fileRead (p : FileReadOrder) : Gives (fileRead p) Orderless := by
  rw [fileRead]
  split
  · exact gives_throw _ _
  · refine gives_behind fun frequency => gives_behind fun maintain => ?_
    exact gives_behind fun interval => .return trivial

theorem orderless_logs (p : LogsOrder) : Gives (logs p) Orderless := by
  refine gives_behind fun messages => gives_behind fun lines => gives_behind fun maintain => ?_
  exact gives_behind fun interval => .return trivial

theorem orderless_thirdParty (p : ThirdPartyOrder) : Gives (thirdParty p) Orderless := by
  rw [thirdParty]
  split
  · exact gives_throw _ _
  · refine gives_behind fun rate => gives_behind fun maintain => ?_
    exact gives_behind fun interval => .return trivial

theorem orderless_backendJob (settings : Settings) (kind : Backend.Kind)
    (operation : Backend.Operation) (p : BackendOrder) :
    Gives (backendJob settings kind operation p) Orderless := by
  refine gives_behind fun job => gives_behind fun workload => .return ?_
  rw [BackendJob.launch]
  split
  · exact trivial
  · exact trivial
  · exact trivial

/-! ## Every endpoint -/

theorem Orderless.orders {P : Order → Task → Prop} {x : Answer} (h : Orderless x) :
    x.Orders P := by
  cases x with
  | job order task =>
      cases order with
      | none => exact trivial
      | some order => exact h.elim
  | _ => exact trivial

/-- An endpoint without orders may be behind the reading of its body. -/
theorem gives_orderless {α : Type} {info : Info} {a : Attempt α} {f : α → Attempt Answer}
    (h : ∀ x, Gives (f x) Orderless) : Gives (a >>= f) (Answer.Orders (Ordered info)) :=
  gives_behind fun x w y hy => (h x w y hy).orders

theorem gives_attend (s : State) (now : Instant) {info : Info} {route : Route}
    (hroute : Route.resolve info.method info.path = .ok route) :
    Gives (s.attend now info route) (Answer.Orders (Ordered info)) := by
  cases route with
  | latency => exact gives_behind fun p => gives_latency info p
  | packetLoss => exact gives_behind fun p => gives_packetLoss info p
  | errorInjection =>
      exact (gives_read _ _).bind fun p hread => gives_errorInjection hroute hread
  | downtime => exact gives_behind fun p => gives_downtime info p
  | cpu => exact gives_orderless orderless_cpu
  | memory => exact gives_orderless orderless_memory
  | memoryLeak => exact gives_orderless orderless_memoryLeak
  | fileWrite => exact gives_orderless orderless_fileWrite
  | fileRead => exact gives_orderless orderless_fileRead
  | logs => exact gives_orderless orderless_logs
  | concurrentFlood =>
      exact gives_orderless fun p => gives_behind fun n => orderless_flood _ _ _ n info p
  | ddos => exact gives_orderless fun p => gives_behind fun n => orderless_flood _ _ _ n info p
  | thirdParty => exact gives_orderless orderless_thirdParty
  | backend kind operation =>
      exact gives_orderless fun p => orderless_backendJob s.config.settings kind operation p
  | job id =>
      show Gives (s.jobRecord id) _
      rw [State.jobRecord]
      split
      · exact .return trivial
      · exact fun w x hx => nomatch hx
  | crash => exact gives_behind fun p => gives_behind fun maintain => .return trivial
  | healthHops => exact gives_behind fun p => gives_behind fun request => .return trivial
  | healthSlow | healthExternal | simpleColor | simpleLarge =>
      exact gives_behind fun x => .return trivial
  | jobs | health | simple | simpleFoo | simpleBar | metadataAll | revisionColor
  | systemMetrics => exact .return trivial

/-- What comes with a job that a handler has an answer with. -/
theorem ordered_of_attended {s : State} {now : Instant} {info : Info} {order : Order}
    {task : Task} (h : Attended s now info (.ok (.job (some order) task))) :
    Ordered info order task := by
  obtain ⟨words, route, hroute, hresult⟩ := h
  exact gives_attend { s with words } now hroute words _ hresult

end Havoc.Service
