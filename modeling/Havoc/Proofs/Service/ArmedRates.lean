import Havoc.Proofs.Quantity.Range
import Havoc.Proofs.Service.Acceptance
import Havoc.Proofs.Service.Dispatch

/-! # The rates that are armed

    However the endpoints are used, no more than all requests can be lost, and the share of
    requests that are answered with an error lies between none and all, unless a request
    asked for a share that is no number: such a share passes every test against a bound.
    What a caller is told of a rate is what the rules show of it.

    The route: one order keeps the bounds (`Bounded.obey`), because what is ordered comes from
    a request (`Ordered`); the requests behind the calls that wait are part of the invariant
    (`Accounted`), since a delay may pass between a request and its order.  For the other half,
    bringing a share between none and all twice is the same as once (`clampShare_idem`), so an
    order shows what its job tells (`Ordered.echo`); a document comes after the event by which
    its request was accepted (`accepted_of_document`), and all that is told from then on comes
    from this job (`Accepts.echoes`). -/

namespace Havoc.Service

open Havoc.Http Havoc.Json Havoc.Number Havoc.Text Fault

/-! ## Shares -/

theorem clampShare_of_isNaN {x : Float} (h : x.isNaN = true) : (clampShare x).isNaN = true := by
  unfold clampShare
  rw [if_neg, if_neg]
  · exact h
  · intro hlt
    rw [(isNaN_of_lt hlt).2] at h
    exact nomatch h
  · intro hlt
    rw [(isNaN_of_lt hlt).1] at h
    exact nomatch h

theorem clampShare_idem (x : Float) : clampShare (clampShare x) = clampShare x := by
  have hzero : clampShare 0.0 = 0.0 := rfl
  have hone : clampShare 1.0 = 1.0 := rfl
  by_cases hlow : x < 0.0
  · have hx : clampShare x = 0.0 := if_pos hlow
    rw [hx, hzero]
  · by_cases hhigh : 1.0 < x
    · have hx : clampShare x = 1.0 := (if_neg hlow).trans (if_pos hhigh)
      rw [hx, hone]
    · have hx : clampShare x = x := (if_neg hlow).trans (if_neg hhigh)
      rw [hx, hx]

/-- A share is between none and all. -/
def IsShare (x : Float) : Prop := 0.0 ≤ x ∧ x ≤ 1.0

theorem isShare_clampShare {x : Float} (h : x.isNaN = false) : IsShare (clampShare x) :=
  ⟨(clampShare_clamped h).nonneg, (clampShare_clamped h).atMost⟩

/-- A text that writes a share out asks for no number only as the word for it. -/
theorem isNaN_of_text {t : String} {x : Float} (hwritten : ¬ "RANDOM".toList <+: trim t.toList)
    (h : ComesTo (.text t) x) : x.isNaN = true ↔ SpellsNaN (trim t.toList) := by
  have htoken : trim t.toList ≠ "RANDOM".toList := fun heq => hwritten (heq ▸ List.prefix_rfl)
  have hbehind : ∀ rest, trim t.toList ≠ "RANDOM:".toList ++ rest := by
    intro rest heq
    rw [heq] at hwritten
    exact hwritten (List.prefix_append _ (':' :: rest))
  have hread : (Quantity.ofRaw (.text t) : Except QuantityError (Quantity Float)) =
      (Quantity.readScalar (trim t.toList)).map .exactly :=
    Quantity.readTrimmed_plain htoken hbehind
  obtain ⟨w, hw⟩ := h
  rw [double, RawQuantity.float, hread] at hw
  cases hscalar : (Quantity.readScalar (trim t.toList) : Except QuantityError Float) with
  | error e =>
      rw [hscalar] at hw
      exact nomatch hw
  | ok y =>
      rw [hscalar] at hw
      obtain rfl : y = x := Except.ok.inj hw
      have hspelled := Quantity.readScalar_eq_ok_iff.mp hscalar
      rw [trim_idem] at hspelled
      exact isNaN_readFloat? hspelled

/-! ## Bounds -/

/-- A request asks for a share of errors that is no number. -/
def AsksNaN (info : Info) : Prop :=
  ∃ p x, Route.resolve info.method info.path = .ok .errorInjection ∧
    (faultForm "error_rate").read info.body = .ok p ∧ ComesTo p.value x ∧ x.isNaN = true

/-- What is armed is within its bounds; a share that is no number is there for a reason. -/
structure Bounded (reason : Prop) (r : Rules) : Prop where
  loss : ∀ a, r.packetLoss = some a → a.value ≤ 100
  share : ∀ a, r.errorRate = some a → IsShare a.value ∨ (a.value.isNaN = true ∧ reason)

theorem bounded_fresh {reason : Prop} : Bounded reason {} := ⟨nofun, nofun⟩

theorem Bounded.obey {reason : Prop} {r : Rules} (h : Bounded reason r) {info : Info}
    {order : Order} {task : Task} (hordered : Ordered info order task)
    (hasks : AsksNaN info → reason) (now : Instant) : Bounded reason (r.obey now order) := by
  cases hordered with
  | latency => exact ⟨h.loss, h.share⟩
  | packetLoss =>
      refine ⟨?_, h.share⟩
      rintro a ⟨⟩
      exact Nat.min_le_right _ _
  | @errorRate p x lifetime _ hroute hread hcomes =>
      refine ⟨h.loss, ?_⟩
      rintro a ⟨⟩
      show IsShare (clampShare (clampShare x)) ∨ _
      rw [clampShare_idem]
      cases hx : x.isNaN with
      | false => exact Or.inl (isShare_clampShare hx)
      | true =>
          exact Or.inr ⟨clampShare_of_isNaN hx, hasks ⟨p, x, hroute, hread, hcomes, hx⟩⟩
  | downtime => exact ⟨h.loss, h.share⟩

/-! ## What is shown of an order -/

theorem lt_deadlineAfter {now : Instant} {span : Span} (h : 0 < span) :
    now < deadlineAfter now span := by
  rw [deadlineAfter]
  split
  · exact Nat.lt_add_of_pos_right h
  · exact Nat.lt_add_of_pos_right (by decide)

/-- The rules in force show a value for a slot. -/
def Shows (r : Rules) (now : Instant) (slot : Slot) (v : Value) : Prop :=
  ∃ left, (r.snapshot now).value.get? slot.key =
    some (Value.ofMembers [("value", v), ("remaining_ms", .nat left)])

/-- An order with time to last is shown as soon as it is obeyed. -/
theorem shows_obey (r : Rules) (now : Instant) {order : Order} (h : 0 < order.lifetime) :
    Shows (r.obey now order) now order.slot order.shown := by
  have hlt : now < deadlineAfter now order.lifetime := lt_deadlineAfter h
  refine ⟨Span.millisWord (deadlineAfter now order.lifetime - now), ?_⟩
  rw [Snapshot.get?_value]
  cases order with
  | latency | packetLoss | errorRate | downtime =>
      simp only [Snapshot.of, Order.slot, Order.lifetime, Rules.obey, Rules.setLatency,
        Rules.setPacketLoss, Rules.setErrorRate, Rules.setDowntime, Rules.snapshot, active, arm]
        at hlt ⊢
      rw [if_pos hlt]
      rfl

/-- The name under which a caller is told what was ordered. -/
def echoName : Order → Option String
  | .packetLoss .. => some "loss_percentage"
  | .errorRate .. => some "error_rate"
  | _ => none

/-- A caller is told just what is shown. -/
theorem Ordered.echo {info : Info} {order : Order} {task : Task} {name : String}
    (h : Ordered info order task) (hname : echoName order = some name) :
    (Value.ofMembers task.params).get? name = some order.shown := by
  cases h with
  | latency => exact nomatch hname
  | packetLoss hle htold =>
      obtain rfl := Option.some.inj hname
      rw [htold, Order.shown, Nat.min_eq_left hle]
  | errorRate _ _ _ htold =>
      obtain rfl := Option.some.inj hname
      rw [htold, Order.shown, clampShare_idem]
  | downtime => exact nomatch hname

/-- The name under which an endpoint that arms a rate tells it. -/
def rateName : Route → Option String
  | .packetLoss => some "loss_percentage"
  | .errorInjection => some "error_rate"
  | _ => none

/-- An endpoint that arms a rate has no answer without its order. -/
theorem gives_rate (s : State) (now : Instant) (info : Info) {route : Route} {name : String}
    (hname : rateName route = some name) : Gives (s.attend now info route) fun x =>
      ∃ order task, x = .job (some order) task ∧ echoName order = some name := by
  cases route with
  | packetLoss =>
      exact gives_behind fun p => gives_behind fun percent => gives_behind fun maintain =>
        .return ⟨_, _, rfl, hname⟩
  | errorInjection =>
      exact gives_behind fun p => gives_behind fun rate => gives_behind fun maintain =>
        .return ⟨_, _, rfl, hname⟩
  | _ => exact nomatch hname

theorem rate_of_attended {s : State} {now : Instant} {info : Info} {route : Route}
    {name : String} {x : Answer} (h : Attended s now info (.ok x))
    (hroute : Route.resolve info.method info.path = .ok route)
    (hname : rateName route = some name) :
    ∃ order task, x = .job (some order) task ∧ echoName order = some name := by
  obtain ⟨words, route', hroute', hresult⟩ := h
  obtain rfl := Except.ok.inj (hroute'.symm.trans hroute)
  exact gives_rate { s with words } now info hname words x hresult

theorem onlyOrders_of_rate {info : Info} {route : Route} {name : String}
    (hroute : Route.resolve info.method info.path = .ok route)
    (hname : rateName route = some name) : OnlyOrders info := by
  intro s now x hattended horderless
  obtain ⟨order, task, rfl, -⟩ := rate_of_attended hattended hroute hname
  exact horderless

/-- The documents that a caller is told show a value under a name. -/
def Echoes (name : String) (v : Value) (outcome : Outcome) : Prop :=
  ∀ doc, outcome = .ok (.document doc) → doc.get? name = some v

theorem echoes_of_tells {a : Activity} {message name : String} {report : Option Value}
    {doc v : Value} {order : Order} (h : Tells a message report doc)
    (hname : echoName order = some name)
    (htold : (Value.ofMembers a.task.params).get? name = some v) :
    Echoes name v (.ok (.document doc)) := by
  rintro doc ⟨⟩
  rw [← htold]
  cases order with
  | latency | downtime => exact nomatch hname
  | packetLoss | errorRate =>
      obtain rfl := Option.some.inj hname
      exact h.params _ (by decide) (by decide) (by decide)

/-- A job tells its caller the same at its start and at its end. -/
theorem suits_echoes {task : Task} {order : Order} {name : String} {v : Value}
    (hname : echoName order = some name)
    (htold : (Value.ofMembers task.params).get? name = some v) :
    State.Suits (fun a => a.task = task) (Echoes name v) where
  shaped _ _ h := h
  started a h := by
    subst h
    exact echoes_of_tells (tells_told a "started") hname htold
  completed a ended h := by
    subst h
    cases ended with
    | ok report =>
        obtain ⟨doc, hdoc, htells⟩ := completed_ok a report
        rw [hdoc]
        exact echoes_of_tells htells hname htold
    | error cause => exact nofun

namespace State

variable {s s' : State} {n : Nat} {now : Instant} {c : Call} {a : Activity} {event : Event}
  {events : List (Instant × Event)} {order : Order} {task : Task} {reason : Prop}

/-! ## Bounds along a run -/

/-- What is known about a call that waits was known before, or came in. -/
theorem info_handle (hc : c ∈ (s.handle now event).1.calls) :
    (∃ x ∈ s.calls, x.info = c.info) ∨
      ∃ number request, event = .arrive number request ∧ c.info = Info.ofRequest request := by
  let seen : Attendance := fun _ _ _ => True
  have hstanding : ∀ number, event.call? = some number → Standing seen (s.share number) :=
    fun _ _ _ _ => Or.inl ⟨.page "", trivial⟩
  cases handle_cases s now event hstanding (fun _ _ _ _ _ => trivial) with
  | still hstill => exact Or.inl ⟨c, hstill.calls c hc, rfl⟩
  | held m request due hevent hwait =>
      rw [hwait] at hc
      rcases List.mem_append.mp hc with hold | hnew
      · exact Or.inl ⟨c, (List.mem_filter.mp hold).1, rfl⟩
      · rw [List.mem_singleton.mp hnew]
        exact Or.inr ⟨m, request, hevent, rfl⟩
  | dealt x _ hfrom hdealt =>
      cases hdealt with
      | waits _ _ calls =>
          rcases calls c hc with ⟨hold, -⟩ | ⟨waiting, rfl, -⟩
          · exact Or.inl ⟨c, hold, rfl⟩
          · rcases hfrom with hold | ⟨request, hevent, hx⟩
            · exact Or.inl ⟨x, hold, rfl⟩
            · exact Or.inr ⟨x.number, request, hevent, congrArg Call.info hx⟩
      | answers _ _ closes => exact Or.inl ⟨c, (closes.calls c hc).1, rfl⟩

theorem Accepts.rules (h : Accepts s now event c order task) :
    (s.handle now event).1.rules = s.rules.obey now order := by
  obtain ⟨words, hstart⟩ := h.starts
  rw [hstart]
  exact rules_start

/-- The rules are within their bounds, and so is what may come of the calls that wait. -/
structure Accounted (reason : Prop) (s : State) : Prop where
  rules : Bounded reason s.rules
  calls : ∀ c ∈ s.calls, AsksNaN c.info → reason

theorem Accounted.handle (h : Accounted reason s)
    (harrive : ∀ number request, event = .arrive number request →
      AsksNaN (Info.ofRequest request) → reason) :
    Accounted reason (s.handle now event).1 where
  rules := by
    rcases rules_cases s now event with hsame | ⟨c, order, task, haccepts⟩
    · rw [hsame]
      exact h.rules
    · rw [haccepts.rules]
      refine h.rules.obey (ordered_of_attended haccepts.attended) ?_ now
      rcases haccepts.origin with ⟨hc, -⟩ | ⟨request, hevent, hc⟩
      · exact h.calls c (List.mem_of_find?_eq_some hc)
      · rw [hc]
        exact harrive c.number request hevent
  calls c hc := by
    rcases info_handle hc with ⟨x, hx, hinfo⟩ | ⟨number, request, hevent, hinfo⟩
    · rw [← hinfo]
      exact h.calls x hx
    · rw [hinfo]
      exact harrive number request hevent

theorem Accounted.run (h : Accounted reason s)
    (harrive : ∀ e ∈ events, ∀ number request, e.2 = .arrive number request →
      AsksNaN (Info.ofRequest request) → reason) : Accounted reason (s.run events) := by
  induction events generalizing s with
  | nil => exact h
  | cons e events ih =>
      rw [run_cons]
      exact ih (h.handle (harrive e List.mem_cons_self))
        fun x hx => harrive x (List.mem_cons_of_mem e hx)

/-! ## What an accepted request is told -/

/-- All that the caller of an accepted request is told shows the value of the order. -/
theorem Accepts.echoes {name : String} {later : List (Instant × Event)}
    (h : Accepts s now event c order task) (hpending : Pending c.number s)
    (hname : echoName order = some name)
    (honce : ∀ e ∈ later, ∀ request, e.2 ≠ .arrive c.number request) :
    ∀ x ∈ (((s.handle now event).1.run later).share c.number).answered,
      Echoes name order.shown x.outcome := by
  have hsuits := suits_echoes hname ((ordered_of_attended h.attended).echo hname)
  obtain ⟨words, hstart⟩ := h.starts
  rw [hstart]
  have hserving : Serving _ _ c.number
      (({ s with words } : State).start now c (some order) task).1 :=
    serving_start hsuits rfl hpending.1 hpending.2 fun _ => rfl
  exact (hserving.run hsuits honce).answered

/-! ## Requests -/

/-- A request of a run asked for a share that is no number. -/
def AskedNaN (events : List (Instant × Event)) : Prop :=
  ∃ e ∈ events, ∃ number request, e.2 = .arrive number request ∧ AsksNaN (Info.ofRequest request)

/-- **ARMED RATES ARE BOUNDED AND TOLD.**  From a service without rules and calls on, whatever
    requests come in, no more than all requests can be lost, and the share of errors lies
    between none and all or is no number; it is no number only if a request asked for that.
    If a request for one of the two rates is answered with a document, then one of its events
    armed the rule, and the document tells the very value that the rules showed right after
    that, unless the rule was armed for no time at all. -/
theorem armed_rates_bounded_and_told (s : State) (events : List (Instant × Event)) :
    (s.rules = {} → s.calls = [] → Bounded (AskedNaN events) (s.run events).rules) ∧
    (∀ (t : String) (x : Float), ¬ "RANDOM".toList <+: trim t.toList → ComesTo (.text t) x →
      (x.isNaN = true ↔ SpellsNaN (trim t.toList))) ∧
    ∀ (n : Nat) (first : Instant) (request : Request) (later : List (Instant × Event))
      (route : Route) (name : String),
      events = (first, .arrive n request) :: later → Unknown n s →
      (∀ e ∈ later, ∀ request, e.2 ≠ .arrive n request) →
      Route.resolve (Info.ofRequest request).method (Info.ofRequest request).path = .ok route →
      rateName route = some name →
      ∀ doc ∈ documents n (s.run events),
        ∃ before e after order, events = before ++ e :: after ∧ e.2.call? = some n ∧
          echoName order = some name ∧
          (s.run (before ++ [e])).rules = (s.run before).rules.obey e.1 order ∧
          doc.get? name = some order.shown ∧
          (0 < order.lifetime →
            Shows (s.run (before ++ [e])).rules e.1 order.slot order.shown) := by
  refine ⟨?_, fun _ _ => isNaN_of_text, ?_⟩
  · intro hrules hcalls
    have haccounted : Accounted (AskedNaN events) s := by
      refine ⟨hrules ▸ bounded_fresh, fun c hc => ?_⟩
      rw [hcalls] at hc
      exact absurd hc List.not_mem_nil
    refine (haccounted.run ?_).rules
    intro e he number request hevent hasks
    exact ⟨e, he, number, request, hevent, hasks⟩
  · intro n first request later route name hfirst hnew honce hroute hname doc hdoc
    subst hfirst
    obtain ⟨before, e, after, hsplit, ⟨c, order, task, haccepts, rfl, hinfo, hpending⟩, hafter⟩ :=
      accepted_of_document hnew honce (onlyOrders_of_rate hroute hname) hdoc
    have hecho : echoName order = some name := by
      obtain ⟨order', task', heq, hecho⟩ :=
        rate_of_attended haccepts.attended (hinfo ▸ hroute) hname
      obtain ⟨heq, -⟩ := Answer.job.inj heq
      obtain rfl := Option.some.inj heq
      exact hecho
    have hrules : (s.run (before ++ [e])).rules = (s.run before).rules.obey e.1 order := by
      rw [run_append]
      exact haccepts.rules
    refine ⟨before, e, after, order, hsplit, haccepts.own, hecho, hrules, ?_, ?_⟩
    · rw [hsplit, run_append, run_cons, mem_documents] at hdoc
      obtain ⟨x, hx, hdoc⟩ := hdoc
      exact haccepts.echoes hpending hecho hafter x hx doc hdoc
    · intro hlifetime
      rw [hrules]
      exact shows_obey _ _ hlifetime

/-- A service that has just started. -/
def freshService : State where
  config := { settings := ⟨.table []⟩, template := .ofString "" }
  words := ⟨fun _ => 0, 0⟩

/-- A request to lose more than all requests for ten seconds. -/
def lossRequest : Request :=
  { method := "POST"
    target := ⟨none, "/stress/network/packet_loss", none⟩
    body := utf8 "\x7b\"loss_percentage\":150,\"maintain_second\":10,\"async\":true\x7d" }

/-- One hundred percent are armed, told and shown, and a word in capitals is no number. -/
theorem armed_rates_bounded_and_told_loss :
    (∃ x, ComesTo (.text " -NAN") x ∧ x.isNaN = true) ∧
    let s := freshService.run [(3, .arrive 0 lossRequest)]
    (∀ a, s.rules.packetLoss = some a → a.value ≤ 100) ∧
      ∃ doc ∈ documents 0 s, doc.get? "loss_percentage" = some (.nat 100) ∧
        Shows s.rules 3 .packetLoss (.nat 100) := by
  obtain ⟨hbounded, hword, htold⟩ :=
    armed_rates_bounded_and_told freshService [(3, .arrive 0 lossRequest)]
  have hnan : ComesTo (.text " -NAN") (Float.ofBits 0x7FF8000000000000) :=
    ⟨⟨fun _ => 0, 0⟩, rfl⟩
  refine ⟨⟨_, hnan, (hword _ _ (by decide) hnan).mpr ?_⟩, ?_⟩
  · exact ⟨['-'], "NAN".toList, rfl, Or.inr (Or.inr rfl), rfl⟩
  intro s
  refine ⟨(hbounded rfl rfl).loss, ?_⟩
  have hvalue : s.rules.packetLoss.map (·.value) = some 100 := by decide +kernel
  have hexpiry : s.rules.packetLoss.map (·.expiry) = some (3 + Span.ofSeconds 10) := by
    decide +kernel
  have hlength : (documents 0 s).length = 1 := by decide +kernel
  obtain ⟨doc, hone⟩ := List.length_eq_one_iff.mp hlength
  have hdoc : doc ∈ documents 0 s := hone ▸ List.mem_singleton.mpr rfl
  obtain ⟨before, e, after, order, hsplit, -, hecho, hrules, htells, hshows⟩ :=
    htold 0 3 lossRequest [] .packetLoss "loss_percentage" rfl rfl
      (fun _ h => absurd h List.not_mem_nil) rfl rfl doc hdoc
  obtain ⟨rfl, rfl, -⟩ : before = [] ∧ e = (3, .arrive 0 lossRequest) ∧ after = [] := by
    cases before with
    | nil =>
        obtain ⟨rfl, rfl⟩ := List.cons.inj hsplit
        exact ⟨rfl, rfl, rfl⟩
    | cons x before =>
        have hnone := (List.cons.inj hsplit).2.symm
        exact absurd hnone (List.append_ne_nil_of_right_ne_nil _ (List.cons_ne_nil _ _))
  cases order with
  | latency | downtime => exact nomatch hecho
  | errorRate => exact absurd (Option.some.inj hecho) (by decide)
  | packetLoss percent lifetime =>
      have harmed : s.rules.packetLoss = arm (min percent 100) 3 lifetime :=
        congrArg Rules.packetLoss hrules
      rw [harmed] at hvalue hexpiry
      have hpercent : min percent 100 = 100 := Option.some.inj hvalue
      have hdeadline : deadlineAfter 3 lifetime = 3 + Span.ofSeconds 10 := Option.some.inj hexpiry
      have hlifetime : 0 < lifetime := by
        refine Nat.pos_of_ne_zero fun hzero => ?_
        rw [hzero] at hdeadline
        exact absurd hdeadline (by decide)
      have hshown : (Order.packetLoss percent lifetime).shown = .nat 100 :=
        congrArg Value.nat hpercent
      rw [hshown] at htells hshows
      exact ⟨doc, hdoc, htells, hshows hlifetime⟩

/-- A request to answer a share of the requests with an error that is no number. -/
def nanRequest : Request :=
  { method := "POST"
    target := ⟨none, "/stress/error_injection", none⟩
    body := utf8 "\x7b\"error_rate\":\"NaN\",\"maintain_second\":10,\"async\":true\x7d" }

/-- A share that is no number is armed, and it is not between none and all. -/
theorem nan_rate_armed :
    ∃ a, (freshService.run [(3, .arrive 0 nanRequest)]).rules.errorRate = some a ∧
      a.value.isNaN = true ∧ ¬ IsShare a.value := by
  have harmed : (freshService.run [(3, .arrive 0 nanRequest)]).rules.errorRate.map
      (·.value.isNaN) = some true := by decide +kernel
  obtain ⟨a, ha, hnan⟩ := Option.map_eq_some_iff.mp harmed
  exact ⟨a, ha, hnan, fun hshare => not_le_iff.mpr (Or.inr (Or.inl hnan)) hshare.1⟩

end State

end Havoc.Service
