import Havoc.Proofs.Service.Dealing
import Havoc.Proofs.Service.Rejection
import Mathlib.Data.List.Induction

/-! # One record for each answer

    Every request that is answered is written down once and counted once, wherever its
    answer comes from: the fault rules, the routes, a handler, or a job that it asked for
    much earlier.  What is written down is what the handler was given and what the caller
    was told.

    The route: `Account` says that the answers, the lines of the access log and the counts
    of a run are those of one list of entries.  One event adds one entry at most
    (`Account.step`, by the cases of `handle_cases`), and the entries of a whole run follow
    by induction on its events (`account_run`).  A call without a handler has no job that
    could answer it (`Ready`), so every answer has its source in the run itself: `Seen`
    gathers what the handlers that the run called were given and came to.  The main theorem
    is `one_record_each`. -/

namespace Havoc.Service

open Havoc.Http

/-- A request that came in and was answered. -/
structure Entry where
  number : Nat
  request : Request
  arrived : Instant
  answered : Instant
  outcome : Outcome

namespace Entry

/-- What is known about the request. -/
def info (e : Entry) : Info := Info.ofRequest e.request

def reply (e : Entry) : Reply := replyTo e.outcome e.info (wallClock e.answered)

/-- What the caller was given. -/
def given (e : Entry) : Answered := ⟨e.number, e.outcome, e.reply⟩

/-- What the access log tells about the request. -/
def event (e : Entry) : Log.Event :=
  { time := wallClock e.arrived, status := e.reply.status, method := e.info.method
    path := e.info.path, clientIp := e.info.clientIp, latency := e.answered - e.arrived
    userAgent := e.info.userAgent, protocol := e.info.protocol
    requestSize := e.request.body.length, responseSize := e.reply.body.utf8ByteSize }

/-- The labels under which the request is counted. -/
def labels (e : Entry) : List String := [e.request.method, toString e.reply.status]

end Entry

/-- The number of the request that an event brings. -/
def arrival? (e : Instant × Event) : Option Nat :=
  match e.2 with
  | .arrive number _ => some number
  | _ => none

/-- The numbers of the requests that come in. -/
def arrivals (events : List (Instant × Event)) : List Nat := events.filterMap arrival?

/-- A call is one of a request that came in, and holds what is known about it. -/
def Stems (events : List (Instant × Event)) (c : Call) : Prop :=
  ∃ request, (c.arrived, Event.arrive c.number request) ∈ events ∧
    c.info = Info.ofRequest request

theorem Stems.later {events : List (Instant × Event)} {c : Call} (h : Stems events c)
    (e : Instant × Event) : Stems (events ++ [e]) c := by
  obtain ⟨request, hmem, hinfo⟩ := h
  exact ⟨request, List.mem_append_left _ hmem, hinfo⟩

namespace State

variable {s₀ s s' : State} {n : Nat} {c : Call} {e : Instant × Event}
  {events : List (Instant × Event)} {entries : List Entry}

/-- In a run, a handler was called by an event about the call with a number, was given what
    is known about a request, and came to a result. -/
def Seen (s₀ : State) (events : List (Instant × Event)) : Attendance :=
  fun number info result => ∃ before e after, events = before ++ e :: after ∧
    e.2.call? = some number ∧ Attended (s₀.run before) e.1 info result

/-- The answers, the access log and the counts of a run are those of some entries. -/
structure Account (s₀ s : State) (events : List (Instant × Event)) (entries : List Entry) :
    Prop where
  config : s.config = s₀.config
  answered : s.answered = entries.map Entry.given ++ s₀.answered
  log : s.log = (entries.map fun e => s₀.config.template.render e.event) ++ s₀.log
  counted : ∀ p, s.requests.map (·.counted p) =
    s₀.requests.map (·.counted p + entries.countP fun e => p e.labels)
  /-- No request is answered twice. -/
  once : (entries.map Entry.number).Nodup
  came : ∀ e ∈ entries, (e.arrived, Event.arrive e.number e.request) ∈ events
  /-- The handler of the request was given what was written down, if it was called at all. -/
  source : ∀ e ∈ entries, Source (Seen s₀ events) e.number e.info e.outcome
  /-- Who still waits came in as well, and was not answered. -/
  waiting : ∀ c ∈ s.calls, Stems events c ∧ c.number ∉ entries.map Entry.number

theorem Seen.later {number : Nat} {info : Info} {result : Except Problem Answer}
    (h : Seen s₀ events number info result) (e : Instant × Event) :
    Seen s₀ (events ++ [e]) number info result := by
  obtain ⟨before, e', after, rfl, hown, hattended⟩ := h
  refine ⟨before, e', after ++ [e], ?_, hown, hattended⟩
  rw [List.append_assoc, List.cons_append]

/-! ## One event -/

theorem Account.later (h : Account s₀ s events entries) (hq : Quiet s s')
    (hcalls : ∀ c ∈ s'.calls, Stems (events ++ [e]) c ∧ c.number ∉ entries.map Entry.number) :
    Account s₀ s' (events ++ [e]) entries where
  config := hq.config.trans h.config
  answered := hq.answered.trans h.answered
  log := hq.log.trans h.log
  counted p := by rw [hq.requests, h.counted p]
  once := h.once
  came e he := List.mem_append_left _ (h.came e he)
  source x hx := (h.source x hx).mono fun _ _ _ h => h.later e
  waiting := hcalls

theorem Account.counted_cons {entry : Entry} (h : Account s₀ s events entries)
    (hrequests : s'.requests = s.requests.map (·.update entry.labels 0 (· + 1)))
    (p : List String → Bool) : s'.requests.map (·.counted p) =
      s₀.requests.map (·.counted p + (entry :: entries).countP fun e => p e.labels) := by
  have hone : s'.requests.map (·.counted p) =
      (s.requests.map (·.counted p)).map (· + if p entry.labels then 1 else 0) := by
    rw [hrequests, Option.map_map, Option.map_map]
    refine congrArg (Option.map · s.requests) (funext fun r => ?_)
    exact Metric.Samples.counted_update p entry.labels r
  rw [hone, h.counted p, Option.map_map, List.countP_cons]
  refine congrArg (Option.map · s₀.requests) (funext fun r => ?_)
  exact Nat.add_assoc _ _ _

/-- An answer is one entry more. -/
theorem Account.answer {outcome : Outcome} (h : Account s₀ s events entries)
    (hlogging : s₀.config.isLogging = true) (hstems : Stems (events ++ [e]) c)
    (hnew : c.number ∉ entries.map Entry.number)
    (hsource : Source (Seen s₀ (events ++ [e])) c.number c.info outcome)
    (hcloses : Closes s e.1 c outcome s') :
    ∃ entry, Account s₀ s' (events ++ [e]) (entry :: entries) := by
  obtain ⟨request, hmem, hinfo⟩ := hstems
  have hlog : s.config.isLogging = true := by rw [h.config, hlogging]
  have hrequests := hcloses.requests hlog
  have hanswered := hcloses.answered hlog
  have hline := hcloses.log hlog
  rw [Call.event] at hline
  rw [hinfo] at hsource hrequests hanswered hline
  refine ⟨⟨c.number, request, c.arrived, e.1, outcome⟩, ?_⟩
  exact {
    config := hcloses.config.trans h.config
    answered := by
      rw [hanswered, h.answered]
      rfl
    log := by
      rw [hline, h.log, h.config]
      rfl
    counted := h.counted_cons hrequests
    once := List.nodup_cons.mpr ⟨hnew, h.once⟩
    came := by
      intro x hx
      rcases List.mem_cons.mp hx with rfl | hx
      · exact hmem
      · exact List.mem_append_left _ (h.came x hx)
    source := by
      intro x hx
      rcases List.mem_cons.mp hx with rfl | hx
      · exact hsource
      · exact (h.source x hx).mono fun _ _ _ h => h.later e
    waiting := by
      intro x hx
      obtain ⟨hold, hother⟩ := hcloses.calls x hx
      obtain ⟨hstems, hunanswered⟩ := h.waiting x hold
      refine ⟨hstems.later e, ?_⟩
      rw [List.map_cons, List.mem_cons, not_or]
      exact ⟨hother, hunanswered⟩ }

/-- An event adds one entry or none. -/
theorem Account.step (h : Account s₀ s events entries) (hlogging : s₀.config.isLogging = true)
    (hnew : ∀ number, arrival? e = some number → number ∉ entries.map Entry.number)
    (happens : Happens (Seen s₀ (events ++ [e])) s e.1 e.2 s') :
    ∃ entries', Account s₀ s' (events ++ [e]) entries' := by
  have hcome : ∀ n request, e.2 = .arrive n request →
      Stems (events ++ [e]) (incoming n e.1 request) ∧ n ∉ entries.map Entry.number := by
    intro n request hevent
    refine ⟨⟨request, List.mem_append_right _ ?_, rfl⟩, hnew n ?_⟩
    · exact List.mem_singleton.mpr (Prod.ext rfl hevent.symm)
    · rw [arrival?, hevent]
  have hold : ∀ x ∈ s.calls, Stems (events ++ [e]) x ∧ x.number ∉ entries.map Entry.number := by
    intro x hx
    obtain ⟨hstems, hunanswered⟩ := h.waiting x hx
    exact ⟨hstems.later e, hunanswered⟩
  cases happens with
  | still hstill =>
      refine ⟨entries, h.later hstill.toQuiet ?_⟩
      intro x hx
      exact hold x (hstill.calls x hx)
  | held n request due hevent hwait =>
      subst hwait
      refine ⟨entries, h.later ⟨rfl, rfl, rfl, rfl⟩ ?_⟩
      intro x hx
      rcases mem_wait.mp hx with ⟨hx, -⟩ | rfl
      · exact hold x hx
      · exact hcome n request hevent
  | dealt c _ hfrom hdealt =>
      have hc : Stems (events ++ [e]) c ∧ c.number ∉ entries.map Entry.number := by
        rcases hfrom with hc | ⟨request, hevent, hc⟩
        · exact hold c hc
        · rw [hc]
          exact hcome c.number request hevent
      cases hdealt with
      | waits hquiet _ hcalls =>
          refine ⟨entries, h.later hquiet ?_⟩
          intro x hx
          rcases hcalls x hx with ⟨hx, -⟩ | ⟨waiting, rfl, -⟩
          · exact hold x hx
          · exact hc
      | answers outcome hsource hcloses =>
          obtain ⟨entry, hentry⟩ := h.answer hlogging hc.1 hc.2 hsource hcloses
          exact ⟨_, hentry⟩

/-! ## Who may be answered by a job -/

/-- Every call was heard by a handler in the run or has no job, and nothing stands under the
    number of a request that has not come in. -/
structure Ready (s₀ s : State) (events : List (Instant × Event)) : Prop where
  standing : ∀ n, Standing (Seen s₀ events) (s.share n)
  fresh : ∀ n, Unknown n s₀ → n ∉ arrivals events → Unknown n s

theorem mem_arrivals_concat {number : Nat} :
    number ∈ arrivals (events ++ [e]) ↔ number ∈ arrivals events ∨ arrival? e = some number := by
  rw [arrivals, List.filterMap_append, List.mem_append]
  simp [arrivals]

/-- If every request has a number of its own, so it is up to the last event, and the number of a
    request that comes in then is new. -/
theorem nodup_arrivals_concat (h : (arrivals (events ++ [e])).Nodup) :
    (arrivals events).Nodup ∧ ∀ number, arrival? e = some number → number ∉ arrivals events := by
  have hsplit : arrivals (events ++ [e]) = arrivals events ++ (arrival? e).toList := by
    rw [arrivals, List.filterMap_append]
    cases harrival : arrival? e <;> simp [arrivals, harrival]
  rw [hsplit, List.nodup_append] at h
  refine ⟨h.1, fun number harrival hmem => ?_⟩
  refine h.2.2 number hmem number ?_ rfl
  rw [harrival]
  exact List.mem_singleton.mpr rfl

theorem standing_of_still {seen : Attendance} (hstill : Still s s')
    (h : Standing seen (s.share n)) : Standing seen (s'.share n) := by
  intro c hc
  obtain ⟨hmem, hnumber⟩ := mem_share_calls.mp hc
  rcases h c (mem_share_calls.mpr ⟨hstill.calls c hmem, hnumber⟩) with hheard | ⟨hdue, hnone⟩
  · exact Or.inl hheard
  · exact Or.inr ⟨hdue, hstill.no_activities hnone⟩

theorem unknown_of_still (hstill : Still s s') (h : Unknown n s) : Unknown n s' := by
  have hcalls : (s'.share n).calls = [] := hstill.no_calls (congrArg Share.calls h)
  have hactivities : (s'.share n).activities = [] :=
    hstill.no_activities (congrArg Share.activities h)
  have hanswered : (s'.share n).answered = [] := by
    rw [share, hstill.answered]
    exact congrArg Share.answered h
  show Share.mk (s'.share n).calls (s'.share n).activities (s'.share n).answered = _
  rw [hcalls, hactivities, hanswered]

/-- What the next event of a run can do. -/
theorem Ready.happens (h : Ready s₀ (s₀.run events) events) (e : Instant × Event) :
    Happens (Seen s₀ (events ++ [e])) (s₀.run events) e.1 e.2
      ((s₀.run events).handle e.1 e.2).1 :=
  handle_cases (s₀.run events) e.1 e.2
    (fun number _ => (h.standing number).mono fun _ _ _ h => h.later e)
    fun _ hown _ _ hattended => ⟨events, e, [], rfl, hown, hattended⟩

theorem Ready.step (h : Ready s₀ s events)
    (hnew : ∀ number, arrival? e = some number → Unknown number s)
    (happens : Happens (Seen s₀ (events ++ [e])) s e.1 e.2 (s.handle e.1 e.2).1) :
    Ready s₀ (s.handle e.1 e.2).1 (events ++ [e]) := by
  have hstanding : ∀ n, Standing (Seen s₀ (events ++ [e])) (s.share n) :=
    fun n => (h.standing n).mono fun _ _ _ h => h.later e
  constructor
  · intro n
    by_cases hown : e.2.call? = some n
    · cases happens with
      | still hstill => exact standing_of_still hstill (hstanding n)
      | held m request due hevent hwait =>
          rw [hevent] at hown
          obtain rfl := Option.some.inj hown
          have hunknown : Unknown m s := hnew m (by rw [arrival?, hevent])
          have hnumber : (incoming m e.1 request).number = m := rfl
          rw [hwait, share_wait_self hnumber]
          intro c hc
          rw [List.mem_singleton.mp hc]
          exact Or.inr ⟨⟨due, rfl⟩, congrArg Share.activities hunknown⟩
      | dealt c hc _ hdealt =>
          obtain rfl := Option.some.inj (hc.symm.trans hown)
          exact fun x hx => Or.inl (hdealt.own x hx).1
    · rw [share_handle hown]
      exact hstanding n
  · intro n hunknown hnot
    rw [mem_arrivals_concat, not_or] at hnot
    have hs : Unknown n s := h.fresh n hunknown hnot.1
    by_cases hown : e.2.call? = some n
    · cases happens with
      | still hstill => exact unknown_of_still hstill hs
      | held m request due hevent _ =>
          rw [hevent] at hown
          obtain rfl := Option.some.inj hown
          exact absurd (by rw [arrival?, hevent]) hnot.2
      | dealt c hc hfrom _ =>
          obtain rfl := Option.some.inj (hc.symm.trans hown)
          rcases hfrom with hold | ⟨request, hevent, -⟩
          · have hmem : c ∈ (s.share c.number).calls := mem_share_calls.mpr ⟨hold, rfl⟩
            rw [hs] at hmem
            exact absurd hmem List.not_mem_nil
          · exact absurd (by rw [arrival?, hevent]) hnot.2
    · rw [Unknown, share_handle hown]
      exact hs

/-! ## Runs -/

theorem run_concat (s : State) (events : List (Instant × Event)) (e : Instant × Event) :
    s.run (events ++ [e]) = ((s.run events).handle e.1 e.2).1 :=
  List.foldl_append

theorem account_run (hlogging : s₀.config.isLogging = true) (hcalls : s₀.calls = [])
    (hnumbers : (arrivals events).Nodup) (hunknown : ∀ n ∈ arrivals events, Unknown n s₀) :
    Ready s₀ (s₀.run events) events ∧ ∃ entries, Account s₀ (s₀.run events) events entries := by
  -- a run is taken apart from its end, since an account is kept of all that came before
  induction events using List.reverseRecOn with
  | nil =>
      have hnone : ∀ c, c ∉ s₀.calls := by
        intro c
        rw [hcalls]
        exact List.not_mem_nil
      refine ⟨⟨?_, fun _ h _ => h⟩, [], ?_⟩
      · intro n c hc
        exact absurd (mem_share_calls.mp hc).1 (hnone c)
      · exact {
          config := rfl
          answered := rfl
          log := rfl
          counted := fun _ => rfl
          once := List.nodup_nil
          came := fun _ h => absurd h List.not_mem_nil
          source := fun _ h => absurd h List.not_mem_nil
          waiting := fun c hc => absurd hc (hnone c) }
  | append_singleton events e ih =>
      -- the number of a request that comes in now is new, so it has no entry yet
      obtain ⟨hnodup, hfirst⟩ := nodup_arrivals_concat hnumbers
      obtain ⟨hready, entries, haccount⟩ := ih hnodup fun n hn =>
        hunknown n (mem_arrivals_concat.mpr (Or.inl hn))
      have happens := hready.happens e
      rw [run_concat]
      constructor
      · refine hready.step (fun number harrival => ?_) happens
        exact hready.fresh number (hunknown number (mem_arrivals_concat.mpr (Or.inr harrival)))
          (hfirst number harrival)
      · refine haccount.step hlogging ?_ happens
        intro number harrival hmem
        obtain ⟨entry, hentry, rfl⟩ := List.mem_map.mp hmem
        refine hfirst _ harrival (List.mem_filterMap.mpr ⟨_, haccount.came entry hentry, rfl⟩)

/-- **ONE RECORD FOR EACH ANSWER.**  Requests come in under numbers of their own, with any
    events among them.  All that was answered is a list of entries, each of one request
    that came in, and the access log and the counter of requests have just these entries:
    each with the status and the size of the very reply, the size of the body, and what
    the error knew about the request and the handler was given in this very run. -/
theorem one_record_each (s₀ : State) (events : List (Instant × Event))
    (hlogging : s₀.config.isLogging = true) (hcalls : s₀.calls = [])
    (hnumbers : (arrivals events).Nodup) (hunknown : ∀ n ∈ arrivals events, Unknown n s₀) :
    ∃ entries, Account s₀ (s₀.run events) events entries :=
  (account_run hlogging hcalls hnumbers hunknown).2

/-- A service that turns every request away for ten seconds, and writes it down. -/
def downService : State where
  config := { settings := ⟨.table []⟩, template := .ofString "\x7bpath\x7d \x7bstatus_code\x7d" }
  words := ⟨fun _ => 0, 0⟩
  rules := { downtime := Fault.arm () 0 (Span.ofSeconds 10) }
  registry := some {}

/-- One request comes in during downtime and one after it, to a path that is not found. -/
theorem one_record_each_two :
    let request : Request := { method := "GET", target := ⟨none, "/nowhere", none⟩ }
    let events := [(Span.ofSeconds 2, Event.arrive 0 request),
      (Span.ofSeconds 12, Event.arrive 1 request)]
    ∃ entries, Account downService (downService.run events) events entries ∧
      entries.length = 2 := by
  intro request events
  have hunknown : ∀ n ∈ arrivals events, Unknown n downService := fun _ _ => rfl
  obtain ⟨entries, haccount⟩ := one_record_each downService events rfl rfl (by decide) hunknown
  refine ⟨entries, haccount, ?_⟩
  have hlength := congrArg List.length haccount.answered
  rw [List.length_append, List.length_map] at hlength
  exact hlength.symm.trans (by decide +kernel)

end State

end Havoc.Service
