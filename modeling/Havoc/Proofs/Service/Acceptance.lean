import Havoc.Proofs.Service.Arming

/-! # Until a request is accepted

    Some requests can only be answered with an order: what their endpoints have to say without
    one is a problem.  Such a call waits for nothing but a delay until it is accepted, and is
    told of nothing but problems.

    The route: `Held` is what holds of the call until then.  An event of its own accepts the
    call or leaves it held (`Held.handle`), and no other event touches its share, so in a run
    it stays held or there is an event that accepts it (`Held.run`).  A document that it is
    answered with comes after that event (`accepted_of_document`). -/

namespace Havoc.Service

open Havoc.Http Havoc.Json Fault

/-- A request has no answer but those with an order. -/
def OnlyOrders (info : Info) : Prop :=
  ∀ {s : State} {now : Instant} {x : Answer}, Attended s now info (.ok x) → ¬ Orderless x

namespace State

variable {s s' : State} {n : Nat} {now : Instant} {c : Call} {info : Info}
  {events : List (Instant × Event)}

/-- A call that has not been accepted: it waits for a delay to pass, or it was told of a
    problem, or its caller has left. -/
structure Held (n : Nat) (info : Info) (s : State) : Prop where
  bare : Bare n s
  calls : ∀ c ∈ (s.share n).calls, c.info = info ∧ ∃ due, c.waiting = .delay due
  answered : ∀ x ∈ (s.share n).answered, ∃ problem, x.outcome = .error problem

theorem Held.of_share (h : Held n info s) (hshare : s'.share n = s.share n) :
    Held n info s' := by
  obtain ⟨hbare, hcalls, hanswered⟩ := h
  rw [Bare, ← hshare] at hbare
  rw [← hshare] at hcalls hanswered
  exact ⟨hbare, hcalls, hanswered⟩

theorem held_delay {due : Instant} (h : Pending c.number s) :
    Held c.number c.info (s.wait c (.delay due)) := by
  have hshare := @share_wait_self s c.number c (.delay due) rfl
  refine ⟨?_, ?_, ?_⟩
  · rw [Bare, hshare]
    exact ⟨h.1, Or.inr h.2⟩
  · rw [hshare]
    intro x hx
    rw [List.mem_singleton.mp hx]
    exact ⟨rfl, due, rfl⟩
  · rw [hshare, h.2]
    exact fun _ hx => absurd hx List.not_mem_nil

/-- A call whose request can only be answered with an order is told of a problem. -/
theorem held_of_passes (h : Passes s now c s') (hpending : Pending c.number s)
    (honly : OnlyOrders c.info) : Held c.number c.info s' := by
  cases h with
  | orderless hattended horderless => exact absurd horderless (honly hattended)
  | @refused s₁ told problem hsame heq =>
      have hshare := @share_answerWith_self s₁ c.number now c told (.error problem) rfl
      rw [← heq, hsame] at hshare
      refine ⟨?_, ?_, ?_⟩
      · rw [Bare, hshare]
        exact ⟨hpending.1, Or.inl rfl⟩
      · rw [hshare]
        exact fun _ hx => absurd hx List.not_mem_nil
      · rw [hshare, hpending.2]
        intro x hx
        rw [List.mem_singleton.mp hx]
        exact ⟨problem, rfl⟩

/-- A call is accepted by an event, and nothing had come of it. -/
def AcceptedBy (s : State) (n : Nat) (info : Info) (e : Instant × Event) : Prop :=
  ∃ c order task, Accepts s e.1 e.2 c order task ∧ c.number = n ∧ c.info = info ∧ Pending n s

theorem Held.abandon (h : Held n info s) : Held n info (s.abandon n) := by
  unfold State.abandon
  split
  · refine ⟨?_, ?_, ?_⟩
    · rw [Bare, share_dropActivity_self, share_dropCall_self]
      exact ⟨rfl, Or.inl rfl⟩
    · rw [share_dropActivity_self, share_dropCall_self]
      exact fun _ hx => absurd hx List.not_mem_nil
    · rw [share_dropActivity_self, share_dropCall_self]
      exact h.answered
  · exact h

theorem held_first {request : Request} (hnew : Unknown n s)
    (honly : OnlyOrders (Info.ofRequest request)) :
    Held n (Info.ofRequest request) (s.handle now (.arrive n request)).1 ∨
      AcceptedBy s n (Info.ofRequest request) (now, .arrive n request) := by
  have hpending : Pending n s := by
    rw [Pending, hnew]
    exact ⟨rfl, rfl⟩
  by_cases hended : s.hasEnded = true
  · rw [handle_of_ended hended]
    refine Or.inl ⟨⟨hpending.1, Or.inr hpending.2⟩, ?_, ?_⟩
    · rw [hnew]
      exact fun _ hx => absurd hx List.not_mem_nil
    · rw [hnew]
      exact fun _ hx => absurd hx List.not_mem_nil
  · have hhandle := congrArg Prod.fst (@handle_arrive s n now hended request)
    rcases arrive_rules s now n request with ⟨-, hpasses | ⟨due, hwait⟩⟩ | hstarts
    · rw [hhandle]
      exact Or.inl (held_of_passes hpasses hpending honly)
    · rw [hhandle, hwait]
      exact Or.inl (@held_delay s (incoming n now request) due hpending)
    · obtain ⟨order, task, haccepts⟩ := accepts_arrive hhandle hstarts
      exact Or.inr ⟨_, order, task, haccepts, rfl, rfl, hpending⟩

theorem Held.wake (h : Held n info s) (hc : s.call? n = some c) (honly : OnlyOrders info) :
    Held n info (s.wake now c).1 ∨ Starts s now c (s.wake now c).1 := by
  have hpending := h.bare.pending hc
  obtain ⟨rfl, due, hdelay⟩ := h.calls c (share_of_call? hc)
  obtain rfl := number_of_call? hc
  rw [State.wake, hdelay]
  dsimp only
  split
  · exact roll_cases.imp_left fun hpasses => held_of_passes hpasses.2 hpending honly
  · exact Or.inl h

/-- An event of a call that has not been accepted accepts it, or leaves it so. -/
theorem Held.handle {event : Event} (h : Held n info s)
    (harrive : ∀ request, event ≠ .arrive n request) (honly : OnlyOrders info) :
    Held n info (s.handle now event).1 ∨ AcceptedBy s n info (now, event) := by
  by_cases hown : event.call? = some n
  · have hhandles := s.handles now event
    generalize hhandle : (s.handle now event).1 = s' at hhandles ⊢
    cases hhandles with
    | nothing => exact Or.inl h
    | @arrives number request =>
        obtain rfl : number = n := Option.some.inj hown
        exact absurd rfl (harrive request)
    | @leaves number =>
        obtain rfl : number = n := Option.some.inj hown
        exact Or.inl h.abandon
    | @wakes number c hc =>
        obtain rfl : number = n := Option.some.inj hown
        obtain ⟨hinfo, hdelay⟩ := h.calls c (share_of_call? hc)
        rcases h.wake hc honly with hheld | hstarts
        · exact Or.inl hheld
        · obtain ⟨order, task, haccepts⟩ := accepts_wake hhandle hc hdelay hstarts
          exact Or.inr ⟨c, order, task, haccepts, number_of_call? hc, hinfo, h.bare.pending hc⟩
    | @begins number a ha | @heeds number signal a ha =>
        obtain rfl : number = n := Option.some.inj hown
        rw [h.bare.no_activity] at ha
        cases ha
    | @connects number signal c kind workload task _ hc hwaiting =>
        obtain rfl : number = n := Option.some.inj hown
        obtain ⟨-, due, hdelay⟩ := h.calls c (share_of_call? hc)
        rw [hdelay] at hwaiting
        cases hwaiting
    | @learns number finding c hc =>
        obtain rfl : number = n := Option.some.inj hown
        obtain ⟨-, due, hdelay⟩ := h.calls c (share_of_call? hc)
        rw [learn, hdelay]
        exact Or.inl h
    | exits => cases hown
  · exact Or.inl (h.of_share (share_handle hown))

/-- A run leaves a call unaccepted, or accepts it by one of its events. -/
theorem Held.run (h : Held n info s) (honce : ∀ e ∈ events, ∀ request, e.2 ≠ .arrive n request)
    (honly : OnlyOrders info) :
    Held n info (s.run events) ∨
      ∃ before e after, events = before ++ e :: after ∧ AcceptedBy (s.run before) n info e := by
  induction events generalizing s with
  | nil => exact Or.inl h
  | cons e events ih =>
      rcases h.handle (honce e List.mem_cons_self) honly with hheld | haccepted
      · rcases ih hheld fun x hx => honce x (List.mem_cons_of_mem e hx) with hrun | hsplit
        · exact Or.inl hrun
        · obtain ⟨before, x, after, rfl, haccepted⟩ := hsplit
          exact Or.inr ⟨e :: before, x, after, rfl, haccepted⟩
      · exact Or.inr ⟨[], e, events, rfl, haccepted⟩

/-- A request that is never accepted is held to the end, and else one of its events accepts it. -/
theorem held_or_accepted {first : Instant} {request : Request} {later : List (Instant × Event)}
    (hnew : Unknown n s) (honce : ∀ e ∈ later, ∀ request, e.2 ≠ .arrive n request)
    (honly : OnlyOrders (Info.ofRequest request)) :
    Held n (Info.ofRequest request) (s.run ((first, .arrive n request) :: later)) ∨
      ∃ before e after, (first, Event.arrive n request) :: later = before ++ e :: after ∧
        AcceptedBy (s.run before) n (Info.ofRequest request) e ∧
        ∀ x ∈ after, ∀ request, x.2 ≠ .arrive n request := by
  rcases held_first hnew honly with hheld | haccepted
  · rcases Held.run hheld honce honly with hrun | hsplit
    · exact Or.inl hrun
    · obtain ⟨before, e, after, rfl, haccepted⟩ := hsplit
      exact Or.inr ⟨(first, .arrive n request) :: before, e, after, rfl, haccepted,
        fun x hx => honce x (List.mem_append_right _ (List.mem_cons_of_mem e hx))⟩
  · exact Or.inr ⟨[], _, later, rfl, haccepted, honce⟩

/-! ## Documents -/

/-- The documents that a call was answered with. -/
def documents (n : Nat) (s : State) : List Value :=
  (s.share n).answered.filterMap fun x => match x.outcome with
    | .ok (.document doc) => some doc
    | _ => none

theorem mem_documents {doc : Value} : doc ∈ documents n s ↔
    ∃ x ∈ (s.share n).answered, x.outcome = .ok (.document doc) := by
  rw [documents, List.mem_filterMap]
  constructor
  · rintro ⟨x, hx, heq⟩
    split at heq
    · next hdoc =>
        obtain rfl := Option.some.inj heq
        exact ⟨x, hx, hdoc⟩
    · cases heq
  · rintro ⟨x, hx, hdoc⟩
    exact ⟨x, hx, by rw [hdoc]⟩

theorem Held.no_documents (h : Held n info s) {doc : Value} : doc ∉ documents n s := by
  rw [mem_documents]
  rintro ⟨x, hx, hdoc⟩
  obtain ⟨problem, hproblem⟩ := h.answered x hx
  rw [hproblem] at hdoc
  cases hdoc

/-- Before a call is answered with a document, one of its events accepts it. -/
theorem accepted_of_document {first : Instant} {request : Request}
    {later : List (Instant × Event)} {doc : Value} (hnew : Unknown n s)
    (honce : ∀ e ∈ later, ∀ request, e.2 ≠ .arrive n request)
    (honly : OnlyOrders (Info.ofRequest request))
    (hdoc : doc ∈ documents n (s.run ((first, .arrive n request) :: later))) :
    ∃ before e after, (first, Event.arrive n request) :: later = before ++ e :: after ∧
      AcceptedBy (s.run before) n (Info.ofRequest request) e ∧
      ∀ x ∈ after, ∀ request, x.2 ≠ .arrive n request := by
  rcases held_or_accepted hnew honce honly with hheld | haccepted
  · exact absurd hdoc hheld.no_documents
  · exact haccepted

end State

end Havoc.Service
