import Havoc.Proofs.Service.FaultLayer

/-! # Memory that is never given back

    A leak adds blocks of memory to a store of the service, and nothing takes one away.

    The route: all but the signals to a job leave the store as it was (`Steady`, one lemma for
    each operation up to `steady_direct`), and a signal adds to its end what the cycle leaves
    behind.  So an event only lets the store grow (`grows_handle`), and with it every run does
    (`leaked_run`).  `blocksBy` is what the events of one call have added, and it is a part of
    what has come to the store (`blocksBy_sublist`). -/

namespace Havoc.Service.State

open Havoc.Http

variable {s s₁ s' : State} {n : Nat} {now : Instant} {c : Call} {a : Activity} {event : Event}
  {events : List (Instant × Event)}

/-- The store is as it was, and the service has ended only if it had. -/
structure Steady (s s' : State) : Prop where
  leaked : s'.leaked = s.leaked
  hasEnded : s'.hasEnded = s.hasEnded

/-- The store holds all that it held, and the service has ended only if it had. -/
structure Grows (s s' : State) : Prop where
  leaked : s.leaked <+: s'.leaked
  hasEnded : s'.hasEnded = s.hasEnded

theorem Steady.refl : Steady s s := ⟨rfl, rfl⟩

theorem Steady.trans (h : Steady s s₁) (h' : Steady s₁ s') : Steady s s' :=
  ⟨h'.leaked.trans h.leaked, h'.hasEnded.trans h.hasEnded⟩

theorem Steady.grows (h : Steady s s') : Grows s s' :=
  ⟨h.leaked ▸ List.prefix_refl _, h.hasEnded⟩

/-! ## Operations -/

theorem steady_answerWith {info : Info} {outcome : Outcome} :
    Steady s (s.answerWith now c info outcome) := by
  obtain ⟨-, -, -, -, hleaked, -, -, hended⟩ := answerWith_frame s now c info outcome
  exact ⟨hleaked, hended⟩

theorem steady_answer {outcome : Outcome} : Steady s (s.answer now c outcome) := steady_answerWith

theorem steady_finish {ended : Job.Outcome} : Steady s (s.finish now a ended) := by
  unfold finish
  dsimp only
  generalize s.table.finish a.id (wallClock now) ended = table
  have hnoted : Steady s (State.note { s.dropActivity a.call with table } .jobFinished) :=
    ⟨rfl, rfl⟩
  split
  · exact hnoted.trans steady_answer
  · exact hnoted

theorem steady_advance {step : Load.Step Load.Shape} : Steady s (s.advance now a step).1 := by
  have hnoted : Steady s (s.noteAll step.notes) := ⟨rfl, rfl⟩
  rcases advance_eq s now a step with ⟨outcome, -, heq⟩ | ⟨-, words, heq⟩
  · rw [heq]
    exact hnoted.trans steady_finish
  · rw [heq]
    exact ⟨rfl, rfl⟩

theorem steady_begin : Steady s (s.begin now a).1 := steady_advance

theorem steady_start {order : Option Fault.Order} {task : Task} :
    Steady s (s.start now c order task).1 := by
  unfold start
  dsimp only
  split
  · refine Steady.trans ?_ steady_begin
    exact ⟨rfl, rfl⟩
  · refine Steady.trans ?_ steady_answer
    exact ⟨rfl, rfl⟩

theorem steady_connected {kind : Backend.Kind} {workload : Workload}
    {task : Load.Resource → Task} {signal : Load.Signal} :
    Steady s (s.connected now c kind workload task signal).1 := by
  unfold connected
  split
  · refine Steady.trans ?_ steady_start
    exact ⟨rfl, rfl⟩
  · refine Steady.trans ?_ steady_answer
    exact ⟨rfl, rfl⟩
  · exact ⟨rfl, rfl⟩
  · exact Steady.refl

theorem steady_settle {answer : Answer} : Steady s (s.settle now c answer).1 := by
  unfold settle
  split
  · exact steady_answer
  · exact steady_answer
  · exact ⟨rfl, rfl⟩
  · exact steady_start
  · exact ⟨rfl, rfl⟩
  · exact ⟨rfl, rfl⟩
  · exact steady_answer
  · exact ⟨rfl, rfl⟩

theorem steady_direct : Steady s (s.direct now c).1 := by
  unfold direct
  split
  · exact steady_answer
  · next route _ =>
      have hdraw : Steady s (s.draw (s.attend now c.info route).run).2 := ⟨rfl, rfl⟩
      split
      · next heq =>
          rw [heq] at hdraw
          exact hdraw.trans steady_answer
      · next heq =>
          rw [heq] at hdraw
          exact hdraw.trans steady_settle

theorem steady_reject {kind : Fault.Kind} : Steady s (s.reject now c kind) := by
  have hnoted : Steady s (s.note (.faultInjected kind.label)) := ⟨rfl, rfl⟩
  exact hnoted.trans steady_answerWith

theorem steady_roll : Steady s (s.roll now c).1 := by
  unfold roll
  have hdraw : Steady s (s.draw (s.rules.roll now)).2 := ⟨rfl, rfl⟩
  split
  · next heq =>
      rw [heq] at hdraw
      exact hdraw.trans steady_reject
  · next heq =>
      rw [heq] at hdraw
      exact hdraw.trans steady_direct

theorem steady_arrive {number : Nat} {request : Request} :
    Steady s (s.arrive now number request).1 := by
  unfold arrive
  dsimp only
  split
  · unfold intercept
    split
    · exact steady_reject
    · split
      · exact ⟨rfl, rfl⟩
      · exact steady_roll
  · exact steady_direct

theorem steady_abandon {number : Nat} : Steady s (s.abandon number) := by
  unfold abandon
  split
  · exact ⟨rfl, rfl⟩
  · exact Steady.refl

theorem steady_wake : Steady s (s.wake now c).1 := by
  unfold wake
  split
  · split
    · exact steady_roll
    · exact Steady.refl
  · split
    · exact steady_answer
    · exact Steady.refl
  · exact Steady.refl

theorem steady_learn {finding : Finding} : Steady s (s.learn now c finding) := by
  unfold learn
  split
  · split
    · exact steady_answer
    · exact Steady.refl
  · exact Steady.refl

/-! ## Events -/

theorem grows_yield {signal : Load.Signal} : Grows s (s.yield now a signal) := by
  unfold yield
  split
  · unfold State.leave
    split
    · exact ⟨List.prefix_append _ _, rfl⟩
    · exact ⟨List.prefix_refl _, rfl⟩
    · exact Steady.refl.grows
  · exact Steady.refl.grows

theorem grows_heed {signal : Load.Signal} : Grows s (s.heed now a signal).1 := by
  unfold heed
  split
  · obtain ⟨hleaked, hended⟩ := @grows_yield s now a signal
    obtain ⟨hkept, hgoing⟩ := @steady_advance (s.yield now a signal) now _ _
    exact ⟨hkept ▸ hleaked, hgoing.trans hended⟩
  · exact Steady.refl.grows

/-- No event takes memory away, and only one ends the service. -/
theorem grows_handle (h : event ≠ .exit) : Grows s (s.handle now event).1 := by
  have hhandles := s.handles now event
  generalize (s.handle now event).1 = s' at hhandles ⊢
  cases hhandles with
  | nothing => exact Steady.refl.grows
  | arrives => exact steady_arrive.grows
  | leaves => exact steady_abandon.grows
  | wakes => exact steady_wake.grows
  | begins => exact steady_begin.grows
  | heeds => exact grows_heed
  | connects => exact steady_connected.grows
  | learns => exact steady_learn.grows
  | exits => exact absurd rfl h

theorem leaked_handle (s : State) (now : Instant) (event : Event) :
    s.leaked <+: (s.handle now event).1.leaked := by
  by_cases h : event = .exit
  · have hhandles := s.handles now event
    generalize (s.handle now event).1 = s' at hhandles ⊢
    subst h
    cases hhandles <;> exact List.prefix_refl _
  · exact (grows_handle h).leaked

/-! ## Runs -/

theorem leaked_run (s : State) (events : List (Instant × Event)) :
    s.leaked <+: (s.run events).leaked := by
  induction events generalizing s with
  | nil => exact List.prefix_refl _
  | cons e events ih =>
      rw [run_cons]
      exact (leaked_handle s e.1 e.2).trans (ih _)

/-- A service that is not told to end goes on. -/
theorem hasEnded_run (h : ∀ e ∈ events, e.2 ≠ .exit) : (s.run events).hasEnded = s.hasEnded := by
  induction events generalizing s with
  | nil => rfl
  | cons e events ih =>
      rw [run_cons, ih fun x hx => h x (List.mem_cons_of_mem e hx)]
      exact (grows_handle (h e List.mem_cons_self)).hasEnded

/-- The blocks of memory that an event adds to the store. -/
def blocksAt (s : State) (e : Instant × Event) : List Nat :=
  (s.handle e.1 e.2).1.leaked.drop s.leaked.length

/-- The blocks of memory that the events of a call add to the store. -/
def blocksBy (n : Nat) (s : State) : List (Instant × Event) → List Nat
  | [] => []
  | e :: events =>
      (if e.2.call? = some n then s.blocksAt e else []) ++ blocksBy n (s.handle e.1 e.2).1 events

theorem leaked_blocksAt (s : State) (e : Instant × Event) :
    (s.handle e.1 e.2).1.leaked = s.leaked ++ s.blocksAt e :=
  (List.prefix_iff_eq_append.mp (leaked_handle s e.1 e.2)).symm

theorem blocksAt_of_eq {e : Instant × Event} {blocks : List Nat}
    (h : (s.handle e.1 e.2).1.leaked = s.leaked ++ blocks) : s.blocksAt e = blocks :=
  List.append_cancel_left ((leaked_blocksAt s e).symm.trans h)

theorem blocksBy_append (n : Nat) (s : State) (before after : List (Instant × Event)) :
    blocksBy n s (before ++ after) = blocksBy n s before ++ blocksBy n (s.run before) after := by
  induction before generalizing s with
  | nil => rfl
  | cons e before ih =>
      rw [List.cons_append, blocksBy, ih, ← List.append_assoc]
      rfl

/-- Events of other calls add nothing for this one. -/
theorem blocksBy_of_others (h : ∀ e ∈ events, e.2.call? ≠ some n) : blocksBy n s events = [] := by
  induction events generalizing s with
  | nil => rfl
  | cons e events ih =>
      rw [blocksBy, if_neg (h e List.mem_cons_self), List.nil_append]
      exact ih fun x hx => h x (List.mem_cons_of_mem e hx)

/-- What the events of a call add is a part of what comes to the store. -/
theorem blocksBy_sublist (n : Nat) (s : State) (events : List (Instant × Event)) :
    ∃ added, (s.run events).leaked = s.leaked ++ added ∧ (blocksBy n s events).Sublist added := by
  induction events generalizing s with
  | nil => exact ⟨[], (List.append_nil _).symm, List.Sublist.refl _⟩
  | cons e events ih =>
      obtain ⟨added, hrun, hsub⟩ := ih (s.handle e.1 e.2).1
      refine ⟨s.blocksAt e ++ added, ?_, ?_⟩
      · rw [run_cons, hrun, leaked_blocksAt, List.append_assoc]
      · refine List.Sublist.append ?_ hsub
        split
        · exact List.Sublist.refl _
        · exact List.nil_sublist _

end Havoc.Service.State
