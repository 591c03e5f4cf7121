import Havoc.Proofs.Load.Spacing
import Havoc.Proofs.Service.Memory

/-! # A job that leaks

    A job that repeats a chore is a loop among many things that the service does.  What its own
    events make of it is a matter of the loop alone: it begins, it goes on with a signal that
    it waits for, or it is over because its caller went away (`Moves`).  Each cycle that
    succeeds leaves one block behind, and nothing else does.

    The route: `Repeating` says how far such a job has come (`Stint`), and one lemma for each
    operation says what it makes of that, from `Repeating.advance` up to `Repeating.handle`.
    Two results about runs follow.  In every run the blocks are no more than cycles that keep
    their distance (`Repeating.blocks_lt`), and a job that is told what some run of its loop
    was told comes as far as that loop (`Repeating.follows`). -/

namespace Havoc.Service

/-- How far a job has come that repeats a chore. -/
inductive Stint where
  /-- It has not begun. -/
  | waiting
  | looping (loop : Load.Cycling)
  /-- A cycle of its loop has broken off. -/
  | broken (loop : Load.Cycling)
  /-- It has ended, or its caller has gone away. -/
  | gone

namespace Stint

/-- How far a job has come whose loop stands so. -/
def ofRepeat : Load.Repeat → Stint
  | .cycling loop => looping loop
  | .broken loop => broken loop
  | .done _ => gone

/-- The jobs under the number of a call. -/
def activities (n : Nat) (id : Job.Id) (task : Task) : Stint → List Activity
  | waiting => [{ call := n, id, task }]
  | looping loop => [{ call := n, id, task, shape := some (.repeating (.cycling loop)) }]
  | broken loop => [{ call := n, id, task, shape := some (.repeating (.broken loop)) }]
  | gone => []

/-- A job is there as long as its loop has not ended. -/
theorem activities_ofRepeat {r : Load.Repeat} (n : Nat) (id : Job.Id) (task : Task)
    (h : r.report? = none) :
    (ofRepeat r).activities n id task =
      [{ call := n, id, task, shape := some (.repeating r) }] := by
  cases r with
  | cycling | broken => rfl
  | done report => exact nomatch h

/-- Where a job stands when it starts: it begins at once for a caller who waits. -/
def initial (m : Load.Machine Load.Repeat) (now : Instant) : Job.Mode → Stint
  | .sync => ofRepeat (m.start now).state
  | .async => waiting

end Stint

/-- What an event can make of a job, and how many cycles it tells the success of. -/
inductive Moves (m : Load.Machine Load.Repeat) (now : Instant) : Stint → Stint → Nat → Prop
  where
  | stays {p : Stint} : Moves m now p p 0
  | begins : Moves m now .waiting (.ofRepeat (m.start now).state) 0
  | goes {loop : Load.Cycling} {signal : Load.Signal} {step : Load.Step Load.Repeat} :
      m.step (.cycling loop) now signal = some step →
      Moves m now (.looping loop) (.ofRepeat step.state) signal.won
  | leaves {p : Stint} : Moves m now p .gone 0

/-- The cycles of a job are apart by an interval, and so many of them have succeeded. -/
def Stint.Apart (d i : Span) (now : Instant) (won : Nat) : Stint → Prop
  | waiting => won = 0
  | looping loop => ∃ t₀ t, t ≤ now ∧ (Load.Repeat.cycling loop).Spaced t₀ d i t ∧
      (Load.Repeat.cycling loop).Counts won
  | broken _ | gone => ∀ k < won, k * i < d

section

variable {d i : Span} {t t₀ now : Instant} {won gained : Nat} {p p' : Stint}
  {r : Load.Repeat} {label : String}

theorem Stint.apart_ofRepeat (h : r.Spaced t₀ d i now) (hcounts : r.Counts won) :
    (ofRepeat r).Apart d i now won := by
  cases r with
  | cycling loop => exact ⟨t₀, now, Nat.le_refl _, h, hcounts⟩
  | done | broken => exact h.won_lt hcounts

theorem Stint.apart_initial (hnow : now ≤ lastInstant) (mode : Job.Mode) :
    (initial (Load.Repeat.machine label ⟨d, i⟩) now mode).Apart d i now 0 := by
  cases mode with
  | sync => exact apart_ofRepeat (Load.Repeat.spaced_start hnow) (Load.Repeat.counts_start _ now)
  | async => exact rfl

theorem Stint.Apart.mono (h : p.Apart d i t won) (hle : t ≤ now) : p.Apart d i now won := by
  cases p with
  | looping loop =>
      obtain ⟨t₀, t', ht', hspaced, hcounts⟩ := h
      exact ⟨t₀, t', Nat.le_trans ht' hle, hspaced, hcounts⟩
  | waiting | broken | gone => exact h

theorem Stint.Apart.bound (h : p.Apart d i now won) : ∀ k < won, k * i < d := by
  cases p with
  | waiting =>
      obtain rfl : won = 0 := h
      exact fun k hk => absurd hk (Nat.not_lt_zero k)
  | looping loop =>
      obtain ⟨t₀, t, -, hspaced, hcounts⟩ := h
      exact hspaced.won_lt hcounts
  | broken | gone => exact h

/-- Whatever an event makes of a job, its cycles stay apart. -/
theorem Moves.apart (h : Moves (Load.Repeat.machine label ⟨d, i⟩) now p p' gained)
    (hi : i ≤ farFuture) (hapart : p.Apart d i t won) (hle : t ≤ now) (hnow : now ≤ lastInstant) :
    p'.Apart d i now (won + gained) := by
  cases h with
  | stays => exact hapart.mono hle
  | leaves => exact hapart.bound
  | begins =>
      obtain rfl : won = 0 := hapart
      exact Stint.apart_ofRepeat (Load.Repeat.spaced_start hnow) (Load.Repeat.counts_start _ now)
  | goes hstep =>
      obtain ⟨t₀, t', ht', hspaced, hcounts⟩ := hapart
      exact Stint.apart_ofRepeat (hspaced.step hi (Nat.le_trans ht' hle) hnow hstep)
        (hcounts.step hstep)

end

/-- The loop of a task. -/
def Task.loop (task : Task) (cadence : Load.Cadence) : Load.Machine Load.Repeat :=
  Load.Repeat.machine task.noteName cadence

/-- The event that brings about a moment of a loop; a job with a caller who waits begins without
    one. -/
def beatEvent? (n : Nat) (mode : Job.Mode) (b : Load.Beat) : Option (Instant × Event) :=
  match b.told, mode with
  | some signal, _ => some (b.time, .signal n signal)
  | none, .async => some (b.time, .begin n)
  | none, .sync => none

namespace State

variable {s s' : State} {n : Nat} {now t t₀ : Instant} {c : Call} {a : Activity} {event : Event}
  {events : List (Instant × Event)} {task : Task} {p : Stint} {cadence : Load.Cadence}
  {chore : Chore} {bytes won : Nat} {d i : Span}

/-- The job of a call has come so far, and the call waits for nothing else. -/
structure Repeating (n : Nat) (task : Task) (p : Stint) (s : State) : Prop where
  calls : ∀ c ∈ (s.share n).calls, c.waiting = .job
  activities : ∃ id, (s.share n).activities = p.activities n id task

theorem Repeating.of_share (h : Repeating n task p s) (hshare : s'.share n = s.share n) :
    Repeating n task p s' := by
  obtain ⟨hcalls, hactivities⟩ := h
  rw [← hshare] at hcalls hactivities
  exact ⟨hcalls, hactivities⟩

theorem Repeating.waits (h : Repeating n task p s) (hc : s.call? n = some c) :
    c.waiting = .job :=
  h.calls c (share_of_call? hc)

/-! ## Operations -/

theorem Repeating.finish {ended : Job.Outcome} (h : Repeating n task p s) (ha : a.call = n) :
    Repeating n task .gone (s.finish now a ended) := by
  subst ha
  unfold State.finish
  dsimp only
  generalize s.table.finish a.id (wallClock now) ended = table
  have hshare : (State.note { s.dropActivity a.call with table } .jobFinished).share a.call =
      { s.share a.call with activities := [] } := by
    rw [← share_dropActivity_self]
    exact share_congr rfl rfl rfl
  have hdropped : Repeating a.call task .gone
      (State.note { s.dropActivity a.call with table } .jobFinished) := by
    refine ⟨?_, a.id, ?_⟩
    · rw [hshare]
      exact h.calls
    · rw [hshare]
      rfl
  split
  · next c hc =>
      refine ⟨?_, a.id, ?_⟩
      · rw [answer, share_answerWith_self (number_of_call? hc)]
        exact fun _ hx => absurd hx List.not_mem_nil
      · rw [answer, share_answerWith_self (number_of_call? hc), hshare]
        rfl
  · exact hdropped

/-- A job under a number comes as far as its loop. -/
theorem Repeating.advance {step : Load.Step Load.Repeat} (h : Repeating n task p s)
    (ha : (s.share n).activities = [a]) (htask : a.task = task) :
    Repeating n task (.ofRepeat step.state) (s.advance now a (step.map .repeating)).1 := by
  have hcall : a.call = n := (mem_share_activities.mp (ha ▸ List.mem_singleton.mpr rfl)).2
  have hnoted : Repeating n task p (s.noteAll step.notes) := h.of_share (share_congr rfl rfl rfl)
  obtain ⟨r, notes, asks⟩ := step
  rcases advance_eq s now a (Load.Step.map .repeating ⟨r, notes, asks⟩) with
    ⟨outcome, hended, heq⟩ | ⟨hnone, words, heq⟩
  · rw [heq]
    cases r with
    | done => exact hnoted.finish hcall
    | cycling | broken => cases hended
  · rw [heq]
    have hreport : r.report? = none := Option.map_eq_none_iff.mp hnone
    refine ⟨hnoted.calls, a.id, ?_⟩
    refine (share_putActivity_self (s := s.noteAll notes)
      (a := { a with shape := some (.repeating r) }) hcall).trans ?_
    have hone : ((s.noteAll notes).share n).activities = [a] := ha
    rw [hone, Stint.activities_ofRepeat n a.id task hreport, ← hcall, ← htask]
    rfl

theorem Repeating.abandon (h : Repeating n task p s) :
    Repeating n task p (s.abandon n) ∨ Repeating n task .gone (s.abandon n) := by
  unfold State.abandon
  split
  · refine Or.inr ⟨?_, ⟨0⟩, ?_⟩
    · rw [share_dropActivity_self, share_dropCall_self]
      exact fun _ hc => absurd hc List.not_mem_nil
    · rw [share_dropActivity_self]
      rfl
  · exact Or.inl h

/-! ## Events -/

/-- A cycle that succeeds leaves its block behind, and no other signal leaves anything. -/
theorem leaked_yield {signal : Load.Signal} (hwork : a.task.work = .repeats cadence (.leak bytes)) :
    (s.yield now a signal).leaked = s.leaked ++ List.replicate signal.won bytes := by
  have hnone : s.leaked = s.leaked ++ [] := (List.append_nil _).symm
  unfold yield
  rw [hwork]
  cases signal with
  | worked worker failed =>
      cases failed with
      | false => rfl
      | true => exact hnone
  | _ => exact hnone

theorem blocksAt_of_steady (h : Steady s (s.handle now event).1) : s.blocksAt (now, event) = [] :=
  blocksAt_of_eq (h.leaked.trans (List.append_nil _).symm)

/-- A job that has not begun begins. -/
theorem Repeating.begins (h : Repeating n task .waiting s) (now : Instant)
    (hgoing : ¬ s.hasEnded = true) (hwork : task.work = .repeats cadence chore) :
    Repeating n task (.ofRepeat ((task.loop cadence).start now).state) (s.handle now (.begin n)).1 ∧
      s.blocksAt (now, .begin n) = [] := by
  obtain ⟨id, hone⟩ := h.activities
  have hbegin : task.work.begin now = (Load.Repeat.start cadence now).map .repeating := by
    rw [hwork]
    rfl
  have hhandle : s.handle now (.begin n) =
      s.advance now { call := n, id, task } ((Load.Repeat.start cadence now).map .repeating) := by
    rw [handle_begin hgoing (activity?_of_share hone), ← hbegin]
    rfl
  refine ⟨?_, blocksAt_of_steady ?_⟩
  · rw [hhandle]
    exact h.advance hone rfl
  · rw [hhandle]
    exact steady_advance

/-- A job that has begun goes on with a signal that its loop waits for. -/
theorem Repeating.hears {loop : Load.Cycling} {signal : Load.Signal} {step : Load.Step Load.Repeat}
    (h : Repeating n task (.looping loop) s) (hgoing : ¬ s.hasEnded = true)
    (hwork : task.work = .repeats cadence (.leak bytes))
    (hstep : (task.loop cadence).step (.cycling loop) now signal = some step) :
    Repeating n task (.ofRepeat step.state) (s.handle now (.signal n signal)).1 ∧
      s.blocksAt (now, .signal n signal) = List.replicate signal.won bytes := by
  obtain ⟨id, hone⟩ := h.activities
  have ha : s.activity? n =
      some { call := n, id, task, shape := some (.repeating (.cycling loop)) } :=
    activity?_of_share hone
  generalize hjob : ({ call := n, id, task, shape := some (.repeating (.cycling loop)) } : Activity)
    = a at ha
  have hloop : (a.shape.bind fun shape => shape.step a.task.noteName now signal) =
      some (step.map .repeating) := by
    rw [← hjob]
    exact congrArg (Option.map (Load.Step.map Load.Shape.repeating)) hstep
  have hhandle : (s.handle now (.signal n signal)).1 =
      ((s.yield now a signal).advance now a (step.map .repeating)).1 := by
    rw [handle_signal hgoing, hear, ha]
    dsimp only
    rw [heed, hloop]
  refine ⟨?_, blocksAt_of_eq ?_⟩
  · rw [hhandle]
    refine (h.of_share share_yield).advance ?_ (by rw [← hjob])
    rw [share_yield, hone, ← hjob]
    rfl
  · rw [hhandle, steady_advance.leaked, leaked_yield (by rw [← hjob]; exact hwork)]

/-- What an event of its own can make of a job that leaks. -/
def Advances (n : Nat) (task : Task) (cadence : Load.Cadence) (bytes : Nat) (p : Stint) (s : State)
    (now : Instant) (event : Event) : Prop :=
  ∃ p' won, Moves (task.loop cadence) now p p' won ∧ Repeating n task p' (s.handle now event).1 ∧
    s.blocksAt (now, event) = List.replicate won bytes

theorem Repeating.stays (h : Repeating n task p s) (hsame : (s.handle now event).1 = s) :
    Advances n task cadence bytes p s now event := by
  have hsteady : Steady s (s.handle now event).1 := hsame.symm ▸ Steady.refl
  exact ⟨p, 0, .stays, hsame.symm ▸ h, blocksAt_of_steady hsteady⟩

/-- What an event of its own makes of a job is a matter of its loop. -/
theorem Repeating.handle (h : Repeating n task p s)
    (hwork : task.work = .repeats cadence (.leak bytes))
    (hown : event.call? = some n) (harrive : ∀ request, event ≠ .arrive n request) :
    Advances n task cadence bytes p s now event := by
  by_cases hended : s.hasEnded = true
  · exact h.stays (by rw [handle_of_ended hended])
  obtain ⟨id, hone⟩ := h.activities
  have hactivity : s.activity? n = (p.activities n id task).head? := by
    rw [activity?_eq_head?, hone]
  have hhandles := s.handles now event
  generalize hhandle : (s.handle now event).1 = s' at hhandles
  cases hhandles with
  | nothing => exact h.stays hhandle
  | @arrives number request =>
      obtain rfl : number = n := Option.some.inj hown
      exact absurd rfl (harrive request)
  | @leaves number =>
      obtain rfl : number = n := Option.some.inj hown
      have hnone : s.blocksAt (now, .leave number) = [] :=
        blocksAt_of_steady (hhandle ▸ steady_abandon)
      rcases h.abandon with hstays | hleaves
      · exact ⟨p, 0, .stays, hhandle ▸ hstays, hnone⟩
      · exact ⟨.gone, 0, .leaves, hhandle ▸ hleaves, hnone⟩
  | @wakes number c hc =>
      obtain rfl : number = n := Option.some.inj hown
      refine h.stays (hhandle.trans ?_)
      rw [wake, h.waits hc]
  | @learns number finding c hc =>
      obtain rfl : number = n := Option.some.inj hown
      refine h.stays (hhandle.trans ?_)
      rw [learn, h.waits hc]
  | @connects number signal c kind workload task' _ hc hwaiting =>
      obtain rfl : number = n := Option.some.inj hown
      rw [h.waits hc] at hwaiting
      cases hwaiting
  | @begins number a ha hshape =>
      obtain rfl : number = n := Option.some.inj hown
      cases p with
      | waiting =>
          obtain ⟨hbegun, hnone⟩ := h.begins now hended hwork
          exact ⟨_, 0, .begins, hbegun, hnone⟩
      | looping | broken =>
          obtain rfl := Option.some.inj (ha.symm.trans hactivity)
          cases hshape
      | gone =>
          rw [hactivity] at ha
          cases ha
  | @heeds number signal a ha =>
      obtain rfl : number = n := Option.some.inj hown
      cases p with
      | waiting | broken =>
          obtain rfl := Option.some.inj (ha.symm.trans hactivity)
          exact h.stays hhandle
      | looping loop =>
          cases hstep : (task.loop cadence).step (.cycling loop) now signal with
          | some step =>
              obtain ⟨hgoes, hblocks⟩ := h.hears hended hwork hstep
              exact ⟨_, _, .goes hstep, hgoes, hblocks⟩
          | none =>
              have hloop : (Load.Shape.repeating (.cycling loop)).step task.noteName now signal =
                  none := congrArg (Option.map (Load.Step.map Load.Shape.repeating)) hstep
              obtain rfl := Option.some.inj (ha.symm.trans hactivity)
              refine h.stays (hhandle.trans ?_)
              rw [heed]
              simp only [Option.bind_some, hloop]
      | gone =>
          rw [hactivity] at ha
          cases ha
  | exits => cases hown

/-- A job that starts is the only one under its number, and begins at once for a caller who
    waits. -/
theorem repeating_start (hnew : (s.share c.number).activities = [])
    (hwork : task.work = .repeats cadence chore) :
    Repeating c.number task (.initial (task.loop cadence) now task.mode)
      (s.start now c none task).1 := by
  have hbegin : task.work.begin now = (Load.Repeat.start cadence now).map .repeating := by
    rw [hwork]
    rfl
  unfold start
  dsimp only
  split
  · next hmode =>
      rw [State.begin, hbegin, hmode]
      refine Repeating.advance (p := .waiting) ⟨?_, _, activities_share_enter rfl hnew rfl⟩
        (activities_share_enter rfl hnew rfl) rfl
      rw [share_wait_self rfl]
      intro x hx
      rw [List.mem_singleton.mp hx]
  · next hmode =>
      rw [hmode]
      refine ⟨?_, ?_⟩
      · rw [answer, share_answerWith_self rfl]
        exact fun _ hx => absurd hx List.not_mem_nil
      · rw [answer, share_answerWith_self rfl]
        exact ⟨_, activities_share_enter rfl hnew rfl⟩

/-! ## Every run -/

/-- The blocks that a job leaves behind are no more than cycles that keep their distance: each of
    them has a time before the end. -/
theorem Repeating.blocks_lt (h : Repeating n task p s)
    (hwork : task.work = .repeats ⟨d, i⟩ (.leak bytes)) (hi : i ≤ farFuture)
    (hapart : p.Apart d i t won) (horder : (t :: events.map Prod.fst).Pairwise (· ≤ ·))
    (hlast : ∀ e ∈ events, e.1 ≤ lastInstant)
    (honce : ∀ e ∈ events, ∀ request, e.2 ≠ .arrive n request) :
    ∃ gained, blocksBy n s events = List.replicate gained bytes ∧
      ∀ k < won + gained, k * i < d := by
  induction events generalizing s p t won with
  | nil => exact ⟨0, rfl, hapart.bound⟩
  | cons e events ih =>
      obtain ⟨now, event⟩ := e
      obtain ⟨hlater, hrest⟩ := List.pairwise_cons.mp horder
      have hle : t ≤ now := hlater now List.mem_cons_self
      have hnow : now ≤ lastInstant := hlast _ List.mem_cons_self
      have hlast' := fun x hx => hlast x (List.mem_cons_of_mem _ hx)
      have honce' := fun x hx => honce x (List.mem_cons_of_mem _ hx)
      rw [blocksBy]
      by_cases hown : event.call? = some n
      · obtain ⟨p', first, hmoves, hrepeating, hblocks⟩ :=
          h.handle hwork hown (honce _ List.mem_cons_self)
        obtain ⟨more, hmore, hbound⟩ :=
          ih hrepeating (hmoves.apart hi hapart hle hnow) hrest hlast' honce'
        refine ⟨first + more, ?_, fun k hk => hbound k (Nat.add_assoc .. ▸ hk)⟩
        rw [if_pos hown, hblocks, hmore, List.replicate_append_replicate]
      · obtain ⟨more, hmore, hbound⟩ :=
          ih (h.of_share (share_handle hown)) (hapart.mono hle) hrest hlast' honce'
        exact ⟨more, by rw [if_neg hown, hmore, List.nil_append], hbound⟩

/-! ## One run of a loop -/

/-- The last of some events among others. -/
theorem exists_split_of_filter {α : Type} {f : α → Bool} {l xs : List α} {x : α}
    (h : l.filter f = xs ++ [x]) : ∃ before after,
      l = before ++ x :: after ∧ before.filter f = xs ∧ f x = true ∧ ∀ y ∈ after, f y = false := by
  obtain ⟨before, rest, rfl, hbefore, hrest⟩ := List.filter_eq_append_iff.mp h
  obtain ⟨between, after, rfl, hbetween, hx, hafter⟩ := List.filter_eq_cons_iff.mp hrest
  refine ⟨before ++ between, after, (List.append_assoc ..).symm, ?_, hx, ?_⟩
  · rw [List.filter_append, hbefore, List.filter_eq_nil_iff.mpr hbetween, List.append_nil]
  · exact fun y hy => Bool.eq_false_of_not_eq_true (List.filter_eq_nil_iff.mp hafter y hy)

/-- The events of a call, each at its instant. -/
def eventsOf (n : Nat) (events : List (Instant × Event)) : List (Instant × Event) :=
  events.filter fun e => e.2.call? = some n

/-- What a job has come to by a run, and the blocks that it has left behind. -/
structure Reaches (n : Nat) (task : Task) (p : Stint) (blocks : List Nat) (s : State)
    (events : List (Instant × Event)) : Prop where
  repeating : Repeating n task p (s.run events)
  blocks : blocksBy n s events = blocks

theorem Repeating.reaches_of_others (h : Repeating n task p s) (hnone : eventsOf n events = []) :
    Reaches n task p [] s events := by
  have hothers : ∀ e ∈ events, e.2.call? ≠ some n :=
    fun e he hown => List.filter_eq_nil_iff.mp hnone e he (decide_eq_true hown)
  exact ⟨h.of_share (share_run hothers), blocksBy_of_others hothers⟩

/-- One event of the job's own, and events of others behind it. -/
theorem Reaches.next {before after : List (Instant × Event)} {e : Instant × Event} {p' : Stint}
    {blocks : List Nat} (h : Reaches n task p blocks s before) (hown : e.2.call? = some n)
    (hnext : Repeating n task p' ((s.run before).handle e.1 e.2).1)
    (hafter : ∀ x ∈ after, x.2.call? ≠ some n) :
    Reaches n task p' (blocks ++ (s.run before).blocksAt e) s (before ++ e :: after) := by
  refine ⟨?_, ?_⟩
  · rw [run_append, run_cons]
    exact hnext.of_share (share_run hafter)
  · rw [blocksBy_append, h.blocks, blocksBy, if_pos hown, blocksBy_of_others hafter,
      List.append_nil]

/-- A job whose events are those of a run of its loop comes as far as the loop, and leaves a block
    behind for every cycle that succeeds. -/
theorem Repeating.follows {h : List Load.Beat} {r : Load.Repeat}
    (run : Load.Run (task.loop cadence) t₀ h now r)
    (hstart : Repeating n task (.initial (task.loop cadence) t₀ task.mode) s)
    (hwork : task.work = .repeats cadence (.leak bytes)) (hgoing : s.hasEnded = false)
    (hexit : ∀ e ∈ events, e.2 ≠ .exit)
    (hown : eventsOf n events = h.filterMap (beatEvent? n task.mode)) :
    Reaches n task (.ofRepeat r) (List.replicate (Load.wonIn h) bytes) s events := by
  induction run generalizing events with
  | start =>
      cases hmode : task.mode with
      | sync =>
          rw [hmode] at hstart hown
          exact hstart.reaches_of_others hown
      | async =>
          rw [hmode] at hstart hown
          have hfirst : eventsOf n events = [] ++ [(t₀, .begin n)] := hown
          obtain ⟨before, after, rfl, hbefore, -, hafter⟩ := exists_split_of_filter hfirst
          have hwaits := hstart.reaches_of_others hbefore
          have hlives : ¬ (s.run before).hasEnded = true := by
            rw [hasEnded_run fun e he => hexit e (List.mem_append_left _ he), hgoing]
            exact Bool.false_ne_true
          obtain ⟨hbegun, hnone⟩ := hwaits.repeating.begins t₀ hlives hwork
          have hnext := hwaits.next (e := (t₀, .begin n)) rfl hbegun
            fun x hx => of_decide_eq_false (hafter x hx)
          rw [hnone] at hnext
          exact hnext
  | @tell h t now r signal step run hle hstep ih =>
      have hsplit : eventsOf n events = h.filterMap (beatEvent? n task.mode) ++
          [(now, .signal n signal)] := by
        rw [hown, List.filterMap_append]
        rfl
      obtain ⟨before, after, rfl, hbefore, -, hafter⟩ := exists_split_of_filter hsplit
      have hexit' : ∀ e ∈ before, e.2 ≠ .exit := fun e he => hexit e (List.mem_append_left _ he)
      have hlives : ¬ (s.run before).hasEnded = true := by
        rw [hasEnded_run hexit', hgoing]
        exact Bool.false_ne_true
      have hreached := ih hexit' hbefore
      cases r with
      | done | broken => exact nomatch hstep
      | cycling loop =>
          obtain ⟨hgoes, hblocks⟩ := hreached.repeating.hears hlives hwork hstep
          have hnext := hreached.next (e := (now, .signal n signal)) rfl hgoes
            fun x hx => of_decide_eq_false (hafter x hx)
          rw [hblocks, List.replicate_append_replicate] at hnext
          rw [Load.wonIn_snoc]
          exact hnext

end State

end Havoc.Service
