import Havoc.Load.Rehearsal
import Havoc.Proofs.Load.Throughput

/-! # A ramp in a rehearsal

    What is said of smooth runs holds of a ramp in a rehearsal whose script loses no time: there
    the timers of the service answer, in the order in which they are due, and nothing else does.

    A ramp in a rehearsal is heard and then told something, one ask after the other.  `OnPlan` is
    the moment before it is heard, and says that its run so far is smooth; each such round is two
    things that happen and keeps it (`OnPlan.round`).  So the rehearsal is one smooth run, which
    comes to an end and gives the report of the plan (`ramp_rehearses`). -/

namespace Havoc

namespace Course

variable {σ ε : Type} {handle : Handler σ ε} {now due limit : Instant} {state state' : σ}
  {event signal : ε} {next : List ε}

/-- When nothing else is to happen, the clock moves on to the one entry of the agenda. -/
theorem step?_of_entry {e : Entry ε} (hlater : now < e.due) (hlimit : e.due ≤ limit) :
    Course.step? handle limit ⟨now, state, [], [], [], ⟨[e]⟩⟩ =
      some (Course.happen handle ⟨e.due, state, [], [], [], {}⟩ e.event) := by
  have hpresent : (⟨[e]⟩ : Agenda ε).dueBy? now = none := if_neg (Nat.not_le.mpr hlater)
  have hfuture : (⟨[e]⟩ : Agenda ε).dueBy? limit = some (e, {}) := if_pos hlimit
  have hnone : Course.present? ⟨now, state, [], [], [], ⟨[e]⟩⟩ = none := by
    rw [present?]
    simp only [hpresent]
  have hsome : Course.future? limit ⟨now, state, [], [], [], ⟨[e]⟩⟩ =
      some (e.event, ⟨e.due, state, [], [], [], {}⟩) := by
    rw [future?, if_neg (Nat.not_le.mpr (Nat.lt_of_lt_of_le hlater hlimit))]
    simp only [hfuture, Option.map_some]
  rw [step?, hnone, hsome]
  rfl

/-- What a timer brings happens when the timer goes off, if nothing else is to happen before. -/
theorem step?_timed (hhandle : handle now event state = Reaction.timed state' now (.at due) signal)
    (hfirst : due ≤ now ∨ next = []) (hlimit : (Timing.at due).comes now ≤ limit) :
    ∃ c : Course σ ε, c.state = state' ∧
      Course.step? handle limit ⟨now, state, event :: next, [], [], {}⟩ = some c ∧
      c.step? handle limit =
        some (Course.happen handle ⟨(Timing.at due).comes now, state', next, [], [], {}⟩ signal) := by
  by_cases hpast : due ≤ now
  · have htimed : handle now event state = { state := state', next := [signal] } :=
      hhandle.trans (if_pos hpast)
    have hcomes : (Timing.at due).comes now = now := if_pos hpast
    refine ⟨⟨now, state', signal :: next, [], [], {}⟩, rfl, ?_, ?_⟩
    · show some (Course.happen handle ⟨now, state, next, [], [], {}⟩ event) = _
      rw [Course.happen, htimed]
      rfl
    · rw [hcomes]
      rfl
  · have htimed : handle now event state = { state := state', later := [{ due, event := signal }] } :=
      hhandle.trans (if_neg hpast)
    have hcomes : (Timing.at due).comes now = Agenda.wholeMillis due := if_neg hpast
    have hlater : now < Agenda.wholeMillis due :=
      Nat.lt_of_lt_of_le (Nat.lt_of_not_le hpast) (Agenda.le_wholeMillis due)
    obtain rfl : next = [] := hfirst.resolve_left hpast
    rw [hcomes] at hlimit ⊢
    refine ⟨⟨now, state', [], [], [], ⟨[{ due := Agenda.wholeMillis due, event := signal }]⟩⟩, rfl,
      ?_, step?_of_entry hlater hlimit⟩
    show some (Course.happen handle ⟨now, state, [], [], [], {}⟩ event) = _
    rw [Course.happen, htimed]
    rfl

theorem runUntil_of_step? {isDone : σ → Bool} {c c' : Course σ ε} (hmore : isDone c.state = false)
    (hstep : c.step? handle limit = some c') (fuel : Nat) :
    c.runUntil handle isDone limit (fuel + 1) = c'.runUntil handle isDone limit fuel := by
  rw [runUntil, hmore, hstep]
  rfl

end Course

namespace Load

/-- A script that loses no time and lets no opening fail. -/
structure Script.Prompt (s : Script) : Prop where
  opens : ∀ worker n, s.openCourse worker n = (0, .opened ⟨worker, n⟩)
  closes : s.closeMs = 0

theorem Script.prompt_default : ({} : Script).Prompt where
  opens worker n := by simp [openCourse, inTurn, isEvery, Span.ofMillis]
  closes := rfl

variable {name : String} {p : Plan} {lag : Span} {t₀ t now limit : Instant} {h : List Beat}
  {r : Ramp} {ask : Ask} {rest : List Ask}

namespace Ramp

/-- A ramp whose first ask is answered waits for the others, and for what it asks for now. -/
theorem pending_step {signal : Signal} {next : Step Ramp} (hpending : r.pending = ask :: rest)
    (hprompt : Prompts lag t ask now signal) (hstep : r.step name now signal = some next) :
    next.state.pending = next.asks ++ rest := by
  rw [pending] at hpending
  cases step_moves hstep with
  | tick hstage =>
      rw [hstage] at hpending
      obtain rfl : rest = [] := (List.cons.inj hpending).2.symm
      rw [List.append_nil, tick]
      split <;> rfl
  | lapse hstage =>
      rw [hstage] at hpending
      obtain rfl : rest = [] := (List.cons.inj hpending).2.symm
      rfl
  | @gain ws resource hstage =>
      rw [hstage] at hpending
      obtain ⟨worker, others, rfl, hfirst, rfl⟩ := List.map_eq_cons_iff.mp hpending
      subst hfirst
      cases hprompt
      rw [settle, List.erase_cons_head]
      cases others with
      | nil =>
          simp only [List.isEmpty_nil, Bool.not_true, Bool.false_eq_true, if_false, List.map_nil,
            List.append_nil]
          split <;> rfl
      | cons _ _ => rfl
  | lose hstage hmem hfail => cases hprompt <;> cases hfail
  | release hstage =>
      rw [hstage] at hpending
      obtain rfl : rest = [] := (List.cons.inj hpending).2.symm
      rw [List.append_nil, close]
      split
      · next hheld => rw [pending, hheld]; rfl
      · rfl
  | part hstage hheld =>
      rw [hstage, hheld] at hpending
      obtain rfl : rest = [] := (List.cons.inj hpending).2.symm
      rw [List.append_nil, close]
      split
      · next hrest => rw [pending, hrest]; rfl
      · rfl
  | jam => cases hprompt

theorem pending_start (p : Plan) (now : Instant) :
    (Ramp.start p now).state.pending = (Ramp.start p now).asks := by
  rw [Ramp.start]
  split <;> rfl

/-- With a plan of whole milliseconds all timers are due at whole ones. -/
theorem Smooth.whole_millis (hlag : lag < 1000000) (hd : 1000000 ∣ p.duration)
    (hi : 1000000 ∣ p.interval) (hfits : t₀ + p.duration ≤ lastInstant) (ht₀ : 1000000 ∣ t₀)
    (hs : Smooth name p lag t₀ h now r) :
    1000000 ∣ r.deadline ∧ (r.stage = .ticking → 1000000 ∣ r.due) := by
  have hdeadline : r.deadline = t₀ + p.duration :=
    (sound_of_run hs.run).books.deadline.trans (if_pos hfits)
  refine ⟨hdeadline ▸ Nat.dvd_add ht₀ hd, fun hstage => ?_⟩
  have hst := hs.standing hlag hd hi hfits
  rw [Standing, hstage] at hst
  obtain ⟨k, ht⟩ := hst
  rw [ht.due]
  exact Nat.dvd_add ht₀ (Dvd.dvd.mul_right (Plan.period_dvd hi) k)

end Ramp

namespace Rehearsal

variable {x : Rehearsal} {c : Course Rehearsal Happening}

/-- What a ramp asks for comes when a timer goes off, and comes promptly; nothing else is still
    to be heard if the timer is not due. -/
theorem hear_timed (hscript : x.script.Prompt) (hpending : r.pending = ask :: rest)
    (hend : 1000000 ∣ r.deadline) (hdue : r.stage = .ticking → 1000000 ∣ r.due) :
    ∃ due signal number trace,
      x.hear now ask = .timed { x with trace } now (.at due) (.signal signal number) ∧
      Prompts lag now ask ((Timing.at due).comes now) signal ∧ (due ≤ now ∨ rest = []) := by
  have hnow : (Timing.at (now + 0)).comes now = now := if_pos (Nat.le_refl now)
  rw [Ramp.pending] at hpending
  cases hstage : r.stage with
  | ticking =>
      rw [hstage] at hpending
      obtain ⟨rfl, rfl⟩ := List.cons.inj hpending
      obtain ⟨first, signal, htimer, hprompt⟩ :=
        @Prompts.of_ticking lag now r.due r.deadline (.inr (hdue hstage)) (.inr hend)
      refine ⟨first, signal, 0, x.trace, ?_, hprompt, .inr rfl⟩
      rw [hear, htimer]
  | opening ws =>
      rw [hstage] at hpending
      obtain ⟨worker, others, -, rfl, rfl⟩ := List.map_eq_cons_iff.mp hpending
      refine ⟨now + 0, .opened ⟨worker, x.trace.attempts + 1⟩, x.trace.attempts + 1,
        { x.trace with attempts := x.trace.attempts + 1 }, ?_, ?_, .inl (Nat.le_refl now)⟩
      · simp only [hear, Ask.timer?, Trace.start, hscript.opens]
      · rw [hnow]
        exact @Prompts.opened lag now ⟨worker, x.trace.attempts + 1⟩
  | holding =>
      rw [hstage] at hpending
      obtain ⟨rfl, rfl⟩ := List.cons.inj hpending
      exact ⟨r.deadline, .lapsed, 0, x.trace, rfl, Prompts.of_lapsing (.inr hend), .inr rfl⟩
  | closing =>
      rw [hstage] at hpending
      cases hheld : r.held with
      | nil =>
          rw [hheld] at hpending
          cases hpending
      | cons first others =>
          rw [hheld] at hpending
          obtain ⟨rfl, rfl⟩ := List.cons.inj hpending
          refine ⟨now + 0, .closed first, 0, x.trace, ?_, ?_, .inr rfl⟩
          · simp only [hear, Ask.timer?, Trace.start, hscript.closes]
            rfl
          · rw [hnow]
            exact .closed
  | done elapsed =>
      rw [hstage] at hpending
      cases hpending
  | broken =>
      rw [hstage] at hpending
      cases hpending

/-- A rehearsal of a ramp before the ramp is heard: its run so far is smooth, and nothing else is
    to happen than that it is heard. -/
structure OnPlan (p : Plan) (h : List Beat) (r : Ramp) (c : Course Rehearsal Happening) : Prop where
  prompt : c.state.script.Prompt
  shape : c.state.shape = .ramping r
  smooth : Ramp.Smooth label p 0 startup h c.now r
  idle : c = ⟨c.now, c.state, r.pending.map .ask, [], [], {}⟩

/-- A ramp is over when it has a report. -/
theorem isOver_ramping (hshape : x.shape = .ramping r) : x.isOver = r.report?.isSome := by
  rw [isOver, hshape]
  show (r.report?.map _).isSome = _
  exact Option.isSome_map

theorem OnPlan.runUntil_eq {fuel : Nat} {report : RampReport} (hc : OnPlan p h r c)
    (hreport : r.report? = some report) : c.runUntil handle isOver limit fuel = c := by
  have hdone : c.state.isOver = true := by
    rw [isOver_ramping hc.shape, hreport]
    rfl
  cases fuel with
  | zero => rfl
  | succ fuel => rw [Course.runUntil, if_pos hdone]

/-- A ramp that is told something takes its step, and is then heard. -/
theorem tells {signal : Signal} {number : Nat} {next : Step Ramp} (hshape : x.shape = .ramping r)
    (hstep : r.step label now signal = some next) :
    ∃ state : Rehearsal, state.script = x.script ∧ state.shape = .ramping next.state ∧
      Course.happen handle ⟨now, x, rest.map .ask, [], [], {}⟩ (.signal signal number) =
        ⟨now, state, (next.asks ++ rest).map .ask, [], [], {}⟩ := by
  have hmachine : x.shape.step label now signal = some (next.map .ramping) := by
    rw [hshape]
    show (r.step label now signal).map _ = _
    rw [hstep, Option.map_some]
  refine ⟨{ x with
    trace := x.trace.settle now number signal, shape := .ramping next.state
    registry := x.registry.noteAll next.notes }, rfl, rfl, ?_⟩
  simp only [Course.happen, handle, hmachine]
  rw [List.map_append]
  rfl

section

variable (hd : 1000000 ∣ p.duration) (hi : 1000000 ∣ p.interval)
  (hfits : startup + p.duration ≤ lastInstant) (hlimit : startup + p.duration ≤ limit)

include hd hi hfits hlimit

/-- A ramp that is not over is heard and then told something. -/
theorem OnPlan.round (hc : OnPlan p h r c) (hon : r.report? = none) :
    ∃ b r' c', OnPlan p (h ++ [b]) r' c' ∧ ∀ fuel,
      c.runUntil handle isOver limit (fuel + 2) = c'.runUntil handle isOver limit fuel := by
  obtain ⟨now, x, next, aside, slow, agenda⟩ := c
  obtain ⟨hscript, hshape, hs, hidle⟩ := hc
  cases hidle
  dsimp only at hscript hshape hs
  obtain ⟨hend, hdue⟩ := hs.whole_millis (by decide) hd hi hfits (by decide)
  obtain ⟨ask, hask, -⟩ := hs.awaits (hs.standing (by decide) hd hi hfits) hon
  obtain ⟨first, rest, hpending⟩ := List.exists_cons_of_ne_nil (List.ne_nil_of_mem hask)
  -- the first ask is heard, and a timer brings the signal that answers it
  obtain ⟨due, signal, number, trace, hhear, hprompt, hfirst⟩ :=
    hear_timed hscript hpending hend hdue
  have hmem : first ∈ r.pending := hpending ▸ List.mem_cons_self
  obtain ⟨step, hstep⟩ := Ramp.takes_iff.mpr ⟨first, hmem, hprompt.answers.2⟩
  have hs' := hs.tell hmem hprompt hstep
  have hsoon : (Timing.at due).comes now ≤ limit :=
    Nat.le_trans (hs'.standing (by decide) hd hi hfits).now_le hlimit
  have hhandle : handle now (.ask first) x =
      .timed { x with trace } now (.at due) (.signal signal number) := hhear
  have hnext : due ≤ now ∨ rest.map Happening.ask = [] :=
    hfirst.imp_right fun hnil => List.map_eq_nil_iff.mpr hnil
  obtain ⟨c', hstate, hheard, htold⟩ := Course.step?_timed hhandle hnext hsoon
  obtain ⟨x', hscript', hshape', htells⟩ :=
    @tells ((Timing.at due).comes now) r rest { x with trace } signal number step hshape hstep
  rw [htells, ← Ramp.pending_step hpending hprompt hstep] at htold
  have hmore : x.isOver = false := by rw [isOver_ramping hshape, hon]; rfl
  have hmore' : c'.state.isOver = false := by
    rw [hstate, isOver_ramping (show ({ x with trace } : Rehearsal).shape = _ from hshape), hon]
    rfl
  refine ⟨_, step.state,
    ⟨(Timing.at due).comes now, x', step.state.pending.map .ask, [], [], {}⟩,
    ⟨hscript'.symm ▸ hscript, hshape', hs', rfl⟩, fun fuel => ?_⟩
  rw [hpending, List.map_cons, Course.runUntil_of_step? hmore hheard,
    Course.runUntil_of_step? hmore' htold]

/-- A rehearsal goes on, round after round, until the ramp is over. -/
theorem OnPlan.ends {left fuel : Nat} (hc : OnPlan p h r c)
    (hleft : 3 + p.batches + 2 * p.total ≤ h.length + left) (hfuel : 2 * left ≤ fuel) :
    ∃ h' r' report, OnPlan p h' r' (c.runUntil handle isOver limit fuel) ∧
      r'.report? = some report := by
  induction left generalizing h r c fuel with
  | zero =>
      cases hover : r.report? with
      | some report => exact ⟨h, r, report, (hc.runUntil_eq hover).symm ▸ hc, hover⟩
      | none =>
          obtain ⟨b, r', c', hc', -⟩ := hc.round hd hi hfits hlimit hover
          have hbeats := (hc'.smooth.standing (by decide) hd hi hfits).beats_le
          rw [List.length_append, List.length_singleton] at hbeats
          omega
  | succ left ih =>
      cases hover : r.report? with
      | some report => exact ⟨h, r, report, (hc.runUntil_eq hover).symm ▸ hc, hover⟩
      | none =>
          obtain ⟨b, r', c', hc', hround⟩ := hc.round hd hi hfits hlimit hover
          obtain ⟨fuel', rfl⟩ := Nat.exists_eq_add_of_le' (Nat.le_trans (Nat.le_add_left 2 _) hfuel)
          rw [hround]
          refine ih hc' ?_ (Nat.le_of_add_le_add_right hfuel)
          rw [List.length_append, List.length_singleton]
          omega

end

/-- A ramp that starts in a rehearsal has still to be heard. -/
theorem OnPlan.start {script : Script} (hscript : script.Prompt) :
    OnPlan p [(Ramp.start p startup).beat startup none] (Ramp.start p startup).state
      (start script ((Ramp.start p startup).map .ramping)) :=
  ⟨hscript, rfl, .start, by rw [Ramp.pending_start]; rfl⟩

/-- **A REHEARSAL OF A RAMP KEEPS TO ITS PLAN.**  On a script that loses no time and lets no
    opening fail, with a plan of whole milliseconds and someone who does not give up before the
    deadline, the timers of the service take a ramp through a smooth run to its end.  What comes
    of it is what its plan allows: all is opened that the ticks before the deadline allow, nothing
    fails, and it lasts for its duration. -/
theorem ramp_rehearses {script : Script} {giveUp : Instant} (hscript : script.Prompt)
    (hd : 1000000 ∣ p.duration) (hi : 1000000 ∣ p.interval)
    (hfits : startup + p.duration ≤ lastInstant) (hgiveUp : startup + p.duration ≤ giveUp)
    (hpatience : 2 * (2 + p.batches + 2 * p.total) ≤ patience) :
    let c := run (start script ((Ramp.start p startup).map .ramping)) giveUp
    c.state.shape.outcome? = some (.ok (RampReport.value ⟨p.total, 0, p.total, p.duration⟩)) ∧
      ∃ h r, c.state.shape = .ramping r ∧ Ramp.Smooth label p 0 startup h c.now r ∧
        h.filterMap Beat.batch? =
          (List.range p.batches).map fun k => (startup + p.period * k, p.share k) := by
  have hleft : 3 + p.batches + 2 * p.total ≤
      [(Ramp.start p startup).beat startup none].length + (2 + p.batches + 2 * p.total) := by
    rw [List.length_singleton]
    omega
  obtain ⟨h, r, report, hc, hreport⟩ :=
    (OnPlan.start hscript).ends hd hi hfits hgiveUp hleft hpatience
  have hrun : run (start script ((Ramp.start p startup).map .ramping)) giveUp =
      (start script ((Ramp.start p startup).map .ramping)).runUntil handle isOver giveUp
        patience := by
    have hover := isOver_ramping hc.shape
    rw [hreport] at hover
    exact if_pos hover
  obtain ⟨hopened, hfailed, hpeak, hlong, hshort, hbegun⟩ :=
    hc.smooth.report (by decide) hd hi hfits hreport
  have hplan : report = ⟨p.total, 0, p.total, p.duration⟩ := by
    cases report
    simp only [RampReport.mk.injEq]
    exact ⟨hopened, hfailed, hpeak.trans hopened, Nat.le_antisymm hshort hlong⟩
  rw [hrun]
  refine ⟨?_, h, r, hc.shape, hc.smooth, hbegun.exact⟩
  rw [hc.shape]
  show r.report?.map _ = _
  rw [hreport, hplan, Option.map_some]

/-- Two resources at each of two ticks, on a script that says nothing. -/
theorem ramp_rehearses_two_ticks :
    (run (start {} ((Ramp.start ⟨10, 2, 0, Span.ofMillis 200⟩ startup).map .ramping))
      lastInstant).state.shape.outcome? =
      some (.ok (RampReport.value ⟨4, 0, 4, Span.ofMillis 200⟩)) :=
  (ramp_rehearses Script.prompt_default (by decide) (by decide) (by decide) (by decide)
    (by decide)).1

end Rehearsal

end Load
end Havoc
