import Havoc.Proofs.Load.Cadence

/-! # How many cycles fit

    A loop rests at least an interval between two cycles and begins none behind its
    deadline.  So cycles with an interval of `i` in a time `d` are no more than there
    are `k` with `k * i < d`, however long each takes and whichever fail.  The route:
    `Cycling.Spaced` says that each cycle begins an interval later than the one before
    it, and `Repeat.Counts` accounts for the cycles that have succeeded.  One step
    keeps both, so every run does (`Repeat.spaced_run`, `Repeat.counts_run`).

    When no cycle takes time the bound is met: a loop of `count` intervals has `count`
    cycles, also when it starts between two whole milliseconds (`Repeat.paced_at_once`). -/

namespace Havoc

theorem lt_add_of_lt_deadlineAfter {start t : Instant} {span : Span}
    (h : t < deadlineAfter start span) (ht : t ≤ lastInstant) : t < start + span := by
  rw [deadlineAfter] at h
  split at h
  · exact h
  · next hlong => exact Nat.lt_of_le_of_lt ht (Nat.lt_of_not_le hlong)

/-- A deadline is not early, unless its span is cut to thirty years. -/
theorem add_le_deadlineAfter (start : Instant) {span : Span} (h : span ≤ farFuture) :
    start + span ≤ deadlineAfter start span := by
  rw [deadlineAfter]
  split
  · exact Nat.le_refl _
  · exact Nat.add_le_add_left h start

namespace Load

/-! ## Cycles that succeed -/

/-- The number of cycles that a signal tells the success of. -/
def Signal.won : Signal → Nat
  | worked _ false => 1
  | _ => 0

/-- The number of cycles that have succeeded in some beats. -/
def wonIn (h : List Beat) : Nat := (h.map fun b => b.told.elim 0 Signal.won).sum

variable {t₀ t now : Instant} {d i : Span} {won : Nat} {c : Cycling} {r : Repeat}
  {label : String} {cadence : Cadence} {signal : Signal} {next : Step Repeat}

theorem wonIn_snoc (h : List Beat) (b : Beat) :
    wonIn (h ++ [b]) = wonIn h + b.told.elim 0 Signal.won := by
  rw [wonIn, List.map_append, List.sum_append, List.map_singleton, List.sum_singleton]
  rfl

/-- Of the cycles of a loop some have succeeded, the others have failed, and one may be at work or
    have broken off. -/
def Repeat.Counts (won : Nat) : Repeat → Prop
  | cycling c | broken c => won + c.errors + (if c.pause = none then 1 else 0) = c.cycles
  | done report => won + report.errors = report.cycles

theorem Cycling.counts_turn {notes : List Metric.Note} (h : won + c.errors = c.cycles) :
    (Repeat.ofTurn now notes (c.turn now)).state.Counts won := by
  rw [turn]
  split
  · exact congrArg Nat.succ h
  · exact h

theorem Repeat.Counts.step (h : r.Counts won) (hstep : r.step label now signal = some next) :
    next.state.Counts (won + signal.won) := by
  cases r with
  | done | broken => exact nomatch hstep
  | cycling c =>
      obtain ⟨turn, hturn, rfl⟩ := Option.map_eq_some_iff.mp hstep
      have hcounts : won + c.errors + (if c.pause = none then 1 else 0) = c.cycles := h
      cases signal with
      | worked worker failed =>
          rw [Cycling.step] at hturn
          split at hturn
          · next hwork =>
              obtain rfl := Option.some.inj hturn
              rw [if_pos hwork.2] at hcounts
              show won + Signal.won (.worked worker failed) +
                (if failed = true then c.errors + 1 else c.errors) + 0 = c.cycles
              cases failed with
              | false =>
                  show won + 1 + c.errors = c.cycles
                  omega
              | true =>
                  show won + 0 + (c.errors + 1) = c.cycles
                  omega
          · exact nomatch hturn
      | crashed worker =>
          obtain ⟨-, hbroken⟩ := Option.ite_none_right_eq_some.mp hturn
          obtain rfl := Option.some.inj hbroken
          exact hcounts
      | rested worker =>
          rw [Cycling.step] at hturn
          split at hturn
          · next pause hpause =>
              split at hturn
              · obtain rfl := Option.some.inj hturn
                rw [hpause, if_neg nofun] at hcounts
                exact Cycling.counts_turn hcounts
              · exact nomatch hturn
          · exact nomatch hturn
      | _ => exact nomatch hturn

theorem Repeat.counts_start (cadence : Cadence) (now : Instant) :
    (start cadence now).state.Counts 0 :=
  Cycling.counts_turn rfl

/-- In every run the cycles that begin succeed, fail or are at work. -/
theorem Repeat.counts_run {h : List Beat} (run : Run (machine label cadence) t₀ h now r) :
    r.Counts (wonIn h) := by
  induction run with
  | start => exact counts_start cadence t₀
  | tell run hle hstep ih =>
      rw [wonIn_snoc]
      exact ih.step hstep

/-! ## Cycles that keep their distance -/

/-- A loop whose cycles are apart by an interval, at an instant; it started at another for a
    span. -/
structure Cycling.Spaced (t₀ : Instant) (d i : Span) (now : Instant) (c : Cycling) : Prop where
  deadline : c.deadline = deadlineAfter t₀ d
  interval : c.interval = i
  started : t₀ ≤ now
  bounded : ∀ k < c.cycles, k * i < d
  /-- The cycle that is at work did not begin before its time. -/
  working : c.pause = none → ∃ k, c.cycles = k + 1 ∧ t₀ + k * i ≤ now
  /-- No rest is over before the next cycle may begin or the deadline has come. -/
  resting : ∀ pause, c.pause = some pause → ∀ t, now ≤ t → pause.isOver t = true →
    t₀ + c.cycles * i ≤ t ∨ c.deadline ≤ t

/-- The same of a loop that may have ended. -/
def Repeat.Spaced (t₀ : Instant) (d i : Span) (now : Instant) : Repeat → Prop
  | cycling c | broken c => c.Spaced t₀ d i now
  | done report => ∀ k < report.cycles, k * i < d

theorem Pause.over_after (hi : i ≤ farFuture) {deadline : Instant} (hle : now ≤ t)
    (h : (Pause.after now i deadline).isOver t = true) : now + i ≤ t ∨ deadline ≤ t := by
  rw [Pause.after] at h
  split at h
  · next hzero => exact Or.inl (by rwa [hzero, Nat.add_zero])
  · have hwake : min (deadlineAfter now i) deadline ≤ t := of_decide_eq_true h
    rcases min_le_iff.mp hwake with hearly | hend
    · exact Or.inl (Nat.le_trans (add_le_deadlineAfter now hi) hearly)
    · exact Or.inr hend

/-- A loop that stands before its next cycle begins it in time, or ends. -/
theorem Cycling.spaced_turn {notes : List Metric.Note} (hdeadline : c.deadline = deadlineAfter t₀ d)
    (hinterval : c.interval = i) (hstarted : t₀ ≤ now) (hbounded : ∀ k < c.cycles, k * i < d)
    (hdue : t₀ + c.cycles * i ≤ now ∨ c.deadline ≤ now) (hnow : now ≤ lastInstant) :
    (Repeat.ofTurn now notes (c.turn now)).state.Spaced t₀ d i now := by
  rw [turn]
  by_cases hlt : now < c.deadline
  · rw [if_pos hlt]
    have hbegun : t₀ + c.cycles * i ≤ now := hdue.resolve_right (Nat.not_le.mpr hlt)
    have hfits : c.cycles * i < d := by
      have hend := lt_add_of_lt_deadlineAfter (hdeadline ▸ hlt) hnow
      exact Nat.lt_of_add_lt_add_left (Nat.lt_of_le_of_lt hbegun hend)
    exact {
      deadline := hdeadline
      interval := hinterval
      started := hstarted
      bounded := fun k hk => by
        rcases Nat.lt_succ_iff_lt_or_eq.mp hk with hk | rfl
        · exact hbounded k hk
        · exact hfits
      working := fun _ => ⟨c.cycles, rfl, hbegun⟩
      resting := fun _ hpause => absurd hpause.symm (Option.some_ne_none _) }
  · rw [if_neg hlt]
    exact hbounded

theorem Repeat.spaced_start (hnow : now ≤ lastInstant) :
    (start ⟨d, i⟩ now).state.Spaced now d i now :=
  Cycling.spaced_turn rfl rfl (Nat.le_refl _) (fun _ hk => absurd hk (Nat.not_lt_zero _))
    (Or.inl (Nat.le_of_eq (by rw [Nat.zero_mul, Nat.add_zero]))) hnow

/-- A loop that nothing happens to stays apart. -/
theorem Cycling.Spaced.later (h : c.Spaced t₀ d i t) (hle : t ≤ now) : c.Spaced t₀ d i now where
  deadline := h.deadline
  interval := h.interval
  started := Nat.le_trans h.started hle
  bounded := h.bounded
  working hpause := (h.working hpause).imp fun _ hk => ⟨hk.1, Nat.le_trans hk.2 hle⟩
  resting pause hpause t' ht' := h.resting pause hpause t' (Nat.le_trans hle ht')

/-- A signal at a later instant keeps the distance. -/
theorem Repeat.Spaced.step (h : r.Spaced t₀ d i t) (hi : i ≤ farFuture) (hle : t ≤ now)
    (hnow : now ≤ lastInstant) (hstep : r.step label now signal = some next) :
    next.state.Spaced t₀ d i now := by
  cases r with
  | done | broken => exact nomatch hstep
  | cycling c =>
      obtain ⟨turn, hturn, rfl⟩ := Option.map_eq_some_iff.mp hstep
      have hc : c.Spaced t₀ d i t := h
      have hstarted : t₀ ≤ now := Nat.le_trans hc.started hle
      cases signal with
      | worked worker failed =>
          rw [Cycling.step] at hturn
          split at hturn
          · next hwork =>
              obtain rfl := Option.some.inj hturn
              obtain ⟨k, hk, hbegun⟩ := hc.working hwork.2
              refine ⟨hc.deadline, hc.interval, hstarted, hc.bounded, nofun, ?_⟩
              intro pause hpause t' ht' hover
              obtain rfl := Option.some.inj hpause
              rw [hc.interval] at hover
              refine (Pause.over_after hi ht' hover).imp (fun hlater => ?_) id
              -- the rest began when the cycle did, or later
              show t₀ + c.cycles * i ≤ t'
              rw [hk, Nat.add_mul, Nat.one_mul, ← Nat.add_assoc]
              exact Nat.le_trans (Nat.add_le_add_right (Nat.le_trans hbegun hle) i) hlater
          · exact nomatch hturn
      | crashed worker =>
          obtain ⟨-, hbroken⟩ := Option.ite_none_right_eq_some.mp hturn
          obtain rfl := Option.some.inj hbroken
          exact hc.later hle
      | rested worker =>
          rw [Cycling.step] at hturn
          split at hturn
          · next pause hpause =>
              split at hturn
              · next hover =>
                  obtain rfl := Option.some.inj hturn
                  exact Cycling.spaced_turn hc.deadline hc.interval hstarted hc.bounded
                    (hc.resting pause hpause now hle hover.2) hnow
              · exact nomatch hturn
          · exact nomatch hturn
      | _ => exact nomatch hturn

/-- Cycles keep their distance in every run, however late its signals come. -/
theorem Repeat.spaced_run {h : List Beat} (hi : i ≤ farFuture)
    (run : Run (machine label ⟨d, i⟩) t₀ h now r) (hnow : now ≤ lastInstant) :
    r.Spaced t₀ d i now := by
  induction run with
  | start => exact spaced_start hnow
  | tell run hle hstep ih => exact (ih (Nat.le_trans hle hnow)).step hi hle hnow hstep

/-- No more cycles have succeeded than fit. -/
theorem Repeat.Spaced.won_lt (h : r.Spaced t₀ d i now) (hcounts : r.Counts won) :
    ∀ k < won, k * i < d := by
  intro k hk
  cases r with
  | cycling c | broken c =>
      have hc : c.Spaced t₀ d i now := h
      have hcounts : won + c.errors + (if c.pause = none then 1 else 0) = c.cycles := hcounts
      exact hc.bounded k (by omega)
  | done report =>
      have hcounts : won + report.errors = report.cycles := hcounts
      exact h k (by omega)

/-! ## Cycles that take no time -/

/-- When the cycles begin of a loop that starts at an instant and whose cycles take no time: the
    first at once, and the others at whole milliseconds. -/
def startAtOnce (t₀ i : Nat) : Nat → Nat
  | 0 => t₀
  | k + 1 => Agenda.wholeMillis t₀ + (k + 1) * i

/-- Work that takes no time and never fails. -/
def Pace.atOnce : Pace := ⟨fun _ => 0, fun _ => false⟩

section

variable {t₀ i count k : Nat}

theorem startAtOnce_lt_add (t₀ i k : Nat) : startAtOnce t₀ i k < t₀ + k * i + 1000000 := by
  cases k with
  | zero =>
      show t₀ < _
      omega
  | succ k =>
      show (t₀ + 999999) / 1000000 * 1000000 + (k + 1) * i < _
      omega

theorem wholeMillis_startAtOnce (hi : 1000000 ∣ i) (k : Nat) :
    Agenda.wholeMillis (startAtOnce t₀ i k + i) = startAtOnce t₀ i (k + 1) := by
  cases k with
  | zero =>
      show Agenda.wholeMillis (t₀ + i) = Agenda.wholeMillis t₀ + (0 + 1) * i
      rw [Nat.add_comm t₀, Agenda.wholeMillis_add hi, Nat.zero_add, Nat.one_mul, Nat.add_comm]
  | succ k =>
      have hwhole : 1000000 ∣ Agenda.wholeMillis t₀ := Nat.dvd_mul_left _ _
      show Agenda.wholeMillis (Agenda.wholeMillis t₀ + (k + 1) * i + i) =
        Agenda.wholeMillis t₀ + (k + 1 + 1) * i
      rw [Agenda.wholeMillis_of_dvd
        (Nat.dvd_add (Nat.dvd_add hwhole (Nat.dvd_mul_left_of_dvd hi _)) hi), Nat.add_assoc,
        ← Nat.succ_mul]

/-- A cycle that is to begin before the deadline does. -/
theorem startAtOnce_lt (t₀ : Nat) (hi : 1000000 ∣ i) (hpos : 0 < i) (hk : k < count) :
    startAtOnce t₀ i k < t₀ + count * i := by
  have hmul : (k + 1) * i ≤ count * i := Nat.mul_le_mul_right i hk
  have hlong := Nat.le_of_dvd hpos hi
  have hlt := startAtOnce_lt_add t₀ i k
  rw [Nat.succ_mul] at hmul
  omega

/-- A rest between two such cycles ends when the next is to begin. -/
theorem Pause.ends_at_once (hi : 1000000 ∣ i) (hpos : 0 < i) (hfar : i ≤ farFuture)
    (hfits : t₀ + count * i ≤ lastInstant) (hk : k < count) :
    (Pause.after (startAtOnce t₀ i k) i (t₀ + count * i)).ends (startAtOnce t₀ i k) =
      startAtOnce t₀ i (k + 1) := by
  have hbefore := startAtOnce_lt t₀ hi hpos hk
  have hlater := add_le_deadlineAfter (startAtOnce t₀ i k) hfar
  have hwake : ¬ min (deadlineAfter (startAtOnce t₀ i k) i) (t₀ + count * i) ≤
      startAtOnce t₀ i k :=
    Nat.not_le.mpr (Nat.lt_min.mpr
      ⟨Nat.lt_of_lt_of_le (Nat.lt_add_of_pos_right hpos) hlater, hbefore⟩)
  rw [Pause.after, if_neg (Nat.ne_of_gt hpos), ends, Timing.comes, if_neg hwake]
  by_cases hin : startAtOnce t₀ i k + i ≤ t₀ + count * i
  · rw [deadlineAfter, if_pos (Nat.le_trans hin hfits), Nat.min_eq_left hin,
      wholeMillis_startAtOnce hi]
  · -- only the last rest can reach the deadline
    have hlast : count = k + 1 := by
      refine Nat.le_antisymm (Nat.le_of_not_lt fun hlong => hin ?_) hk
      have hmul : (k + 2) * i ≤ count * i := Nat.mul_le_mul_right i hlong
      have hmilli := Nat.le_of_dvd hpos hi
      have hlt := startAtOnce_lt_add t₀ i k
      rw [Nat.add_mul] at hmul
      omega
    rw [Nat.min_eq_right (Nat.le_trans (Nat.le_of_not_le hin) hlater), Nat.add_comm t₀,
      Agenda.wholeMillis_add (Nat.dvd_mul_left_of_dvd hi count), hlast, Nat.add_comm]
    rfl

/-- A loop of whole intervals stands before every cycle at the instant at which it begins. -/
theorem Repeat.paced_turn_at_once (label : String) (hi : 1000000 ∣ i) (hpos : 0 < i)
    (hfar : i ≤ farFuture) (hfits : t₀ + count * i ≤ lastInstant) (hk : k ≤ count) :
    ∃ noted c begun,
      ((machine label ⟨count * i, i⟩).paced .atOnce t₀ (2 * k)).At (startAtOnce t₀ i k)
        ((looping label ⟨count * i, i⟩).turned (startAtOnce t₀ i k) noted c) begun ∧
      (k < count → begun.length = k + 1) ∧
      c.cycles = k ∧ c.errors = 0 ∧ c.deadline = t₀ + count * i ∧ c.interval = i := by
  have hdeadline₀ : deadlineAfter t₀ (count * i) = t₀ + count * i := if_pos hfits
  generalize hl : looping label ⟨count * i, i⟩ = l
  induction k with
  | zero =>
      have hbegun := l.turned_begun t₀ []
        { worker := 0, started := t₀, deadline := deadlineAfter t₀ (count * i), interval := i } none
      refine ⟨[], _, _, ⟨rfl, congrArg Step.state (l.start t₀), congrArg Step.asks (l.start t₀),
        rfl⟩, ?_, rfl, rfl, hdeadline₀, rfl⟩
      intro hcount
      rw [if_pos (hdeadline₀ ▸ startAtOnce_lt t₀ hi hpos hcount)] at hbegun
      show ([((machine label ⟨count * i, i⟩).start t₀).beat t₀ none].flatMap Beat.begun).length = _
      rw [List.flatMap_singleton, l.start t₀]
      exact congrArg List.length hbegun
  | succ k ih =>
      obtain ⟨noted, c, begun, hat, hcount, hcycles, herrors, hdeadline, hinterval⟩ :=
        ih (Nat.le_of_succ_le hk)
      have hturn : startAtOnce t₀ i k < c.deadline := hdeadline ▸ startAtOnce_lt t₀ hi hpos hk
      have hlength : begun.length = c.cycles + 1 := hcycles ▸ hcount hk
      have hends : (Pause.after (startAtOnce t₀ i k) c.interval c.deadline).ends
          (startAtOnce t₀ i k) = startAtOnce t₀ i (k + 1) := by
        rw [hinterval, hdeadline]
        exact Pause.ends_at_once hi hpos hfar hfits hk
      obtain ⟨noted', hnext⟩ := l.paced_cycle (p := .atOnce) hat hturn hlength
      have hspan : startAtOnce t₀ i k + Pace.atOnce.span c.cycles = startAtOnce t₀ i k := rfl
      rw [hspan, hends] at hnext
      refine ⟨noted', _, _, hnext, fun hcount' => ?_, congrArg Nat.succ hcycles, herrors, hdeadline,
        hinterval⟩
      rw [if_pos (hdeadline ▸ startAtOnce_lt t₀ hi hpos hcount'), List.length_append, hlength,
        hcycles]
      rfl

theorem le_startAtOnce (t₀ i k : Nat) : t₀ + k * i ≤ startAtOnce t₀ i k := by
  cases k with
  | zero => exact Nat.le_of_eq (by rw [Nat.zero_mul, Nat.add_zero]; rfl)
  | succ k => exact Nat.add_le_add_right (Agenda.le_wholeMillis t₀) _

/-- A loop of whole intervals whose cycles take no time has as many cycles as intervals. -/
theorem Repeat.paced_at_once (label : String) (t₀ i count : Nat) (hi : 1000000 ∣ i) (hpos : 0 < i)
    (hfar : i ≤ farFuture) (hfits : t₀ + count * i ≤ lastInstant) :
    ∃ report, ((machine label ⟨count * i, i⟩).paced .atOnce t₀ (2 * count)).state = .done report ∧
      wonIn ((machine label ⟨count * i, i⟩).paced .atOnce t₀ (2 * count)).beats = count := by
  obtain ⟨noted, c, begun, hat, -, hcycles, herrors, hdeadline, -⟩ :=
    paced_turn_at_once label hi hpos hfar hfits (Nat.le_refl count)
  have hover : c.deadline ≤ startAtOnce t₀ i count := hdeadline ▸ le_startAtOnce t₀ i count
  have hdone := hat.state
  rw [Looping.turned_off _ hover] at hdone
  have hcounts := counts_run (hdone ▸ Machine.paced_run (machine label ⟨count * i, i⟩) .atOnce t₀
    (2 * count))
  refine ⟨_, hdone, ?_⟩
  have hsum : wonIn _ + c.errors = c.cycles := hcounts
  rwa [herrors, hcycles] at hsum

end

end Load
end Havoc
