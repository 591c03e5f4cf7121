import Havoc.Load.Worker
import Havoc.Proofs.Load.Run
import Havoc.Time.Agenda
import Mathlib.Algebra.Order.Floor.Div

/-! # When the cycles of a loop begin

    A loop on its own: each cycle takes as long as its `Pace` says, a rest ends when its timer
    goes off, and closing takes no time.  That leaves one run (`Machine.paced`), in which the
    first cycle begins at once and every other one an interval after the end of the one before
    it (`cycleStart`), up to the deadline.

    The route: what a rest does to the clock is worked out once (`Pause.ends_after`).  A loop
    that repeats and a worker that holds a resource are `Looping`, that is, they differ only in
    how they end; `Looping.paced_turn` says where such a machine stands before each of its
    cycles, by induction on the cycles.  The main theorem is `cycles_keep_cadence`. -/

namespace Havoc

/-! ## Timers -/

/-- The instant at which something comes that is asked for at an instant. -/
def Timing.comes (now : Instant) : Timing → Instant
  | .inTurn => now
  | .at due => if due ≤ now then now else Agenda.wholeMillis due

theorem Agenda.le_wholeMillis (t : Nat) : t ≤ wholeMillis t := by
  show t ≤ (t + 999999) / 1000000 * 1000000
  omega

theorem Agenda.wholeMillis_of_dvd {t : Nat} (h : 1000000 ∣ t) : wholeMillis t = t := by
  show (t + 999999) / 1000000 * 1000000 = t
  omega

theorem Agenda.wholeMillis_mono {s t : Nat} (h : s ≤ t) : wholeMillis s ≤ wholeMillis t := by
  show (s + 999999) / 1000000 * 1000000 ≤ (t + 999999) / 1000000 * 1000000
  omega

theorem Agenda.wholeMillis_add {s t : Nat} (h : 1000000 ∣ s) :
    wholeMillis (s + t) = s + wholeMillis t := by
  show (s + t + 999999) / 1000000 * 1000000 = s + (t + 999999) / 1000000 * 1000000
  omega

theorem Timing.le_comes (now : Instant) (timing : Timing) : now ≤ timing.comes now := by
  cases timing with
  | inTurn => exact Nat.le_refl now
  | «at» due =>
      rw [comes]
      split
      · exact Nat.le_refl now
      · next hlate => exact Nat.le_trans (Nat.le_of_not_le hlate) (Agenda.le_wholeMillis due)

namespace Load

/-- When a rest is over that begins at an instant. -/
def Pause.ends (now : Instant) : Pause → Instant
  | brief => Timing.inTurn.comes now
  | .until wake => (Timing.at wake).comes now

theorem Pause.isOver_ends (now : Instant) (pause : Pause) : pause.isOver (pause.ends now) = true := by
  cases pause with
  | brief => rfl
  | «until» wake =>
      refine decide_eq_true ?_
      rw [ends, Timing.comes]
      split
      · next hpast => exact hpast
      · exact Agenda.le_wholeMillis wake

/-- The pace of some work: how long each cycle takes and which cycles fail, the first cycle
    being that with the number zero. -/
structure Pace where
  span : Nat → Span
  fails : Nat → Bool

/-- How long after its start a loop begins a cycle: an interval after the end of the one
    before it, at a whole millisecond unless there is no interval. -/
def cycleStart (span : Nat → Span) (interval : Span) : Nat → Span
  | 0 => 0
  | k + 1 =>
      if interval = 0 then cycleStart span interval k + span k
      else Agenda.wholeMillis (cycleStart span interval k + span k + interval)

/-- How long a loop lasts that ends after some cycles: up to its deadline, or longer when the
    last cycle outlasts it. -/
def loopSpan (span : Nat → Span) (interval duration : Span) : Nat → Span
  | 0 => 0
  | k + 1 => max duration (cycleStart span interval k + span k)

/-- When an ask is answered that is made at an instant, and how, after a number of cycles have
    begun. -/
def Pace.answer? (p : Pace) (begun : Nat) (now : Instant) : Ask → Option (Instant × Signal)
  | .working worker => some (now + p.span (begun - 1), .worked worker (p.fails (begun - 1)))
  | .closing resource => some (now, .closed resource)
  | ask => ask.timer?.map fun (timing, signal) => (timing.comes now, signal)

/-- The instants of the cycles that begin at a moment. -/
def Beat.begun (b : Beat) : List Instant := b.workings.map fun _ => b.time

/-- A machine on its way: its beats, where it stands, and what it asked for last. -/
structure Stage (α : Type) where
  beats : List Beat
  now : Instant
  state : α
  asks : List Ask

/-- The instants at which cycles have begun. -/
def Stage.begun {α : Type} (g : Stage α) : List Instant := g.beats.flatMap Beat.begun

/-- The machine after what it asked for is answered at its pace. -/
def Stage.next {α : Type} (m : Machine α) (p : Pace) (g : Stage α) : Stage α :=
  match g.asks.head?.bind (p.answer? g.begun.length g.now) with
  | none => g
  | some (now, signal) =>
      match m.step g.state now signal with
      | none => g
      | some next => ⟨g.beats ++ [next.beat now (some signal)], now, next.state, next.asks⟩

/-- The run of a machine from an instant on in which all is answered at a pace. -/
def Machine.paced {α : Type} (m : Machine α) (p : Pace) (t₀ : Instant) : Nat → Stage α
  | 0 => ⟨[(m.start t₀).beat t₀ none], t₀, (m.start t₀).state, (m.start t₀).asks⟩
  | n + 1 => (m.paced p t₀ n).next m p

/-- The run comes to an end: from some answer on the machine stands in a state, at an instant,
    with cycles begun at some instants. -/
def Machine.Finishes {α : Type} (m : Machine α) (p : Pace) (t₀ : Instant) (s : α) (now : Instant)
    (begun : List Instant) : Prop :=
  ∃ n, ∀ j, n ≤ j →
    (m.paced p t₀ j).state = s ∧ (m.paced p t₀ j).now = now ∧ (m.paced p t₀ j).begun = begun

variable {α : Type} {m : Machine α} {p : Pace} {g : Stage α} {t₀ t now : Instant} {s s' : Step α}
  {begun : List Instant} {span : Nat → Span} {d i : Span}

/-! ## Rests -/

theorem le_cycleStart_succ (span : Nat → Span) (i : Span) (k : Nat) :
    cycleStart span i k + span k + i ≤ cycleStart span i (k + 1) := by
  rw [cycleStart]
  split
  · next hi => exact Nat.le_of_eq (by rw [hi, Nat.add_zero])
  · exact Agenda.le_wholeMillis _

theorem cycleStart_dvd (hi : 1000000 ∣ i) (hspan : ∀ k, 1000000 ∣ span k) (k : Nat) :
    1000000 ∣ cycleStart span i k := by
  induction k with
  | zero => exact Nat.dvd_zero _
  | succ k ih =>
      have hnow := Nat.dvd_add ih (hspan k)
      rw [cycleStart]
      split
      · exact hnow
      · rw [Agenda.wholeMillis_of_dvd (Nat.dvd_add hnow hi)]
        exact Nat.dvd_add hnow hi

/-- Cycles of whole milliseconds leave nothing to round. -/
theorem cycleStart_succ_of_dvd (hi : 1000000 ∣ i) (hspan : ∀ k, 1000000 ∣ span k) (k : Nat) :
    cycleStart span i (k + 1) = cycleStart span i k + span k + i := by
  have hnow := Nat.dvd_add (cycleStart_dvd hi hspan k) (hspan k)
  rw [cycleStart]
  split
  · next hzero => rw [hzero, Nat.add_zero]
  · exact Agenda.wholeMillis_of_dvd (Nat.dvd_add hnow hi)

/-- When either rests or cycles take time, every cycle begins later than the one before. -/
theorem cycleStart_lt_succ (hmoves : 0 < i ∨ ∀ k, 0 < span k) (k : Nat) :
    cycleStart span i k < cycleStart span i (k + 1) := by
  refine Nat.lt_of_lt_of_le ?_ (le_cycleStart_succ span i k)
  rcases hmoves with hi | hspan
  · exact Nat.lt_of_le_of_lt (Nat.le_add_right _ _) (Nat.lt_add_of_pos_right hi)
  · exact Nat.lt_add_right i (Nat.lt_add_of_pos_right (hspan k))

theorem le_cycleStart (hmoves : 0 < i ∨ ∀ k, 0 < span k) (k : Nat) : k ≤ cycleStart span i k := by
  induction k with
  | zero => exact Nat.zero_le _
  | succ k ih => exact Nat.lt_of_le_of_lt ih (cycleStart_lt_succ hmoves k)

theorem exists_cycleStart (hmoves : 0 < i ∨ ∀ k, 0 < span k) (d : Span) :
    ∃ count, d ≤ cycleStart span i count ∧ ∀ k < count, cycleStart span i k < d := by
  have h : ∃ k, d ≤ cycleStart span i k := ⟨d, le_cycleStart hmoves d⟩
  exact ⟨Nat.find h, Nat.find_spec h, fun k hk => Nat.lt_of_not_le (Nat.find_min h hk)⟩

theorem le_loopSpan {k : Nat} (h : d ≤ cycleStart span i k) : d ≤ loopSpan span i d k := by
  cases k with
  | zero => exact h
  | succ k => exact Nat.le_max_left _ _

/-- A rest ends when the next cycle is to begin, or at the deadline if that comes first; a rest
    behind the deadline ends at once.  A rest that would last beyond the last instant has to
    reach the deadline in thirty years. -/
theorem Pause.ends_after {t₀ d i x : Nat} (ht₀ : 1000000 ∣ t₀) (hd : 1000000 ∣ d)
    (hfits : t₀ + d ≤ lastInstant) (hrest : t₀ + x + i ≤ lastInstant ∨ d ≤ x + farFuture) :
    let next := if i = 0 then x else Agenda.wholeMillis (x + i)
    (next < d → (Pause.after (t₀ + x) i (t₀ + d)).ends (t₀ + x) = t₀ + next) ∧
      (d ≤ next → (Pause.after (t₀ + x) i (t₀ + d)).ends (t₀ + x) = t₀ + max d x) := by
  intro next
  by_cases hi : i = 0
  · have hnext : next = x := if_pos hi
    rw [Pause.after, if_pos hi, hnext]
    refine ⟨fun _ => rfl, fun hle => ?_⟩
    rw [Nat.max_eq_right hle]
    rfl
  · have hnext : next = Agenda.wholeMillis (x + i) := if_neg hi
    have hround := Agenda.le_wholeMillis (x + i)
    rw [Pause.after, if_neg hi, ends, Timing.comes, hnext]
    by_cases hpast : d ≤ x
    · -- the deadline has come
      have hnow : min (deadlineAfter (t₀ + x) i) (t₀ + d) ≤ t₀ + x :=
        Nat.le_trans (Nat.min_le_right _ _) (Nat.add_le_add_left hpast t₀)
      rw [if_pos hnow, Nat.max_eq_right hpast]
      refine ⟨fun hlt => absurd hlt ?_, fun _ => rfl⟩
      omega
    · have hbefore : x < d := Nat.lt_of_not_le hpast
      have hdeadline := Agenda.wholeMillis_of_dvd (Nat.dvd_add ht₀ hd)
      have hlater : t₀ + x < deadlineAfter (t₀ + x) i := by
        rw [deadlineAfter]
        split
        · exact Nat.lt_add_of_pos_right (Nat.pos_of_ne_zero hi)
        · exact Nat.lt_add_of_pos_right (by decide)
      have hwake : ¬ min (deadlineAfter (t₀ + x) i) (t₀ + d) ≤ t₀ + x :=
        Nat.not_le.mpr (Nat.lt_min.mpr ⟨hlater, Nat.add_lt_add_left hbefore t₀⟩)
      rw [if_neg hwake, Nat.max_eq_left (Nat.le_of_lt hbefore)]
      by_cases hshort : t₀ + x + i ≤ lastInstant
      · rw [deadlineAfter, if_pos hshort, Nat.add_assoc]
        have hrounded := Agenda.wholeMillis_add (t := x + i) ht₀
        refine ⟨fun hlt => ?_, fun hle => ?_⟩
        · rw [Nat.min_eq_left (by omega), hrounded]
        · rcases Nat.le_total (t₀ + (x + i)) (t₀ + d) with hshorter | hlonger
          · -- rounding takes it up to the deadline
            have hrises := Agenda.wholeMillis_mono hshorter
            rw [hdeadline, hrounded] at hrises
            rw [Nat.min_eq_left hshorter, hrounded]
            exact Nat.le_antisymm hrises (Nat.add_le_add_left hle t₀)
          · rw [Nat.min_eq_right hlonger, hdeadline]
      · have hfar := hrest.resolve_left hshort
        rw [deadlineAfter, if_neg hshort, Nat.min_eq_right (by omega), hdeadline]
        refine ⟨fun hlt => absurd hlt ?_, fun _ => rfl⟩
        omega

/-! ## One answer after the other -/

theorem Pace.answer?_resting (p : Pace) (begun : Nat) (now : Instant) (worker : Nat)
    (pause : Pause) :
    p.answer? begun now (.resting worker pause) = some (pause.ends now, .rested worker) := by
  cases pause with
  | brief => rfl
  | «until» wake => rfl

theorem Pace.le_answer? {begun : Nat} {ask : Ask} {signal : Signal}
    (h : p.answer? begun t ask = some (now, signal)) : t ≤ now := by
  cases ask with
  | working worker =>
      cases h
      exact Nat.le_add_right t _
  | closing resource =>
      cases h
      exact Nat.le_refl t
  | opening worker => exact nomatch h
  | resting worker pause =>
      rw [answer?_resting] at h
      cases h
      cases pause with
      | brief => exact Timing.le_comes t .inTurn
      | «until» wake => exact Timing.le_comes t (.at wake)
  | ticking due deadline =>
      cases h
      exact Timing.le_comes t _
  | lapsing deadline =>
      cases h
      exact Timing.le_comes t _

/-- What is answered at a pace is one of the runs of the machine. -/
theorem Machine.paced_run (m : Machine α) (p : Pace) (t₀ : Instant) (n : Nat) :
    Run m t₀ (m.paced p t₀ n).beats (m.paced p t₀ n).now (m.paced p t₀ n).state := by
  induction n with
  | zero => exact Run.start
  | succ n ih =>
      rw [paced, Stage.next]
      split
      · exact ih
      · next hanswer =>
          obtain ⟨ask, -, hask⟩ := Option.bind_eq_some_iff.mp hanswer
          split
          · exact ih
          · next hstep => exact ih.tell (Pace.le_answer? hask) hstep

/-- Where a machine stands, and the instants at which its cycles have begun. -/
structure Stage.At (g : Stage α) (now : Instant) (step : Step α) (begun : List Instant) : Prop where
  now : g.now = now
  state : g.state = step.state
  asks : g.asks = step.asks
  begun : g.begun = begun

theorem Stage.At.next {ask : Ask} {signal : Signal} (h : g.At t s begun) (hask : s.asks = [ask])
    (hanswer : p.answer? begun.length t ask = some (now, signal))
    (hstep : m.step s.state now signal = some s') :
    (g.next m p).At now s' (begun ++ (s'.beat now (some signal)).begun) := by
  have hhead : g.asks.head?.bind (p.answer? g.begun.length g.now) = some (now, signal) := by
    rw [h.asks, hask, h.begun, h.now]
    exact hanswer
  have hnext : m.step g.state now signal = some s' := by
    rw [h.state]
    exact hstep
  rw [Stage.next, hhead]
  simp only [hnext]
  refine ⟨rfl, rfl, rfl, ?_⟩
  rw [Stage.begun, flatMap_snoc, ← Stage.begun, h.begun]

/-- A machine that asks for nothing more stays where it is. -/
theorem Machine.finishes_of_at {n : Nat} (h : (m.paced p t₀ n).At now s begun)
    (hasks : s.asks = []) : m.Finishes p t₀ s.state now begun := by
  have hstays : ∀ k, m.paced p t₀ (n + k) = m.paced p t₀ n := by
    intro k
    induction k with
    | zero => rfl
    | succ k ih =>
        show (m.paced p t₀ (n + k)).next m p = _
        rw [ih, Stage.next, h.asks, hasks]
        rfl
  refine ⟨n, fun j hj => ?_⟩
  rw [← Nat.add_sub_of_le hj, hstays]
  exact ⟨h.state, h.now, h.begun⟩

/-! ## Loops -/

/-- The loop when it rests after a cycle. -/
def Cycling.cycled (c : Cycling) (failed : Bool) (pause : Pause) : Cycling :=
  { c with
    cycles := c.cycles + 1, errors := if failed then c.errors + 1 else c.errors
    pause := some pause }

/-- The counters of a loop after a number of cycles. -/
structure Counted (p : Pace) (t₀ : Instant) (d i : Span) (k : Nat) (c : Cycling) : Prop where
  cycles : c.cycles = k
  errors : c.errors = (List.range k).countP p.fails
  started : c.started = t₀
  deadline : c.deadline = t₀ + d
  interval : c.interval = i

theorem Counted.cycled {k : Nat} {c : Cycling} (h : Counted p t₀ d i k c) (pause : Pause) :
    Counted p t₀ d i (k + 1) (c.cycled (p.fails k) pause) := by
  refine ⟨congrArg Nat.succ h.cycles, ?_, h.started, h.deadline, h.interval⟩
  rw [List.range_succ, List.countP_append, ← h.errors, List.countP_singleton]
  show (if p.fails k = true then c.errors + 1 else c.errors) = _
  split
  · rfl
  · rfl

/-- The step that a turn is for a machine that wraps a loop. -/
def Turn.into (wrap : Cycling → α) (ending : Instant → List Metric.Note → Cycling → Step α)
    (broken : Cycling → α) (now : Instant) (noted : List Metric.Note) : Turn → Step α
  | .on loop ask => ⟨wrap loop, noted, [ask]⟩
  | .ended loop => ending now noted loop
  | .broken loop => ⟨broken loop, noted, []⟩

/-- A machine that is a loop until the loop ends. -/
structure Looping (m : Machine α) (first : Instant → Cycling) where
  wrap : Cycling → α
  /-- What the machine does when its loop has ended; it begins no more cycles. -/
  ending : Instant → List Metric.Note → Cycling → Step α
  /-- What the machine is when a cycle of its loop has broken off. -/
  broken : Cycling → α
  notes : Signal → List Metric.Note
  start : ∀ t : Instant, m.start t = ((first t).turn t).into wrap ending broken t []
  step : ∀ (c : Cycling) (now : Instant) (signal : Signal),
    m.step (wrap c) now signal =
      (c.step now signal).map (Turn.into wrap ending broken now (notes signal))
  ends : ∀ (now : Instant) (noted : List Metric.Note) (c : Cycling) (told : Option Signal),
    ((ending now noted c).beat now told).begun = []

namespace Looping

variable {first : Instant → Cycling} {c : Cycling} {noted : List Metric.Note}

/-- The machine before the next cycle of its loop. -/
def turned (l : Looping m first) (now : Instant) (noted : List Metric.Note) (c : Cycling) :
    Step α := (c.turn now).into l.wrap l.ending l.broken now noted

theorem turned_on (l : Looping m first) (h : now < c.deadline) : l.turned now noted c =
    ⟨l.wrap { c with cycles := c.cycles + 1, pause := none }, noted, [.working c.worker]⟩ := by
  rw [turned, Cycling.turn, if_pos h]
  rfl

theorem turned_off (l : Looping m first) (h : c.deadline ≤ now) :
    l.turned now noted c = l.ending now noted c := by
  rw [turned, Cycling.turn, if_neg (Nat.not_lt.mpr h)]
  rfl

/-- A cycle begins before the deadline and not after it. -/
theorem turned_begun (l : Looping m first) (now : Instant) (noted : List Metric.Note)
    (c : Cycling) (told : Option Signal) :
    ((l.turned now noted c).beat now told).begun = if now < c.deadline then [now] else [] := by
  split
  · next h =>
      rw [l.turned_on h]
      rfl
  · next h =>
      rw [l.turned_off (Nat.not_lt.mp h)]
      exact l.ends now noted c told

/-- From one cycle to the next: the cycle takes its time, and the loop rests. -/
theorem paced_cycle (l : Looping m first) (h : g.At t (l.turned t noted c) begun)
    (hturn : t < c.deadline) (hcount : begun.length = c.cycles + 1) :
    let pause := Pause.after (t + p.span c.cycles) c.interval c.deadline
    let t' := pause.ends (t + p.span c.cycles)
    ∃ noted' : List Metric.Note, ((g.next m p).next m p).At t'
      (l.turned t' noted' (c.cycled (p.fails c.cycles) pause))
      (begun ++ if t' < c.deadline then [t'] else []) := by
  intro pause t'
  rw [l.turned_on hturn] at h
  have hanswer : p.answer? begun.length t (.working c.worker) =
      some (t + p.span c.cycles, .worked c.worker (p.fails c.cycles)) := by
    rw [hcount]
    rfl
  have hworked := h.next rfl hanswer ((l.step _ _ (.worked c.worker (p.fails c.cycles))).trans
    (congrArg _ (if_pos ⟨rfl, rfl⟩)))
  have hrested := hworked.next rfl (p.answer?_resting _ _ c.worker pause)
    ((l.step _ _ (.rested c.worker)).trans (congrArg _ (if_pos ⟨rfl, pause.isOver_ends _⟩)))
  have hbegun := l.turned_begun t' (l.notes (.rested c.worker))
    (c.cycled (p.fails c.cycles) pause) (some (.rested c.worker))
  have hnone : begun ++ [] = begun := List.append_nil begun
  exact ⟨_, hbegun ▸ hnone ▸ hrested⟩

/-- **One cycle after the other.**  As long as no cycle before it was to begin behind the
    deadline, the loop comes to every cycle in two answers each, at the instant at which the
    cycle is to begin, or at the end of the loop. -/
theorem paced_turn (l : Looping m first) {t₀ d i : Nat} {worker : Nat}
    (hfirst : first t₀ = { worker, started := t₀, deadline := t₀ + d, interval := i })
    (ht₀ : 1000000 ∣ t₀) (hd : 1000000 ∣ d) (hfits : t₀ + d ≤ lastInstant)
    (hrests : ∀ k, cycleStart p.span i k < d →
      t₀ + (cycleStart p.span i k + p.span k) + i ≤ lastInstant ∨
        d ≤ cycleStart p.span i k + p.span k + farFuture)
    {k : Nat} (hk : ∀ j < k, cycleStart p.span i j < d) :
    ∃ (now : Instant) (noted : List Metric.Note) (c : Cycling),
      (m.paced p t₀ (2 * k)).At now (l.turned now noted c)
        ((List.range k).map (t₀ + cycleStart p.span i ·) ++
          if now < t₀ + d then [t₀ + cycleStart p.span i k] else []) ∧
      Counted p t₀ d i k c ∧
      (cycleStart p.span i k < d → now = t₀ + cycleStart p.span i k) ∧
      (d ≤ cycleStart p.span i k → now = t₀ + loopSpan p.span i d k) := by
  induction k with
  | zero =>
      refine ⟨t₀, [], first t₀, ⟨rfl, ?_, ?_, ?_⟩, ?_, fun _ => rfl, fun _ => rfl⟩
      · exact congrArg Step.state (l.start t₀)
      · exact congrArg Step.asks (l.start t₀)
      · have hbegun := l.turned_begun t₀ [] (first t₀) none
        rw [hfirst] at hbegun
        show [(m.start t₀).beat t₀ none].flatMap Beat.begun = _
        rw [List.flatMap_singleton, l.start t₀, hfirst]
        exact hbegun
      · rw [hfirst]
        exact ⟨rfl, rfl, rfl, rfl, rfl⟩
  | succ k ih =>
      obtain ⟨now, noted, c, hat, hc, hbefore, -⟩ := ih fun j hj => hk j (Nat.lt_succ_of_lt hj)
      have hlt : cycleStart p.span i k < d := hk k (Nat.lt_succ_self k)
      obtain rfl := hbefore hlt
      have hturn : t₀ + cycleStart p.span i k < t₀ + d := Nat.add_lt_add_left hlt t₀
      rw [if_pos hturn] at hat
      have hcount : ((List.range k).map (t₀ + cycleStart p.span i ·) ++
          [t₀ + cycleStart p.span i k]).length = c.cycles + 1 := by
        rw [List.length_append, List.length_map, List.length_range, hc.cycles]
        rfl
      obtain ⟨noted', hnext⟩ := l.paced_cycle (p := p) hat (hc.deadline ▸ hturn) hcount
      rw [hc.cycles, hc.deadline, hc.interval, Nat.add_assoc] at hnext
      obtain ⟨hin, hout⟩ := Pause.ends_after ht₀ hd hfits (hrests k hlt)
      generalize Pause.after (t₀ + (cycleStart p.span i k + p.span k)) i (t₀ + d) = pause
        at hnext hin hout
      generalize pause.ends (t₀ + (cycleStart p.span i k + p.span k)) = now' at hnext hin hout
      refine ⟨now', noted', c.cycled (p.fails k) pause, ?_, hc.cycled pause, hin, hout⟩
      have hbegun : (if now' < t₀ + d then [now'] else []) =
          if now' < t₀ + d then [t₀ + cycleStart p.span i (k + 1)] else [] := by
        split
        · next hon =>
            rcases Nat.lt_or_ge (cycleStart p.span i (k + 1)) d with hlater | hend
            · exact congrArg (fun t => [t]) (hin hlater)
            · -- a loop that ends does not stand before its deadline
              rw [hout hend] at hon
              exact absurd (Nat.lt_of_add_lt_add_left hon) (Nat.not_lt.mpr (Nat.le_max_left _ _))
        · rfl
      rw [List.range_succ, List.map_append, List.map_singleton, ← hbegun]
      exact hnext

/-- A loop ends behind the last cycle that is to begin before its deadline. -/
theorem paced_end (l : Looping m first) {t₀ d i : Nat} {worker : Nat}
    (hfirst : first t₀ = { worker, started := t₀, deadline := t₀ + d, interval := i })
    (ht₀ : 1000000 ∣ t₀) (hd : 1000000 ∣ d) (hfits : t₀ + d ≤ lastInstant)
    (hrests : ∀ k, cycleStart p.span i k < d →
      t₀ + (cycleStart p.span i k + p.span k) + i ≤ lastInstant ∨
        d ≤ cycleStart p.span i k + p.span k + farFuture)
    {k : Nat} (hk : ∀ j < k, cycleStart p.span i j < d) (hend : d ≤ cycleStart p.span i k) :
    ∃ (noted : List Metric.Note) (c : Cycling),
      (m.paced p t₀ (2 * k)).At (t₀ + loopSpan p.span i d k)
        (l.ending (t₀ + loopSpan p.span i d k) noted c)
        ((List.range k).map (t₀ + cycleStart p.span i ·)) ∧
      c.report (t₀ + loopSpan p.span i d k) =
        ⟨k, (List.range k).countP p.fails, loopSpan p.span i d k⟩ := by
  obtain ⟨now, noted, c, hat, hc, -, hlast⟩ := l.paced_turn hfirst ht₀ hd hfits hrests hk
  obtain rfl := hlast hend
  have hover : t₀ + d ≤ t₀ + loopSpan p.span i d k := Nat.add_le_add_left (le_loopSpan hend) t₀
  rw [l.turned_off (hc.deadline ▸ hover), if_neg (Nat.not_lt.mpr hover), List.append_nil] at hat
  refine ⟨noted, c, hat, ?_⟩
  rw [Cycling.report, hc.cycles, hc.errors, hc.started, Nat.add_sub_cancel_left]

end Looping

/-! ## The two loops -/

/-- A loop that repeats some work as a machine. -/
def Repeat.machine (label : String) (c : Cadence) : Machine Repeat := ⟨start c, step label⟩

/-- A worker that is given an open resource and a fixed deadline as a machine. -/
def Worker.holding (name : String) (resource : Resource) (d i : Span) : Machine Worker :=
  ⟨fun now => hold resource (.at (now + d)) i [] now, step name resource.worker⟩

theorem Repeat.ofTurn_eq (now : Instant) (noted : List Metric.Note) (turn : Turn) :
    ofTurn now noted turn =
      turn.into cycling (fun now noted loop => ⟨done (loop.report now), noted, []⟩) broken now
        noted := by
  cases turn with
  | on loop ask => rfl
  | ended loop => rfl
  | broken loop => rfl

theorem Worker.ofTurn_eq (resource : Resource) (now : Instant) (noted : List Metric.Note)
    (turn : Turn) :
    ofTurn resource noted turn =
      turn.into (cycling resource)
        (fun _ noted loop => ⟨closing resource loop, noted, [.closing resource]⟩)
        (fun _ => broken resource) now noted := by
  cases turn with
  | on loop ask => rfl
  | ended loop => rfl
  | broken loop => rfl

/-- A loop that repeats some work reports when it ends. -/
def Repeat.looping (label : String) (c : Cadence) : Looping (machine label c) fun now =>
    { worker := 0, started := now, deadline := deadlineAfter now c.duration
      interval := c.interval } where
  wrap := cycling
  ending now noted loop := ⟨done (loop.report now), noted, []⟩
  broken := broken
  notes := failureNotes label
  start t := ofTurn_eq t [] _
  step loop now signal :=
    congrArg (Option.map · (loop.step now signal)) (funext (ofTurn_eq now (failureNotes label signal)))
  ends _ _ _ _ := rfl

/-- A worker that holds a resource closes it when its loop ends. -/
def Worker.looping (name : String) (resource : Resource) (d i : Span) :
    Looping (holding name resource d i) fun now =>
      { worker := resource.worker, started := now, deadline := now + d, interval := i } where
  wrap := cycling resource
  ending _ noted loop := ⟨closing resource loop, noted, [.closing resource]⟩
  broken _ := broken resource
  notes := failureNotes name
  start t := ofTurn_eq resource t [] _
  step loop now signal :=
    congrArg (Option.map · (loop.step now signal))
      (funext (ofTurn_eq resource now (failureNotes name signal)))
  ends _ _ _ _ := rfl

/-- **CYCLES KEEP THEIR CADENCE.**  A loop whose cycles or rests take time comes to an end.  Its
    cycles begin an interval after the end of the one before them, as long as that is before
    the deadline, whichever of them fail; the report counts them and their failures, and the
    loop lasts up to its deadline, or to the end of its last cycle.  So it is with a loop that
    repeats some work and with a worker that holds a resource.

    A rest that would end beyond the last instant is taken for one of thirty years, so it is
    left out when that is before the deadline. -/
theorem cycles_keep_cadence (label : String) (resource : Resource) (p : Pace) {t₀ d i : Nat}
    (ht₀ : 1000000 ∣ t₀) (hd : 1000000 ∣ d) (hi : 1000000 ∣ i) (hfits : t₀ + d ≤ lastInstant)
    (hmoves : 0 < i ∨ ∀ k, 0 < p.span k)
    (hrests : ∀ k, cycleStart p.span i k < d →
      t₀ + (cycleStart p.span i k + p.span k) + i ≤ lastInstant ∨
        d ≤ cycleStart p.span i k + p.span k + farFuture) :
    ∃ count : Nat,
      (d ≤ cycleStart p.span i count ∧ ∀ k < count, cycleStart p.span i k < d) ∧
      (∀ k, cycleStart p.span i k + p.span k ≤ cycleStart p.span i (k + 1)) ∧
      ((∀ k, 1000000 ∣ p.span k) → ∀ k,
        cycleStart p.span i (k + 1) = cycleStart p.span i k + p.span k + i) ∧
      ((∀ k, p.span k = 0) → 0 < i → count = d ⌈/⌉ i) ∧
      let report : CycleReport :=
        ⟨count, (List.range count).countP p.fails, loopSpan p.span i d count⟩
      let begun := (List.range count).map (t₀ + cycleStart p.span i ·)
      (Repeat.machine label ⟨d, i⟩).Finishes p t₀ (.done report) (t₀ + report.elapsed) begun ∧
        (Worker.holding label resource d i).Finishes p t₀ (.done report) (t₀ + report.elapsed)
          begun := by
  obtain ⟨count, hend, hbefore⟩ := exists_cycleStart hmoves d
  refine ⟨count, ⟨hend, hbefore⟩, ?_, cycleStart_succ_of_dvd hi, ?_, ?_, ?_⟩
  · intro k
    exact Nat.le_trans (Nat.le_add_right _ i) (le_cycleStart_succ p.span i k)
  · intro hspan hpos
    have hstarts : ∀ k, cycleStart p.span i k = i * k := by
      intro k
      induction k with
      | zero => rfl
      | succ k ih =>
          have hdvd : ∀ k, 1000000 ∣ p.span k := fun k => hspan k ▸ Nat.dvd_zero _
          rw [cycleStart_succ_of_dvd hi hdvd, ih, hspan]
          rfl
    refine Nat.le_antisymm ?_ ?_
    · refine Nat.le_of_not_lt fun hlt => ?_
      have hearly := hbefore _ hlt
      rw [hstarts] at hearly
      exact absurd hearly (Nat.not_lt.mpr ((ceilDiv_le_iff_le_mul hpos).mp (Nat.le_refl _)))
    · rw [hstarts] at hend
      exact (ceilDiv_le_iff_le_mul hpos).mpr hend
  · have hfirst : deadlineAfter t₀ d = t₀ + d := if_pos hfits
    obtain ⟨noted, c, hat, hreport⟩ := (Repeat.looping label ⟨d, i⟩).paced_end (p := p)
      (by rw [hfirst]) ht₀ hd hfits hrests hbefore hend
    have hdone := Machine.finishes_of_at hat rfl
    have hstate : ((Repeat.looping label ⟨d, i⟩).ending (t₀ + loopSpan p.span i d count) noted
        c).state = .done ⟨count, (List.range count).countP p.fails, loopSpan p.span i d count⟩ :=
      congrArg Repeat.done hreport
    rw [hstate] at hdone
    exact hdone
  · obtain ⟨noted, c, hat, hreport⟩ := (Worker.looping label resource d i).paced_end (p := p)
      rfl ht₀ hd hfits hrests hbefore hend
    -- closing the resource takes no time
    have hclosed : ((Worker.holding label resource d i).paced p t₀ (2 * count + 1)).At
        (t₀ + loopSpan p.span i d count)
        ⟨.done (c.report (t₀ + loopSpan p.span i d count)), [.closed label], []⟩ _ :=
      hat.next rfl (rfl : p.answer? _ _ (.closing resource) = _) (if_pos rfl)
    have hdone := Machine.finishes_of_at hclosed rfl
    rw [hreport] at hdone
    exact List.append_nil ((List.range count).map (t₀ + cycleStart p.span i ·)) ▸ hdone

/-- Three seconds of half a second of work and a second of rest are two cycles, the second of
    which fails. -/
theorem cycles_keep_cadence_twice :
    let p : Pace := ⟨fun _ => Span.ofMillis 500, fun k => k = 1⟩
    let d := Span.ofSeconds 3
    let i := Span.ofSeconds 1
    let begun := [startup, startup + Span.ofMillis 1500]
    let done : CycleReport := ⟨2, 1, d⟩
    (Repeat.machine "" ⟨d, i⟩).Finishes p startup (.done done) (startup + d) begun ∧
      (Worker.holding "" ⟨0, 0⟩ d i).Finishes p startup (.done done) (startup + d) begun := by
  intro p d i begun done
  have hrests : ∀ k, cycleStart p.span i k < d →
      startup + (cycleStart p.span i k + p.span k) + i ≤ lastInstant ∨
        d ≤ cycleStart p.span i k + p.span k + farFuture := by
    intro k hk
    have hlast : startup + (d + Span.ofMillis 500) + i ≤ lastInstant := by decide +kernel
    refine Or.inl (Nat.le_trans (Nat.add_le_add_right (Nat.add_le_add_left ?_ startup) i) hlast)
    exact Nat.add_le_add_right (Nat.le_of_lt hk) (Span.ofMillis 500)
  obtain ⟨count, ⟨hend, hbefore⟩, -, -, -, hfinish⟩ :=
    cycles_keep_cadence "" ⟨0, 0⟩ p (by decide +kernel) (by decide +kernel) (by decide +kernel)
      (by decide +kernel) (Or.inl (by decide)) hrests
  have hlasts : loopSpan p.span i d 2 = d := by decide +kernel
  have hfails : (List.range 2).countP p.fails = 1 := by decide +kernel
  have hbegun : (List.range 2).map (startup + cycleStart p.span i ·) = begun := by decide +kernel
  match count with
  | 0 => exact absurd hend (by decide +kernel)
  | 1 => exact absurd hend (by decide +kernel)
  | 2 =>
      dsimp only at hfinish
      rw [hlasts, hfails, hbegun] at hfinish
      exact hfinish
  | count + 3 => exact absurd (hbefore 2 (Nat.le_add_left 3 count)) (by decide +kernel)

/-- **A long rest is cut short.**  A rest of the longest span and a deadline beyond thirty years:
    the second cycle is to begin behind the deadline, and it begins after thirty years. -/
theorem overlong_rest_is_cut :
    let p : Pace := ⟨fun _ => 0, fun _ => false⟩
    let d := Span.ofSeconds 1000000000
    let i := Span.ofSeconds (2 ^ 64 - 1)
    (1000000 ∣ startup ∧ 1000000 ∣ d ∧ 1000000 ∣ i ∧ startup + d ≤ lastInstant ∧ 0 < i) ∧
      (cycleStart p.span i 0 < d ∧ d ≤ cycleStart p.span i 1) ∧
      ((Repeat.machine "" ⟨d, i⟩).paced p startup 4).state = .done ⟨2, 0, d⟩ ∧
      ((Repeat.machine "" ⟨d, i⟩).paced p startup 4).begun = [startup, startup + farFuture] := by
  decide +kernel

end Load
end Havoc
