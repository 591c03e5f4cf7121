import Havoc.Proofs.Load.Cadence
import Havoc.Proofs.Load.Ramp

/-! # How much a ramp opens

    A ramp whose openings and closings need no time, and none of whose openings fail, is held up
    by its plan alone.  It opens a batch a period apart as long as the deadline has not come and
    something is missing, so what it opens in all is its target, or what the ticks before its
    deadline allow.

    The route: `Smooth` are the runs in which nothing loses time.  A timer may still be late by a
    lag of less than a millisecond, and a tick that falls on the deadline may come before or
    after it.  `Standing` says where such a run stands in each stage, with the number of batches
    that have begun; every step keeps it (`Smooth.standing`).  A run that is not over can go on
    (`Smooth.goes_on`) and has only so many moments, so it comes to an end, and the main theorem
    `ramp_throughput` reads off how. -/

namespace Havoc.Load

/-! ## Answers at once -/

/-- A timer goes off that was set at an instant: at once if it is due by then, and else no more
    than a lag after it is due. -/
def GoesOff (lag : Span) (set due now : Instant) : Prop :=
  if due ≤ set then now = set else due ≤ now ∧ now ≤ due + lag

namespace GoesOff

variable {lag set due now : Nat}

theorem comes (h : 999999 ≤ lag ∨ 1000000 ∣ due) :
    GoesOff lag set due ((Timing.at due).comes set) := by
  rw [GoesOff, Timing.comes]
  split
  · rfl
  · refine ⟨Agenda.le_wholeMillis due, ?_⟩
    rcases h with h | h
    · show (due + 999999) / 1000000 * 1000000 ≤ due + lag
      omega
    · rw [Agenda.wholeMillis_of_dvd h]
      exact Nat.le_add_right due lag

theorem intro (lag : Span) (set due : Instant) : GoesOff lag set due (max set due) := by
  rw [GoesOff]
  split
  · next h => exact Nat.max_eq_left h
  · next h =>
      rw [Nat.max_eq_right (Nat.le_of_not_le h)]
      exact ⟨Nat.le_refl due, Nat.le_add_right due lag⟩

theorem set_le (h : GoesOff lag set due now) : set ≤ now := by
  rw [GoesOff] at h
  split at h
  · exact Nat.le_of_eq h.symm
  · next hlater => exact Nat.le_trans (Nat.le_of_not_le hlater) h.1

theorem due_le (h : GoesOff lag set due now) : due ≤ now := by
  rw [GoesOff] at h
  split at h
  · next hpast => exact h ▸ hpast
  · exact h.1

theorem le_lag (h : GoesOff lag set due now) (hset : set ≤ due + lag) : now ≤ due + lag := by
  rw [GoesOff] at h
  split at h
  · exact h ▸ hset
  · exact h.2

end GoesOff

/-- The answers of a back end that never fails and needs no time, and of timers with a lag.  Of
    the next tick and the deadline the one that goes off first answers, and either when they go
    off together. -/
inductive Prompts (lag : Span) (set : Instant) : Ask → Instant → Signal → Prop where
  | opened {resource : Resource} :
      Prompts lag set (.opening resource.worker) set (.opened resource)
  | closed {resource : Resource} : Prompts lag set (.closing resource) set (.closed resource)
  | ticked {due deadline now other : Instant} :
      GoesOff lag set due now → GoesOff lag set deadline other → now ≤ other →
      Prompts lag set (.ticking due deadline) now .ticked
  | missed {due deadline now other : Instant} :
      GoesOff lag set deadline now → GoesOff lag set due other → now ≤ other →
      Prompts lag set (.ticking due deadline) now .lapsed
  | lapsed {deadline now : Instant} :
      GoesOff lag set deadline now → Prompts lag set (.lapsing deadline) now .lapsed

/-- The next tick or the deadline of a ramp comes promptly from the timers of the service.  They
    have a lag of less than a millisecond, and none for what is due at a whole one. -/
theorem Prompts.of_ticking {lag : Span} {set due deadline : Instant}
    (hdue : 999999 ≤ lag ∨ 1000000 ∣ due) (hend : 999999 ≤ lag ∨ 1000000 ∣ deadline) :
    ∃ first signal, (Ask.ticking due deadline).timer? = some (.at first, signal) ∧
      Prompts lag set (.ticking due deadline) ((Timing.at first).comes set) signal := by
  have hmono : ∀ {s t : Instant}, s ≤ t → (Timing.at s).comes set ≤ (Timing.at t).comes set := by
    intro s t hle
    rw [Timing.comes, Timing.comes]
    split
    · exact Timing.le_comes set (.at t)
    · next hlater =>
        rw [if_neg fun hpast => hlater (Nat.le_trans hle hpast)]
        exact Agenda.wholeMillis_mono hle
  rw [Ask.timer?]
  split
  · next hle => exact ⟨_, _, rfl, .ticked (.comes hdue) (.comes hend) (hmono hle)⟩
  · next hlater =>
      exact ⟨_, _, rfl, .missed (.comes hend) (.comes hdue) (hmono (Nat.le_of_not_le hlater))⟩

theorem Prompts.of_lapsing {lag : Span} {set deadline : Instant}
    (hend : 999999 ≤ lag ∨ 1000000 ∣ deadline) :
    Prompts lag set (.lapsing deadline) ((Timing.at deadline).comes set) .lapsed :=
  .lapsed (.comes hend)

theorem Prompts.answers {lag : Span} {set now : Instant} {ask : Ask} {signal : Signal}
    (h : Prompts lag set ask now signal) : set ≤ now ∧ Answers now ask signal := by
  cases h with
  | opened => exact ⟨Nat.le_refl set, .opened⟩
  | closed => exact ⟨Nat.le_refl set, .closed⟩
  | ticked hgo => exact ⟨hgo.set_le, .ticked hgo.due_le⟩
  | missed hgo => exact ⟨hgo.set_le, .missed hgo.due_le⟩
  | lapsed hgo => exact ⟨hgo.set_le, .lapsed hgo.due_le⟩

/-- The batch that begins at a moment: when, and how many openings it has. -/
def Beat.batch? (b : Beat) : Option (Instant × Nat) :=
  if b.openings = [] then none else some (b.time, b.openings.length)

/-! ## What a plan allows -/

namespace Plan

variable {p : Plan} {k : Nat}

/-- How many ticks are due before the deadline. -/
def ticks (p : Plan) : Nat := p.duration ⌈/⌉ p.period

/-- How many batches there are: one at each tick before the deadline, until enough is held. -/
def batches (p : Plan) : Nat := min p.ticks (p.target ⌈/⌉ p.increase)

/-- How many resources the batch with a number opens: no more than are missing. -/
def share (p : Plan) (k : Nat) : Nat := min p.increase (p.target - p.increase * k)

/-- How many resources are opened in all. -/
def total (p : Plan) : Nat := min p.target (p.increase * p.ticks)

/-- A batch is the one with a number: it begins when its tick is due, with a lag, and has its
    share. -/
structure IsBatch (p : Plan) (lag : Span) (t₀ : Instant) (k : Nat) (batch : Instant × Nat) :
    Prop where
  due_le : t₀ + p.period * k ≤ batch.1
  le_lag : batch.1 ≤ t₀ + p.period * k + lag
  size : batch.2 = p.share k

theorem period_pos (p : Plan) : 0 < p.period :=
  Nat.lt_of_lt_of_le (by decide) (Nat.le_max_left shortestTick _)

theorem period_dvd (h : 1000000 ∣ p.interval) : 1000000 ∣ p.period := by
  have hshort : 1000000 ∣ shortestTick := by decide
  have hfar : 1000000 ∣ farFuture := by decide
  rw [period]
  rcases Nat.le_total p.interval farFuture with hle | hle
  · rw [Nat.min_eq_left hle]
    rcases Nat.le_total shortestTick p.interval with hle' | hle'
    · rwa [Nat.max_eq_right hle']
    · rwa [Nat.max_eq_left hle']
  · rw [Nat.min_eq_right hle, Nat.max_eq_right (by decide)]
    exact hfar

theorem lt_ticks_iff : k < p.ticks ↔ p.period * k < p.duration := by
  rw [← Nat.not_le, ← Nat.not_le, ticks, ceilDiv_le_iff_le_mul p.period_pos]

theorem lt_batches_iff (hinc : 0 < p.increase) :
    k < p.batches ↔ p.period * k < p.duration ∧ p.increase * k < p.target := by
  rw [batches, Nat.lt_min, lt_ticks_iff, ← Nat.not_le (a := p.target ⌈/⌉ p.increase),
    ceilDiv_le_iff_le_mul hinc, Nat.not_le]

theorem share_add (h : p.increase * k ≤ p.target) :
    p.increase * k + p.share k = min p.target (p.increase * (k + 1)) := by
  rw [share, Nat.mul_succ]
  omega

/-- All batches but the last are full. -/
theorem share_of_lt (h : k + 1 < p.batches) : p.share k = p.increase := by
  by_cases hinc : p.increase = 0
  · rw [share, hinc, Nat.zero_min]
  · have hmore := ((lt_batches_iff (Nat.pos_of_ne_zero hinc)).mp h).2
    rw [Nat.mul_succ] at hmore
    rw [share]
    omega

end Plan

namespace Ramp

variable {name : String} {p : Plan} {lag : Span} {t₀ t now : Instant} {h : List Beat} {b : Beat}
  {r : Ramp} {k : Nat}

/-! ## Runs in which nothing loses time -/

/-- The runs of a ramp in which nothing loses time. -/
inductive Smooth (name : String) (p : Plan) (lag : Span) (t₀ : Instant) :
    List Beat → Instant → Ramp → Prop where
  | start : Smooth name p lag t₀ [(Ramp.start p t₀).beat t₀ none] t₀ (Ramp.start p t₀).state
  | tell {h : List Beat} {t now : Instant} {r : Ramp} {ask : Ask} {signal : Signal}
      {next : Step Ramp} :
      Smooth name p lag t₀ h t r → ask ∈ r.pending → Prompts lag t ask now signal →
      r.step name now signal = some next →
      Smooth name p lag t₀ (h ++ [next.beat now (some signal)]) now next.state

theorem Smooth.run (hs : Smooth name p lag t₀ h now r) : Run (machine name p) t₀ h now r := by
  induction hs with
  | start => exact Run.start
  | tell hs hask hprompt hstep ih => exact ih.tell hprompt.answers.1 hstep

/-- The batches that have begun, up to a number. -/
def Begun (p : Plan) (lag : Span) (t₀ : Instant) (h : List Beat) (k : Nat) : Prop :=
  List.Forall₂ (p.IsBatch lag t₀) (List.range k) (h.filterMap Beat.batch?)

theorem Begun.idle (hb : Begun p lag t₀ h k) (hnone : b.openings = []) :
    Begun p lag t₀ (h ++ [b]) k := by
  have hbatch : b.batch? = none := if_pos hnone
  rw [Begun, List.filterMap_append, List.filterMap_cons_none hbatch, List.filterMap_nil,
    List.append_nil]
  exact hb

theorem Begun.snoc (hb : Begun p lag t₀ h k) (hsome : b.openings ≠ [])
    (hbatch : p.IsBatch lag t₀ k (b.time, b.openings.length)) :
    Begun p lag t₀ (h ++ [b]) (k + 1) := by
  have hnew : b.batch? = some (b.time, b.openings.length) := if_neg hsome
  rw [Begun, List.filterMap_append, List.filterMap_cons_some hnew, List.range_succ]
  exact List.rel_append hb (.cons hbatch .nil)

/-- Without a lag the batches are on time. -/
theorem Begun.exact (hb : Begun p 0 t₀ h k) :
    h.filterMap Beat.batch? = (List.range k).map fun k => (t₀ + p.period * k, p.share k) := by
  have hexact : ∀ k batch, p.IsBatch 0 t₀ k batch → (t₀ + p.period * k, p.share k) = batch :=
    fun k batch hb => Prod.ext (Nat.le_antisymm hb.due_le hb.le_lag) hb.size.symm
  refine Eq.symm (List.forall₂_eq_eq_eq ▸ ?_)
  exact List.forall₂_map_left_iff.mpr (hb.imp hexact)

/-- A ramp that waits for a tick after `k` batches, all of them full. -/
structure Ticking (p : Plan) (lag : Span) (t₀ now : Instant) (h : List Beat) (r : Ramp) (k : Nat) :
    Prop where
  increases : 0 < p.increase
  le : k ≤ p.batches
  due : r.due = t₀ + p.period * k
  soon : now ≤ r.due
  early : now ≤ t₀ + p.duration
  held : r.held.length = p.increase * k
  free : k = 0 ∨ p.increase * k < p.target
  begun : Begun p lag t₀ h k
  beats : h.length = 1 + k + r.held.length

/-- A ramp that waits for openings of the batch with the number `k`. -/
structure Opening (p : Plan) (lag : Span) (t₀ now : Instant) (h : List Beat) (r : Ramp)
    (ws : List Nat) (k : Nat) : Prop where
  increases : 0 < p.increase
  lt : k < p.batches
  due : r.due = t₀ + p.period * (k + 1)
  soon : now ≤ t₀ + p.period * k + lag
  some : ws ≠ []
  held : r.held.length + ws.length = min p.target (p.increase * (k + 1))
  begun : Begun p lag t₀ h (k + 1)
  beats : h.length = 2 + k + r.held.length

/-- A ramp that has opened all that it will. -/
structure Holding (p : Plan) (lag : Span) (t₀ now : Instant) (h : List Beat) (r : Ramp) : Prop where
  soon : now ≤ t₀ + p.duration + lag
  held : r.held.length = p.total
  begun : Begun p lag t₀ h p.batches
  beats : h.length ≤ 2 + p.batches + r.held.length

/-- A ramp whose deadline has come, with some resources left to close. -/
structure Closing (p : Plan) (lag : Span) (t₀ now : Instant) (h : List Beat) (r : Ramp) : Prop where
  due : t₀ + p.duration ≤ now
  soon : now ≤ t₀ + p.duration + lag
  opened : r.opened = p.total
  begun : Begun p lag t₀ h p.batches
  beats : h.length + r.held.length ≤ 3 + p.batches + 2 * p.total

/-- Where a ramp stands when nothing loses time. -/
def Standing (p : Plan) (lag : Span) (t₀ now : Instant) (h : List Beat) (r : Ramp) : Prop :=
  match r.stage with
  | .ticking => ∃ k, Ticking p lag t₀ now h r k
  | .opening ws => ∃ k, Opening p lag t₀ now h r ws k
  | .holding => Holding p lag t₀ now h r
  | .closing => Closing p lag t₀ now h r
  | .done elapsed => Closing p lag t₀ now h r ∧ elapsed = now - t₀
  | .broken => False

/-! ## What the steps do -/

/-- A batch begins when its tick is due before the deadline and something is missing. -/
theorem Ticking.lt (ht : Ticking p lag t₀ now h r k) (hearly : p.period * k < p.duration)
    (hfree : r.held.length < p.target) : k < p.batches :=
  (Plan.lt_batches_iff ht.increases).mpr ⟨hearly, ht.held ▸ hfree⟩

/-- There is no further batch if the tick is due at the deadline or behind it, or if nothing is
    missing, and then all is open that will be. -/
theorem Ticking.total (ht : Ticking p lag t₀ now h r k)
    (hover : p.duration ≤ p.period * k ∨ p.target ≤ r.held.length) :
    k = p.batches ∧ r.held.length = p.total := by
  have hk : k = p.batches := by
    refine Nat.le_antisymm ht.le (Nat.le_of_not_lt fun hlt => ?_)
    obtain ⟨hearly, hfree⟩ := (Plan.lt_batches_iff ht.increases).mp hlt
    rw [ht.held] at hover
    exact hover.elim (Nat.not_le.mpr hearly) (Nat.not_le.mpr hfree)
  refine ⟨hk, ?_⟩
  have hfits : p.increase * k ≤ p.target := by
    rcases ht.free with hzero | hfree
    · rw [hzero]
      exact Nat.zero_le _
    · exact Nat.le_of_lt hfree
  have hticks : k ≤ p.ticks := Nat.le_trans ht.le (Nat.min_le_left _ _)
  rw [ht.held, Plan.total]
  rcases hover with hlate | hfull
  · have hall : p.ticks ≤ k := Nat.le_of_not_lt fun hlt =>
      absurd (Plan.lt_ticks_iff.mp hlt) (Nat.not_lt.mpr hlate)
    rw [Nat.le_antisymm hall hticks, Nat.min_eq_right hfits]
  · rw [ht.held] at hfull
    have hmore := Nat.mul_le_mul_left p.increase hticks
    rw [Nat.min_eq_left (Nat.le_trans hfull hmore)]
    exact Nat.le_antisymm hfits hfull

/-- A ramp that stops to tick holds all that it will open. -/
theorem Ticking.holding {r' : Ramp} (ht : Ticking p lag t₀ t h r k)
    (hover : p.duration ≤ p.period * k ∨ p.target ≤ r.held.length)
    (hsoon : now ≤ t₀ + p.duration + lag) (hnone : b.openings = []) (hheld : r'.held = r.held) :
    Holding p lag t₀ now (h ++ [b]) r' := by
  obtain ⟨hk, htotal⟩ := ht.total hover
  refine ⟨hsoon, hheld ▸ htotal, hk ▸ ht.begun.idle hnone, ?_⟩
  rw [List.length_append, List.length_singleton, ht.beats, hheld, hk]
  omega

/-- After one of its openings a ramp waits for the others; after the last it waits for its deadline
    if it holds enough, and else for a tick. -/
theorem settle_cases (r : Ramp) (ws : List Nat) (worker : Nat) (notes : List Metric.Note) :
    (ws.erase worker ≠ [] ∧
      (r.settle ws worker notes).state = { r with stage := .opening (ws.erase worker) }) ∨
    (ws.erase worker = [] ∧
      ((r.plan.target ≤ r.held.length ∧
        (r.settle ws worker notes).state = { r with stage := .holding }) ∨
      (r.held.length < r.plan.target ∧
        (r.settle ws worker notes).state = { r with stage := .ticking }))) := by
  rw [settle]
  cases hrest : ws.erase worker with
  | cons first rest => exact .inl ⟨List.cons_ne_nil _ _, rfl⟩
  | nil =>
      right
      refine ⟨rfl, ?_⟩
      by_cases hfull : r.plan.target ≤ r.held.length
      · left
        refine ⟨hfull, ?_⟩
        simp only [List.isEmpty_nil, Bool.not_true, Bool.false_eq_true, if_false, if_pos hfull]
        rfl
      · right
        refine ⟨Nat.lt_of_not_le hfull, ?_⟩
        simp only [List.isEmpty_nil, Bool.not_true, Bool.false_eq_true, if_false, if_neg hfull]
        rfl

/-- Whole milliseconds leave no room for a lag of less than one. -/
theorem le_of_le_lag {x d lag : Nat} (hlag : lag < 1000000) (hx : 1000000 ∣ x) (hd : 1000000 ∣ d)
    (h : d ≤ x + lag) : d ≤ x := by
  omega

section

variable (hlag : lag < 1000000) (hd : 1000000 ∣ p.duration) (hi : 1000000 ∣ p.interval)

include hlag hd hi

/-- The deadline does not come between a tick before it and the lag of that tick. -/
theorem duration_le (h : t₀ + p.duration ≤ t₀ + p.period * k + lag) :
    p.duration ≤ p.period * k := by
  rw [Nat.add_assoc] at h
  have hdvd : 1000000 ∣ p.period * k := Dvd.dvd.mul_right (Plan.period_dvd hi) k
  exact le_of_le_lag hlag hdvd hd (Nat.le_of_add_le_add_left h)

/-- A tick that comes when it is due opens the next batch, or nothing if all is open. -/
theorem Ticking.tick (ht : Ticking p lag t₀ t h r k) (hplan : r.plan = p)
    (hdeadline : r.deadline = t₀ + p.duration) (hdue : r.due ≤ now) (hlate : now ≤ r.due + lag)
    (hsoon : now ≤ t₀ + p.duration + lag) :
    Standing p lag t₀ now (h ++ [(r.tick now).beat now (some .ticked)]) (r.tick now).state := by
  rw [ht.due] at hdue hlate
  rcases tick_spec r now with ⟨hover, hquiet, hhold⟩ | ⟨hin, hfree, hstate, hasks⟩
  · obtain ⟨due, stage, heq⟩ := hquiet.state
    rw [Standing, hhold]
    refine ht.holding ?_ hsoon hquiet.openings (by rw [heq])
    rw [hdeadline, hplan] at hover
    exact hover.imp_left fun hend => duration_le hlag hd hi (Nat.le_trans hend hlate)
  · rw [hdeadline] at hin
    rw [hplan] at hfree
    have hearly : p.period * k < p.duration :=
      Nat.lt_of_add_lt_add_left (Nat.lt_of_le_of_lt hdue hin)
    have hlt : k < p.batches := ht.lt hearly hfree
    have hopen : ((r.tick now).beat now (some .ticked)).openings = r.batch :=
      Step.openings_of_asks hasks
    have hshare : r.batch.length = p.share k := by
      rw [batch, List.length_map, List.length_range, hplan, ht.held, Plan.share]
    have hpos : 0 < p.share k := by
      have hinc := ht.increases
      rw [ht.held] at hfree
      rw [Plan.share]
      omega
    have hnext : r.nextDue now = t₀ + p.period * (k + 1) := by
      have hleeway : lag ≤ tickLeeway := Nat.le_trans (Nat.le_of_lt hlag) (by decide)
      rw [nextDue, if_neg, hplan, ht.due, Nat.add_assoc, Nat.mul_succ]
      rw [ht.due]
      exact Nat.not_lt.mpr (Nat.le_trans hlate (Nat.add_le_add_left hleeway _))
    have hsome : r.batch ≠ [] := List.ne_nil_of_length_pos (hshare ▸ hpos)
    rw [Standing, hstate]
    refine ⟨k, ht.increases, hlt, hnext, hlate, hsome, ?_, ?_, ?_⟩
    · show r.held.length + r.batch.length = _
      rw [ht.held, hshare, Plan.share_add (ht.held ▸ Nat.le_of_lt hfree)]
    · refine ht.begun.snoc (hopen ▸ hsome) ⟨hdue, hlate, ?_⟩
      rw [hopen]
      exact hshare
    · rw [List.length_append, List.length_singleton, ht.beats]
      show 1 + k + r.held.length + 1 = 2 + k + r.held.length
      omega

/-- A ramp whose deadline comes before its next tick is at a tick that is due at the deadline or
    behind it. -/
theorem Ticking.lapse (ht : Ticking p lag t₀ t h r k) (hend : t₀ + p.duration ≤ now)
    (hlate : now ≤ r.due + lag) (hsoon : now ≤ t₀ + p.duration + lag) :
    Standing p lag t₀ now (h ++ [r.hold.beat now (some .lapsed)]) r.hold.state := by
  rw [ht.due] at hlate
  exact ht.holding (.inl (duration_le hlag hd hi (Nat.le_trans hend hlate))) hsoon rfl rfl

/-- An opening that succeeds leaves the others of its batch to wait for, or the next tick, or
    nothing but the deadline. -/
theorem Opening.gain {ws : List Nat} {resource : Resource} {notes : List Metric.Note}
    (ho : Opening p lag t₀ now h r ws k) (hplan : r.plan = p) (hmem : resource.worker ∈ ws)
    (hnone : b.openings = []) :
    Standing p lag t₀ now (h ++ [b]) ((r.gain resource).settle ws resource.worker notes).state := by
  have hheld : (r.gain resource).held.length = r.held.length + 1 := List.length_append
  have hleft : (ws.erase resource.worker).length + 1 = ws.length :=
    List.length_erase_add_one hmem
  have hsum : (r.gain resource).held.length + (ws.erase resource.worker).length =
      min p.target (p.increase * (k + 1)) := by
    rw [← ho.held, hheld, ← hleft]
    omega
  have hbegun : Begun p lag t₀ (h ++ [b]) (k + 1) := ho.begun.idle hnone
  have hbeats : (h ++ [b]).length = 2 + k + (r.gain resource).held.length := by
    rw [List.length_append, List.length_singleton, ho.beats, hheld]
    rfl
  -- the lag of a tick before the deadline is over by the deadline
  obtain ⟨hearly, hmore⟩ := (Plan.lt_batches_iff ho.increases).mp ho.lt
  have hend : t₀ + p.period * k + lag ≤ t₀ + p.duration := by
    refine Nat.le_of_not_lt fun hlt => absurd hearly (Nat.not_lt.mpr ?_)
    exact duration_le hlag hd hi (Nat.le_of_lt hlt)
  have hsoon : now ≤ t₀ + p.duration := Nat.le_trans ho.soon hend
  rcases settle_cases (r.gain resource) ws resource.worker notes with
    ⟨hsome, hstate⟩ | ⟨hempty, hover⟩
  · rw [Standing, hstate]
    exact ⟨k, ho.increases, ho.lt, ho.due, ho.soon, hsome, hsum, hbegun, hbeats⟩
  · rw [hempty, List.length_nil, Nat.add_zero] at hsum
    rcases hover with ⟨hfull, hstate⟩ | ⟨hfree, hstate⟩
    · have hall : p.target ≤ p.increase * (k + 1) := by
        have : p.target ≤ (r.gain resource).held.length := hplan ▸ hfull
        omega
      have hlast : k + 1 = p.batches := by
        refine Nat.le_antisymm ho.lt (Nat.le_of_not_lt fun hlt => ?_)
        exact absurd ((Plan.lt_batches_iff ho.increases).mp hlt).2 (Nat.not_lt.mpr hall)
      have hticks : p.target ≤ p.increase * p.ticks :=
        Nat.le_trans hall (Nat.mul_le_mul_left _ (Nat.le_trans ho.lt (Nat.min_le_left _ _)))
      rw [Standing, hstate]
      refine ⟨Nat.le_add_right_of_le hsoon, ?_, hlast ▸ hbegun, ?_⟩
      · show (r.gain resource).held.length = p.total
        rw [hsum, Nat.min_eq_left hall, Plan.total, Nat.min_eq_left hticks]
      · show (h ++ [b]).length ≤ 2 + p.batches + (r.gain resource).held.length
        rw [hbeats, ← hlast]
        omega
    · have hmissing : p.increase * (k + 1) < p.target := by
        have : (r.gain resource).held.length < p.target := hplan ▸ hfree
        omega
      rw [Nat.min_eq_right (Nat.le_of_lt hmissing)] at hsum
      rw [Standing, hstate]
      refine ⟨k + 1, ho.increases, ho.lt, ho.due, ?_, hsoon, hsum, .inr hmissing, hbegun, ?_⟩
      · show now ≤ r.due
        rw [ho.due, Nat.mul_succ, ← Nat.add_assoc]
        refine Nat.le_trans ho.soon (Nat.add_le_add_left ?_ _)
        exact Nat.le_trans (Nat.le_of_lt hlag) (Nat.le_of_dvd p.period_pos (Plan.period_dvd hi))
      · show (h ++ [b]).length = 1 + (k + 1) + (r.gain resource).held.length
        rw [hbeats]
        omega

end

/-- A ramp starts with its first tick due at once, or with nothing to open. -/
theorem Standing.start (p : Plan) (lag : Span) (t₀ : Instant) :
    Standing p lag t₀ t₀ [(Ramp.start p t₀).beat t₀ none] (Ramp.start p t₀).state := by
  rw [Ramp.start]
  by_cases hzero : p.increase = 0
  · have hbatches : p.batches = 0 := by rw [Plan.batches, hzero, ceilDiv_zero, Nat.min_zero]
    have htotal : p.total = 0 := by rw [Plan.total, hzero, Nat.zero_mul, Nat.min_zero]
    simp only [if_pos hzero]
    refine ⟨Nat.le_add_right_of_le (Nat.le_add_right _ _), htotal.symm, ?_, ?_⟩
    · rw [hbatches]
      exact .nil
    · rw [hbatches]
      show 1 ≤ 2
      decide
  · simp only [if_neg hzero]
    exact ⟨0, Nat.pos_of_ne_zero hzero, Nat.zero_le _, rfl, Nat.le_refl _, Nat.le_add_right _ _,
      rfl, .inl rfl, .nil, rfl⟩

/-- A ramp that closes what it holds has still to close it, or is over. -/
theorem Closing.close {notes : List Metric.Note} (hc : Closing p lag t₀ now h r)
    (hstarted : r.started = t₀) : Standing p lag t₀ now h (r.close notes now).state := by
  rw [Ramp.close]
  split
  · exact ⟨hc.due, hc.soon, hc.opened, hc.begun, hc.beats⟩
  · exact ⟨⟨hc.due, hc.soon, hc.opened, hc.begun, hc.beats⟩, by rw [hstarted]⟩

/-! ## Every smooth run -/

/-- In a smooth run no opening fails. -/
theorem Smooth.unopened (hs : Smooth name p lag t₀ h now r) : h.flatMap Beat.unopened = [] := by
  induction hs with
  | start => rfl
  | tell hs hask hprompt hstep ih =>
      rw [flatMap_snoc, ih]
      cases hprompt <;> rfl

/-- As long as nothing is closed, all that was opened is held. -/
theorem Sound.opened (hs : Sound p t₀ now h r) (hkeep : r.keeping = true) :
    r.opened = r.held.length := by
  obtain ⟨-, hclosed⟩ := (phase_iff_of_keeping hkeep).mp hs.phase
  rw [hs.books.opened, hs.books.holds, hclosed, List.nil_append]

/-- A smooth run goes from one standing to the next. -/
theorem Smooth.standing (hlag : lag < 1000000) (hd : 1000000 ∣ p.duration)
    (hi : 1000000 ∣ p.interval) (hfits : t₀ + p.duration ≤ lastInstant)
    (hs : Smooth name p lag t₀ h now r) : Standing p lag t₀ now h r := by
  induction hs with
  | start => exact Standing.start p lag t₀
  | @tell h t now r ask signal next hs hask hprompt hstep ih =>
      have hsound := sound_of_run hs.run
      have hdeadline : r.deadline = t₀ + p.duration := hsound.books.deadline.trans (if_pos hfits)
      cases step_moves hstep with
      | tick hstage hdue =>
          rw [pending, hstage] at hask
          obtain rfl := List.mem_singleton.mp hask
          rw [Standing, hstage] at ih
          obtain ⟨k, ht⟩ := ih
          cases hprompt with
          | ticked hgo hend hfirst =>
              refine ht.tick hlag hd hi hsound.books.plan hdeadline hdue ?_ ?_
              · exact hgo.le_lag (Nat.le_add_right_of_le ht.soon)
              · rw [hdeadline] at hend
                exact Nat.le_trans hfirst (hend.le_lag (Nat.le_add_right_of_le ht.early))
      | lapse hstage hend =>
          rw [pending, hstage] at hask
          obtain rfl := List.mem_singleton.mp hask
          rw [Standing, hstage] at ih
          obtain ⟨k, ht⟩ := ih
          cases hprompt with
          | missed hgo hdue hfirst =>
              rw [hdeadline] at hend hgo
              refine ht.lapse hlag hd hi hend ?_ ?_
              · exact Nat.le_trans hfirst (hdue.le_lag (Nat.le_add_right_of_le ht.soon))
              · exact hgo.le_lag (Nat.le_add_right_of_le ht.early)
      | @gain ws resource hstage hmem =>
          rw [pending, hstage] at hask
          obtain ⟨worker, -, rfl⟩ := List.mem_map.mp hask
          rw [Standing, hstage] at ih
          obtain ⟨k, ho⟩ := ih
          cases hprompt with
          | opened =>
              obtain ⟨hquiet, -, -⟩ :=
                settle_spec (r.gain resource) ws resource.worker [.opened name]
              exact ho.gain hlag hd hi hsound.books.plan hmem hquiet.openings
      | lose hstage hmem hfail =>
          cases hprompt <;> cases hfail
      | release hstage hend =>
          rw [pending, hstage] at hask
          obtain rfl := List.mem_singleton.mp hask
          rw [Standing, hstage] at ih
          cases hprompt with
          | lapsed hgo =>
              rw [hdeadline] at hend hgo
              refine Closing.close ⟨hend, hgo.le_lag ih.soon, ?_, ?_, ?_⟩ hsound.books.started
              · rw [hsound.opened (by rw [keeping, hstage]), ih.held]
              · exact ih.begun.idle (close_openings r [] now)
              · have hbeats := ih.beats
                rw [ih.held] at hbeats
                rw [List.length_append, List.length_singleton, ih.held]
                omega
      | @part first rest hstage hheld =>
          rw [pending, hstage, hheld] at hask
          obtain rfl := List.mem_singleton.mp hask
          rw [Standing, hstage] at ih
          cases hprompt with
          | closed =>
              have hbeats := ih.beats
              rw [hheld, List.length_cons] at hbeats
              refine Closing.close ⟨ih.due, ih.soon, ih.opened, ?_, ?_⟩ hsound.books.started
              · exact ih.begun.idle (close_openings _ _ _)
              · rw [List.length_append, List.length_singleton]
                show h.length + 1 + rest.length ≤ _
                omega
      | jam hstage hheld => cases hprompt

/-- A ramp has only so many moments. -/
theorem Standing.beats_le (hst : Standing p lag t₀ now h r) :
    h.length ≤ 3 + p.batches + 2 * p.total := by
  rw [Standing] at hst
  have hticks : p.batches ≤ p.ticks := Nat.min_le_left _ _
  split at hst
  · obtain ⟨k, ht⟩ := hst
    have hheld : r.held.length ≤ p.total := by
      rw [ht.held, Plan.total]
      refine Nat.le_min.mpr ⟨?_, Nat.mul_le_mul_left _ (Nat.le_trans ht.le hticks)⟩
      rcases ht.free with hzero | hfree
      · rw [hzero]
        exact Nat.zero_le _
      · exact Nat.le_of_lt hfree
    have hbeats := ht.beats
    have hle := ht.le
    omega
  · obtain ⟨k, ho⟩ := hst
    have hheld : r.held.length ≤ p.total := by
      refine Nat.le_trans (ho.held ▸ Nat.le_add_right _ _) ?_
      exact min_le_min_left _ (Nat.mul_le_mul_left _ (Nat.le_trans ho.lt hticks))
    have hbeats := ho.beats
    have hlt := ho.lt
    omega
  · have hbeats := hst.beats
    have hheld := hst.held
    omega
  · have hbeats := hst.beats
    omega
  · have hbeats := hst.1.beats
    omega
  · exact hst.elim

/-- The moments of a ramp are over by its deadline, with a lag. -/
theorem Standing.now_le (hst : Standing p lag t₀ now h r) : now ≤ t₀ + p.duration + lag := by
  rw [Standing] at hst
  split at hst
  · obtain ⟨k, ht⟩ := hst
    exact Nat.le_add_right_of_le ht.early
  · obtain ⟨k, ho⟩ := hst
    have hearly := ((Plan.lt_batches_iff ho.increases).mp ho.lt).1
    refine Nat.le_trans ho.soon (Nat.add_le_add_right ?_ lag)
    exact Nat.add_le_add_left (Nat.le_of_lt hearly) t₀
  · exact hst.soon
  · exact hst.soon
  · exact hst.1.soon
  · exact hst.elim

/-- A ramp that is not over waits for something that comes. -/
theorem Smooth.awaits (hst : Standing p lag t₀ t h r) (hs : Smooth name p lag t₀ h t r)
    (hon : r.report? = none) : ∃ ask ∈ r.pending, ∃ now signal, Prompts lag t ask now signal := by
  rw [pending]
  rw [Standing] at hst
  have hphase := (sound_of_run hs.run).phase
  cases hstage : r.stage with
  | ticking =>
      refine ⟨_, List.mem_singleton.mpr rfl, ?_⟩
      have hdue := GoesOff.intro lag t r.due
      have hend := GoesOff.intro lag t r.deadline
      rcases Nat.le_total (max t r.due) (max t r.deadline) with hfirst | hfirst
      · exact ⟨_, _, .ticked hdue hend hfirst⟩
      · exact ⟨_, _, .missed hend hdue hfirst⟩
  | opening ws =>
      rw [hstage] at hst
      obtain ⟨k, ho⟩ := hst
      obtain ⟨worker, rest, rfl⟩ := List.exists_cons_of_ne_nil ho.some
      exact ⟨_, List.mem_cons_self, t, _, @Prompts.opened lag t ⟨worker, 0⟩⟩
  | holding =>
      exact ⟨_, List.mem_singleton.mpr rfl, _, _, .lapsed (GoesOff.intro lag t r.deadline)⟩
  | closing =>
      rw [Phase, hstage] at hphase
      obtain ⟨-, first, rest, hheld, -⟩ := hphase
      exact ⟨.closing first, by rw [hheld]; exact List.mem_singleton.mpr rfl, t, _, .closed⟩
  | done elapsed =>
      rw [report?, hstage] at hon
      cases hon
  | broken =>
      rw [hstage] at hst
      exact hst.elim

theorem Smooth.goes_on (hst : Standing p lag t₀ t h r) (hs : Smooth name p lag t₀ h t r)
    (hon : r.report? = none) :
    ∃ b now r', Smooth name p lag t₀ (h ++ [b]) now r' := by
  obtain ⟨ask, hask, now, signal, hprompt⟩ := hs.awaits hst hon
  obtain ⟨next, hstep⟩ := takes_iff.mpr ⟨ask, hask, hprompt.answers.2⟩
  exact ⟨_, now, _, hs.tell hask hprompt hstep⟩

section

variable (hlag : lag < 1000000) (hd : 1000000 ∣ p.duration) (hi : 1000000 ∣ p.interval)
  (hfits : t₀ + p.duration ≤ lastInstant)

include hlag hd hi hfits

/-- A smooth run comes to an end: it goes on as long as it is not over, and has only so many
    moments. -/
theorem Smooth.ends {left : Nat} (hs : Smooth name p lag t₀ h now r)
    (hleft : 3 + p.batches + 2 * p.total ≤ h.length + left) :
    ∃ h' now' r' report, h <+: h' ∧ Smooth name p lag t₀ h' now' r' ∧
      r'.report? = some report := by
  induction left generalizing h now r with
  | zero =>
      cases hover : r.report? with
      | some report => exact ⟨h, now, r, report, List.prefix_refl h, hs, hover⟩
      | none =>
          obtain ⟨b, now', r', hs'⟩ := hs.goes_on (hs.standing hlag hd hi hfits) hover
          have hbeats := (hs'.standing hlag hd hi hfits).beats_le
          rw [List.length_append, List.length_singleton] at hbeats
          omega
  | succ left ih =>
      cases hover : r.report? with
      | some report => exact ⟨h, now, r, report, List.prefix_refl h, hs, hover⟩
      | none =>
          obtain ⟨b, now', r', hs'⟩ := hs.goes_on (hs.standing hlag hd hi hfits) hover
          obtain ⟨h'', now'', r'', report, hpre, hs'', hreport⟩ := ih hs' (by
            rw [List.length_append, List.length_singleton]
            omega)
          exact ⟨h'', now'', r'', report, (List.prefix_append h [b]).trans hpre, hs'', hreport⟩

/-- The report of a smooth run. -/
theorem Smooth.report {report : RampReport} (hs : Smooth name p lag t₀ h now r)
    (hreport : r.report? = some report) :
    report.opened = p.total ∧ report.failed = 0 ∧ report.peak = report.opened ∧
      p.duration ≤ report.elapsed ∧ report.elapsed ≤ p.duration + lag ∧
      Begun p lag t₀ h p.batches := by
  have hstanding := hs.standing hlag hd hi hfits
  have hbooks := (sound_of_run hs.run).books
  rw [report?] at hreport
  rw [Standing] at hstanding
  cases hstage : r.stage with
  | done elapsed =>
      rw [hstage] at hreport hstanding
      obtain ⟨hc, rfl⟩ := hstanding
      cases hreport
      refine ⟨hc.opened, ?_, hbooks.peak.trans hbooks.opened.symm, ?_, ?_, hc.begun⟩
      · show r.failed = 0
        rw [hbooks.failed, hs.unopened]
        rfl
      · exact Nat.le_sub_of_add_le' hc.due
      · have hsoon := hc.soon
        rw [Nat.add_assoc] at hsoon
        exact Nat.sub_le_iff_le_add'.mpr hsoon
  | _ => rw [hstage] at hreport; cases hreport

/-- **A RAMP OPENS WHAT ITS PLAN ALLOWS.**  A ramp whose openings succeed at once and whose
    closings take no time opens its target, or its increase once for every period that begins
    before its deadline, if that is less.  Its batches begin a period apart, each with its
    increase but the last; it comes to an end after so many moments, and lasts for its duration.
    Which of the two comes first when a tick falls on the deadline makes no difference.

    Timers may be late by a lag of less than a millisecond, and so may the batches and the end;
    without a lag they are on time. -/
theorem ramp_throughput :
    (∀ k, k + 1 < p.batches → p.share k = p.increase) ∧
    ∀ h now r, Smooth name p lag t₀ h now r →
      h.length ≤ 3 + p.batches + 2 * p.total ∧
      (∃ h' now' r' report, h <+: h' ∧ Smooth name p lag t₀ h' now' r' ∧
        r'.report? = some report) ∧
      ∀ report, r.report? = some report →
        report.opened = min p.target (p.increase * (p.duration ⌈/⌉ p.period)) ∧
        report.failed = 0 ∧ report.peak = report.opened ∧
        p.duration ≤ report.elapsed ∧ report.elapsed ≤ p.duration + lag ∧
        List.Forall₂ (p.IsBatch lag t₀) (List.range p.batches) (h.filterMap Beat.batch?) ∧
        (lag = 0 →
          report.elapsed = p.duration ∧
          h.filterMap Beat.batch? =
            (List.range p.batches).map fun k => (t₀ + p.period * k, p.share k)) := by
  refine ⟨fun k => Plan.share_of_lt, fun h now r hs => ⟨?_, ?_, fun report hreport => ?_⟩⟩
  · exact (hs.standing hlag hd hi hfits).beats_le
  · exact hs.ends hlag hd hi hfits (Nat.le_add_left _ _)
  · obtain ⟨hopened, hfailed, hpeak, hlong, hshort, hbegun⟩ :=
      hs.report hlag hd hi hfits hreport
    refine ⟨hopened, hfailed, hpeak, hlong, hshort, hbegun, ?_⟩
    rintro rfl
    exact ⟨Nat.le_antisymm hshort hlong, hbegun.exact⟩

end

/-- Two resources at every tick and a deadline at the third: four of ten are opened, whether the
    third tick or the deadline comes first. -/
theorem ramp_throughput_to_the_deadline :
    ∃ h now r report,
      Smooth "redis" ⟨10, 2, 0, Span.ofMillis 200⟩ 0 startup h now r ∧
      r.report? = some report ∧ report.opened = 4 ∧ report.elapsed = Span.ofMillis 200 ∧
      h.filterMap Beat.batch? = [(startup, 2), (startup + Span.ofMillis 100, 2)] := by
  have hthroughput := (@ramp_throughput "redis" ⟨10, 2, 0, Span.ofMillis 200⟩ 0 startup
    (by decide) (by decide) (by decide) (by decide)).2
  obtain ⟨h, now, r, report, -, hs, hreport⟩ := (hthroughput _ _ _ .start).2.1
  obtain ⟨hopened, -, -, -, -, -, hexact⟩ := (hthroughput _ _ _ hs).2.2 report hreport
  obtain ⟨helapsed, hbatches⟩ := hexact rfl
  exact ⟨h, now, r, report, hs, hreport, hopened, helapsed, hbatches⟩

end Ramp
end Havoc.Load
