import Havoc.Load.Basic

/-! # Runs of machines

    A run is one course that a machine can take: it starts, and is then told one
    signal after the other, at instants that do not go back.  Which signals come,
    in which order and how late is left open, so a fact about every run holds
    whatever the back end, the scheduler and the clock do.

    * a `Beat` is one moment of a run, with what the machine was told and what it
      then asked for;
    * `Run m t₀ h now s` says that the beats `h` lead to the state `s`;
    * every beginning of a run is a run (`Run.of_prefix`), so what holds at the
      end of every run holds at every moment of each. -/

namespace Havoc.Load

variable {α : Type}

/-- A machine: its first step at an instant, and what a signal makes of it. -/
structure Machine (α : Type) where
  start : Instant → Step α
  step : α → Instant → Signal → Option (Step α)

/-- A moment of a run: what the machine was told (nothing at its start), and
    what it had noted and asked for because of it. -/
structure Beat where
  time : Instant
  told : Option Signal
  notes : List Metric.Note
  asks : List Ask

/-- The moment of a step. -/
def Step.beat (next : Step α) (time : Instant) (told : Option Signal) : Beat :=
  ⟨time, told, next.notes, next.asks⟩

/-- The courses that a machine can take from an instant on. -/
inductive Run (m : Machine α) (t₀ : Instant) : List Beat → Instant → α → Prop where
  | start : Run m t₀ [(m.start t₀).beat t₀ none] t₀ (m.start t₀).state
  | tell {h : List Beat} {t now : Instant} {s : α} {signal : Signal} {next : Step α} :
      Run m t₀ h t s → t ≤ now → m.step s now signal = some next →
      Run m t₀ (h ++ [next.beat now (some signal)]) now next.state

/-- The signals that answer an ask at an instant.  When a tick and the deadline
    are due together, either answers. -/
inductive Answers (now : Instant) : Ask → Signal → Prop where
  | opened {resource : Resource} : Answers now (.opening resource.worker) (.opened resource)
  | refused {worker : Nat} {cause : String} : Answers now (.opening worker) (.refused worker cause)
  | broke {worker : Nat} : Answers now (.opening worker) (.broke worker)
  | worked {worker : Nat} {failed : Bool} : Answers now (.working worker) (.worked worker failed)
  | crashed {worker : Nat} : Answers now (.working worker) (.crashed worker)
  | rested {worker : Nat} {pause : Pause} :
      pause.isOver now = true → Answers now (.resting worker pause) (.rested worker)
  | ticked {due deadline : Instant} : due ≤ now → Answers now (.ticking due deadline) .ticked
  | missed {due deadline : Instant} : deadline ≤ now → Answers now (.ticking due deadline) .lapsed
  | lapsed {deadline : Instant} : deadline ≤ now → Answers now (.lapsing deadline) .lapsed
  | closed {resource : Resource} : Answers now (.closing resource) (.closed resource)
  | jammed {resource : Resource} : Answers now (.closing resource) (.jammed resource)

/-! ## What can be seen of a moment -/

/-- The number of a worker whose opening is asked for. -/
def Ask.opening? : Ask → Option Nat
  | .opening worker => some worker
  | _ => none

/-- The number of a worker that a cycle of work is asked for. -/
def Ask.working? : Ask → Option Nat
  | .working worker => some worker
  | _ => none

/-- The number of the worker that an ask is for. -/
def Ask.worker? : Ask → Option Nat
  | .opening worker | .working worker | .resting worker _ => some worker
  | .closing resource => some resource.worker
  | .ticking .. | .lapsing _ => none

/-- The resource whose closing is asked for. -/
def Ask.closing? : Ask → Option Resource
  | .closing resource => some resource
  | _ => none

/-- The resource that has been opened. -/
def Signal.opened? : Signal → Option Resource
  | .opened resource => some resource
  | _ => none

/-- The number of a worker whose opening has failed, with an answer or without. -/
def Signal.unopened? : Signal → Option Nat
  | .refused worker _ | .broke worker => some worker
  | _ => none

/-- The cycle of work that has ended: the number of its worker, and whether it
    failed. -/
def Signal.worked? : Signal → Option (Nat × Bool)
  | .worked worker failed => some (worker, failed)
  | _ => none

/-- The resource that has been closed. -/
def Signal.closed? : Signal → Option Resource
  | .closed resource => some resource
  | _ => none

/-- The number of a worker that breaks off with its cycle or with its closing. -/
def Signal.lost? : Signal → Option Nat
  | .crashed worker => some worker
  | .jammed resource => some resource.worker
  | _ => none

/-- A failed opening is no success, no closing, and no end of a worker that has a resource. -/
theorem Signal.only_unopened {signal : Signal} {worker : Nat}
    (hfail : signal.unopened? = some worker) :
    signal.opened? = none ∧ signal.closed? = none ∧ signal.lost? = none := by
  cases signal with
  | refused worker' cause => exact ⟨rfl, rfl, rfl⟩
  | broke worker' => exact ⟨rfl, rfl, rfl⟩
  | _ => exact nomatch hfail

namespace Beat

/-- The openings that begin at a moment, by the numbers of their workers. -/
def openings (b : Beat) : List Nat := b.asks.filterMap Ask.opening?

/-- The cycles of work that begin at a moment, by the numbers of their workers. -/
def workings (b : Beat) : List Nat := b.asks.filterMap Ask.working?

/-- The closings that begin at a moment. -/
def closings (b : Beat) : List Resource := b.asks.filterMap Ask.closing?

/-- The resource that turns out to be open at a moment. -/
def opened (b : Beat) : List Resource := (b.told.bind Signal.opened?).toList

/-- The opening that turns out to have failed at a moment. -/
def unopened (b : Beat) : List Nat := (b.told.bind Signal.unopened?).toList

/-- The cycle of work that ends at a moment. -/
def worked (b : Beat) : List (Nat × Bool) := (b.told.bind Signal.worked?).toList

/-- The resource that turns out to be closed at a moment. -/
def closed (b : Beat) : List Resource := (b.told.bind Signal.closed?).toList

/-- The worker that breaks off at a moment. -/
def lost (b : Beat) : List Nat := (b.told.bind Signal.lost?).toList

end Beat

/-- The openings of a step that asks for nothing else. -/
theorem Step.openings_of_asks {next : Step α} {time : Instant} {told : Option Signal}
    {workers : List Nat} (h : next.asks = workers.map .opening) :
    (next.beat time told).openings = workers := by
  show next.asks.filterMap Ask.opening? = workers
  rw [h, List.filterMap_map]
  exact List.filterMap_some

/-- What a moment adds to the beats. -/
theorem flatMap_snoc {β : Type} (f : Beat → List β) (h : List Beat) (b : Beat) :
    (h ++ [b]).flatMap f = h.flatMap f ++ f b := by
  rw [List.flatMap_append, List.flatMap_singleton]

/-- A moment at which nothing is seen adds nothing. -/
theorem flatMap_snoc_of_nil {β : Type} {f : Beat → List β} {b : Beat} (hb : f b = [])
    (h : List Beat) : (h ++ [b]).flatMap f = h.flatMap f := by
  rw [flatMap_snoc, hb, List.append_nil]

/-- How many resources are held after some beats. -/
def heldAfter (h : List Beat) : Nat :=
  (h.flatMap Beat.opened).length - (h.flatMap Beat.closed).length

/-- How many openings are under way after some beats. -/
def inFlightAfter (h : List Beat) : Nat :=
  (h.flatMap Beat.openings).length -
    ((h.flatMap Beat.opened).length + (h.flatMap Beat.unopened).length)

/-! ## Facts about every run -/

namespace Run

variable {m : Machine α} {t₀ now : Instant} {h g : List Beat} {s : α}

/-- Every beginning of a run is a run. -/
theorem of_prefix (run : Run m t₀ h now s) (hg : g <+: h) (hne : g ≠ []) :
    ∃ t s', t ≤ now ∧ Run m t₀ g t s' := by
  induction run with
  | start =>
      obtain ⟨b, rest, rfl⟩ := List.exists_cons_of_ne_nil hne
      obtain ⟨hb, hrest⟩ := List.cons_prefix_cons.mp hg
      rw [hb, List.prefix_nil.mp hrest]
      exact ⟨_, _, Nat.le_refl _, Run.start⟩
  | tell run hle hstep ih =>
      -- the beginning is all of the run, or lies before its last beat
      rcases List.prefix_concat_iff.mp hg with heq | hpre
      · exact ⟨_, _, Nat.le_refl _, by rw [heq]; exact Run.tell run hle hstep⟩
      · obtain ⟨t, s', ht, hrun⟩ := ih hpre
        exact ⟨t, s', Nat.le_trans ht hle, hrun⟩

end Run

/-! ## Playing a run -/

/-- Tells a machine one signal after the other, and keeps the beats. -/
def Machine.play (m : Machine α) :
    List Beat → Instant → α → List (Instant × Signal) → Option (List Beat × Instant × α)
  | h, t, s, [] => some (h, t, s)
  | h, t, s, (now, signal) :: rest =>
      if t ≤ now then
        match m.step s now signal with
        | some next => m.play (h ++ [next.beat now (some signal)]) now next.state rest
        | none => none
      else none

/-- What is played is a run. -/
theorem Run.of_play {m : Machine α} {t₀ : Instant} (script : List (Instant × Signal)) :
    ∀ {h h' : List Beat} {t t' : Instant} {s s' : α},
      Run m t₀ h t s → m.play h t s script = some (h', t', s') → Run m t₀ h' t' s' := by
  induction script with
  | nil =>
      intro h h' t t' s s' run hplay
      cases hplay
      exact run
  | cons told rest ih =>
      intro h h' t t' s s' run hplay
      obtain ⟨now, signal⟩ := told
      rw [Machine.play] at hplay
      split at hplay
      · next hle =>
          split at hplay
          · next hstep => exact ih (run.tell hle hstep) hplay
          · cases hplay
      · cases hplay

end Havoc.Load
