import Havoc.Load.Ramp
import Havoc.Proofs.Load.Run
import Mathlib.Data.List.Perm.Subperm

/-! # What a ramp keeps to

    A ramp never holds more than its target, opens no more than its increase at a
    tick and nothing from its deadline on, and closes what it opened in order and
    once.

    The route: `Moves` lists everything that a signal can make of a ramp, and
    `Sound` ties the bookkeeping of a ramp to the beats that led to it.  A move
    keeps a ramp sound (`Sound.tell`), so every run is sound (`Run.sound`), and
    the main theorem `ramp_keeps_to_plan` reads off what a sound ramp has done. -/

namespace Havoc.Load

namespace Ramp

variable {name : String} {p : Plan} {t₀ t now : Instant} {h : List Beat} {r : Ramp}

/-- A ramp as a machine. -/
def machine (name : String) (p : Plan) : Machine Ramp := ⟨start p, step name⟩

/-- The openings that a ramp waits for. -/
def waiting (r : Ramp) : List Nat :=
  match r.stage with
  | .opening workers => workers
  | _ => []

/-- A ramp that has got hold of a resource. -/
def gain (r : Ramp) (resource : Resource) : Ramp :=
  { r with
    held := r.held ++ [resource], opened := r.opened + 1
    peak := max r.peak (r.held ++ [resource]).length }

/-- A ramp that one of its openings has failed. -/
def lose (r : Ramp) : Ramp := { r with failed := r.failed + 1 }

/-! ## The moves of a ramp -/

/-- Everything that a signal can make of a ramp. -/
inductive Moves (name : String) (r : Ramp) (now : Instant) : Signal → Step Ramp → Prop where
  | tick : r.stage = .ticking → r.due ≤ now → Moves name r now .ticked (r.tick now)
  | lapse : r.stage = .ticking → r.deadline ≤ now → Moves name r now .lapsed r.hold
  | gain {workers : List Nat} {resource : Resource} :
      r.stage = .opening workers → resource.worker ∈ workers →
      Moves name r now (.opened resource)
        ((r.gain resource).settle workers resource.worker [.opened name])
  | lose {workers : List Nat} {worker : Nat} {signal : Signal} {notes : List Metric.Note} :
      r.stage = .opening workers → worker ∈ workers → signal.unopened? = some worker →
      Moves name r now signal (r.lose.settle workers worker notes)
  | release : r.stage = .holding → r.deadline ≤ now → Moves name r now .lapsed (r.close [] now)
  | part {first : Resource} {rest : List Resource} :
      r.stage = .closing → r.held = first :: rest →
      Moves name r now (.closed first) ({ r with held := rest }.close [.closed name] now)
  | jam {first : Resource} {rest : List Resource} :
      r.stage = .closing → r.held = first :: rest →
      Moves name r now (.jammed first) { state := { r with stage := .broken } }

/-- A ramp makes no other moves. -/
theorem step_moves {signal : Signal} {next : Step Ramp}
    (hstep : r.step name now signal = some next) : Moves name r now signal next := by
  -- one case for each stage with a signal that it takes
  unfold step at hstep
  split at hstep
  · next hstage =>
      split at hstep
      · next hdue => cases hstep; exact .tick hstage hdue
      · cases hstep
  · next hstage =>
      split at hstep
      · next hend => cases hstep; exact .lapse hstage hend
      · cases hstep
  · next hstage =>
      split at hstep
      · next hmem => cases hstep; exact .gain hstage hmem
      · cases hstep
  · next hstage =>
      split at hstep
      · next hmem => cases hstep; exact .lose hstage hmem rfl
      · cases hstep
  · next hstage =>
      split at hstep
      · next hmem => cases hstep; exact .lose hstage hmem rfl
      · cases hstep
  · next hstage =>
      split at hstep
      · next hend => cases hstep; exact .release hstage hend
      · cases hstep
  · next hstage =>
      split at hstep
      · next hheld =>
          split at hstep
          · next heq => cases hstep; subst heq; exact .part hstage hheld
          · cases hstep
      · cases hstep
  · next hstage =>
      split at hstep
      · next hhead =>
          cases hstep
          obtain ⟨rest, hheld⟩ := List.head?_eq_some_iff.mp hhead
          exact .jam hstage hheld
      · cases hstep
  · cases hstep

/-- What a ramp waits for. -/
def pending (r : Ramp) : List Ask :=
  match r.stage with
  | .ticking => [.ticking r.due r.deadline]
  | .opening workers => workers.map .opening
  | .holding => [.lapsing r.deadline]
  | .closing => (r.held.head?.map .closing).toList
  | .done _ | .broken => []

/-- A ramp takes just the answers to what it waits for, whichever comes first. -/
theorem takes_iff {signal : Signal} :
    (∃ next, r.step name now signal = some next) ↔ ∃ ask ∈ r.pending, Answers now ask signal := by
  constructor
  · rintro ⟨next, hstep⟩
    cases step_moves hstep with
    | tick hstage hdue =>
        exact ⟨_, by rw [pending, hstage]; exact List.mem_singleton.mpr rfl, .ticked hdue⟩
    | lapse hstage hend =>
        exact ⟨_, by rw [pending, hstage]; exact List.mem_singleton.mpr rfl, .missed hend⟩
    | gain hstage hmem =>
        exact ⟨_, by rw [pending, hstage]; exact List.mem_map_of_mem hmem, .opened⟩
    | @lose workers worker signal notes hstage hmem hfail =>
        refine ⟨.opening worker, by rw [pending, hstage]; exact List.mem_map_of_mem hmem, ?_⟩
        cases signal with
        | refused worker' cause => cases hfail; exact .refused
        | broke worker' => cases hfail; exact .broke
        | _ => exact nomatch hfail
    | release hstage hend =>
        exact ⟨_, by rw [pending, hstage]; exact List.mem_singleton.mpr rfl, .lapsed hend⟩
    | part hstage hheld =>
        refine ⟨_, ?_, .closed⟩
        rw [pending, hstage, hheld]
        exact List.mem_singleton.mpr rfl
    | jam hstage hheld =>
        refine ⟨_, ?_, .jammed⟩
        rw [pending, hstage, hheld]
        exact List.mem_singleton.mpr rfl
  · rintro ⟨ask, hmem, hans⟩
    rw [pending] at hmem
    unfold step
    cases hstage : r.stage with
    | ticking =>
        rw [hstage] at hmem
        cases List.mem_singleton.mp hmem
        cases hans with
        | ticked hdue => exact ⟨_, if_pos hdue⟩
        | missed hend => exact ⟨_, if_pos hend⟩
    | opening workers =>
        rw [hstage] at hmem
        obtain ⟨worker, hworker, rfl⟩ := List.mem_map.mp hmem
        cases hans with
        | opened => exact ⟨_, if_pos hworker⟩
        | refused => exact ⟨_, if_pos hworker⟩
        | broke => exact ⟨_, if_pos hworker⟩
    | holding =>
        rw [hstage] at hmem
        cases List.mem_singleton.mp hmem
        cases hans with
        | lapsed hend => exact ⟨_, if_pos hend⟩
    | closing =>
        rw [hstage] at hmem
        cases hheld : r.held with
        | nil => rw [hheld] at hmem; exact nomatch hmem
        | cons first rest =>
            rw [hheld] at hmem
            cases List.mem_singleton.mp hmem
            cases hans with
            | closed => exact ⟨_, if_pos rfl⟩
            | jammed => exact ⟨_, if_pos rfl⟩
    | done elapsed => rw [hstage] at hmem; exact nomatch hmem
    | broken => rw [hstage] at hmem; exact nomatch hmem

/-! ## What the steps do -/

/-- A step that moves a ramp to another stage, and neither opens nor closes
    anything. -/
structure Quiet (r : Ramp) (next : Step Ramp) : Prop where
  state : ∃ due stage, next.state = { r with due, stage }
  openings : next.asks.filterMap Ask.opening? = []
  closings : next.asks.filterMap Ask.closing? = []

/-- The stages in which a ramp still keeps all that it has opened. -/
def keeping (r : Ramp) : Bool :=
  match r.stage with
  | .ticking | .opening _ | .holding => true
  | .closing | .done _ | .broken => false

/-- After one of its openings a ramp waits for the others, for a tick or for its
    deadline. -/
theorem settle_spec (r : Ramp) (workers : List Nat) (worker : Nat) (notes : List Metric.Note) :
    Quiet r (r.settle workers worker notes) ∧
      (r.settle workers worker notes).state.waiting = workers.erase worker ∧
      (r.settle workers worker notes).state.keeping = true := by
  cases hrest : workers.erase worker with
  | cons first rest =>
      -- others of the batch are still under way
      have heq : r.settle workers worker notes =
          { state := { r with stage := .opening (first :: rest) }, notes := notes } := by
        simp only [settle, hrest, List.isEmpty_cons, Bool.not_false, if_true]
      rw [heq]
      exact ⟨⟨⟨_, _, rfl⟩, rfl, rfl⟩, rfl, rfl⟩
  | nil =>
      -- the batch is over
      by_cases hfull : r.plan.target ≤ r.held.length
      · have heq : r.settle workers worker notes = { r.hold with notes := notes } := by
          simp [settle, hrest, hfull]
        rw [heq]
        exact ⟨⟨⟨_, _, rfl⟩, rfl, rfl⟩, rfl, rfl⟩
      · have heq : r.settle workers worker notes = { r.await with notes := notes } := by
          simp [settle, hrest, hfull]
        rw [heq]
        exact ⟨⟨⟨_, _, rfl⟩, rfl, rfl⟩, rfl, rfl⟩

/-- The workers that a tick opens resources for. -/
def batch (r : Ramp) : List Nat :=
  (List.range (min r.plan.increase (r.plan.target - r.held.length))).map (r.held.length + ·)

/-- A tick opens its batch before the deadline and as long as something is missing, and else
    nothing. -/
theorem tick_spec (r : Ramp) (now : Instant) :
    ((r.deadline ≤ now ∨ r.plan.target ≤ r.held.length) ∧
      Quiet r (r.tick now) ∧ (r.tick now).state.stage = .holding) ∨
      (now < r.deadline ∧ r.held.length < r.plan.target ∧
        (r.tick now).state = { r with due := r.nextDue now, stage := .opening r.batch } ∧
        (r.tick now).asks = r.batch.map .opening) := by
  by_cases hend : r.deadline ≤ now ∨ r.plan.target ≤ r.held.length
  · left
    have htick : r.tick now = ({ r with due := r.nextDue now } : Ramp).hold := if_pos hend
    rw [htick]
    exact ⟨hend, ⟨⟨_, _, rfl⟩, rfl, rfl⟩, rfl⟩
  · right
    rw [not_or, Nat.not_le, Nat.not_le] at hend
    have htick : r.tick now =
        { state := { r with due := r.nextDue now, stage := .opening r.batch }
          asks := r.batch.map .opening } :=
      if_neg (by rw [not_or, Nat.not_le, Nat.not_le]; exact hend)
    rw [htick]
    exact ⟨hend.1, hend.2, rfl, rfl⟩

/-- A ramp that closes what it holds opens nothing. -/
theorem close_openings (r : Ramp) (notes : List Metric.Note) (now : Instant) :
    (r.close notes now).asks.filterMap Ask.opening? = [] := by
  rw [close]
  cases r.held <;> rfl

/-! ## The bookkeeping of a ramp -/

/-- The books of a ramp agree with the beats that led to it; `ws` are the
    openings under way. -/
structure Books (p : Plan) (t₀ : Instant) (h : List Beat) (ws : List Nat) (r : Ramp) : Prop where
  plan : r.plan = p
  started : r.started = t₀
  deadline : r.deadline = deadlineAfter t₀ p.duration
  holds : h.flatMap Beat.opened = h.flatMap Beat.closed ++ r.held
  opened : r.opened = (h.flatMap Beat.opened).length
  failed : r.failed = (h.flatMap Beat.unopened).length
  peak : r.peak = (h.flatMap Beat.opened).length
  flight : (h.flatMap Beat.openings).Perm
    ((h.flatMap Beat.opened).map Resource.worker ++ (h.flatMap Beat.unopened ++ ws))
  room : r.held.length + ws.length ≤ p.target

/-- What the stage of a ramp says about its closings. -/
def Phase (t₀ now : Instant) (h : List Beat) (r : Ramp) : Prop :=
  match r.stage with
  | .ticking | .opening _ | .holding =>
      h.flatMap Beat.closings = [] ∧ h.flatMap Beat.closed = []
  | .closing =>
      r.deadline ≤ now ∧ ∃ first rest, r.held = first :: rest ∧
        h.flatMap Beat.closings = h.flatMap Beat.closed ++ [first]
  | .done elapsed =>
      r.deadline ≤ now ∧ r.held = [] ∧ elapsed = now - t₀ ∧
        h.flatMap Beat.closings = h.flatMap Beat.closed
  | .broken => True

/-- A ramp whose bookkeeping agrees with the beats that led to it. -/
structure Sound (p : Plan) (t₀ now : Instant) (h : List Beat) (r : Ramp) : Prop where
  books : Books p t₀ h r.waiting r
  phase : Phase t₀ now h r

/-- A ramp that keeps all that it has opened has closed nothing. -/
theorem phase_iff_of_keeping (hkeep : r.keeping = true) :
    Phase t₀ now h r ↔ h.flatMap Beat.closings = [] ∧ h.flatMap Beat.closed = [] := by
  cases r with
  | mk plan started deadline due stage held opened failed peak =>
      cases stage with
      | ticking => exact Iff.rfl
      | opening workers => exact Iff.rfl
      | holding => exact Iff.rfl
      | closing => exact nomatch hkeep
      | done elapsed => exact nomatch hkeep
      | broken => exact nomatch hkeep

namespace Books

variable {ws : List Nat} {b : Beat}

/-- The books know nothing of ticks and stages. -/
theorem restage {r' : Ramp} (hb : Books p t₀ h ws r)
    (hr : ∃ due stage, r' = { r with due, stage }) : Books p t₀ h ws r' := by
  obtain ⟨due, stage, heq⟩ := hr
  rw [heq]
  exact ⟨hb.plan, hb.started, hb.deadline, hb.holds, hb.opened, hb.failed, hb.peak, hb.flight,
    hb.room⟩

/-- A moment at which nothing is opened or closed leaves the books alone. -/
theorem idle (hb : Books p t₀ h ws r) (ho : b.opened = []) (hu : b.unopened = [])
    (hc : b.closed = []) (hg : b.openings = []) : Books p t₀ (h ++ [b]) ws r := by
  refine ⟨hb.plan, hb.started, hb.deadline, ?_, ?_, ?_, ?_, ?_, hb.room⟩
  · rw [flatMap_snoc_of_nil ho, flatMap_snoc_of_nil hc]
    exact hb.holds
  · rw [flatMap_snoc_of_nil ho]
    exact hb.opened
  · rw [flatMap_snoc_of_nil hu]
    exact hb.failed
  · rw [flatMap_snoc_of_nil ho]
    exact hb.peak
  · rw [flatMap_snoc_of_nil ho, flatMap_snoc_of_nil hu, flatMap_snoc_of_nil hg]
    exact hb.flight

/-- The openings of a tick are under way. -/
theorem tick (hb : Books p t₀ h [] r) (hfree : r.held.length < r.plan.target)
    (ho : b.opened = []) (hu : b.unopened = []) (hc : b.closed = [])
    (hg : b.openings = r.batch) : Books p t₀ (h ++ [b]) r.batch r := by
  refine ⟨hb.plan, hb.started, hb.deadline, ?_, ?_, ?_, ?_, ?_, ?_⟩
  · rw [flatMap_snoc_of_nil ho, flatMap_snoc_of_nil hc]
    exact hb.holds
  · rw [flatMap_snoc_of_nil ho]
    exact hb.opened
  · rw [flatMap_snoc_of_nil hu]
    exact hb.failed
  · rw [flatMap_snoc_of_nil ho]
    exact hb.peak
  · rw [flatMap_snoc_of_nil ho, flatMap_snoc_of_nil hu, flatMap_snoc, hg, ← List.append_assoc]
    have hflight := hb.flight
    rw [List.append_nil] at hflight
    exact hflight.append_right _
  · have hlen : r.batch.length = min r.plan.increase (r.plan.target - r.held.length) := by
      rw [batch, List.length_map, List.length_range]
    rw [hlen, ← hb.plan]
    omega

/-- An opening under way that succeeds is a resource held. -/
theorem gain {resource : Resource} (hb : Books p t₀ h ws r) (hmem : resource.worker ∈ ws)
    (hnone : h.flatMap Beat.closed = []) (ho : b.opened = [resource]) (hu : b.unopened = [])
    (hc : b.closed = []) (hg : b.openings = []) :
    Books p t₀ (h ++ [b]) (ws.erase resource.worker) (r.gain resource) := by
  -- nothing has been closed yet, so all that was opened is held
  have hheld : h.flatMap Beat.opened = r.held := by
    have := hb.holds
    rw [hnone] at this
    exact this
  refine ⟨hb.plan, hb.started, hb.deadline, ?_, ?_, ?_, ?_, ?_, ?_⟩
  · rw [flatMap_snoc_of_nil hc, hnone, flatMap_snoc, ho, hheld]
    rfl
  · rw [flatMap_snoc, ho, List.length_append, ← hb.opened]
    rfl
  · rw [flatMap_snoc_of_nil hu]
    exact hb.failed
  · show max r.peak (r.held ++ [resource]).length = _
    rw [flatMap_snoc, ho, hb.peak, hheld, List.length_append, List.length_singleton]
    omega
  · rw [flatMap_snoc_of_nil hu, flatMap_snoc_of_nil hg, flatMap_snoc, ho, List.map_append,
      List.map_singleton, List.append_assoc]
    refine hb.flight.trans (List.Perm.append_left _ ?_)
    refine (List.Perm.append_left _ (List.perm_cons_erase hmem)).trans ?_
    exact List.perm_middle
  · show (r.held ++ [resource]).length + (ws.erase resource.worker).length ≤ p.target
    have hroom := hb.room
    have hpos : 0 < ws.length := List.length_pos_of_mem hmem
    -- one opening fewer under way, one resource more held
    rw [List.length_append, List.length_singleton, List.length_erase_of_mem hmem]
    omega

/-- An opening under way that fails is a failed opening. -/
theorem lose {worker : Nat} (hb : Books p t₀ h ws r) (hmem : worker ∈ ws)
    (ho : b.opened = []) (hu : b.unopened = [worker]) (hc : b.closed = [])
    (hg : b.openings = []) : Books p t₀ (h ++ [b]) (ws.erase worker) r.lose := by
  refine ⟨hb.plan, hb.started, hb.deadline, ?_, ?_, ?_, ?_, ?_, ?_⟩
  · rw [flatMap_snoc_of_nil ho, flatMap_snoc_of_nil hc]
    exact hb.holds
  · rw [flatMap_snoc_of_nil ho]
    exact hb.opened
  · rw [flatMap_snoc, hu, List.length_append, ← hb.failed]
    rfl
  · rw [flatMap_snoc_of_nil ho]
    exact hb.peak
  · rw [flatMap_snoc_of_nil ho, flatMap_snoc_of_nil hg, flatMap_snoc, hu, List.append_assoc]
    refine hb.flight.trans (List.Perm.append_left _ (List.Perm.append_left _ ?_))
    exact List.perm_cons_erase hmem
  · have hroom := hb.room
    have hpos : 0 < ws.length := List.length_pos_of_mem hmem
    show r.held.length + (ws.erase worker).length ≤ p.target
    rw [List.length_erase_of_mem hmem]
    omega

/-- The first resource held that is closed is held no more. -/
theorem part {first : Resource} {rest : List Resource} (hb : Books p t₀ h [] r)
    (hheld : r.held = first :: rest) (ho : b.opened = []) (hu : b.unopened = [])
    (hc : b.closed = [first]) (hg : b.openings = []) :
    Books p t₀ (h ++ [b]) [] { r with held := rest } := by
  refine ⟨hb.plan, hb.started, hb.deadline, ?_, ?_, ?_, ?_, ?_, ?_⟩
  · rw [flatMap_snoc_of_nil ho, flatMap_snoc, hc, hb.holds, hheld, List.append_assoc]
    rfl
  · rw [flatMap_snoc_of_nil ho]
    exact hb.opened
  · rw [flatMap_snoc_of_nil hu]
    exact hb.failed
  · rw [flatMap_snoc_of_nil ho]
    exact hb.peak
  · rw [flatMap_snoc_of_nil ho, flatMap_snoc_of_nil hu, flatMap_snoc_of_nil hg]
    exact hb.flight
  · have hroom := hb.room
    rw [hheld, List.length_cons] at hroom
    show rest.length + ([] : List Nat).length ≤ p.target
    rw [List.length_nil] at hroom ⊢
    omega

end Books

/-! ## Every run is sound -/

/-- A ramp that keeps its resources and moves quietly on stays sound. -/
theorem Sound.of_keeping {next : Step Ramp} {b : Beat}
    (hbooks : Books p t₀ (h ++ [b]) next.state.waiting next.state)
    (hkeep : next.state.keeping = true) (hnone : h.flatMap Beat.closings = [])
    (hnone' : h.flatMap Beat.closed = []) (hcl : b.closings = []) (hcd : b.closed = []) :
    Sound p t₀ now (h ++ [b]) next.state := by
  refine ⟨hbooks, (phase_iff_of_keeping hkeep).mpr ⟨?_, ?_⟩⟩
  · rw [flatMap_snoc_of_nil hcl, hnone]
  · rw [flatMap_snoc_of_nil hcd, hnone']

/-- A ramp starts sound. -/
theorem Sound.start (name : String) (p : Plan) (t₀ : Instant) :
    Sound p t₀ t₀ [((machine name p).start t₀).beat t₀ none] ((machine name p).start t₀).state := by
  show Sound p t₀ t₀ [(Ramp.start p t₀).beat t₀ none] (Ramp.start p t₀).state
  rw [Ramp.start]
  by_cases hzero : p.increase = 0
  · simp only [if_pos hzero]
    exact ⟨⟨rfl, rfl, rfl, rfl, rfl, rfl, rfl, List.Perm.refl _, Nat.zero_le _⟩, rfl, rfl⟩
  · simp only [if_neg hzero]
    exact ⟨⟨rfl, rfl, rfl, rfl, rfl, rfl, rfl, List.Perm.refl _, Nat.zero_le _⟩, rfl, rfl⟩

/-- A ramp that closes what it holds has still to close it, or is over. -/
theorem Sound.close {notes : List Metric.Note} {signal : Signal}
    (hbooks : Books p t₀ (h ++ [(r.close notes now).beat now (some signal)]) [] r)
    (hend : r.deadline ≤ now)
    (heven : h.flatMap Beat.closings =
      (h ++ [(r.close notes now).beat now (some signal)]).flatMap Beat.closed) :
    Sound p t₀ now (h ++ [(r.close notes now).beat now (some signal)])
      (r.close notes now).state := by
  cases hheld : r.held with
  | nil =>
      have hclose : r.close notes now =
          ⟨{ r with stage := .done (now - r.started) }, notes, []⟩ := by
        rw [Ramp.close, hheld]
      refine ⟨?_, ?_⟩
      · have hwait : (r.close notes now).state.waiting = [] := by rw [hclose]; rfl
        rw [hwait]
        exact hbooks.restage ⟨_, _, by rw [hclose]⟩
      · rw [← hbooks.started]
        rw [hclose] at heven ⊢
        refine ⟨hend, hheld, rfl, ?_⟩
        rw [flatMap_snoc, heven]
        exact List.append_nil _
  | cons first rest =>
      have hclose : r.close notes now =
          ⟨{ r with stage := .closing }, notes, [.closing first]⟩ := by
        rw [Ramp.close, hheld]
      refine ⟨?_, ?_⟩
      · have hwait : (r.close notes now).state.waiting = [] := by rw [hclose]; rfl
        rw [hwait]
        exact hbooks.restage ⟨_, _, by rw [hclose]⟩
      · rw [hclose] at heven ⊢
        refine ⟨hend, first, rest, hheld, ?_⟩
        rw [flatMap_snoc, heven]
        rfl

/-- A move keeps a ramp sound. -/
theorem Sound.tell {signal : Signal} {next : Step Ramp} (hs : Sound p t₀ t h r) (hle : t ≤ now)
    (hstep : r.step name now signal = some next) :
    Sound p t₀ now (h ++ [next.beat now (some signal)]) next.state := by
  have hbooks := hs.books
  have hphase := hs.phase
  cases step_moves hstep with
  | tick hstage hdue =>
      rw [waiting, hstage] at hbooks
      obtain ⟨hcl, hcd⟩ := (phase_iff_of_keeping (by rw [keeping, hstage])).mp hphase
      -- too late or enough held, or else a batch is opened
      rcases tick_spec r now with ⟨-, hquiet, hhold⟩ | ⟨hin, hfree, hstate, hasks⟩
      · have hidle : Books p t₀ (h ++ [(r.tick now).beat now (some .ticked)]) [] r :=
          hbooks.idle rfl rfl rfl hquiet.openings
        refine Sound.of_keeping ?_ (by rw [keeping, hhold]) hcl hcd hquiet.closings rfl
        rw [show (r.tick now).state.waiting = [] by rw [waiting, hhold]]
        exact hidle.restage hquiet.state
      · have htick : Books p t₀ (h ++ [(r.tick now).beat now (some .ticked)]) r.batch r := by
          exact hbooks.tick hfree rfl rfl rfl (Step.openings_of_asks hasks)
        refine Sound.of_keeping ?_ (by rw [keeping, hstate]) hcl hcd ?_ rfl
        · rw [show (r.tick now).state.waiting = r.batch by rw [waiting, hstate]]
          exact htick.restage ⟨_, _, hstate⟩
        · show (r.tick now).asks.filterMap Ask.closing? = []
          rw [hasks, List.filterMap_map]
          exact List.filterMap_eq_nil_iff.mpr fun _ _ => rfl
  | lapse hstage hend =>
      rw [waiting, hstage] at hbooks
      obtain ⟨hcl, hcd⟩ := (phase_iff_of_keeping (by rw [keeping, hstage])).mp hphase
      have hidle : Books p t₀ (h ++ [r.hold.beat now (some .lapsed)]) [] r :=
        hbooks.idle rfl rfl rfl rfl
      exact Sound.of_keeping (hidle.restage ⟨_, _, rfl⟩) rfl hcl hcd rfl rfl
  | @gain workers resource hstage hmem =>
      rw [waiting, hstage] at hbooks
      obtain ⟨hcl, hcd⟩ := (phase_iff_of_keeping (by rw [keeping, hstage])).mp hphase
      obtain ⟨hquiet, hwait, hkeep⟩ :=
        settle_spec (r.gain resource) workers resource.worker [.opened name]
      refine Sound.of_keeping ?_ hkeep hcl hcd hquiet.closings rfl
      rw [hwait]
      refine Books.restage ?_ hquiet.state
      exact hbooks.gain hmem hcd rfl rfl rfl hquiet.openings
  | @lose workers worker signal notes hstage hmem hfail =>
      rw [waiting, hstage] at hbooks
      obtain ⟨hcl, hcd⟩ := (phase_iff_of_keeping (by rw [keeping, hstage])).mp hphase
      obtain ⟨hquiet, hwait, hkeep⟩ := settle_spec r.lose workers worker notes
      obtain ⟨hopened, hclosed, -⟩ := Signal.only_unopened hfail
      refine Sound.of_keeping ?_ hkeep hcl hcd hquiet.closings
        (congrArg Option.toList hclosed)
      rw [hwait]
      refine Books.restage ?_ hquiet.state
      exact hbooks.lose hmem (congrArg Option.toList hopened) (congrArg Option.toList hfail)
        (congrArg Option.toList hclosed) hquiet.openings
  | release hstage hend =>
      rw [waiting, hstage] at hbooks
      obtain ⟨hcl, hcd⟩ := (phase_iff_of_keeping (by rw [keeping, hstage])).mp hphase
      refine Sound.close (hbooks.idle rfl rfl rfl (close_openings r [] now)) hend ?_
      rw [flatMap_snoc, hcl, hcd]
      rfl
  | @part first rest hstage hheld =>
      rw [waiting, hstage] at hbooks
      rw [Phase, hstage] at hphase
      -- what is closed is what was asked to be, the first resource held
      obtain ⟨hend, first', rest', hheld', hcl⟩ := hphase
      rw [hheld] at hheld'
      cases hheld'
      refine Sound.close ?_ (Nat.le_trans hend hle) ?_
      · exact hbooks.part hheld rfl rfl rfl (close_openings _ _ now)
      · rw [flatMap_snoc, hcl]
        rfl
  | jam hstage hheld =>
      rw [waiting, hstage] at hbooks
      exact ⟨(hbooks.idle rfl rfl rfl rfl).restage ⟨_, _, rfl⟩, trivial⟩

/-- Every run of a ramp is sound. -/
theorem sound_of_run (run : Run (machine name p) t₀ h now r) : Sound p t₀ now h r := by
  induction run with
  | start => exact Sound.start name p t₀
  | tell run hle hstep ih => exact ih.tell hle hstep

/-! ## What a run may do at a moment -/

/-- A moment at which no more is opened than the plan allows, nothing after its
    deadline, and nothing is closed before it. -/
structure Orderly (p : Plan) (t₀ : Instant) (b : Beat) : Prop where
  pace : b.openings.length ≤ p.increase
  inTime : b.openings ≠ [] → b.told = some .ticked ∧ b.time < deadlineAfter t₀ p.duration
  notEarly : b.closings ≠ [] ∨ b.closed ≠ [] → deadlineAfter t₀ p.duration ≤ b.time

/-- A moment at which nothing is opened is orderly if it is not too early for
    what is closed. -/
theorem Orderly.of_none {b : Beat} (hg : b.openings = [])
    (hc : b.closings ≠ [] ∨ b.closed ≠ [] → deadlineAfter t₀ p.duration ≤ b.time) :
    Orderly p t₀ b := by
  refine ⟨?_, fun hne => absurd hg hne, hc⟩
  rw [hg]
  exact Nat.zero_le _

/-- A moment at which nothing is opened or closed is orderly. -/
theorem Orderly.of_idle {b : Beat} (hg : b.openings = []) (hcl : b.closings = [])
    (hcd : b.closed = []) : Orderly p t₀ b := by
  refine Orderly.of_none hg ?_
  rintro (hne | hne)
  · exact absurd hcl hne
  · exact absurd hcd hne

/-- The moments of a sound ramp are orderly. -/
theorem Sound.orderly {signal : Signal} {next : Step Ramp} (hs : Sound p t₀ t h r) (hle : t ≤ now)
    (hstep : r.step name now signal = some next) : Orderly p t₀ (next.beat now (some signal)) := by
  have hphase := hs.phase
  cases step_moves hstep with
  | tick hstage hdue =>
      rcases tick_spec r now with ⟨-, hquiet, -⟩ | ⟨hin, -, -, hasks⟩
      · exact Orderly.of_idle hquiet.openings hquiet.closings rfl
      · have hopen : ((r.tick now).beat now (some .ticked)).openings = r.batch :=
          Step.openings_of_asks hasks
        have hclose : ((r.tick now).beat now (some .ticked)).closings = [] := by
          show (r.tick now).asks.filterMap Ask.closing? = []
          rw [hasks, List.filterMap_map]
          exact List.filterMap_eq_nil_iff.mpr fun _ _ => rfl
        refine ⟨?_, fun _ => ⟨rfl, ?_⟩, ?_⟩
        · rw [hopen, batch, List.length_map, List.length_range, hs.books.plan]
          exact Nat.min_le_left _ _
        · rw [← hs.books.deadline]
          exact hin
        · rintro (hne | hne)
          · exact absurd hclose hne
          · exact absurd rfl hne
  | lapse hstage hend => exact Orderly.of_idle rfl rfl rfl
  | @gain workers resource hstage hmem =>
      obtain ⟨hquiet, -, -⟩ :=
        settle_spec (r.gain resource) workers resource.worker [.opened name]
      exact Orderly.of_idle hquiet.openings hquiet.closings rfl
  | @lose workers worker signal notes hstage hmem hfail =>
      obtain ⟨hquiet, -, -⟩ := settle_spec r.lose workers worker notes
      exact Orderly.of_idle hquiet.openings hquiet.closings
        (congrArg Option.toList (Signal.only_unopened hfail).2.1)
  | release hstage hend =>
      refine Orderly.of_none (close_openings _ _ now) fun _ => ?_
      rw [← hs.books.deadline]
      exact hend
  | part hstage hheld =>
      rw [Phase, hstage] at hphase
      refine Orderly.of_none (close_openings _ _ now) fun _ => ?_
      rw [← hs.books.deadline]
      exact Nat.le_trans hphase.1 hle
  | jam hstage hheld => exact Orderly.of_idle rfl rfl rfl

/-- Every moment of a run is orderly. -/
theorem orderly_of_run (run : Run (machine name p) t₀ h now r) : ∀ b ∈ h, Orderly p t₀ b := by
  induction run with
  | start =>
      intro b hb
      rw [List.mem_singleton] at hb
      rw [hb]
      show Orderly p t₀ ((Ramp.start p t₀).beat t₀ none)
      rw [Ramp.start]
      by_cases hzero : p.increase = 0
      · simp only [if_pos hzero]
        exact Orderly.of_idle rfl rfl rfl
      · simp only [if_neg hzero]
        exact Orderly.of_idle rfl rfl rfl
  | tell run hle hstep ih =>
      intro b hb
      rcases List.mem_append.mp hb with hb | hb
      · exact ih b hb
      · rw [List.mem_singleton] at hb
        rw [hb]
        exact (sound_of_run run).orderly hle hstep

/-! ## The main theorem -/

/-- What a sound ramp holds and has under way fits its target. -/
theorem Books.room_after {ws : List Nat} (hb : Books p t₀ h ws r) :
    heldAfter h + inFlightAfter h ≤ p.target := by
  have hheld : heldAfter h = r.held.length := by
    rw [heldAfter, hb.holds, List.length_append]
    omega
  have hflight : inFlightAfter h = ws.length := by
    have hlen := hb.flight.length_eq
    rw [List.length_append, List.length_append, List.length_map] at hlen
    rw [inFlightAfter]
    omega
  rw [hheld, hflight]
  exact hb.room

/-- **A RAMP KEEPS TO ITS PLAN.**  At every moment of a run what is held and what
    is being opened together do not exceed the target; a tick opens no more than
    the increase, and nothing is opened from the deadline on or closed before it.
    When the run is over, what was opened has been closed, once and in the order
    in which it was opened, and the report counts just what happened. -/
theorem ramp_keeps_to_plan (run : Run (machine name p) t₀ h now r) :
    (∀ g, g <+: h →
      g.flatMap Beat.closed <+: g.flatMap Beat.opened ∧
      ((g.flatMap Beat.opened).map Resource.worker ++ g.flatMap Beat.unopened).Subperm
        (g.flatMap Beat.openings) ∧
      heldAfter g + inFlightAfter g ≤ p.target) ∧
    (∀ b ∈ h,
      b.openings.length ≤ p.increase ∧
      (b.openings ≠ [] → b.told = some .ticked ∧ b.time < deadlineAfter t₀ p.duration) ∧
      (b.closings ≠ [] ∨ b.closed ≠ [] → deadlineAfter t₀ p.duration ≤ b.time)) ∧
    (∀ report, r.report? = some report →
      h.flatMap Beat.closings = h.flatMap Beat.opened ∧
      h.flatMap Beat.closed = h.flatMap Beat.opened ∧
      (h.flatMap Beat.openings).Perm
        ((h.flatMap Beat.opened).map Resource.worker ++ h.flatMap Beat.unopened) ∧
      report.opened = (h.flatMap Beat.opened).length ∧
      report.peak = (h.flatMap Beat.opened).length ∧
      report.failed = (h.flatMap Beat.unopened).length ∧
      report.elapsed = now - t₀ ∧
      deadlineAfter t₀ p.duration - t₀ ≤ report.elapsed) := by
  refine ⟨?_, ?_, ?_⟩
  · intro g hg
    by_cases hne : g = []
    · rw [hne]
      exact ⟨List.nil_prefix, List.nil_subperm, Nat.zero_le _⟩
    -- a beginning is a run of its own, so its books agree, too
    · obtain ⟨t, r', -, hrun⟩ := run.of_prefix hg hne
      have hbooks := (sound_of_run hrun).books
      refine ⟨?_, ?_, hbooks.room_after⟩
      · rw [hbooks.holds]
        exact List.prefix_append _ _
      · refine List.Subperm.trans ?_ hbooks.flight.symm.subperm
        rw [← List.append_assoc]
        exact (List.sublist_append_left _ _).subperm
  · intro b hb
    obtain ⟨hpace, hin, hearly⟩ := orderly_of_run run b hb
    exact ⟨hpace, hin, hearly⟩
  · intro report hreport
    obtain ⟨hbooks, hphase⟩ := sound_of_run run
    cases hstage : r.stage with
    | done elapsed =>
        rw [report?, hstage] at hreport
        cases hreport
        rw [waiting, hstage] at hbooks
        rw [Phase, hstage] at hphase
        obtain ⟨hend, hheld, helapsed, hcl⟩ := hphase
        -- a ramp that is over holds nothing any more
        have hall : h.flatMap Beat.opened = h.flatMap Beat.closed := by
          rw [hbooks.holds, hheld, List.append_nil]
        refine ⟨hcl.trans hall.symm, hall.symm, ?_, hbooks.opened, hbooks.peak, hbooks.failed,
          helapsed, ?_⟩
        · have hflight := hbooks.flight
          rw [List.append_nil] at hflight
          exact hflight
        · rw [hbooks.deadline] at hend
          rw [helapsed]
          exact Nat.sub_le_sub_right hend t₀
    | _ => rw [report?, hstage] at hreport; exact nomatch hreport

/-- Two resources for one second tick: the first worker of a ramp is refused, and
    the number of the second is given out again for an opening that only ends
    after the deadline.  Both resources are closed in order. -/
theorem ramp_keeps_to_plan_past_deadline :
    ∃ h now r, Run (machine "redis" ⟨2, 2, 0, Span.ofMillis 150⟩) 0 h now r ∧
      r.report? = some ⟨2, 1, 2, Span.ofMillis 202⟩ ∧
      h.flatMap Beat.opened = [⟨1, 7⟩, ⟨1, 8⟩] ∧
      h.flatMap Beat.closed = h.flatMap Beat.opened := by
  have hrun := Run.of_play
    [(0, .ticked), (Span.ofMillis 1, .refused 0 "connection refused"),
      (Span.ofMillis 2, .opened ⟨1, 7⟩), (Span.ofMillis 100, .ticked),
      (Span.ofMillis 200, .opened ⟨1, 8⟩), (Span.ofMillis 200, .lapsed),
      (Span.ofMillis 201, .closed ⟨1, 7⟩), (Span.ofMillis 202, .closed ⟨1, 8⟩)]
    (@Run.start _ (machine "redis" ⟨2, 2, 0, Span.ofMillis 150⟩) 0) rfl
  exact ⟨_, _, _, hrun, rfl, rfl, ((ramp_keeps_to_plan hrun).2.2 _ rfl).2.1⟩

end Ramp

end Havoc.Load
