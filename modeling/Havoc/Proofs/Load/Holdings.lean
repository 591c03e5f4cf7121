import Havoc.Load.Shape
import Havoc.Proofs.Load.FanOut
import Havoc.Proofs.Load.Ramp
import Havoc.Proofs.Metric.Sample
import Mathlib.Data.Multiset.AddSub

/-! # What jobs have open

    Any number of jobs run side by side and note what becomes of their resources and cycles in
    one registry.  Each job is told its signals whenever they come, in any order with those of
    the others (`Together`).

    The route: a step of a job notes just its signal (`Signal.notes`), and what it holds
    afterwards is what it held before, with what was opened and without what was closed, while
    a part of it that breaks off keeps its resource for good; this is shown for a worker, for
    many and for a ramp, and then for any of them (`Shape.step_accounts`).  What a registry shows is the number of the notes
    (`Registry.load_noteAll`), so every step keeps the account (`Booked`).  The main theorem is
    `registry_shows_load`. -/

namespace Havoc.Load

open Havoc.Metric

variable {name : String} {number : Nat} {now : Instant} {signal : Signal} {α β : Type}

/-! ## The account of one step -/

/-- What is noted about a signal to a job on a workload. -/
def Signal.notes (name : String) : Signal → List Note
  | .opened _ => [.opened name]
  | .refused .. => [.setupFailed name]
  | .worked _ true => [.workFailed name]
  | .closed _ => [.closed name]
  | _ => []

/-- The resource that a worker holds; one that has broken off holds it still. -/
def Worker.holds : Worker → List Resource
  | .cycling resource _ | .closing resource _ | .broken resource => [resource]
  | .opening .. | .done _ | .failed _ => []

/-- The resources that a job holds. -/
def Shape.holds : Shape → List Resource
  | .single worker => worker.holds
  | .many f => f.workers.flatMap Worker.holds
  | .ramping r => r.held
  | .taking .. | .keeping .. | .kept _ | .missed _ | .repeating _ => []

/-- Whether a loop has broken off, as a number. -/
def Turn.breaks : Turn → Nat
  | .broken _ => 1
  | .on .. | .ended _ => 0

/-- Whether a loop without a resource has broken off, as a number. -/
def Repeat.breaks : Repeat → Nat
  | .broken _ => 1
  | .cycling _ | .done _ => 0

/-- Whether a worker has broken off with its resource, as a number. -/
def Worker.breaks : Worker → Nat
  | .broken _ => 1
  | .opening .. | .cycling .. | .closing .. | .done _ | .failed _ => 0

/-- Whether a ramp has broken off with its resources, as a number. -/
def Ramp.breaks (r : Ramp) : Nat :=
  match r.stage with
  | .broken => 1
  | .ticking | .opening _ | .holding | .closing | .done _ => 0

/-- How many parts of a job have broken off with what they held. -/
def Shape.breaks : Shape → Nat
  | .repeating loop => loop.breaks
  | .single worker => worker.breaks
  | .many f => (f.workers.map Worker.breaks).sum
  | .ramping r => r.breaks
  | .taking .. | .keeping .. | .kept _ | .missed _ => 0

/-- A step notes its signal, what was opened is held or was closed, and nothing is lost; what
    breaks off is told. -/
structure Accounts (name : String) (signal : Signal) (holds : α → List Resource)
    (breaks : α → Nat) (s : α) (next : Step α) : Prop where
  notes : next.notes = signal.notes name
  balance : (signal.opened?.toList ++ holds s).Perm (signal.closed?.toList ++ holds next.state)
  lost : breaks next.state = breaks s + signal.lost?.toList.length

theorem Worker.ofTurn_holds (resource : Resource) (notes : List Note) (turn : Turn) :
    (ofTurn resource notes turn).notes = notes ∧
      (ofTurn resource notes turn).state.holds = [resource] ∧
      (ofTurn resource notes turn).state.breaks = turn.breaks := by
  cases turn with
  | on loop ask => exact ⟨rfl, rfl, rfl⟩
  | ended loop => exact ⟨rfl, rfl, rfl⟩
  | broken loop => exact ⟨rfl, rfl, rfl⟩

theorem Repeat.ofTurn_breaks (now : Instant) (notes : List Note) (turn : Turn) :
    (ofTurn now notes turn).notes = notes ∧
      (ofTurn now notes turn).state.breaks = turn.breaks := by
  cases turn with
  | on loop ask => exact ⟨rfl, rfl⟩
  | ended loop => exact ⟨rfl, rfl⟩
  | broken loop => exact ⟨rfl, rfl⟩

theorem Cycling.turn_breaks (c : Cycling) (now : Instant) : (c.turn now).breaks = 0 := by
  rw [turn]
  split
  · rfl
  · rfl

/-- A loop takes no signals about resources, notes which of its cycles fail, and breaks off
    with a cycle. -/
theorem Cycling.step_signal (name : String) {c : Cycling} {turn : Turn}
    (h : c.step now signal = some turn) :
    failureNotes name signal = signal.notes name ∧
      signal.opened? = none ∧ signal.closed? = none ∧
      turn.breaks = signal.lost?.toList.length := by
  cases signal with
  | worked worker failed =>
      obtain rfl := Option.some.inj (Option.ite_none_right_eq_some.mp h).2
      cases failed with
      | true => exact ⟨rfl, rfl, rfl, rfl⟩
      | false => exact ⟨rfl, rfl, rfl, rfl⟩
  | crashed worker =>
      obtain rfl := Option.some.inj (Option.ite_none_right_eq_some.mp h).2
      exact ⟨rfl, rfl, rfl, rfl⟩
  | rested worker =>
      rw [step] at h
      split at h
      · obtain rfl := Option.some.inj (Option.ite_none_right_eq_some.mp h).2
        exact ⟨rfl, rfl, rfl, c.turn_breaks now⟩
      · cases h
  | _ => cases h

theorem Worker.step_accounts {w : Worker} {next : Step Worker}
    (h : w.step name number now signal = some next) : Accounts name signal holds breaks w next := by
  cases w with
  | opening limit interval =>
      cases signal with
      | opened resource =>
          obtain rfl := Option.some.inj (Option.ite_none_right_eq_some.mp h).2
          rw [hold]
          obtain ⟨hnotes, hholds, hbreaks⟩ :=
            ofTurn_holds resource [.opened name] (Cycling.turn _ now)
          exact ⟨hnotes, List.Perm.of_eq hholds.symm, hbreaks.trans (Cycling.turn_breaks _ now)⟩
      | refused worker cause =>
          obtain rfl := Option.some.inj (Option.ite_none_right_eq_some.mp h).2
          exact ⟨rfl, List.Perm.refl _, rfl⟩
      | broke worker =>
          obtain rfl := Option.some.inj (Option.ite_none_right_eq_some.mp h).2
          exact ⟨rfl, List.Perm.refl _, rfl⟩
      | _ => cases h
  | cycling resource loop =>
      obtain ⟨turn, hturn, rfl⟩ := Option.map_eq_some_iff.mp h
      obtain ⟨hnotes, hopened, hclosed, hlost⟩ := Cycling.step_signal name hturn
      obtain ⟨hnoted, hholds, hbreaks⟩ := ofTurn_holds resource (failureNotes name signal) turn
      refine ⟨hnoted.trans hnotes, ?_, (hbreaks.trans hlost).trans (Nat.zero_add _).symm⟩
      rw [hopened, hclosed, hholds]
      exact List.Perm.refl _
  | closing resource loop =>
      cases signal with
      | closed resource' =>
          obtain ⟨rfl, hnext⟩ := Option.ite_none_right_eq_some.mp h
          obtain rfl := Option.some.inj hnext
          exact ⟨rfl, List.Perm.refl _, rfl⟩
      | jammed resource' =>
          obtain rfl := Option.some.inj (Option.ite_none_right_eq_some.mp h).2
          exact ⟨rfl, List.Perm.refl _, rfl⟩
      | _ => cases h
  | done | failed | broken => cases h

/-- The account of one of several is the account of all. -/
theorem perm_flatMap_set {f : β → List α} {b b' : β} {gained lost : List α}
    (h : (gained ++ f b).Perm (lost ++ f b')) {bs : List β} {i : Nat} (hb : bs[i]? = some b) :
    (gained ++ bs.flatMap f).Perm (lost ++ (bs.set i b').flatMap f) := by
  induction bs generalizing i with
  | nil => cases hb
  | cons first rest ih =>
      cases i with
      | zero =>
          cases Option.some.inj hb
          have := h.append_right (rest.flatMap f)
          rw [List.append_assoc, List.append_assoc] at this
          exact this
      | succ i =>
          -- the first ones are neither gained nor lost
          have hrest := ih hb
          show (gained ++ (f first ++ rest.flatMap f)).Perm
            (lost ++ (f first ++ (rest.set i b').flatMap f))
          refine (List.perm_append_comm_assoc gained (f first) _).trans ?_
          exact (hrest.append_left (f first)).trans (List.perm_append_comm_assoc (f first) lost _)

theorem FanOut.step_accounts {f : FanOut} {next : Step FanOut}
    (h : f.step name now signal = some next) :
    Accounts name signal (fun f => f.workers.flatMap Worker.holds)
      (fun f => (f.workers.map Worker.breaks).sum) f next := by
  obtain ⟨i, w, nw, -, hw, hnw, rfl⟩ := step_worker h
  have hone := Worker.step_accounts hnw
  exact ⟨hone.notes, perm_flatMap_set hone.balance hw, sum_map_set hone.lost hw⟩

theorem Ramp.close_held (r : Ramp) (notes : List Note) (now : Instant) :
    (r.close notes now).notes = notes ∧ (r.close notes now).state.held = r.held := by
  rw [close]
  split
  · exact ⟨rfl, rfl⟩
  · exact ⟨rfl, rfl⟩

theorem Ramp.settle_held (r : Ramp) (workers : List Nat) (worker : Nat) (notes : List Note) :
    (r.settle workers worker notes).notes = notes ∧
      (r.settle workers worker notes).state.held = r.held := by
  obtain ⟨⟨due, stage, hstate⟩, -, -⟩ := (r.settle_spec workers worker notes).1
  rw [hstate]
  exact ⟨rfl, rfl⟩

theorem Ramp.tick_held (r : Ramp) (now : Instant) :
    (r.tick now).notes = [] ∧ (r.tick now).state.held = r.held := by
  constructor
  · rw [tick]
    dsimp only
    split
    · rfl
    · rfl
  · rcases r.tick_spec now with ⟨-, hquiet, -⟩ | ⟨-, -, hstate, -⟩
    · obtain ⟨due, stage, hstate⟩ := hquiet.state
      rw [hstate]
    · rw [hstate]

theorem Ramp.breaks_of_keeping {r : Ramp} (h : r.keeping = true) : r.breaks = 0 := by
  unfold keeping at h
  unfold breaks
  cases hstage : r.stage with
  | ticking | opening | holding => rfl
  | closing | done => rfl
  | broken =>
      rw [hstage] at h
      cases h

theorem Ramp.close_breaks (r : Ramp) (notes : List Note) (now : Instant) :
    (r.close notes now).state.breaks = 0 := by
  rw [close]
  split
  · rfl
  · rfl

/-- A ramp breaks off with a closing. -/
theorem Ramp.step_breaks {r : Ramp} {next : Step Ramp} (h : r.step name now signal = some next) :
    next.state.breaks = r.breaks + signal.lost?.toList.length := by
  cases step_moves h with
  | tick hstage hdue =>
      rw [breaks, breaks, hstage]
      rcases r.tick_spec now with ⟨-, -, hhold⟩ | ⟨-, -, hstate, -⟩
      · rw [hhold]
        rfl
      · rw [hstate]
        rfl
  | lapse hstage hend =>
      rw [breaks, breaks, hstage]
      rfl
  | gain hstage hmem =>
      rw [breaks_of_keeping (settle_spec _ _ _ _).2.2, breaks, hstage]
      rfl
  | lose hstage hmem hfail =>
      rw [breaks_of_keeping (settle_spec _ _ _ _).2.2, breaks, hstage,
        (Signal.only_unopened hfail).2.2]
      rfl
  | release hstage hend =>
      rw [close_breaks, breaks, hstage]
      rfl
  | part hstage hheld =>
      rw [close_breaks, breaks, hstage]
      rfl
  | jam hstage hheld =>
      rw [breaks, breaks, hstage]
      rfl

theorem Ramp.step_accounts {r : Ramp} {next : Step Ramp}
    (h : r.step name now signal = some next) : Accounts name signal held breaks r next := by
  have hlost := step_breaks h
  suffices next.notes = signal.notes name ∧
      (signal.opened?.toList ++ r.held).Perm (signal.closed?.toList ++ next.state.held) from
    ⟨this.1, this.2, hlost⟩
  clear hlost
  unfold step at h
  split at h
  · obtain rfl := Option.some.inj (Option.ite_none_right_eq_some.mp h).2
    obtain ⟨hnotes, hheld⟩ := r.tick_held now
    exact ⟨hnotes, List.Perm.of_eq hheld.symm⟩
  · obtain rfl := Option.some.inj (Option.ite_none_right_eq_some.mp h).2
    exact ⟨rfl, List.Perm.refl _⟩
  · next waiting resource _ =>
      obtain rfl := Option.some.inj (Option.ite_none_right_eq_some.mp h).2
      obtain ⟨hnotes, hheld⟩ := settle_held (r.gain resource) waiting resource.worker [.opened name]
      refine ⟨hnotes, ?_⟩
      show ([resource] ++ r.held).Perm (settle _ _ _ _).state.held
      exact List.perm_append_comm.trans (List.Perm.of_eq hheld.symm)
  · next waiting worker _ _ =>
      obtain rfl := Option.some.inj (Option.ite_none_right_eq_some.mp h).2
      obtain ⟨hnotes, hheld⟩ := settle_held r.lose waiting worker [.setupFailed name]
      exact ⟨hnotes, List.Perm.of_eq hheld.symm⟩
  · next waiting worker _ =>
      obtain rfl := Option.some.inj (Option.ite_none_right_eq_some.mp h).2
      obtain ⟨hnotes, hheld⟩ := settle_held r.lose waiting worker []
      exact ⟨hnotes, List.Perm.of_eq hheld.symm⟩
  · obtain rfl := Option.some.inj (Option.ite_none_right_eq_some.mp h).2
    obtain ⟨hnotes, hheld⟩ := r.close_held [] now
    exact ⟨hnotes, List.Perm.of_eq hheld.symm⟩
  · next resource _ =>
      split at h
      · next first rest hheld =>
          obtain ⟨rfl, hnext⟩ := Option.ite_none_right_eq_some.mp h
          obtain rfl := Option.some.inj hnext
          obtain ⟨hnotes, hrest⟩ := close_held { r with held := rest } [.closed name] now
          refine ⟨hnotes, ?_⟩
          rw [hheld, hrest]
          exact List.Perm.refl _
      · cases h
  · obtain rfl := Option.some.inj (Option.ite_none_right_eq_some.mp h).2
    exact ⟨rfl, List.Perm.refl _⟩
  · cases h

theorem Repeat.step_accounts {r : Repeat} {next : Step Repeat}
    (h : r.step name now signal = some next) :
    Accounts name signal (fun _ => []) breaks r next := by
  cases r with
  | cycling loop =>
      obtain ⟨turn, hturn, rfl⟩ := Option.map_eq_some_iff.mp h
      obtain ⟨hnotes, hopened, hclosed, hlost⟩ := Cycling.step_signal name hturn
      obtain ⟨hnoted, hbreaks⟩ := ofTurn_breaks now (failureNotes name signal) turn
      refine ⟨hnoted.trans hnotes, ?_, (hbreaks.trans hlost).trans (Nat.zero_add _).symm⟩
      rw [hopened, hclosed]
  | done | broken => cases h

/-- Whether a job puts load on something, other than to keep it up for a while. -/
def Shape.isLoad : Shape → Bool
  | .repeating _ | .single _ | .many _ | .ramping _ => true
  | .taking .. | .keeping .. | .kept _ | .missed _ => false

/-- A machine that contains another has its account. -/
theorem accounts_map {holds : α → List Resource} {breaks : α → Nat} {wrap : α → Shape}
    {x : Option (Step α)} {a : α} {s : Shape} {next : Step Shape}
    (hwrap : ∀ a, (wrap a).holds = holds a ∧ (wrap a).breaks = breaks a) (hs : s = wrap a)
    (hx : ∀ inner, x = some inner → Accounts name signal holds breaks a inner)
    (h : x.map (·.map wrap) = some next) :
    Accounts name signal Shape.holds Shape.breaks s next := by
  obtain ⟨inner, hinner, rfl⟩ := Option.map_eq_some_iff.mp h
  obtain ⟨hnotes, hbalance, hlost⟩ := hx inner hinner
  subst hs
  refine ⟨hnotes, ?_, ?_⟩
  · show (_ ++ (wrap a).holds).Perm (_ ++ (wrap inner.state).holds)
    rw [(hwrap a).1, (hwrap inner.state).1]
    exact hbalance
  · show (wrap inner.state).breaks = (wrap a).breaks + _
    rw [(hwrap a).2, (hwrap inner.state).2]
    exact hlost

theorem Shape.step_accounts {s : Shape} {next : Step Shape} (hload : s.isLoad = true)
    (h : s.step name now signal = some next) : Accounts name signal holds breaks s next := by
  cases s with
  | repeating loop =>
      exact accounts_map (fun _ => ⟨rfl, rfl⟩) rfl (fun _ => Repeat.step_accounts) h
  | single worker =>
      exact accounts_map (fun _ => ⟨rfl, rfl⟩) rfl (fun _ => Worker.step_accounts) h
  | many workers =>
      exact accounts_map (fun _ => ⟨rfl, rfl⟩) rfl (fun _ => FanOut.step_accounts) h
  | ramping ramp =>
      exact accounts_map (fun _ => ⟨rfl, rfl⟩) rfl (fun _ => Ramp.step_accounts) h
  | taking | keeping | kept | missed => cases hload

/-- A job stays what it is. -/
theorem Shape.step_isLoad {s : Shape} {next : Step Shape} (hload : s.isLoad = true)
    (h : s.step name now signal = some next) : next.state.isLoad = true := by
  cases s with
  | taking | keeping | kept | missed => cases hload
  | repeating | single | many | ramping =>
      obtain ⟨inner, -, rfl⟩ := Option.map_eq_some_iff.mp h
      rfl

/-! ## The end of a job -/

/-- A worker that has ended holds nothing unless it broke off. -/
theorem Worker.holds_of_isOver {w : Worker} (h : w.isOver = true) : w.holds.length = w.breaks := by
  cases w with
  | done | failed | broken => rfl
  | opening | cycling | closing => cases h

theorem Ramp.report?_of_keeping {r : Ramp} (h : r.keeping = true) : r.report? = none := by
  unfold keeping at h
  unfold report?
  split at h
  · next hstage => rw [hstage]
  · next hstage => rw [hstage]
  · next hstage => rw [hstage]
  · cases h
  · cases h
  · cases h

/-- A ramp is over only when it has closed all that it held. -/
theorem Ramp.close_over (r : Ramp) (notes : List Note) (now : Instant)
    (h : (r.close notes now).state.report?.isSome = true) :
    (r.close notes now).state.held = [] := by
  rw [(r.close_held notes now).2]
  rw [close] at h
  cases hheld : r.held with
  | nil => rfl
  | cons first rest =>
      rw [hheld] at h
      cases h

theorem Ramp.step_over {r : Ramp} {next : Step Ramp} (hstep : r.step name now signal = some next)
    (h : next.state.report?.isSome = true) : next.state.held = [] := by
  -- as long as it keeps what it holds, it is not over
  have hkeeping : next.state.keeping = true → next.state.held = [] := by
    intro hkeeping
    rw [report?_of_keeping hkeeping] at h
    cases h
  cases step_moves hstep with
  | tick hstage hdue =>
      refine hkeeping ?_
      rcases r.tick_spec now with ⟨-, -, hstage⟩ | ⟨-, -, hstate, -⟩
      · rw [keeping, hstage]
      · rw [hstate]
        rfl
  | lapse => exact hkeeping rfl
  | gain => exact hkeeping (settle_spec _ _ _ _).2.2
  | lose => exact hkeeping (settle_spec _ _ _ _).2.2
  | release => exact close_over _ _ _ h
  | part => exact close_over _ _ _ h
  | jam => cases h

theorem Ramp.breaks_of_report? {r : Ramp} (h : r.report?.isSome = true) : r.breaks = 0 := by
  rw [breaks]
  rw [report?] at h
  cases hstage : r.stage with
  | broken =>
      rw [hstage] at h
      cases h
  | ticking | opening | holding | closing | done => rfl

/-- A job that is over holds what its broken parts have left behind, one resource each. -/
theorem Shape.step_over {s : Shape} {next : Step Shape} (hload : s.isLoad = true)
    (hstep : s.step name now signal = some next) (h : next.state.outcome?.isSome = true) :
    next.state.holds.length = next.state.breaks := by
  cases s with
  | taking | keeping | kept | missed => cases hload
  | repeating loop =>
      obtain ⟨inner, -, rfl⟩ := Option.map_eq_some_iff.mp hstep
      change (Shape.repeating inner.state).outcome?.isSome = true at h
      show 0 = inner.state.breaks
      cases hstate : inner.state with
      | cycling | done => rfl
      | broken =>
          rw [hstate] at h
          cases h
  | single worker =>
      obtain ⟨inner, -, rfl⟩ := Option.map_eq_some_iff.mp hstep
      refine Worker.holds_of_isOver ?_
      show inner.state.isOver = true
      change (Shape.single inner.state).outcome?.isSome = true at h
      cases hstate : inner.state with
      | done | failed | broken => rfl
      | opening | cycling | closing =>
          rw [hstate] at h
          cases h
  | many workers =>
      obtain ⟨inner, -, rfl⟩ := Option.map_eq_some_iff.mp hstep
      change (inner.state.report?.map _).isSome = true at h
      rw [Option.isSome_map, FanOut.report?] at h
      split at h
      · next hall =>
          show (inner.state.workers.flatMap Worker.holds).length = _
          rw [List.length_flatMap]
          refine congrArg List.sum (List.map_congr_left fun w hw => ?_)
          exact Worker.holds_of_isOver (List.all_eq_true.mp hall w hw)
      · cases h
  | ramping ramp =>
      obtain ⟨inner, hinner, rfl⟩ := Option.map_eq_some_iff.mp hstep
      change (inner.state.report?.map _).isSome = true at h
      rw [Option.isSome_map] at h
      show inner.state.held.length = inner.state.breaks
      rw [Ramp.step_over hinner h, Ramp.breaks_of_report? h]
      rfl

/-! ## Jobs side by side -/

/-- Whether a signal tells that an opening was refused. -/
def Signal.isRefusal : Signal → Bool
  | .refused .. => true
  | _ => false

/-- Whether a signal tells that an opening broke off. -/
def Signal.isBreak : Signal → Bool
  | .broke _ => true
  | _ => false

/-- Whether a signal tells that a cycle of work broke off. -/
def Signal.isCrash : Signal → Bool
  | .crashed _ => true
  | _ => false

/-- The number of a worker whose cycle of work has failed, with an answer or without. -/
def Signal.spoiled? : Signal → Option Nat
  | .worked worker true | .crashed worker => some worker
  | _ => none

/-- A job on a workload with a name: where it stands, and what it has been told. -/
structure Drive where
  name : String
  shape : Shape
  told : List Signal

namespace Drive

/-- The resources that were opened. -/
def opened (d : Drive) : List Resource := d.told.filterMap Signal.opened?

/-- The resources that were closed. -/
def closed (d : Drive) : List Resource := d.told.filterMap Signal.closed?

/-- The resources that were opened and are not closed yet. -/
def outstanding (d : Drive) : Multiset Resource := (d.opened : Multiset Resource) - d.closed

/-- The openings that failed, with an answer or without, by the numbers of their workers. -/
def unopened (d : Drive) : List Nat := d.told.filterMap Signal.unopened?

/-- How many openings were refused. -/
def refusals (d : Drive) : Nat := d.told.countP Signal.isRefusal

/-- How many openings broke off. -/
def breaks (d : Drive) : Nat := d.told.countP Signal.isBreak

/-- How many cycles ended with a failure. -/
def failures (d : Drive) : Nat := (d.told.filterMap Signal.worked?).countP Prod.snd

/-- How many cycles broke off. -/
def crashes (d : Drive) : Nat := d.told.countP Signal.isCrash

/-- The cycles that failed, with an answer or without, by the numbers of their workers. -/
def spoiled (d : Drive) : List Nat := d.told.filterMap Signal.spoiled?

/-- The workers that broke off with a cycle or with the closing of their resource. -/
def lost (d : Drive) : List Nat := d.told.filterMap Signal.lost?

/-- Whether the job has come to an end. -/
def isOver (d : Drive) : Bool := d.shape.outcome?.isSome

/-- The job after it was told a signal. -/
def tell (d : Drive) (signal : Signal) (next : Step Shape) : Drive :=
  ⟨d.name, next.state, d.told ++ [signal]⟩

/-- What the jobs on a workload come to. -/
def total (f : Drive → Nat) (w : String) (ds : List Drive) : Nat :=
  ((ds.filter fun d => d.name = w).map f).sum

end Drive

/-- What a job does first. -/
inductive First (now : Instant) : Step Shape → Prop where
  | repeating (c : Cadence) : First now ((Repeat.start c now).map .repeating)
  | single (limit : Limit) (interval : Span) : First now ((Worker.start 0 limit interval).map .single)
  | many (c : Cadence) (workers : Nat) : First now ((FanOut.start c workers now).map .many)
  | ramping (p : Plan) : First now ((Ramp.start p now).map .ramping)

/-- Jobs that share a registry.  At any time another one begins, one of them is told a signal
    that it takes, or something else is noted; a job that is told nothing any more stays where
    it is. -/
inductive Together : Registry → List Drive → Prop where
  | nothing : Together {} []
  | begins {r : Registry} {ds : List Drive} {now : Instant} {first : Step Shape} (name : String) :
      Together r ds → First now first →
      Together (r.noteAll first.notes) (ds ++ [⟨name, first.state, []⟩])
  | tells {r : Registry} {d : Drive} {next : Step Shape} (before after : List Drive)
      (now : Instant) (signal : Signal) :
      Together r (before ++ d :: after) → d.shape.step d.name now signal = some next →
      Together (r.noteAll next.notes) (before ++ d.tell signal next :: after)
  | aside {r : Registry} {ds : List Drive} {note : Note} :
      Together r ds → note.isLoad = false → Together (r.note note) ds

/-! ## The account of all -/

theorem First.spec {first : Step Shape} (h : First now first) :
    first.notes = [] ∧ first.state.isLoad = true ∧ first.state.holds = [] ∧
      first.state.breaks = 0 := by
  cases h with
  | repeating c =>
      obtain ⟨hnotes, hbreaks⟩ := Repeat.ofTurn_breaks now [] (Cycling.turn _ now)
      exact ⟨hnotes, rfl, rfl, hbreaks.trans (Cycling.turn_breaks _ now)⟩
  | single limit interval => exact ⟨rfl, rfl, rfl, rfl⟩
  | many c workers =>
      refine ⟨rfl, rfl, List.flatMap_eq_nil_iff.mpr fun w hw => ?_, ?_⟩
      · rw [List.eq_of_mem_replicate hw]
        rfl
      · show ((List.replicate workers _).map Worker.breaks).sum = 0
        rw [List.map_replicate, List.sum_replicate]
        exact Nat.mul_zero workers
  | ramping p =>
      show (Ramp.start p now).notes = [] ∧ true = true ∧ (Ramp.start p now).state.held = [] ∧
        (Ramp.start p now).state.breaks = 0
      rw [Ramp.start]
      split
      · exact ⟨rfl, rfl, rfl, rfl⟩
      · exact ⟨rfl, rfl, rfl, rfl⟩

/-- What is noted about a signal to a job on a workload, and nothing about others. -/
theorem Signal.count_notes (signal : Signal) (name w : String) :
    (signal.notes name).count (.opened w) =
        (if name = w then signal.opened?.toList.length else 0) ∧
      (signal.notes name).count (.closed w) =
        (if name = w then signal.closed?.toList.length else 0) ∧
      (signal.notes name).count (.setupFailed w) =
        (if name = w then [signal].countP isRefusal else 0) ∧
      (signal.notes name).count (.workFailed w) =
        (if name = w then signal.worked?.toList.countP Prod.snd else 0) := by
  by_cases h : name = w
  · subst h
    cases signal with
    | worked worker failed => cases failed <;> simp [notes, opened?, closed?, worked?, isRefusal]
    | _ => simp [notes, opened?, closed?, worked?, isRefusal]
  · cases signal with
    | worked worker failed => cases failed <;> simp [notes, h]
    | _ => simp [notes, h]

namespace Drive

variable {w : String} {f g : Drive → Nat} {d d' : Drive} {ds before after : List Drive}

theorem total_append (f : Drive → Nat) (w : String) (ds es : List Drive) :
    total f w (ds ++ es) = total f w ds + total f w es := by
  rw [total, List.filter_append, List.map_append, List.sum_append]
  rfl

theorem total_cons (f : Drive → Nat) (w : String) (d : Drive) (ds : List Drive) :
    total f w (d :: ds) = (if d.name = w then f d else 0) + total f w ds := by
  rw [total, List.filter_cons]
  by_cases h : d.name = w
  · rw [if_pos (decide_eq_true h), if_pos h, List.map_cons, List.sum_cons]
    rfl
  · rw [if_neg (by simpa using h), if_neg h, Nat.zero_add]
    rfl

/-- What a signal to one job adds. -/
theorem total_tell {next : Step Shape} {k : Nat} (hf : f (d.tell signal next) = f d + k) :
    total f w (before ++ d.tell signal next :: after) =
      total f w (before ++ d :: after) + if d.name = w then k else 0 := by
  have hname : (d.tell signal next).name = d.name := rfl
  rw [total_append, total_append, total_cons, total_cons, hname, hf]
  split <;> omega

theorem total_congr (h : ∀ d ∈ ds, d.name = w → f d = g d) : total f w ds = total g w ds := by
  rw [total, total]
  refine congrArg List.sum (List.map_congr_left fun d hd => ?_)
  obtain ⟨hmem, hname⟩ := List.mem_filter.mp hd
  exact h d hmem (of_decide_eq_true hname)

theorem total_add (f g : Drive → Nat) (w : String) (ds : List Drive) :
    total (fun d => f d + g d) w ds = total f w ds + total g w ds := by
  induction ds with
  | nil => rfl
  | cons d ds ih =>
      rw [total_cons, total_cons, total_cons, ih]
      split <;> omega

/-- What was opened is held or was closed, and a job that is over holds what its broken parts
    have left behind. -/
structure Sound (d : Drive) : Prop where
  load : d.shape.isLoad = true
  balance : d.opened.Perm (d.closed ++ d.shape.holds)
  lost : d.shape.breaks = d.lost.length
  ended : d.isOver = true → d.shape.holds.length = d.shape.breaks

theorem filterMap_snoc {γ : Type} (f : Signal → Option γ) (told : List Signal) (signal : Signal) :
    (told ++ [signal]).filterMap f = told.filterMap f ++ (f signal).toList := by
  rw [List.filterMap_append]
  cases h : f signal with
  | none => rw [List.filterMap_cons_none h, List.filterMap_nil]; rfl
  | some x => rw [List.filterMap_cons_some h, List.filterMap_nil]; rfl

theorem length_opened_tell (d : Drive) (signal : Signal) (next : Step Shape) :
    (d.tell signal next).opened.length = d.opened.length + signal.opened?.toList.length := by
  rw [opened, tell, filterMap_snoc, List.length_append]
  rfl

theorem length_closed_tell (d : Drive) (signal : Signal) (next : Step Shape) :
    (d.tell signal next).closed.length = d.closed.length + signal.closed?.toList.length := by
  rw [closed, tell, filterMap_snoc, List.length_append]
  rfl

theorem refusals_tell (d : Drive) (signal : Signal) (next : Step Shape) :
    (d.tell signal next).refusals = d.refusals + [signal].countP Signal.isRefusal := by
  rw [refusals, tell, List.countP_append]
  rfl

theorem failures_tell (d : Drive) (signal : Signal) (next : Step Shape) :
    (d.tell signal next).failures = d.failures + signal.worked?.toList.countP Prod.snd := by
  rw [failures, tell, filterMap_snoc, List.countP_append]
  rfl

/-- What is of one kind or of another. -/
theorem countP_add_countP {p q both : Signal → Bool}
    (h : ∀ signal, (both signal).toNat = (p signal).toNat + (q signal).toNat)
    (told : List Signal) : told.countP p + told.countP q = told.countP both := by
  induction told with
  | nil => rfl
  | cons signal told ih =>
      have hone := h signal
      rw [List.countP_cons, List.countP_cons, List.countP_cons, ← ih]
      cases hp : p signal <;> cases hq : q signal <;> cases hb : both signal <;>
        simp [hp, hq, hb] at hone ⊢ <;> omega

/-- An opening that failed was refused or broke off. -/
theorem refusals_add_breaks (d : Drive) : d.refusals + d.breaks = d.unopened.length := by
  rw [refusals, breaks, unopened, List.length_filterMap_eq_countP]
  refine countP_add_countP (fun signal => ?_) d.told
  cases signal <;> rfl

/-- A cycle that failed ended with a failure or broke off. -/
theorem failures_add_crashes (d : Drive) : d.failures + d.crashes = d.spoiled.length := by
  rw [failures, crashes, spoiled, List.length_filterMap_eq_countP, List.countP_filterMap]
  refine countP_add_countP (fun signal => ?_) d.told
  cases signal with
  | worked worker failed => cases failed <;> rfl
  | _ => rfl

theorem Sound.tell (h : d.Sound) {next : Step Shape}
    (hstep : d.shape.step d.name now signal = some next) : (d.tell signal next).Sound := by
  obtain ⟨-, hbalance, hlost⟩ := Shape.step_accounts h.load hstep
  refine ⟨Shape.step_isLoad h.load hstep, ?_, ?_, Shape.step_over h.load hstep⟩
  · show ((d.told ++ [signal]).filterMap _).Perm
      ((d.told ++ [signal]).filterMap _ ++ next.state.holds)
    rw [filterMap_snoc, filterMap_snoc, List.append_assoc]
    refine (h.balance.append_right _).trans ?_
    rw [List.append_assoc]
    exact (List.perm_append_comm.trans hbalance).append_left _
  · show next.state.breaks = ((d.told ++ [signal]).filterMap _).length
    rw [filterMap_snoc, List.length_append, hlost, h.lost]
    rfl

theorem Sound.card_outstanding (h : d.Sound) :
    d.outstanding.card = d.shape.holds.length ∧
      d.closed.length + d.outstanding.card = d.opened.length := by
  have hopened : (d.opened : Multiset Resource) = d.closed + d.shape.holds := by
    rw [Multiset.coe_add, Multiset.coe_eq_coe]
    exact h.balance
  have houtstanding : d.outstanding = d.shape.holds := by
    rw [outstanding, hopened, add_tsub_cancel_left]
  have hlength := h.balance.length_eq
  rw [List.length_append] at hlength
  rw [houtstanding, Multiset.coe_card]
  exact ⟨rfl, hlength.symm⟩

end Drive

/-- The registry agrees with what the jobs have been told. -/
structure Booked (r : Registry) (ds : List Drive) : Prop where
  ordered : r.Ordered
  sound : ∀ d ∈ ds, d.Sound
  opened : ∀ w, r.openOf w =
    Drive.total (·.opened.length) w ds - Drive.total (·.closed.length) w ds
  refused : ∀ w, r.setupFailuresOf w = Drive.total Drive.refusals w ds
  failed : ∀ w, r.workErrorsOf w = Drive.total Drive.failures w ds

theorem Booked.begins {r : Registry} {ds : List Drive} {first : Step Shape} (h : Booked r ds)
    (hfirst : First now first) (name : String) :
    Booked (r.noteAll first.notes) (ds ++ [⟨name, first.state, []⟩]) := by
  obtain ⟨hnotes, hload, hholds, hbreaks⟩ := hfirst.spec
  -- a job that begins has been told nothing
  have hzero : ∀ (f : Drive → Nat) (w : String), f ⟨name, first.state, []⟩ = 0 →
      Drive.total f w (ds ++ [⟨name, first.state, []⟩]) = Drive.total f w ds := by
    intro f w hf
    rw [Drive.total_append, Drive.total_cons, hf, ite_self]
    rfl
  rw [hnotes]
  refine ⟨h.ordered, ?_, fun w => ?_, fun w => ?_, fun w => ?_⟩
  · intro d hd
    rcases List.mem_append.mp hd with hd | hd
    · exact h.sound d hd
    · obtain rfl := List.mem_singleton.mp hd
      refine ⟨hload, ?_, hbreaks, fun _ => ?_⟩
      · show [].Perm ([] ++ first.state.holds)
        rw [hholds]
        exact List.Perm.refl _
      · show first.state.holds.length = first.state.breaks
        rw [hholds, hbreaks]
        rfl
  · rw [hzero _ w rfl, hzero _ w rfl]
    exact h.opened w
  · rw [hzero _ w rfl]
    exact h.refused w
  · rw [hzero _ w rfl]
    exact h.failed w

theorem Booked.tells {r : Registry} {before after : List Drive} {d : Drive} {next : Step Shape}
    (h : Booked r (before ++ d :: after)) (hstep : d.shape.step d.name now signal = some next) :
    Booked (r.noteAll next.notes) (before ++ d.tell signal next :: after) := by
  have hd : d.Sound := h.sound d (List.mem_append_right _ List.mem_cons_self)
  have hnotes := (Shape.step_accounts hd.load hstep).notes
  refine ⟨h.ordered.noteAll _, ?_, fun w => ?_, fun w => ?_, fun w => ?_⟩
  · intro e he
    rcases List.mem_append.mp he with he | he
    · exact h.sound e (List.mem_append_left _ he)
    · rcases List.mem_cons.mp he with rfl | he
      · exact hd.tell hstep
      · exact h.sound e (List.mem_append_right _ (List.mem_cons_of_mem _ he))
  · obtain ⟨hopened, hclosed, -, -⟩ := signal.count_notes d.name w
    rw [(r.load_noteAll h.ordered w _).1, hnotes, hopened, hclosed, h.opened w,
      Drive.total_tell (d.length_opened_tell signal next),
      Drive.total_tell (d.length_closed_tell signal next)]
    omega
  · obtain ⟨-, -, hrefused, -⟩ := signal.count_notes d.name w
    rw [(r.load_noteAll h.ordered w _).2.1, hnotes, hrefused, h.refused w,
      Drive.total_tell (d.refusals_tell signal next)]
  · obtain ⟨-, -, -, hfailed⟩ := signal.count_notes d.name w
    rw [(r.load_noteAll h.ordered w _).2.2, hnotes, hfailed, h.failed w,
      Drive.total_tell (d.failures_tell signal next)]

theorem Booked.aside {r : Registry} {ds : List Drive} {note : Note} (h : Booked r ds)
    (hnote : note.isLoad = false) : Booked (r.note note) ds := by
  cases note with
  | workFailed | setupFailed | opened | closed => cases hnote
  | answered | faultInjected | jobStarted | jobFinished =>
      exact ⟨h.ordered.note _, h.sound, h.opened, h.refused, h.failed⟩

theorem booked_of_together {r : Registry} {ds : List Drive} (h : Together r ds) : Booked r ds := by
  induction h with
  | nothing =>
      refine ⟨⟨.nil, .nil, .nil⟩, fun d hd => absurd hd List.not_mem_nil, ?_, ?_, ?_⟩
      · exact fun w => rfl
      · exact fun w => rfl
      · exact fun w => rfl
  | begins name _ hfirst ih => exact ih.begins hfirst name
  | tells before after now signal _ hstep ih => exact ih.tells hstep
  | aside _ hnote ih => exact ih.aside hnote

/-- **THE REGISTRY SHOWS THE LOAD.**  Whatever jobs share a registry and in whatever order they
    are told their signals, at every moment the registry shows for each workload how many
    resources are open that jobs on it have opened and not closed, how many of its openings
    were refused, and how many of its cycles ended with a failure.

    What breaks off without an answer is never noted.  So an opening or a cycle that breaks off
    is missing among the failures, and a worker that breaks off with a cycle or with its closing
    leaves its resource open for good: when all jobs are over, what is open are the resources of
    such workers, and nothing if there are none. -/
theorem registry_shows_load {r : Registry} {ds : List Drive} (h : Together r ds) (w : String) :
    r.openOf w = Drive.total (·.outstanding.card) w ds ∧
      0 ≤ r.openOf w ∧
      ((∀ d ∈ ds, d.name = w → d.isOver = true) →
        r.openOf w = Drive.total (·.lost.length) w ds) ∧
      r.setupFailuresOf w = Drive.total Drive.refusals w ds ∧
      r.setupFailuresOf w + Drive.total Drive.breaks w ds =
        Drive.total (·.unopened.length) w ds ∧
      r.workErrorsOf w = Drive.total Drive.failures w ds ∧
      r.workErrorsOf w + Drive.total Drive.crashes w ds =
        Drive.total (·.spoiled.length) w ds := by
  have hbooked := booked_of_together h
  have hopen : r.openOf w = Drive.total (·.outstanding.card) w ds := by
    have hsum := Drive.total_add (·.closed.length) (·.outstanding.card) w ds
    have hall : Drive.total (fun d => d.closed.length + d.outstanding.card) w ds =
        Drive.total (·.opened.length) w ds :=
      Drive.total_congr fun d hd _ => (hbooked.sound d hd).card_outstanding.2
    rw [hbooked.opened w, ← hall, hsum]
    omega
  refine ⟨hopen, ?_, fun hover => ?_, hbooked.refused w, ?_, hbooked.failed w, ?_⟩
  · rw [hopen]
    exact Int.natCast_nonneg _
  · rw [hopen]
    refine congrArg Int.ofNat (Drive.total_congr fun d hd hname => ?_)
    have hsound := hbooked.sound d hd
    rw [hsound.card_outstanding.1, hsound.ended (hover d hd hname), hsound.lost]
  · rw [hbooked.refused w, ← Drive.total_add]
    exact Drive.total_congr fun d _ _ => d.refusals_add_breaks
  · rw [hbooked.failed w, ← Drive.total_add]
    exact Drive.total_congr fun d _ _ => d.failures_add_crashes

/-- One job on `redis` has opened a resource, and another, of one worker, was refused. -/
theorem registry_shows_load_two :
    ∃ (r : Registry) (ds : List Drive), Together r ds ∧ ds.length = 2 ∧
      r.openOf "redis" = 1 ∧ r.setupFailuresOf "redis" = 1 ∧ r.workErrorsOf "redis" = 0 := by
  have hone := Together.nothing.begins "redis"
    (.single (.after (Span.ofSeconds 5)) (Span.ofSeconds 1) : First startup _)
  have htwo := hone.begins "redis"
    (.many ⟨Span.ofSeconds 5, Span.ofSeconds 1⟩ 1 : First startup _)
  have hopened := Together.tells [] _ startup (.opened ⟨0, 0⟩) htwo rfl
  have hrefused := Together.tells [_] [] startup (.refused 0 "no more") hopened rfl
  obtain ⟨hopen, -, -, hsetup, -, hwork, -⟩ := registry_shows_load hrefused "redis"
  exact ⟨_, _, hrefused, rfl, hopen, hsetup, hwork⟩

/-- **What breaks off is not noted.**  Of two workers one gets no resource, because the opening
    breaks off, and the other breaks off with its first cycle.  The job is over and reports two
    workers that failed; the registry shows no failure, and a resource that stays open. -/
theorem breaking_off_is_not_noted :
    ∃ (r : Registry) (d : Drive), Together r [d] ∧ d.name = "redis" ∧ d.isOver = true ∧
      (∃ f, d.shape = .many f ∧ f.report? = some ⟨2, 2, 0, 0⟩) ∧
      r.openOf "redis" = 1 ∧
      d.unopened = [0] ∧ r.setupFailuresOf "redis" = 0 ∧
      d.spoiled = [1] ∧ r.workErrorsOf "redis" = 0 := by
  have hone := Together.nothing.begins "redis"
    (.many ⟨Span.ofSeconds 5, Span.ofSeconds 1⟩ 2 : First startup _)
  have hbroke := Together.tells [] [] startup (.broke 0) hone rfl
  have hopened := Together.tells [] [] startup (.opened ⟨1, 0⟩) hbroke rfl
  have hcrashed := Together.tells [] [] startup (.crashed 1) hopened rfl
  exact ⟨_, _, hcrashed, rfl, rfl, ⟨_, rfl, rfl⟩, rfl, rfl, rfl, rfl, rfl⟩

end Havoc.Load
