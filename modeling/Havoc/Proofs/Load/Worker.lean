import Havoc.Load.Worker
import Havoc.Proofs.Load.Run

/-! # What a worker does with its resource

    A worker asks for its resource once, runs cycles on it as long as its deadline
    has not come, and then closes it.  A worker that gets no resource does nothing
    more, and neither does one that breaks off.

    The route is that of a ramp: `Moves` lists what a signal can make of a worker,
    `Track` says what a worker in each state has asked for and heard, and a move
    keeps a worker on its track (`track_of_run`).  Beside it, the counters of a
    worker grow with its cycles, failures and refusals (`step_counts`). -/

namespace Havoc.Load

namespace Worker

variable {name : String} {number : Nat} {deadline t₀ t now : Instant} {interval : Span}
  {h : List Beat} {w : Worker}

/-- A worker with a fixed deadline as a machine. -/
def machine (name : String) (number : Nat) (deadline : Instant) (interval : Span) :
    Machine Worker :=
  ⟨fun _ => start number (.at deadline) interval, step name number⟩

/-! ## The moves of a worker -/

/-- Everything that a signal can make of a worker. -/
inductive Moves (name : String) (number : Nat) (w : Worker) (now : Instant) :
    Signal → Step Worker → Prop where
  | gain {limit : Limit} {interval : Span} {resource : Resource} :
      w = .opening limit interval → resource.worker = number →
      Moves name number w now (.opened resource) (hold resource limit interval [.opened name] now)
  | lose {limit : Limit} {interval : Span} {cause : Option String} {signal : Signal}
      {notes : List Metric.Note} :
      w = .opening limit interval → signal.unopened? = some number →
      Moves name number w now signal ⟨.failed cause, notes, []⟩
  | rest {resource : Resource} {loop : Cycling} {failed : Bool} :
      w = .cycling resource loop → loop.pause = none →
      Moves name number w now (.worked loop.worker failed)
        (ofTurn resource (failureNotes name (.worked loop.worker failed)) (loop.rest failed now))
  | turn {resource : Resource} {loop : Cycling} {pause : Pause} :
      w = .cycling resource loop → loop.pause = some pause → pause.isOver now = true →
      Moves name number w now (.rested loop.worker) (ofTurn resource [] (loop.turn now))
  | part {resource : Resource} {loop : Cycling} :
      w = .closing resource loop →
      Moves name number w now (.closed resource) ⟨.done (loop.report now), [.closed name], []⟩
  | crash {resource : Resource} {loop : Cycling} :
      w = .cycling resource loop → loop.pause = none →
      Moves name number w now (.crashed loop.worker) ⟨.broken resource, [], []⟩
  | jam {resource : Resource} {loop : Cycling} :
      w = .closing resource loop →
      Moves name number w now (.jammed resource) ⟨.broken resource, [], []⟩

/-- A worker makes no other moves. -/
theorem step_moves {signal : Signal} {next : Step Worker}
    (hstep : w.step name number now signal = some next) : Moves name number w now signal next := by
  cases w with
  | opening limit interval =>
      cases signal with
      | opened resource =>
          obtain ⟨hmine, hnext⟩ := Option.ite_none_right_eq_some.mp hstep
          cases hnext
          exact .gain rfl hmine
      | refused worker cause =>
          obtain ⟨hmine, hnext⟩ := Option.ite_none_right_eq_some.mp hstep
          cases hnext
          exact .lose rfl (congrArg some hmine)
      | broke worker =>
          obtain ⟨hmine, hnext⟩ := Option.ite_none_right_eq_some.mp hstep
          cases hnext
          exact .lose rfl (congrArg some hmine)
      | _ => exact nomatch hstep
  | cycling resource loop =>
      obtain ⟨turn, hturn, rfl⟩ := Option.map_eq_some_iff.mp hstep
      cases signal with
      | worked worker failed =>
          obtain ⟨⟨hmine, hpause⟩, hnext⟩ := Option.ite_none_right_eq_some.mp hturn
          cases hnext
          subst hmine
          exact .rest rfl hpause
      | crashed worker =>
          obtain ⟨⟨hmine, hpause⟩, hnext⟩ := Option.ite_none_right_eq_some.mp hturn
          cases hnext
          subst hmine
          exact .crash rfl hpause
      | rested worker =>
          cases hpause : loop.pause with
          | none =>
              rw [Cycling.step, hpause] at hturn
              exact nomatch hturn
          | some pause =>
              rw [Cycling.step, hpause] at hturn
              obtain ⟨⟨hmine, hover⟩, hnext⟩ := Option.ite_none_right_eq_some.mp hturn
              cases hnext
              subst hmine
              exact .turn rfl hpause hover
      | _ => exact nomatch hturn
  | closing resource loop =>
      cases signal with
      | closed resource' =>
          obtain ⟨hmine, hnext⟩ := Option.ite_none_right_eq_some.mp hstep
          cases hnext
          subst hmine
          exact .part rfl
      | jammed resource' =>
          obtain ⟨hmine, hnext⟩ := Option.ite_none_right_eq_some.mp hstep
          cases hnext
          subst hmine
          exact .jam rfl
      | _ => exact nomatch hstep
  | done | failed | broken => exact nomatch hstep

/-- A worker that has started asks for no opening any more. -/
theorem step_openings {signal : Signal} {next : Step Worker}
    (hstep : w.step name number now signal = some next) :
    (next.beat now (some signal)).openings = [] := by
  -- a loop that turns works or closes, but opens nothing
  have hturn : ∀ (resource : Resource) (notes : List Metric.Note) (loop : Cycling),
      ((ofTurn resource notes (loop.turn now)).beat now (some signal)).openings = [] := by
    intro resource notes loop
    rw [Cycling.turn]
    split
    · rfl
    · rfl
  cases step_moves hstep with
  | gain hw hmine => exact hturn _ _ _
  | lose hw hfail => rfl
  | rest hw hpause => rfl
  | turn hw hpause hover => exact hturn _ _ _
  | part hw => rfl
  | crash hw hpause => rfl
  | jam hw => rfl

/-- A loop that stands before its next cycle begins it before the deadline, and
    else closes its resource. -/
theorem ofTurn_turn (resource : Resource) (notes : List Metric.Note) (loop : Cycling)
    (now : Instant) :
    (now < loop.deadline ∧ ofTurn resource notes (loop.turn now) =
      ⟨.cycling resource { loop with cycles := loop.cycles + 1, pause := none }, notes,
        [.working loop.worker]⟩) ∨
    (loop.deadline ≤ now ∧ ofTurn resource notes (loop.turn now) =
      ⟨.closing resource loop, notes, [.closing resource]⟩) := by
  by_cases hend : now < loop.deadline
  · exact Or.inl ⟨hend, by rw [Cycling.turn, if_pos hend]; rfl⟩
  · exact Or.inr ⟨Nat.not_lt.mp hend, by rw [Cycling.turn, if_neg hend]; rfl⟩

/-! ## The counters of a worker -/

/-- The cycles that a worker has begun. -/
def cycles : Worker → Nat
  | .cycling _ loop | .closing _ loop => loop.cycles
  | .done report => report.cycles
  | .opening .. | .failed _ | .broken _ => 0

/-- The cycles of a worker that have failed. -/
def errors : Worker → Nat
  | .cycling _ loop | .closing _ loop => loop.errors
  | .done report => report.errors
  | .opening .. | .failed _ | .broken _ => 0

/-- Whether a worker got no resource or broke off with it, as a number. -/
def failures : Worker → Nat
  | .failed _ | .broken _ => 1
  | _ => 0

/-- The counters grow by what a moment brings, but a worker that breaks off takes its
    cycles with it. -/
theorem step_counts {signal : Signal} {next : Step Worker}
    (hstep : w.step name number now signal = some next) :
    (signal.lost? = none →
      next.state.cycles = w.cycles + (next.beat now (some signal)).workings.length ∧
      next.state.errors = w.errors + (next.beat now (some signal)).worked.countP Prod.snd) ∧
      next.state.failures = w.failures + (next.beat now (some signal)).unopened.length +
        (next.beat now (some signal)).lost.length := by
  cases step_moves hstep with
  | @gain limit interval resource hw hmine =>
      subst hw
      rw [hold]
      rcases ofTurn_turn resource [.opened name]
        { worker := resource.worker, started := now, deadline := limit.deadline now, interval }
        now with ⟨-, hturn⟩ | ⟨-, hturn⟩
      · simp only [hturn]
        exact ⟨fun _ => ⟨rfl, rfl⟩, rfl⟩
      · simp only [hturn]
        exact ⟨fun _ => ⟨rfl, rfl⟩, rfl⟩
  | @lose limit interval cause signal notes hw hfail =>
      subst hw
      refine ⟨fun _ => ⟨rfl, ?_⟩, ?_⟩
      · cases signal with
        | refused worker cause => rfl
        | broke worker => rfl
        | _ => exact nomatch hfail
      · show 1 = 0 + ((some signal).bind Signal.unopened?).toList.length +
          ((some signal).bind Signal.lost?).toList.length
        rw [Option.bind_some, Option.bind_some, hfail, (Signal.only_unopened hfail).2.2]
        rfl
  | @rest resource loop failed hw hpause =>
      subst hw
      cases failed with
      | true => exact ⟨fun _ => ⟨rfl, rfl⟩, rfl⟩
      | false => exact ⟨fun _ => ⟨rfl, rfl⟩, rfl⟩
  | @turn resource loop pause hw hpause hover =>
      subst hw
      rcases ofTurn_turn resource [] loop now with ⟨-, hturn⟩ | ⟨-, hturn⟩
      · rw [hturn]
        exact ⟨fun _ => ⟨rfl, rfl⟩, rfl⟩
      · rw [hturn]
        exact ⟨fun _ => ⟨rfl, rfl⟩, rfl⟩
  | part hw =>
      subst hw
      exact ⟨fun _ => ⟨rfl, rfl⟩, rfl⟩
  | crash hw hpause =>
      subst hw
      refine ⟨fun hkept => ?_, rfl⟩
      cases hkept
  | jam hw =>
      subst hw
      refine ⟨fun hkept => ?_, rfl⟩
      cases hkept

/-- What a worker with a number waits for. -/
def pending (number : Nat) : Worker → List Ask
  | .opening .. => [.opening number]
  | .cycling _ loop =>
      match loop.pause with
      | none => [.working loop.worker]
      | some pause => [.resting loop.worker pause]
  | .closing resource _ => [.closing resource]
  | .done _ | .failed _ | .broken _ => []

/-- A worker takes just the answers to what it waits for. -/
theorem takes_iff {signal : Signal} :
    (∃ next, w.step name number now signal = some next) ↔
      ∃ ask ∈ w.pending number, Answers now ask signal := by
  constructor
  · rintro ⟨next, hstep⟩
    cases step_moves hstep with
    | gain hw hmine =>
        subst hw hmine
        exact ⟨_, List.mem_singleton.mpr rfl, .opened⟩
    | lose hw hfail =>
        subst hw
        refine ⟨_, List.mem_singleton.mpr rfl, ?_⟩
        cases signal with
        | refused worker cause => cases hfail; exact .refused
        | broke worker => cases hfail; exact .broke
        | _ => exact nomatch hfail
    | rest hw hpause =>
        subst hw
        exact ⟨_, by rw [pending, hpause]; exact List.mem_singleton.mpr rfl, .worked⟩
    | turn hw hpause hover =>
        subst hw
        exact ⟨_, by rw [pending, hpause]; exact List.mem_singleton.mpr rfl, .rested hover⟩
    | part hw =>
        subst hw
        exact ⟨_, List.mem_singleton.mpr rfl, .closed⟩
    | crash hw hpause =>
        subst hw
        exact ⟨_, by rw [pending, hpause]; exact List.mem_singleton.mpr rfl, .crashed⟩
    | jam hw =>
        subst hw
        exact ⟨_, List.mem_singleton.mpr rfl, .jammed⟩
  · rintro ⟨ask, hmem, hans⟩
    cases w with
    | opening limit interval =>
        cases List.mem_singleton.mp hmem
        cases hans with
        | opened => exact ⟨_, if_pos rfl⟩
        | refused => exact ⟨_, if_pos rfl⟩
        | broke => exact ⟨_, if_pos rfl⟩
    | cycling resource loop =>
        rw [pending] at hmem
        cases hpause : loop.pause with
        | none =>
            rw [hpause] at hmem
            cases List.mem_singleton.mp hmem
            cases hans with
            | worked => exact ⟨_, Option.map_eq_some_iff.mpr ⟨_, if_pos ⟨rfl, hpause⟩, rfl⟩⟩
            | crashed => exact ⟨_, Option.map_eq_some_iff.mpr ⟨_, if_pos ⟨rfl, hpause⟩, rfl⟩⟩
        | some pause =>
            rw [hpause] at hmem
            cases List.mem_singleton.mp hmem
            cases hans with
            | rested hover =>
                have hturn : loop.step now (.rested loop.worker) = some (loop.turn now) := by
                  rw [Cycling.step, hpause]
                  exact if_pos ⟨rfl, hover⟩
                exact ⟨_, Option.map_eq_some_iff.mpr ⟨_, hturn, rfl⟩⟩
    | closing resource loop =>
        cases List.mem_singleton.mp hmem
        cases hans with
        | closed => exact ⟨_, if_pos rfl⟩
        | jammed => exact ⟨_, if_pos rfl⟩
    | done | failed | broken => exact nomatch hmem

/-! ## The track of a worker -/

/-- The asks of the cycles that have ended: each cycle is followed by its rest. -/
def rounds (number : Nat) (rests : List Pause) : List Ask :=
  rests.flatMap fun pause => [.working number, .resting number pause]

/-- The ask of a cycle that has not ended. -/
def begun (loop : Cycling) : List Ask :=
  match loop.pause with
  | none => [.working loop.worker]
  | some _ => []

/-- A worker that has got a resource, and ended a cycle for each of some rests. -/
structure Held (number : Nat) (h : List Beat) (resource : Resource) (rests : List Pause) :
    Prop where
  mine : resource.worker = number
  opened : h.flatMap Beat.opened = [resource]
  unopened : h.flatMap Beat.unopened = []
  worked : (h.flatMap Beat.worked).length = rests.length

/-- What a worker has asked for and heard. -/
def Track (number : Nat) (deadline : Instant) (h : List Beat) : Worker → Prop
  | .opening limit _ =>
      limit = .at deadline ∧ h.flatMap Beat.asks = [.opening number] ∧
        h.flatMap Beat.opened = [] ∧ h.flatMap Beat.unopened = [] ∧
        h.flatMap Beat.worked = [] ∧ h.flatMap Beat.closed = []
  | .cycling resource loop =>
      loop.worker = number ∧ loop.deadline = deadline ∧ h.flatMap Beat.closed = [] ∧
        (∀ b ∈ h, b.opened ≠ [] → b.time < deadline) ∧
        ∃ rests, Held number h resource rests ∧
          h.flatMap Beat.asks = .opening number :: (rounds number rests ++ begun loop)
  | .closing resource _ =>
      h.flatMap Beat.closed = [] ∧ ∃ rests, Held number h resource rests ∧
        (∀ b ∈ h, b.opened ≠ [] → deadline ≤ b.time → rests = []) ∧
        h.flatMap Beat.asks = .opening number :: (rounds number rests ++ [.closing resource])
  | .done _ =>
      ∃ resource rests, h.flatMap Beat.closed = [resource] ∧ Held number h resource rests ∧
        (∀ b ∈ h, b.opened ≠ [] → deadline ≤ b.time → rests = []) ∧
        h.flatMap Beat.asks = .opening number :: (rounds number rests ++ [.closing resource])
  | .failed _ =>
      h.flatMap Beat.asks = [.opening number] ∧ h.flatMap Beat.opened = [] ∧
        h.flatMap Beat.unopened = [number] ∧ h.flatMap Beat.closed = []
  | .broken resource =>
      number ∈ h.flatMap Beat.lost ∧ ∃ rests last, Held number h resource rests ∧
        (last = [.working number] ∨ last = [.closing resource]) ∧
        (∀ b ∈ h, b.opened ≠ [] → deadline ≤ b.time →
          rests = [] ∧ last = [.closing resource]) ∧
        h.flatMap Beat.asks = .opening number :: (rounds number rests ++ last)

/-- A moment that brings no resource and no refusal, and perhaps the end of a
    cycle. -/
theorem Held.snoc {resource : Resource} {rests more : List Pause} {b : Beat}
    (held : Held number h resource rests) (ho : b.opened = []) (hu : b.unopened = [])
    (hw : b.worked.length = more.length) :
    Held number (h ++ [b]) resource (rests ++ more) := by
  refine ⟨held.mine, ?_, ?_, ?_⟩
  · rw [flatMap_snoc_of_nil ho]
    exact held.opened
  · rw [flatMap_snoc_of_nil hu]
    exact held.unopened
  · rw [flatMap_snoc, List.length_append, List.length_append, held.worked, hw]

/-- A moment that brings no resource says nothing about when one came. -/
theorem of_opened_snoc {b : Beat} {P : Beat → Prop} (ho : b.opened = [])
    (hall : ∀ b' ∈ h, b'.opened ≠ [] → P b') :
    ∀ b' ∈ h ++ [b], b'.opened ≠ [] → P b' := by
  intro b' hb' hopened
  rcases List.mem_append.mp hb' with hb' | hb'
  · exact hall b' hb' hopened
  · rw [List.mem_singleton.mp hb'] at hopened
    exact absurd ho hopened

/-- One more cycle that has ended. -/
theorem rounds_snoc (number : Nat) (rests : List Pause) (pause : Pause) :
    rounds number (rests ++ [pause]) =
      rounds number rests ++ [.working number, .resting number pause] := by
  rw [rounds, List.flatMap_append, List.flatMap_singleton]
  rfl

/-- A worker whose loop turns goes on with a cycle or closes its resource. -/
theorem Track.turn {resource : Resource} {notes : List Metric.Note} {loop : Cycling}
    {signal : Signal} {rests : List Pause}
    (hmine : loop.worker = number) (hend : loop.deadline = deadline)
    (hclosed : h.flatMap Beat.closed = []) (hcd : signal.closed? = none)
    (hasks : h.flatMap Beat.asks = .opening number :: rounds number rests)
    (held : Held number (h ++ [(ofTurn resource notes (loop.turn now)).beat now (some signal)])
      resource rests)
    (hwhen : ∀ b ∈ h ++ [(ofTurn resource notes (loop.turn now)).beat now (some signal)],
      b.opened ≠ [] → b.time < deadline ∨ (b.time = now ∧ rests = [])) :
    Track number deadline
      (h ++ [(ofTurn resource notes (loop.turn now)).beat now (some signal)])
      (ofTurn resource notes (loop.turn now)).state := by
  have hcd' : (h ++ [(ofTurn resource notes (loop.turn now)).beat now (some signal)]).flatMap
      Beat.closed = [] := by
    rw [flatMap_snoc, hclosed]
    exact congrArg Option.toList hcd
  -- the loop begins a cycle, or the deadline has come and it closes
  rcases ofTurn_turn resource notes loop now with ⟨hin, hturn⟩ | ⟨hover, hturn⟩
  · rw [hend] at hin
    rw [hturn] at held hwhen hcd' ⊢
    refine ⟨hmine, hend, hcd', ?_, rests, held, ?_⟩
    · intro b hb hopened
      rcases hwhen b hb hopened with hbefore | ⟨hnow, -⟩
      · exact hbefore
      · rw [hnow]
        exact hin
    · rw [flatMap_snoc, hasks]
      rfl
  · rw [hturn] at held hwhen hcd' ⊢
    refine ⟨hcd', rests, held, ?_, ?_⟩
    · intro b hb hopened hlate
      rcases hwhen b hb hopened with hbefore | ⟨-, hnone⟩
      · exact absurd hbefore (Nat.not_lt.mpr hlate)
      · exact hnone
    · rw [flatMap_snoc, hasks]
      rfl

/-- A move keeps a worker on its track. -/
theorem Track.tell {signal : Signal} {next : Step Worker} (track : Track number deadline h w)
    (hstep : w.step name number now signal = some next) :
    Track number deadline (h ++ [next.beat now (some signal)]) next.state := by
  cases step_moves hstep with
  | @gain limit interval resource hw hmine =>
      subst hw
      obtain ⟨rfl, hasks, hopened, hunopened, hworked, hclosed⟩ := track
      -- no cycle has ended so far
      have hnone : h.flatMap Beat.asks = .opening number :: rounds number [] := hasks
      refine Track.turn hmine rfl hclosed rfl hnone ⟨hmine, ?_, ?_, ?_⟩ ?_
      · rw [flatMap_snoc, hopened]
        rfl
      · rw [flatMap_snoc, hunopened]
        rfl
      · rw [flatMap_snoc, hworked]
        rfl
      · intro b hb hne
        rcases List.mem_append.mp hb with hb | hb
        · exact absurd (List.flatMap_eq_nil_iff.mp hopened b hb) hne
        · rw [List.mem_singleton.mp hb]
          exact Or.inr ⟨rfl, rfl⟩
  | @lose limit interval cause signal notes hw hfail =>
      subst hw
      obtain ⟨-, hasks, hopened, hunopened, -, hclosed⟩ := track
      obtain ⟨ho, hc, -⟩ := Signal.only_unopened hfail
      refine ⟨?_, ?_, ?_, ?_⟩
      · rw [flatMap_snoc, hasks]
        rfl
      · rw [flatMap_snoc, hopened]
        exact congrArg Option.toList ho
      · rw [flatMap_snoc, hunopened]
        exact congrArg Option.toList hfail
      · rw [flatMap_snoc, hclosed]
        exact congrArg Option.toList hc
  | @rest resource loop failed hw hpause =>
      subst hw
      obtain ⟨hmine, hend, hclosed, hbefore, rests, held, hasks⟩ := track
      refine ⟨hmine, hend, ?_, of_opened_snoc rfl hbefore,
        rests ++ [.after now loop.interval loop.deadline], held.snoc rfl rfl rfl, ?_⟩
      · rw [flatMap_snoc, hclosed]
        rfl
      · rw [flatMap_snoc, hasks, rounds_snoc, begun, hpause, ← hmine, List.cons_append,
          List.append_assoc, List.append_assoc]
        rfl
  | @turn resource loop pause hw hpause hover =>
      subst hw
      obtain ⟨hmine, hend, hclosed, hbefore, rests, held, hasks⟩ := track
      -- a loop that rests has begun no cycle that has not ended
      rw [begun, hpause, List.append_nil] at hasks
      refine Track.turn hmine hend hclosed rfl hasks ?_ ?_
      · rw [← List.append_nil rests]
        exact held.snoc rfl rfl rfl
      · exact of_opened_snoc rfl fun b hb hopened => Or.inl (hbefore b hb hopened)
  | @part resource loop hw =>
      subst hw
      obtain ⟨hclosed, rests, held, hlate, hasks⟩ := track
      refine ⟨resource, rests, ?_, ?_, of_opened_snoc rfl hlate, ?_⟩
      · rw [flatMap_snoc, hclosed]
        rfl
      · rw [← List.append_nil rests]
        exact held.snoc rfl rfl rfl
      · rw [flatMap_snoc, hasks]
        exact List.append_nil _
  | @crash resource loop hw hpause =>
      subst hw
      obtain ⟨hmine, -, -, hbefore, rests, held, hasks⟩ := track
      refine ⟨?_, rests, [.working number], ?_, Or.inl rfl, ?_, ?_⟩
      · rw [flatMap_snoc]
        exact List.mem_append_right _ (List.mem_singleton.mpr hmine.symm)
      · rw [← List.append_nil rests]
        exact held.snoc rfl rfl rfl
      -- a loop that still went round has got its resource in time
      · refine of_opened_snoc rfl fun b hb hopened hlate => ?_
        exact absurd (hbefore b hb hopened) (Nat.not_lt.mpr hlate)
      · rw [flatMap_snoc, hasks, begun, hpause, hmine]
        exact List.append_nil _
  | @jam resource loop hw =>
      subst hw
      obtain ⟨-, rests, held, hlate, hasks⟩ := track
      refine ⟨?_, rests, [.closing resource], ?_, Or.inr rfl, ?_, ?_⟩
      · rw [flatMap_snoc]
        exact List.mem_append_right _ (List.mem_singleton.mpr held.mine.symm)
      · rw [← List.append_nil rests]
        exact held.snoc rfl rfl rfl
      · exact of_opened_snoc rfl fun b hb hopened hle => ⟨hlate b hb hopened hle, rfl⟩
      · rw [flatMap_snoc, hasks]
        exact List.append_nil _

/-- **A WORKER STAYS ON ITS TRACK.**  After every run it has asked for just what
    its state says. -/
theorem track_of_run (run : Run (machine name number deadline interval) t₀ h now w) :
    Track number deadline h w := by
  induction run with
  | start => exact ⟨rfl, rfl, rfl, rfl, rfl, rfl⟩
  | tell run hle hstep ih => exact ih.tell hstep

/-- A worker asks for nothing on behalf of another. -/
theorem Track.own (track : Track number deadline h w) :
    ∀ ask ∈ h.flatMap Beat.asks, ask.worker? = some number := by
  have hrounds : ∀ rests, ∀ ask ∈ rounds number rests, ask.worker? = some number := by
    intro rests ask hask
    obtain ⟨pause, -, hask⟩ := List.mem_flatMap.mp hask
    rcases List.mem_cons.mp hask with rfl | hask
    · rfl
    · rw [List.mem_singleton.mp hask]
      rfl
  -- what a worker has asked for that closes its resource
  have hclose : ∀ {resource : Resource} {rests : List Pause}, resource.worker = number →
      ∀ ask ∈ Ask.opening number :: (rounds number rests ++ [.closing resource]),
        ask.worker? = some number := by
    intro resource rests hmine ask hask
    rcases List.mem_cons.mp hask with rfl | hask
    · rfl
    · rcases List.mem_append.mp hask with hask | hask
      · exact hrounds rests ask hask
      · rw [List.mem_singleton.mp hask]
        exact congrArg some hmine
  intro ask hask
  cases w with
  | opening limit interval =>
      rw [track.2.1] at hask
      rw [List.mem_singleton.mp hask]
      rfl
  | cycling resource loop =>
      obtain ⟨hmine, -, -, -, rests, -, hasks⟩ := track
      rw [hasks] at hask
      rcases List.mem_cons.mp hask with rfl | hask
      · rfl
      · rcases List.mem_append.mp hask with hask | hask
        · exact hrounds rests ask hask
        · rw [begun] at hask
          split at hask
          · rw [List.mem_singleton.mp hask]
            exact congrArg some hmine
          · exact nomatch hask
  | closing resource loop =>
      obtain ⟨-, rests, held, -, hasks⟩ := track
      exact hclose held.mine ask (hasks ▸ hask)
  | done report =>
      obtain ⟨resource, rests, -, held, -, hasks⟩ := track
      exact hclose held.mine ask (hasks ▸ hask)
  | failed cause =>
      rw [track.1] at hask
      rw [List.mem_singleton.mp hask]
      rfl
  | broken resource =>
      obtain ⟨-, rests, last, held, hlast, -, hasks⟩ := track
      rcases hlast with rfl | rfl
      · rw [hasks] at hask
        rcases List.mem_cons.mp hask with rfl | hask
        · rfl
        · rcases List.mem_append.mp hask with hask | hask
          · exact hrounds rests ask hask
          · rw [List.mem_singleton.mp hask]
            rfl
      · exact hclose held.mine ask (hasks ▸ hask)

/-- A worker waits for nothing on behalf of another. -/
theorem Track.pending_own (track : Track number deadline h w) :
    ∀ ask ∈ w.pending number, ask.worker? = some number := by
  intro ask hask
  cases w with
  | opening limit interval =>
      rw [List.mem_singleton.mp hask]
      rfl
  | cycling resource loop =>
      obtain ⟨hmine, -⟩ := track
      rw [pending] at hask
      cases hpause : loop.pause with
      | none =>
          rw [hpause] at hask
          rw [List.mem_singleton.mp hask]
          exact congrArg some hmine
      | some pause =>
          rw [hpause] at hask
          rw [List.mem_singleton.mp hask]
          exact congrArg some hmine
  | closing resource loop =>
      obtain ⟨-, rests, held, -, -⟩ := track
      rw [List.mem_singleton.mp hask]
      exact congrArg some held.mine
  | done | failed | broken => exact nomatch hask

/-- A worker that gets no resource asks for nothing more. -/
theorem Track.of_unopened (track : Track number deadline h w) {worker : Nat}
    (hfail : worker ∈ h.flatMap Beat.unopened) : h.flatMap Beat.asks = [.opening number] := by
  cases w with
  | opening limit interval => exact track.2.1
  | cycling resource loop =>
      obtain ⟨-, -, -, -, rests, held, -⟩ := track
      rw [held.unopened] at hfail
      exact nomatch hfail
  | closing resource loop =>
      obtain ⟨-, rests, held, -, -⟩ := track
      rw [held.unopened] at hfail
      exact nomatch hfail
  | done report =>
      obtain ⟨resource, rests, -, held, -, -⟩ := track
      rw [held.unopened] at hfail
      exact nomatch hfail
  | failed cause => exact track.1
  | broken resource =>
      obtain ⟨-, rests, last, held, -⟩ := track
      rw [held.unopened] at hfail
      exact nomatch hfail

/-- What a worker has done with a resource that it got at a moment: it has ended
    a cycle for each of some rests, and then perhaps begun one more or asked to
    close the resource. -/
structure Use (number : Nat) (deadline : Instant) (asks : List Ask) (ended : Nat)
    (resource : Resource) (since : Instant) (rests : List Pause) (last : List Ask) : Prop where
  asked : asks = .opening number :: (rounds number rests ++ last)
  counted : ended = rests.length
  ending : last = [] ∨ last = [.working number] ∨ last = [.closing resource]
  late : deadline ≤ since → rests = [] ∧ last = [.closing resource]

/-- A worker uses the resource that it gets, up to its closing if it does not break off. -/
theorem Track.of_opened (track : Track number deadline h w) {b : Beat} {resource : Resource}
    (hb : b ∈ h) (hgot : resource ∈ b.opened) :
    ∃ rests last, Use number deadline (h.flatMap Beat.asks) (h.flatMap Beat.worked).length
      resource b.time rests last ∧
      (w.isOver = true → number ∉ h.flatMap Beat.lost → last = [.closing resource]) := by
  have hmem : resource ∈ h.flatMap Beat.opened := List.mem_flatMap.mpr ⟨b, hb, hgot⟩
  have hne : b.opened ≠ [] := List.ne_nil_of_mem hgot
  cases w with
  | opening limit interval =>
      rw [track.2.2.1] at hmem
      exact nomatch hmem
  | cycling resource' loop =>
      obtain ⟨hmine, -, -, hbefore, rests, held, hasks⟩ := track
      refine ⟨rests, begun loop, ⟨hasks, held.worked, ?_, ?_⟩, fun hover => nomatch hover⟩
      · rw [begun]
        split
        · exact Or.inr (Or.inl (by rw [hmine]))
        · exact Or.inl rfl
      -- a loop that still goes round has got its resource in time
      · exact fun hlate => absurd (hbefore b hb hne) (Nat.not_lt.mpr hlate)
  | closing resource' loop =>
      obtain ⟨-, rests, held, hlate, hasks⟩ := track
      -- the resource that came then is the only one
      rw [held.opened, List.mem_singleton] at hmem
      subst hmem
      exact ⟨rests, _, ⟨hasks, held.worked, Or.inr (Or.inr rfl),
        fun hle => ⟨hlate b hb hne hle, rfl⟩⟩, fun _ _ => rfl⟩
  | done report =>
      obtain ⟨resource', rests, -, held, hlate, hasks⟩ := track
      rw [held.opened, List.mem_singleton] at hmem
      subst hmem
      exact ⟨rests, _, ⟨hasks, held.worked, Or.inr (Or.inr rfl),
        fun hle => ⟨hlate b hb hne hle, rfl⟩⟩, fun _ _ => rfl⟩
  | failed cause =>
      rw [track.2.1] at hmem
      exact nomatch hmem
  | broken resource' =>
      obtain ⟨hlost, rests, last, held, hlast, hlate, hasks⟩ := track
      rw [held.opened, List.mem_singleton] at hmem
      subst hmem
      exact ⟨rests, last, ⟨hasks, held.worked, Or.inr hlast, hlate b hb hne⟩,
        fun _ hkept => absurd hlost hkept⟩

/-- A worker that is over has closed the resource that it got unless it broke off, or got
    none. -/
theorem Track.of_over (track : Track number deadline h w) (hover : w.isOver = true) :
    (∃ resource : Resource, resource.worker = number ∧ h.flatMap Beat.opened = [resource] ∧
      h.flatMap Beat.unopened = [] ∧
      (number ∉ h.flatMap Beat.lost → h.flatMap Beat.closed = [resource])) ∨
    (h.flatMap Beat.opened = [] ∧ h.flatMap Beat.unopened = [number] ∧
      h.flatMap Beat.closed = []) := by
  cases w with
  | done report =>
      obtain ⟨resource, rests, hclosed, held, -, -⟩ := track
      exact Or.inl ⟨resource, held.mine, held.opened, held.unopened, fun _ => hclosed⟩
  | failed cause => exact Or.inr track.2
  | broken resource =>
      obtain ⟨hlost, rests, last, held, -⟩ := track
      exact Or.inl ⟨resource, held.mine, held.opened, held.unopened,
        fun hkept => absurd hlost hkept⟩
  | _ => exact nomatch hover

/-- A move begins a cycle before the deadline only. -/
theorem Track.timely {signal : Signal} {next : Step Worker} (track : Track number deadline h w)
    (hstep : w.step name number now signal = some next)
    (hbusy : (next.beat now (some signal)).workings ≠ []) : now < deadline := by
  have hturn : ∀ {resource : Resource} {notes : List Metric.Note} {loop : Cycling},
      loop.deadline = deadline →
      ((ofTurn resource notes (loop.turn now)).beat now (some signal)).workings ≠ [] →
      now < deadline := by
    intro resource notes loop hend hbusy
    rcases ofTurn_turn resource notes loop now with ⟨hin, -⟩ | ⟨-, hturn⟩
    · exact hend ▸ hin
    · rw [hturn] at hbusy
      exact absurd rfl hbusy
  cases step_moves hstep with
  | gain hw hmine =>
      subst hw
      obtain ⟨rfl, -⟩ := track
      exact hturn rfl hbusy
  | lose hw hfail => exact absurd rfl hbusy
  | rest hw hpause => exact absurd rfl hbusy
  | turn hw hpause hover =>
      subst hw
      exact hturn track.2.1 hbusy
  | part hw => exact absurd rfl hbusy
  | crash hw hpause => exact absurd rfl hbusy
  | jam hw => exact absurd rfl hbusy

end Worker

end Havoc.Load
