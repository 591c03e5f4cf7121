import Havoc.Proofs.Backend.Statement
import Havoc.Proofs.Load.Worker
import Havoc.Proofs.Service.BackendOrder

/-! # The cycles of a job on a queryable back end

    A worker of such a job runs a mix of reads and writes as its unit of work.  What goes wrong
    within a cycle stays within it: every statement is issued, the cycle fails once however many
    of them fail, and the worker counts it once.

    The route: `Driven` is a run of a worker together with its connection, on which each cycle
    runs the mix.  `counts_of_run` says of any run that the counters of a worker follow the
    cycles that have ended, and `Driven.runs` what the connection has gone through.  The bound on
    the statements of a cycle comes from the numbers of a job (`gives_asked`).  The main theorem is
    `query_cycles_are_complete`. -/

namespace Havoc.Load

open Backend

namespace Worker

variable {name : String} {number : Nat} {t₀ t now : Instant} {h : List Beat} {w : Worker}
  {machine : Machine Worker}

/-! ## Any worker -/

/-- A machine is a worker, which opens its connection itself or is given an open one. -/
inductive Serves (name : String) (number : Nat) : Machine Worker → Prop
  | opening (limit : Limit) (interval : Span) :
      Serves name number ⟨fun _ => start number limit interval, step name number⟩
  | given {resource : Resource} (limit : Limit) (interval : Span) : resource.worker = number →
      Serves name number ⟨fun now => hold resource limit interval [] now, step name number⟩

/-- The cycles of a worker that have begun and not ended. -/
def underWay : Worker → Nat
  | .cycling _ loop => if loop.pause = none then 1 else 0
  | .opening .. | .closing .. | .done _ | .failed _ | .broken _ => 0

theorem Serves.step_eq (hm : Serves name number machine) : machine.step = step name number := by
  cases hm with
  | opening limit interval => rfl
  | given limit interval hmine => rfl

theorem underWay_ofTurn (resource : Resource) (notes : List Metric.Note) (loop : Cycling)
    (told : Option Signal) :
    (ofTurn resource notes (loop.turn now)).state.underWay =
      ((ofTurn resource notes (loop.turn now)).beat now told).workings.length := by
  rcases ofTurn_turn resource notes loop now with ⟨-, hturn⟩ | ⟨-, hturn⟩
  · rw [hturn]
    rfl
  · rw [hturn]
    rfl

/-- A worker that has just been given its connection has at most begun a cycle. -/
theorem counts_hold {resource : Resource} {limit : Limit} {interval : Span}
    {notes : List Metric.Note} :
    (hold resource limit interval notes now).state.cycles =
        (hold resource limit interval notes now).state.underWay ∧
      (hold resource limit interval notes now).state.errors = 0 := by
  rw [hold]
  rcases ofTurn_turn resource notes
    { worker := resource.worker, started := now, deadline := limit.deadline now, interval }
    now with ⟨-, hturn⟩ | ⟨-, hturn⟩
  · simp only [hturn]
    exact ⟨rfl, rfl⟩
  · simp only [hturn]
    exact ⟨rfl, rfl⟩

/-- A worker that has not broken off has never been told of it. -/
theorem kept_of_step {signal : Signal} {next : Step Worker}
    (hstep : w.step name number now signal = some next)
    (hkept : ∀ resource, next.state ≠ .broken resource) :
    signal.lost? = none ∧ ∀ resource, w ≠ .broken resource := by
  cases step_moves hstep with
  | gain hw hmine => exact ⟨rfl, by rw [hw]; exact nofun⟩
  | lose hw hfail => exact ⟨(Signal.only_unopened hfail).2.2, by rw [hw]; exact nofun⟩
  | rest hw hpause => exact ⟨rfl, by rw [hw]; exact nofun⟩
  | turn hw hpause hover => exact ⟨rfl, by rw [hw]; exact nofun⟩
  | part hw => exact ⟨rfl, by rw [hw]; exact nofun⟩
  | crash hw hpause => exact absurd rfl (hkept _)
  | jam hw => exact absurd rfl (hkept _)

/-- A move begins cycles and ends those that are under way, if none breaks off. -/
theorem step_underWay {signal : Signal} {next : Step Worker}
    (hstep : w.step name number now signal = some next) (hlost : signal.lost? = none) :
    next.state.underWay + (next.beat now (some signal)).worked.length =
      w.underWay + (next.beat now (some signal)).workings.length := by
  cases step_moves hstep with
  | @gain limit interval resource hw hmine =>
      subst hw
      rw [hold, underWay_ofTurn resource _ _ (some (.opened resource)), Nat.add_comm]
      rfl
  | @lose limit interval cause signal notes hw hfail =>
      subst hw
      cases signal with
      | refused worker cause => rfl
      | broke worker => rfl
      | _ => cases hfail
  | @rest resource loop failed hw hpause =>
      subst hw
      rw [underWay, if_pos hpause]
      rfl
  | @turn resource loop pause hw hpause hover =>
      subst hw
      rw [underWay_ofTurn resource _ _ (some (.rested loop.worker)), underWay, hpause, Nat.add_comm]
      rfl
  | part hw =>
      subst hw
      rfl
  | crash hw hpause => cases hlost
  | jam hw => cases hlost

/-- The counters of a worker follow the cycles that have ended, unless it has broken off. -/
theorem counts_of_run (hm : Serves name number machine) (run : Run machine t₀ h now w)
    (hkept : ∀ resource, w ≠ .broken resource) :
    w.cycles = (h.flatMap Beat.worked).length + w.underWay ∧
      w.errors = (h.flatMap Beat.worked).countP Prod.snd := by
  induction run with
  | start =>
      cases hm with
      | opening limit interval => exact ⟨rfl, rfl⟩
      | given limit interval hmine =>
          obtain ⟨hcycles, herrors⟩ := counts_hold
          exact ⟨hcycles.trans (Nat.zero_add _).symm, herrors⟩
  | @tell h t now w signal next run hle hstep ih =>
      rw [hm.step_eq] at hstep
      obtain ⟨hlost, hbefore⟩ := kept_of_step hstep hkept
      obtain ⟨hcycles, herrors⟩ := (step_counts hstep).1 hlost
      have hunderWay := step_underWay hstep hlost
      obtain ⟨ihcycles, iherrors⟩ := ih hbefore
      rw [flatMap_snoc, List.length_append, List.countP_append]
      exact ⟨by omega, by omega⟩

/-! ## A worker with its connection -/

variable {σ : Type} {m : QueryMix} {issue : Statement → σ → Bool × σ} {s₀ s : σ}
  {done : List (Except String Unit)}

/-- The courses of a worker whose unit of work is a mix, with what its cycles have come to and
    the state that they have left the connection in. -/
inductive Driven (machine : Machine Worker) (m : QueryMix) (issue : Statement → σ → Bool × σ)
    (t₀ : Instant) (s₀ : σ) :
    List Beat → Instant → Worker → List (Except String Unit) → σ → Prop
  | start : Driven machine m issue t₀ s₀ [(machine.start t₀).beat t₀ none] t₀
      (machine.start t₀).state [] s₀
  | cycle {h : List Beat} {t now : Instant} {w : Worker} {done : List (Except String Unit)}
      {s : σ} {number : Nat} {next : Step Worker} :
      Driven machine m issue t₀ s₀ h t w done s → t ≤ now →
      machine.step w now (.worked number (m.run issue s).1.toOption.isNone) = some next →
      Driven machine m issue t₀ s₀
        (h ++ [next.beat now (some (.worked number (m.run issue s).1.toOption.isNone))]) now
        next.state (done ++ [(m.run issue s).1]) (m.run issue s).2
  | other {h : List Beat} {t now : Instant} {w : Worker} {done : List (Except String Unit)}
      {s : σ} {signal : Signal} {next : Step Worker} :
      Driven machine m issue t₀ s₀ h t w done s → t ≤ now → signal.worked? = none →
      machine.step w now signal = some next →
      Driven machine m issue t₀ s₀ (h ++ [next.beat now (some signal)]) now next.state done s

namespace Driven

theorem run (driven : Driven machine m issue t₀ s₀ h now w done s) : Run machine t₀ h now w := by
  induction driven with
  | start => exact .start
  | cycle _ hle hstep ih => exact ih.tell hle hstep
  | other _ hle _ hstep ih => exact ih.tell hle hstep

/-- The worker is told of each cycle once, and whether it failed. -/
theorem worked (driven : Driven machine m issue t₀ s₀ h now w done s) :
    (h.flatMap Beat.worked).map Prod.snd = done.map fun x => x.toOption.isNone := by
  induction driven with
  | start => rfl
  | cycle _ _ _ ih =>
      rw [flatMap_snoc, List.map_append, ih, List.map_append]
      rfl
  | other _ _ hnone _ ih =>
      rw [flatMap_snoc, List.map_append, ih]
      refine (congrArg _ ?_).trans (List.append_nil _)
      show ((Signal.worked? _).toList).map Prod.snd = []
      rw [hnone]
      rfl

/-- The connection has been through all that the cycles had planned, and each cycle came to what
    its statements did. -/
theorem runs (driven : Driven machine m issue t₀ s₀ h now w done s) (hroom : m.total < 2 ^ 64) :
    ∃ cycles : List (List (Statement × Bool)), Issued issue s₀ cycles.flatten s ∧
      (∀ xs ∈ cycles, xs.map Prod.fst = m.plan) ∧ done = cycles.map verdict := by
  induction driven with
  | start => exact ⟨[], .nil, nofun, rfl⟩
  | @cycle h t now w done s number next _ _ _ ih =>
      obtain ⟨cycles, hissued, hplan, hdone⟩ := ih
      obtain ⟨xs, s', hxs, hmap, hrun⟩ := m.run_issued issue s hroom
      refine ⟨cycles ++ [xs], ?_, ?_, ?_⟩
      · rw [List.flatten_append, List.flatten_singleton, hrun]
        exact hissued.append hxs
      · intro ys hys
        rcases List.mem_append.mp hys with hys | hys
        · exact hplan ys hys
        · rw [List.mem_singleton.mp hys, hmap]
      · rw [hdone, List.map_append, hrun]
        rfl
  | other _ _ _ _ ih => exact ih

/-- The worker counts each cycle that has ended once, and once more if it failed, unless it
    breaks off. -/
theorem counts {cycles : List (List (Statement × Bool))} (hm : Serves name number machine)
    (driven : Driven machine m issue t₀ s₀ h now w (cycles.map verdict) s)
    (hkept : ∀ resource, w ≠ .broken resource) :
    w.cycles = cycles.length + w.underWay ∧
      w.errors = cycles.countP fun xs => 0 < failedAmong xs := by
  obtain ⟨hcycles, herrors⟩ := counts_of_run hm driven.run hkept
  have hworked : (h.flatMap Beat.worked).map Prod.snd =
      cycles.map fun xs => decide (0 < failedAmong xs) := by
    rw [driven.worked, List.map_map]
    exact List.map_congr_left fun xs _ => isNone_verdict xs
  constructor
  · rw [hcycles, ← List.length_map Prod.snd, hworked, List.length_map]
  · have hcount := congrArg (List.countP id) hworked
    rw [List.countP_map, List.countP_map] at hcount
    exact herrors.trans hcount

end Driven

end Worker

end Havoc.Load

namespace Havoc.Service

open Backend Load

variable {operation : Operation} {kind : Kind} {p : BackendOrder} {job : BackendJob}

/-! ## The mix of a job -/

/-- The mix that a workload runs in a cycle, if it runs one. -/
def Workload.mix? : Workload → Option QueryMix
  | .sql _ m | .redis _ m => some m
  | .kafka .. | .scripted => none

theorem Numbers.perInterval_lt (h : Numbers operation kind p job) : job.perInterval < 2 ^ 63 := by
  by_cases hcycles : operation = .connection
  · rw [h.noPerInterval hcycles]
    decide
  · by_cases hkind : kind = .kafka
    · exact (h.records hcycles hkind).small
    · exact (h.queries hcycles hkind).small

/-- Two statements in each round are no more than 64 bits can count. -/
theorem Numbers.total_lt (h : Numbers operation kind p job) (reads writes : Bool) :
    QueryMix.total ⟨reads, writes, job.perInterval⟩ < 2 ^ 64 := by
  have hround : reads.toNat + writes.toNat ≤ 2 :=
    Nat.add_le_add (Bool.toNat_le reads) (Bool.toNat_le writes)
  calc job.perInterval * (reads.toNat + writes.toNat)
      ≤ job.perInterval * 2 := Nat.mul_le_mul_left _ hround
    _ < 2 ^ 63 * 2 := Nat.mul_lt_mul_of_pos_right h.perInterval_lt (by decide)
    _ = 2 ^ 64 := by decide

/-- The mix of a workload is the one that a request asks for, and can be counted. -/
def Workload.AskedBy (p : BackendOrder) (x : Workload) : Prop :=
  ∀ m, x.mix? = some m → m.reads = p.reads ∧ m.writes = p.writes ∧ m.total < 2 ^ 64

theorem gives_kafka (settings : Settings) :
    Gives (workloadOf settings .kafka p job) (Workload.AskedBy p) := by
  -- whichever message is sent, there is no mix
  have hnone : ∀ message, Gives (setting settings.kafka >>= fun reached =>
      return .kafka reached message job.perInterval (job.operation = .multiHeavy))
      (Workload.AskedBy p) :=
    fun message => gives_behind fun reached => .return fun m hm => nomatch hm
  unfold workloadOf
  dsimp only
  split
  · exact gives_behind hnone
  · exact gives_behind hnone

/-- A job runs the mix that its request asks for. -/
theorem gives_asked (settings : Settings) (operation : Operation) (kind : Kind)
    (p : BackendOrder) :
    Gives (BackendJob.resolve operation kind p >>= workloadOf settings kind p)
      (Workload.AskedBy p) := by
  refine gives_numbers.bind fun job hnumbers => ?_
  cases kind with
  | sql engine =>
      refine gives_behind fun reached => .return fun m hm => ?_
      obtain rfl := Option.some.inj hm
      exact ⟨rfl, rfl, hnumbers.total_lt _ _⟩
  | redis =>
      refine gives_behind fun reached => .return fun m hm => ?_
      obtain rfl := Option.some.inj hm
      exact ⟨rfl, rfl, hnumbers.total_lt _ _⟩
  | kafka => exact gives_kafka settings

/-- **QUERY CYCLES ARE COMPLETE.**  If 64 bits can count the statements of a cycle, all of them are
    issued in order, whichever fail, and the cycle succeeds if none of them does; else it tells
    how many failed of how many.  A worker that runs such cycles counts each once, and once more
    as an error if a statement of it failed, unless it breaks off, and so it reports in the end;
    over all of them its connection has been issued what they planned.  The cycles of a job that a
    request asks for can always be counted. -/
theorem query_cycles_are_complete {σ : Type} (m : QueryMix)
    (issue : Statement → σ → Bool × σ) (hroom : m.total < 2 ^ 64) :
    (∀ s, ∃ xs s', Issued issue s xs s' ∧ xs.map Prod.fst = m.plan ∧
      m.run issue s = (verdict xs, s')) ∧
    (∀ name number machine, Worker.Serves name number machine →
      ∀ t₀ s₀ h now w done s, Worker.Driven machine m issue t₀ s₀ h now w done s →
        ∃ cycles : List (List (Statement × Bool)), Issued issue s₀ cycles.flatten s ∧
          (∀ xs ∈ cycles, xs.map Prod.fst = m.plan) ∧ done = cycles.map verdict ∧
          ((∀ resource, w ≠ .broken resource) →
            w.cycles = cycles.length + w.underWay ∧
            w.errors = cycles.countP (fun xs => 0 < failedAmong xs)) ∧
          ∀ report, w = .done report → report.cycles = cycles.length ∧
            report.errors = cycles.countP (fun xs => 0 < failedAmong xs)) ∧
    ∀ settings operation kind p,
      Gives (BackendJob.resolve operation kind p >>= workloadOf settings kind p)
        (Workload.AskedBy p) := by
  refine ⟨fun s => m.run_issued issue s hroom, ?_, gives_asked⟩
  intro name number machine hm t₀ s₀ h now w done s driven
  obtain ⟨cycles, hissued, hplan, rfl⟩ := driven.runs hroom
  refine ⟨cycles, hissued, hplan, rfl, driven.counts hm, ?_⟩
  rintro report rfl
  exact driven.counts hm nofun

/-- A worker whose only write fails has one cycle and one error. -/
theorem query_cycles_are_complete_failing_write :
    let m : QueryMix := ⟨true, true, 1⟩
    let issue : Statement → Nat → Bool × Nat := fun x n => (x = .write, n + 1)
    let machine : Machine Worker :=
      ⟨fun now => Worker.hold ⟨0, 0⟩ (.at 9) 1 [] now, Worker.step "mysql" 0⟩
    m.total < 2 ^ 64 ∧ Worker.Serves "mysql" 0 machine ∧
      ∃ h w s, Worker.Driven machine m issue 0 0 h 1 w [.error "1 of 2 statements failed"] s ∧
        ∃ cycles : List (List (Statement × Bool)), Issued issue 0 cycles.flatten s ∧
          w.errors = cycles.countP (fun xs => 0 < failedAmong xs) := by
  intro m issue machine
  have hroom : m.total < 2 ^ 64 := by decide
  have hserves : Worker.Serves "mysql" 0 machine := .given (.at 9) 1 rfl
  have hstart : Worker.Driven machine m issue 0 0 _ _ _ _ _ := .start
  have driven := hstart.cycle (Nat.zero_le 1)
    (show machine.step _ 1 (.worked 0 true) = some _ from rfl)
  obtain ⟨cycles, hissued, -, -, hcounts, -⟩ := (query_cycles_are_complete m issue hroom).2.1
    "mysql" 0 machine hserves _ _ _ _ _ _ _ driven
  exact ⟨hroom, hserves, _, _, _, driven, cycles, hissued, (hcounts nofun).2⟩

end Havoc.Service
