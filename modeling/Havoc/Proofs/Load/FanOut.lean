import Havoc.Load.FanOut
import Havoc.Proofs.Load.Worker
import Mathlib

/-! # What many workers come to

    Each worker of a fan-out takes a course of its own, whatever the others do,
    and the report is the exact account of them all.

    The route: every step of a fan-out is the step of one worker (`step_worker`),
    so what a run is to a worker, its `share`, is a run of that worker alone
    (`share_run`), and all that holds of one worker holds of each.  The counters
    of the workers add up to those of the whole run (`totals`).  The main theorem
    `fan_out_joins` puts the two together. -/

namespace Havoc.Load

/-- What a moment of a fan-out is to the worker with a number. -/
def Beat.of (i : Nat) (b : Beat) : Option Beat :=
  match b.told with
  | none => some { b with asks := b.asks.filter fun ask => ask.worker? = some i }
  | some signal => if FanOut.addressee? signal = some i then some b else none

namespace FanOut

variable {name : String} {c : Cadence} {n i : Nat} {t₀ now : Instant} {h : List Beat}
  {f : FanOut} {signal : Signal} {next : Step FanOut}

/-- A fan-out as a machine. -/
def machine (name : String) (c : Cadence) (n : Nat) : Machine FanOut := ⟨start c n, step name⟩

/-- What the moments of a fan-out are to the worker with a number. -/
def share (i : Nat) (h : List Beat) : List Beat := h.filterMap (Beat.of i)

/-- What has been asked for on behalf of the worker with a number. -/
def asksFor (i : Nat) (h : List Beat) : List Ask :=
  (h.flatMap Beat.asks).filter fun ask => ask.worker? = some i

/-! ## The step of one worker -/

/-- Every step of a fan-out is the step of the worker that the signal is for. -/
theorem step_worker (hstep : f.step name now signal = some next) :
    ∃ i w nw, addressee? signal = some i ∧ f.workers[i]? = some w ∧
      w.step name i now signal = some nw ∧
      next = nw.map fun w => { f with workers := f.workers.set i w } := by
  obtain ⟨i, hi, hrest⟩ := Option.bind_eq_some_iff.mp hstep
  obtain ⟨w, hw, hrest⟩ := Option.bind_eq_some_iff.mp hrest
  obtain ⟨nw, hnw, hnext⟩ := Option.bind_eq_some_iff.mp hrest
  exact ⟨i, w, nw, hi, hw, hnw, (Option.some.inj hnext).symm⟩

/-- The asks of the start, one for each worker. -/
theorem start_asks (hi : i < n) :
    ((List.range n).map Ask.opening).filter (fun ask => ask.worker? = some i) = [.opening i] := by
  have hone : (List.range n).filter (fun k => k = i) = [i] := by
    rw [List.filter_eq, List.nodup_range.count, if_pos (List.mem_range.mpr hi)]
    rfl
  have hcomp : (fun ask : Ask => decide (ask.worker? = some i)) ∘ Ask.opening =
      fun k => decide (k = i) := by
    funext k
    exact decide_eq_decide.mpr Option.some_inj
  rw [List.filter_map, hcomp, hone]
  rfl

/-- The start begins no cycle of work. -/
theorem start_workings (n : Nat) : ((start c n t₀).beat t₀ none).workings = [] := by
  show ((List.range n).map Ask.opening).filterMap Ask.working? = []
  rw [List.filterMap_map]
  exact List.filterMap_eq_nil_iff.mpr fun _ _ => rfl

/-- Every worker sees the start, with what is asked for on its own behalf. -/
theorem of_start {b : Beat} (htold : b.told = none) :
    Beat.of i b = some { b with asks := b.asks.filter fun ask => ask.worker? = some i } := by
  rw [Beat.of, htold]

/-- A worker sees the moments that are for it. -/
theorem of_mine {b : Beat} (htold : b.told = some signal) (haddr : addressee? signal = some i) :
    Beat.of i b = some b := by
  rw [Beat.of, htold]
  exact if_pos haddr

/-- A worker does not see the moments that are for another. -/
theorem of_other {b : Beat} (htold : b.told = some signal) (haddr : addressee? signal ≠ some i) :
    Beat.of i b = none := by
  rw [Beat.of, htold]
  exact if_neg haddr

/-- A moment that is for a worker is part of its share. -/
theorem share_snoc_mine {β : Type} {step : Step β} (haddr : addressee? signal = some i) :
    share i (h ++ [step.beat now (some signal)]) =
      share i h ++ [step.beat now (some signal)] := by
  rw [share, List.filterMap_append, List.filterMap_cons_some (of_mine rfl haddr)]
  rfl

/-- A moment that is for another worker is not. -/
theorem share_snoc_other {β : Type} {step : Step β} (haddr : addressee? signal ≠ some i) :
    share i (h ++ [step.beat now (some signal)]) = share i h := by
  rw [share, List.filterMap_append, List.filterMap_cons_none (of_other rfl haddr)]
  exact List.append_nil _

/-- **EACH WORKER RUNS ALONE.**  What a fan-out is to one of its workers is a run
    of that worker. -/
theorem share_run (run : Run (machine name c n) t₀ h now f) :
    f.workers.length = n ∧ ∀ i w, f.workers[i]? = some w →
      ∃ t, t ≤ now ∧
        Run (Worker.machine name i (deadlineAfter t₀ c.duration) c.interval) t₀ (share i h)
          t w := by
  induction run with
  | start =>
      refine ⟨List.length_replicate, ?_⟩
      intro i w hw
      obtain ⟨hi, hw⟩ := List.getElem?_eq_some_iff.mp hw
      have hlt : i < n := lt_of_lt_of_eq hi List.length_replicate
      have hworker : w = .opening (.at (deadlineAfter t₀ c.duration)) c.interval :=
        hw.symm.trans (List.getElem_replicate hi)
      refine ⟨t₀, Nat.le_refl _, ?_⟩
      -- of all that is asked for at the start, a worker sees its own part
      have hshare : share i [((machine name c n).start t₀).beat t₀ none] =
          [(Worker.start i (.at (deadlineAfter t₀ c.duration)) c.interval).beat t₀ none] := by
        show [Beat.mk t₀ none [] _] = [Beat.mk t₀ none [] [.opening i]]
        rw [← start_asks hlt]
        rfl
      rw [hshare, hworker]
      exact @Run.start _ (Worker.machine name i (deadlineAfter t₀ c.duration) c.interval) t₀
  | @tell h t now f signal next run hle hstep ih =>
      obtain ⟨hlen, hruns⟩ := ih
      obtain ⟨k, wk, nw, haddr, hwk, hnw, rfl⟩ := step_worker hstep
      refine ⟨List.length_set.trans hlen, ?_⟩
      intro i w hw
      by_cases hk : k = i
      · subst hk
        -- the step is this worker's own
        obtain ⟨t', ht', hrun⟩ := hruns k wk hwk
        obtain ⟨hlt, -⟩ := List.getElem?_eq_some_iff.mp hwk
        have hstate : w = nw.state := by
          have hget : (f.workers.set k nw.state)[k]? = some nw.state :=
            List.getElem?_set_self hlt
          exact Option.some.inj (hw.symm.trans hget)
        rw [share_snoc_mine haddr, hstate]
        exact ⟨now, Nat.le_refl _, hrun.tell (Nat.le_trans ht' hle) hnw⟩
      -- the step is another worker's, and this one sees nothing of it
      · have hother : addressee? signal ≠ some i := fun heq =>
          hk (Option.some.inj (haddr.symm.trans heq))
        have hget : f.workers[i]? = some w := by
          rw [← hw]
          exact (List.getElem?_set_ne hk).symm
        obtain ⟨t', ht', hrun⟩ := hruns i w hget
        rw [share_snoc_other hother]
        exact ⟨t', Nat.le_trans ht' hle, hrun⟩

/-- An answer is for the worker that has asked. -/
theorem addressee_of_answers {ask : Ask} (hans : Answers now ask signal)
    (hmine : ask.worker? = some i) : addressee? signal = some i := by
  cases hans with
  | opened => exact hmine
  | refused => exact hmine
  | broke => exact hmine
  | worked => exact hmine
  | crashed => exact hmine
  | rested hover => exact hmine
  | ticked hdue => exact nomatch hmine
  | missed hend => exact nomatch hmine
  | lapsed hend => exact nomatch hmine
  | closed => exact hmine
  | jammed => exact hmine

/-- A fan-out takes just the answers to what its workers wait for, whichever
    comes first. -/
theorem takes_iff (run : Run (machine name c n) t₀ h now f) {later : Instant} :
    (∃ next, f.step name later signal = some next) ↔
      ∃ i w, f.workers[i]? = some w ∧ ∃ ask ∈ Worker.pending i w, Answers later ask signal := by
  constructor
  · rintro ⟨next, hstep⟩
    obtain ⟨i, w, nw, -, hw, hnw, -⟩ := step_worker hstep
    exact ⟨i, w, hw, Worker.takes_iff.mp ⟨nw, hnw⟩⟩
  · rintro ⟨i, w, hw, ask, hask, hans⟩
    obtain ⟨t', -, hrun⟩ := (share_run run).2 i w hw
    -- a worker waits for its own sake, so the answer is handed to it
    have hmine := (Worker.track_of_run hrun).pending_own ask hask
    obtain ⟨nw, hnw⟩ := (@Worker.takes_iff name i later w signal).mpr ⟨ask, hask, hans⟩
    refine ⟨nw.map fun w => { f with workers := f.workers.set i w }, ?_⟩
    rw [step, addressee_of_answers hans hmine, Option.bind_eq_bind, Option.bind_some, hw,
      Option.bind_eq_bind, Option.bind_some, hnw]
    rfl

/-! ## The moments of a fan-out -/

/-- A moment whose signal, if any, is for one of the workers, and which asks for
    nothing on behalf of the others. -/
def Tidy (n : Nat) (b : Beat) : Prop :=
  ∀ signal, b.told = some signal →
    ∃ i < n, addressee? signal = some i ∧ ∀ ask ∈ b.asks, ask.worker? = some i

/-- Every moment of a fan-out is tidy. -/
theorem tidy_of_run (run : Run (machine name c n) t₀ h now f) : ∀ b ∈ h, Tidy n b := by
  induction run with
  | start =>
      intro b hb
      rw [List.mem_singleton.mp hb]
      exact fun signal htold => nomatch htold
  | @tell h t now f signal next run hle hstep ih =>
      intro b hb
      rcases List.mem_append.mp hb with hb | hb
      · exact ih b hb
      · obtain ⟨hlen, hruns⟩ := share_run run
        obtain ⟨i, w, nw, haddr, hw, hnw, rfl⟩ := step_worker hstep
        obtain ⟨t', -, hrun⟩ := hruns i w hw
        obtain ⟨hlt, -⟩ := List.getElem?_eq_some_iff.mp hw
        rw [List.mem_singleton.mp hb]
        intro signal' htold
        cases htold
        refine ⟨i, hlen ▸ hlt, haddr, ?_⟩
        intro ask hask
        refine ((Worker.track_of_run hrun).tell hnw).own ask ?_
        rw [flatMap_snoc]
        exact List.mem_append_right _ hask

/-- Each worker's opening is asked for once, at the start. -/
theorem openings_of_run (run : Run (machine name c n) t₀ h now f) :
    h.flatMap Beat.openings = List.range n := by
  induction run with
  | start =>
      rw [List.flatMap_singleton]
      show ((List.range n).map Ask.opening).filterMap Ask.opening? = List.range n
      rw [List.filterMap_map]
      exact List.filterMap_some
  | tell run hle hstep ih =>
      obtain ⟨i, w, nw, -, -, hnw, rfl⟩ := step_worker hstep
      rw [flatMap_snoc, ih]
      exact (congrArg _ (Worker.step_openings hnw)).trans (List.append_nil _)

/-- Every cycle of work begins before the deadline. -/
theorem timely_of_run (run : Run (machine name c n) t₀ h now f) :
    ∀ b ∈ h, b.workings ≠ [] → b.time < deadlineAfter t₀ c.duration := by
  induction run with
  | start =>
      intro b hb hbusy
      rw [List.mem_singleton.mp hb] at hbusy
      exact absurd (start_workings n) hbusy
  | tell run hle hstep ih =>
      intro b hb hbusy
      rcases List.mem_append.mp hb with hb | hb
      · exact ih b hb hbusy
      · obtain ⟨i, w, nw, -, hw, hnw, rfl⟩ := step_worker hstep
        obtain ⟨t', -, hrun⟩ := (share_run run).2 i w hw
        rw [List.mem_singleton.mp hb] at hbusy ⊢
        exact (Worker.track_of_run hrun).timely hnw hbusy

/-! ## Shares and the whole -/

/-- What the moments for a worker tell is what all moments tell about it. -/
theorem share_told {β : Type} (seen : Signal → Option β) (owner : β → Nat)
    (howner : ∀ signal x, seen signal = some x → addressee? signal = some (owner x))
    (i : Nat) (h : List Beat) :
    (share i h).flatMap (fun b => (b.told.bind seen).toList) =
      (h.flatMap fun b => (b.told.bind seen).toList).filter fun x => owner x = i := by
  induction h with
  | nil => rfl
  | cons b h ih =>
      rw [List.flatMap_cons, List.filter_append, ← ih]
      cases htold : b.told with
      | none =>
          rw [share, List.filterMap_cons_some (of_start htold), List.flatMap_cons]
          show (Option.bind b.told seen).toList ++ _ = _
          rw [htold]
          rfl
      | some signal =>
          by_cases haddr : addressee? signal = some i
          · rw [share, List.filterMap_cons_some (of_mine htold haddr), List.flatMap_cons, htold]
            refine congrArg (· ++ _) (List.filter_eq_self.mpr ?_).symm
            intro x hx
            have hsome := howner signal x (Option.mem_toList.mp hx)
            exact decide_eq_true (Option.some.inj (hsome.symm.trans haddr))
          -- what is told about another worker belongs to that one
          · have hnone : ((some signal).bind seen).toList.filter (fun x => owner x = i) = [] := by
              refine List.filter_eq_nil_iff.mpr ?_
              intro x hx howns
              have hsome := howner signal x (Option.mem_toList.mp hx)
              exact haddr (hsome.trans (congrArg some (of_decide_eq_true howns)))
            rw [share, List.filterMap_cons_none (of_other htold haddr), hnone]
            rfl

/-- The moments for a worker hold all that is asked for on its behalf. -/
theorem share_asks (htidy : ∀ b ∈ h, Tidy n b) (i : Nat) :
    (share i h).flatMap Beat.asks = asksFor i h := by
  induction h with
  | nil => rfl
  | cons b h ih =>
      have hrest := ih fun b' hb' => htidy b' (List.mem_cons_of_mem b hb')
      rw [asksFor, List.flatMap_cons, List.filter_append, ← asksFor, ← hrest]
      cases htold : b.told with
      | none =>
          rw [share, List.filterMap_cons_some (of_start htold), List.flatMap_cons]
          rfl
      | some signal =>
          obtain ⟨k, -, haddr, hown⟩ := htidy b List.mem_cons_self signal htold
          by_cases hk : k = i
          · rw [share, List.filterMap_cons_some (of_mine htold (hk ▸ haddr)), List.flatMap_cons]
            refine congrArg (· ++ _) (List.filter_eq_self.mpr ?_).symm
            intro ask hask
            exact decide_eq_true (hk ▸ hown ask hask)
          · have hother : addressee? signal ≠ some i := fun heq =>
              hk (Option.some.inj (haddr.symm.trans heq))
            have hnone : b.asks.filter (fun ask => ask.worker? = some i) = [] := by
              refine List.filter_eq_nil_iff.mpr ?_
              intro ask hask hmine
              exact hk (Option.some.inj ((hown ask hask).symm.trans (of_decide_eq_true hmine)))
            rw [share, List.filterMap_cons_none (of_other htold hother), hnone]
            rfl

/-! ## The account -/

/-- What a change of one worker adds to a sum over all. -/
theorem sum_map_set {count : Worker → Nat} {w w' : Worker} {d : Nat}
    (hcount : count w' = count w + d) :
    ∀ {ws : List Worker} {i : Nat}, ws[i]? = some w →
      ((ws.set i w').map count).sum = (ws.map count).sum + d := by
  intro ws
  induction ws with
  | nil => intro i hw; exact nomatch hw
  | cons first rest ih =>
      intro i hw
      cases i with
      | zero =>
          cases Option.some.inj hw
          show count w' + (rest.map count).sum = count w + (rest.map count).sum + d
          rw [hcount]
          omega
      | succ i =>
          show count first + ((rest.set i w').map count).sum =
            count first + (rest.map count).sum + d
          rw [ih hw]
          omega

/-- The counters of the workers add up to what all moments have brought, if no worker breaks off
    and takes its cycles with it. -/
theorem totals (run : Run (machine name c n) t₀ h now f) :
    (h.flatMap Beat.lost = [] →
      (f.workers.map Worker.cycles).sum = (h.flatMap Beat.workings).length ∧
      (f.workers.map Worker.errors).sum = (h.flatMap Beat.worked).countP Prod.snd) ∧
      (f.workers.map Worker.failures).sum =
        (h.flatMap Beat.unopened).length + (h.flatMap Beat.lost).length := by
  induction run with
  | start =>
      refine ⟨fun _ => ⟨?_, ?_⟩, ?_⟩
      · show ((List.replicate n _).map Worker.cycles).sum =
          ([(start c n t₀).beat t₀ none].flatMap Beat.workings).length
        rw [List.flatMap_singleton, start_workings, List.map_replicate, List.sum_replicate]
        exact Nat.mul_zero n
      · show ((List.replicate n _).map Worker.errors).sum = 0
        rw [List.map_replicate, List.sum_replicate]
        exact Nat.mul_zero n
      · show ((List.replicate n _).map Worker.failures).sum = 0
        rw [List.map_replicate, List.sum_replicate]
        exact Nat.mul_zero n
  | tell run hle hstep ih =>
      obtain ⟨i, w, nw, -, hw, hnw, rfl⟩ := step_worker hstep
      obtain ⟨hkept, hfailures⟩ := Worker.step_counts hnw
      obtain ⟨ihkept, ihfailures⟩ := ih
      refine ⟨fun hlost => ?_, ?_⟩
      · rw [flatMap_snoc] at hlost
        obtain ⟨hbefore, hnow⟩ := List.append_eq_nil_iff.mp hlost
        obtain ⟨hcycles, herrors⟩ := hkept (Option.toList_eq_nil_iff.mp hnow)
        obtain ⟨ihcycles, iherrors⟩ := ihkept hbefore
        refine ⟨?_, ?_⟩
        · rw [flatMap_snoc, List.length_append, ← ihcycles]
          exact sum_map_set hcycles hw
        · rw [flatMap_snoc, List.countP_append, ← iherrors]
          exact sum_map_set herrors hw
      · rw [flatMap_snoc, flatMap_snoc, List.length_append, List.length_append,
          Nat.add_add_add_comm, ← ihfailures]
        rw [Nat.add_assoc] at hfailures
        exact sum_map_set hfailures hw

/-- The tally of workers that are over is the sum of their counters. -/
theorem foldl_tally :
    ∀ {ws : List Worker}, (∀ w ∈ ws, w.isOver = true) → ∀ r : FanOutReport,
      ws.foldl tally r =
        ⟨r.workers, r.setupFailures + (ws.map Worker.failures).sum,
          r.cycles + (ws.map Worker.cycles).sum, r.errors + (ws.map Worker.errors).sum⟩ := by
  intro ws
  induction ws with
  | nil => intro _ r; rfl
  | cons w ws ih =>
      intro hover r
      have hrest := ih fun w' hw' => hover w' (List.mem_cons_of_mem w hw')
      rw [List.foldl_cons, hrest, List.map_cons, List.map_cons, List.map_cons, List.sum_cons,
        List.sum_cons, List.sum_cons]
      cases w with
      | done report =>
          simp only [tally, Worker.failures, Worker.cycles, Worker.errors, Nat.zero_add,
            Nat.add_assoc]
      | failed | broken =>
          simp only [tally, Worker.failures, Worker.cycles, Worker.errors, Nat.zero_add,
            Nat.add_assoc]
      | _ => exact nomatch hover _ List.mem_cons_self

/-- A fan-out reports when all its workers are over. -/
theorem report_spec {report : FanOutReport} (hreport : f.report? = some report) :
    (∀ w ∈ f.workers, w.isOver = true) ∧
      report = ⟨f.workers.length, (f.workers.map Worker.failures).sum,
        (f.workers.map Worker.cycles).sum, (f.workers.map Worker.errors).sum⟩ := by
  obtain ⟨hall, htally⟩ := Option.ite_none_right_eq_some.mp hreport
  have hover := List.all_eq_true.mp hall
  refine ⟨hover, ?_⟩
  rw [← Option.some.inj htally, foldl_tally hover, Nat.zero_add, Nat.zero_add, Nat.zero_add]

/-! ## The course of each worker -/

theorem addressee_opened (signal : Signal) (resource : Resource)
    (hseen : signal.opened? = some resource) : addressee? signal = some resource.worker := by
  cases signal with
  | opened resource' => cases hseen; rfl
  | _ => exact nomatch hseen

theorem addressee_closed (signal : Signal) (resource : Resource)
    (hseen : signal.closed? = some resource) : addressee? signal = some resource.worker := by
  cases signal with
  | closed resource' => cases hseen; rfl
  | _ => exact nomatch hseen

theorem addressee_unopened (signal : Signal) (worker : Nat)
    (hseen : signal.unopened? = some worker) : addressee? signal = some worker := by
  cases signal with
  | refused worker' cause => cases hseen; rfl
  | broke worker' => cases hseen; rfl
  | _ => exact nomatch hseen

theorem addressee_lost (signal : Signal) (worker : Nat)
    (hseen : signal.lost? = some worker) : addressee? signal = some worker := by
  cases signal with
  | crashed worker' => cases hseen; rfl
  | jammed resource => cases hseen; rfl
  | _ => exact nomatch hseen

theorem addressee_worked (signal : Signal) (cycle : Nat × Bool)
    (hseen : signal.worked? = some cycle) : addressee? signal = some cycle.1 := by
  cases signal with
  | worked worker failed => cases hseen; rfl
  | _ => exact nomatch hseen

/-- What is told concerns one of the workers. -/
theorem owner_lt {β : Type} {seen : Signal → Option β} {owner : β → Nat} (htidy : ∀ b ∈ h, Tidy n b)
    (howner : ∀ signal x, seen signal = some x → addressee? signal = some (owner x))
    {x : β} (hx : x ∈ h.flatMap fun b => (b.told.bind seen).toList) : owner x < n := by
  obtain ⟨b, hb, hx⟩ := List.mem_flatMap.mp hx
  obtain ⟨signal, htold, hseen⟩ := Option.bind_eq_some_iff.mp (Option.mem_toList.mp hx)
  obtain ⟨i, hi, haddr, -⟩ := htidy b hb signal htold
  rw [howner signal x hseen] at haddr
  exact Option.some.inj haddr ▸ hi

/-- Each worker is on its track. -/
theorem track_of_run (run : Run (machine name c n) t₀ h now f) (hi : i < n) :
    ∃ w ∈ f.workers, Worker.Track i (deadlineAfter t₀ c.duration) (share i h) w := by
  obtain ⟨hlen, hruns⟩ := share_run run
  have hlt : i < f.workers.length := hlen.symm ▸ hi
  obtain ⟨t', -, hrun⟩ := hruns i f.workers[i] (List.getElem?_eq_getElem hlt)
  exact ⟨_, List.getElem_mem hlt, Worker.track_of_run hrun⟩

/-- A worker that gets no resource asks for nothing more. -/
theorem unopened_idle (run : Run (machine name c n) t₀ h now f)
    (hfail : i ∈ h.flatMap Beat.unopened) : asksFor i h = [.opening i] := by
  have htidy := tidy_of_run run
  obtain ⟨w, -, track⟩ := track_of_run run (owner_lt htidy addressee_unopened hfail)
  have hshare : (share i h).flatMap Beat.unopened =
      (h.flatMap Beat.unopened).filter fun worker => worker = i :=
    share_told Signal.unopened? id addressee_unopened i h
  have hmem : i ∈ (share i h).flatMap Beat.unopened := by
    rw [hshare]
    exact List.mem_filter.mpr ⟨hfail, decide_eq_true rfl⟩
  rw [← share_asks htidy]
  exact track.of_unopened hmem

/-- The worker with a number breaks off in its own moments if it does in all. -/
theorem mem_share_lost (hlost : i ∈ (share i h).flatMap Beat.lost) : i ∈ h.flatMap Beat.lost := by
  have hshare : (share i h).flatMap Beat.lost =
      (h.flatMap Beat.lost).filter fun worker => worker = i :=
    share_told Signal.lost? id addressee_lost i h
  rw [hshare] at hlost
  exact List.mem_of_mem_filter hlost

/-- A worker uses the resource that it gets, and closes it before the report if it does not break
    off. -/
theorem opened_used (run : Run (machine name c n) t₀ h now f) {b : Beat} {resource : Resource}
    (hb : b ∈ h) (hgot : resource ∈ b.opened) :
    ∃ rests last, Worker.Use resource.worker (deadlineAfter t₀ c.duration)
      (asksFor resource.worker h)
      ((h.flatMap Beat.worked).filter fun cycle => cycle.1 = resource.worker).length
      resource b.time rests last ∧
      (f.report?.isSome = true → resource.worker ∉ h.flatMap Beat.lost →
        last = [.closing resource]) := by
  have htidy := tidy_of_run run
  have hmem : resource ∈ h.flatMap Beat.opened := List.mem_flatMap.mpr ⟨b, hb, hgot⟩
  obtain ⟨w, hw, track⟩ := track_of_run run (owner_lt htidy addressee_opened hmem)
  obtain ⟨signal, htold, hseen⟩ := Option.bind_eq_some_iff.mp (Option.mem_toList.mp hgot)
  have hshare : b ∈ share resource.worker h :=
    List.mem_filterMap.mpr ⟨b, hb, of_mine htold (addressee_opened signal resource hseen)⟩
  obtain ⟨rests, last, huse, hlast⟩ := track.of_opened hshare hgot
  have hworked : (share resource.worker h).flatMap Beat.worked =
      (h.flatMap Beat.worked).filter fun cycle => cycle.1 = resource.worker :=
    share_told Signal.worked? Prod.fst addressee_worked resource.worker h
  rw [share_asks htidy, hworked] at huse
  refine ⟨rests, last, huse, ?_⟩
  intro hsome hkept
  obtain ⟨report, hreport⟩ := Option.isSome_iff_exists.mp hsome
  exact hlast ((report_spec hreport).1 w hw) fun hlost => hkept (mem_share_lost hlost)

/-! ## The end of a fan-out -/

/-- How often an owner occurs. -/
theorem count_owner {β : Type} (owner : β → Nat) (l : List β) (i : Nat) :
    (l.map owner).count i = (l.filter fun x => owner x = i).length := by
  rw [List.count_eq_countP, List.countP_map, List.countP_eq_length_filter]
  rfl

/-- When all workers are over, each opening has been answered once, and what was
    opened has been closed once if no worker broke off. -/
theorem settled_of_over (run : Run (machine name c n) t₀ h now f)
    (hover : ∀ w ∈ f.workers, w.isOver = true) :
    (h.flatMap Beat.lost = [] → (h.flatMap Beat.closed).Perm (h.flatMap Beat.opened)) ∧
      ((h.flatMap Beat.opened).map Resource.worker ++ h.flatMap Beat.unopened).Perm
        (List.range n) := by
  have htidy := tidy_of_run run
  have hopened : ∀ i, (share i h).flatMap Beat.opened =
      (h.flatMap Beat.opened).filter fun resource => resource.worker = i :=
    fun i => share_told Signal.opened? Resource.worker addressee_opened i h
  have hclosed : ∀ i, (share i h).flatMap Beat.closed =
      (h.flatMap Beat.closed).filter fun resource => resource.worker = i :=
    fun i => share_told Signal.closed? Resource.worker addressee_closed i h
  have hunopened : ∀ i, (share i h).flatMap Beat.unopened =
      (h.flatMap Beat.unopened).filter fun worker => worker = i :=
    fun i => share_told Signal.unopened? id addressee_unopened i h
  -- both are counted worker by worker, in the shares
  refine ⟨fun hlost => List.perm_iff_count.mpr ?_, List.perm_iff_count.mpr ?_⟩
  · intro resource
    by_cases hlt : resource.worker < n
    · obtain ⟨w, hw, track⟩ := track_of_run run hlt
      have heq : (share resource.worker h).flatMap Beat.closed =
          (share resource.worker h).flatMap Beat.opened := by
        rcases track.of_over (hover w hw) with ⟨_, -, ho, -, hc⟩ | ⟨ho, -, hc⟩
        · rw [hc fun hmem => List.not_mem_nil (hlost ▸ mem_share_lost hmem), ho]
        · rw [hc, ho]
      have hkeep : ∀ l : List Resource,
          (l.filter fun other => other.worker = resource.worker).count resource =
            l.count resource := fun l => List.count_filter (decide_eq_true rfl)
      rw [← hkeep, ← hclosed, heq, hopened, hkeep]
    · have hnone : resource ∉ h.flatMap Beat.closed := fun hmem =>
        hlt (owner_lt htidy addressee_closed hmem)
      have hnone' : resource ∉ h.flatMap Beat.opened := fun hmem =>
        hlt (owner_lt htidy addressee_opened hmem)
      rw [List.count_eq_zero.mpr hnone, List.count_eq_zero.mpr hnone']
  · intro i
    have hunopened' : (h.flatMap Beat.unopened).count i =
        ((share i h).flatMap Beat.unopened).length := by
      rw [hunopened, ← List.countP_eq_length_filter]
      rfl
    rw [List.count_append, List.nodup_range.count, count_owner, ← hopened, hunopened']
    by_cases hlt : i < n
    · obtain ⟨w, hw, track⟩ := track_of_run run hlt
      rw [if_pos (List.mem_range.mpr hlt)]
      -- a worker that is over has got one resource or one refusal
      rcases track.of_over (hover w hw) with ⟨_, -, ho, hu, -⟩ | ⟨ho, hu, -⟩
      · rw [ho, hu]
        rfl
      · rw [ho, hu]
        rfl
    -- nothing is told about a number that no worker has
    · have hnone : (share i h).flatMap Beat.opened = [] := by
        rw [hopened]
        refine List.filter_eq_nil_iff.mpr ?_
        intro resource hmem howns
        exact hlt (of_decide_eq_true howns ▸ owner_lt htidy addressee_opened hmem)
      have hnone' : (share i h).flatMap Beat.unopened = [] := by
        rw [hunopened]
        refine List.filter_eq_nil_iff.mpr ?_
        intro worker hmem howns
        have hworker : worker < n := owner_lt htidy addressee_unopened hmem
        exact hlt (of_decide_eq_true howns ▸ hworker)
      rw [if_neg fun hmem => hlt (List.mem_range.mp hmem), hnone, hnone']
      rfl

/-- **A FAN-OUT JOINS ITS WORKERS.**  In every run each worker's opening is asked
    for once and cycles begin before the one deadline only; a worker without a
    resource asks for nothing more, and one with a resource runs its cycles and
    then closes it, at once if it came too late.  The report comes when each
    opening has been answered and what was opened has been closed, once each,
    and it is the exact account.

    A worker that breaks off with a cycle or with its closing leaves its resource
    open and counts as one without a resource; no other worker notices. -/
theorem fan_out_joins (run : Run (machine name c n) t₀ h now f) :
    h.flatMap Beat.openings = List.range n ∧
      (∀ b ∈ h, b.workings ≠ [] → b.time < deadlineAfter t₀ c.duration) ∧
      (∀ i ∈ h.flatMap Beat.unopened, asksFor i h = [.opening i]) ∧
      (∀ b ∈ h, ∀ resource ∈ b.opened,
        ∃ rests last, Worker.Use resource.worker (deadlineAfter t₀ c.duration)
          (asksFor resource.worker h)
          ((h.flatMap Beat.worked).filter fun cycle => cycle.1 = resource.worker).length
          resource b.time rests last ∧
        (f.report?.isSome = true → resource.worker ∉ h.flatMap Beat.lost →
          last = [.closing resource])) ∧
      ∀ report, f.report? = some report →
        ((h.flatMap Beat.opened).map Resource.worker ++ h.flatMap Beat.unopened).Perm
            (List.range n) ∧
          report.workers = n ∧
          report.setupFailures = (h.flatMap Beat.unopened).length + (h.flatMap Beat.lost).length ∧
          (h.flatMap Beat.lost = [] →
            (h.flatMap Beat.closed).Perm (h.flatMap Beat.opened) ∧
            report = ⟨n, (h.flatMap Beat.unopened).length, (h.flatMap Beat.workings).length,
              (h.flatMap Beat.worked).countP Prod.snd⟩) := by
  refine ⟨openings_of_run run, timely_of_run run, fun i hfail => unopened_idle run hfail,
    fun b hb resource hgot => opened_used run hb hgot, ?_⟩
  intro report hreport
  obtain ⟨hover, haccount⟩ := report_spec hreport
  obtain ⟨hclosed, hanswered⟩ := settled_of_over run hover
  obtain ⟨hcounts, hfailures⟩ := totals run
  rw [(share_run run).1, hfailures] at haccount
  refine ⟨hanswered, by rw [haccount], by rw [haccount], fun hlost => ⟨hclosed hlost, ?_⟩⟩
  obtain ⟨hcycles, herrors⟩ := hcounts hlost
  rw [haccount, hcycles, herrors, hlost]
  rfl

/-- A run of three workers: one is refused, one gets its resource after the
    deadline, and one runs a cycle that fails and a cycle that outlasts the
    deadline. -/
theorem fan_out_joins_three :
    ∃ h now f, Run (machine "redis" ⟨Span.ofMillis 50, 0⟩ 3) 0 h now f ∧
      f.report? = some ⟨3, 1, 2, 1⟩ ∧ (h.flatMap Beat.closed).Perm (h.flatMap Beat.opened) := by
  have hrun := Run.of_play
    [(Span.ofMillis 1, .opened ⟨2, 4⟩), (Span.ofMillis 2, .refused 0 "connection refused"),
      (Span.ofMillis 20, .worked 2 true), (Span.ofMillis 21, .rested 2),
      (Span.ofMillis 60, .opened ⟨1, 5⟩), (Span.ofMillis 61, .worked 2 false),
      (Span.ofMillis 61, .closed ⟨1, 5⟩), (Span.ofMillis 62, .rested 2),
      (Span.ofMillis 63, .closed ⟨2, 4⟩)]
    (@Run.start _ (machine "redis" ⟨Span.ofMillis 50, 0⟩ 3) 0) rfl
  exact ⟨_, _, _, hrun, rfl, (((fan_out_joins hrun).2.2.2.2 _ rfl).2.2.2 rfl).1⟩

end FanOut

end Havoc.Load
