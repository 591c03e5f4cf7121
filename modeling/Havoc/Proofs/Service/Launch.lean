import Havoc.Proofs.Service.BackendOrder
import Havoc.Proofs.Service.Dispatch

/-! # What a launched job runs with

    The numbers of a job on a back end go two ways: into the parameters that its record keeps and
    its caller is told, and into the call of the driver.  Counts arrive at both ends as they are.
    So do seconds on a connection or with many workers; a ramp takes its seconds with a sign,
    and those from 2 ^ 63 on as none.

    The route: `DriverCall` is what the driver is called with, and `Desk.Echoes` are the documents
    that tell of a job.  The parameters of a job show its numbers (`shownIn_params`), and every
    echo has the parameters (`Desk.Echoes.get?_eq`).  A launched job calls the driver with
    `BackendJob.call` (`call?_of_starts`), and the main theorem
    `launched_jobs_run_as_told` says when that is what an echo tells. -/

namespace Havoc.Service

open Havoc.Json Havoc.Backend

/-! ## Calls of the driver -/

/-- What the driver is called with: two spans, and the counts that its shape has. -/
structure DriverCall where
  duration : Span
  interval : Span
  connections : Option Nat := none
  increase : Option Nat := none
  deriving DecidableEq, Repr

/-- The call of the driver that some work begins with. -/
def Work.call? : Work → Option DriverCall
  | .drive _ cadence _ => some { duration := cadence.duration, interval := cadence.interval }
  | .fanOut cadence workers _ =>
    some { duration := cadence.duration, interval := cadence.interval, connections := some workers }
  | .rampUp plan _ =>
    some { duration := plan.duration, interval := plan.interval, connections := some plan.target
           increase := some plan.increase }
  | .wait _ | .keepMemory .. | .repeats .. => none

/-- A task that starts when an answer is seen to, on whatever resource it is given. -/
inductive Answer.Starts : Answer → Task → Prop where
  | job {order : Option Fault.Order} {task : Task} : Starts (.job order task) task
  | connect {kind : Kind} {workload : Workload} {task : Load.Resource → Task}
      {resource : Load.Resource} : Starts (.connect kind workload task) (task resource)

/-! ## Echoes -/

/-- A document tells a span as a number of seconds. -/
def TellsSpan (doc : Value) (name : String) (span : Span) : Prop :=
  ∃ n, doc.get? name = some (.nat n) ∧ span = Span.ofSeconds n

/-- A document tells what the driver is called with. -/
structure TellsCall (doc : Value) (call : DriverCall) : Prop where
  duration : TellsSpan doc "maintain_second" call.duration
  interval : TellsSpan doc "interval_second" call.interval
  connections : ∀ n, call.connections = some n → doc.get? "connection_counts" = some (.nat n)
  increase : ∀ n, call.increase = some n → doc.get? "increase_per_interval" = some (.nat n)

/-- The documents that tell of the job of a dispatch: the parameters on record, and the reply. -/
inductive Desk.Echoes (s : Desk) (d : Dispatch) : Value → Prop where
  | record {r : Job.Record} : r ∈ s.ledger.table.records → r.id = d.id → Echoes s d r.params
  | reply {doc : Value} : d.reply = some (.ok (.document doc)) → s.Echoes d doc

variable {s : Desk} {d : Dispatch} {doc : Value} {job : BackendJob} {kind : Kind}
  {workload : Workload} {task : Task} {name : String} {span : Span} {n : Nat}

/-- The reply to a caller has the parameters of the job. -/
theorem Desk.Answered.get?_eq (h : Desk.Answered d (.ok (.document doc))) (hjob : name ≠ "job_id")
    (hmessage : name ≠ "message") (hreport : name ≠ "report") :
    doc.get? name = (Value.ofMembers d.activity.task.params).get? name := by
  rw [Desk.Answered] at h
  split at h
  · obtain ⟨doc', heq, htells⟩ := h
    cases heq
    exact htells.params name hjob hmessage hreport
  · obtain ⟨m, -, h⟩ := h
    split at h
    · obtain ⟨doc', heq, htells⟩ := h
      cases heq
      exact htells.params name hjob hmessage hreport
    · obtain ⟨problem, heq, -⟩ := h
      cases heq

/-- Whatever tells of a job has its parameters. -/
theorem Desk.Echoes.get?_eq (reach : s.Reachable) (hd : d ∈ s.dispatches) (h : s.Echoes d doc)
    (hjob : name ≠ "job_id") (hmessage : name ≠ "message") (hreport : name ≠ "report") :
    doc.get? name = (Value.ofMembers d.activity.task.params).get? name := by
  have sound := Desk.sound_of_reachable reach
  cases h with
  | record hr hid =>
      obtain ⟨d', hd', rfl⟩ := sound.owner hr
      rw [d'.record_id] at hid
      obtain rfl := List.inj_on_of_nodup_map sound.ids hd' hd hid
      rw [(Desk.coherent_record d').2]
  | reply hreply =>
      exact Desk.Answered.get?_eq (sound.answered hd hreply) hjob hmessage hreport

theorem tellsSpan_iff (h : doc.get? name = some (.nat n)) :
    TellsSpan doc name span ↔ span = Span.ofSeconds n := by
  constructor
  · rintro ⟨m, hm, hspan⟩
    rw [h] at hm
    cases hm
    exact hspan
  · exact fun hspan => ⟨n, h, hspan⟩

/-! ## The numbers of a job -/

namespace BackendJob

/-- The document shows the numbers that the operation of a job uses for the driver. -/
structure ShownIn (job : BackendJob) (doc : Value) : Prop where
  maintain : doc.get? "maintain_second" = some (.nat job.maintain)
  interval : doc.get? "interval_second" = some (.nat job.interval)
  connections : job.operation ≠ .heavy → doc.get? "connection_counts" = some (.nat job.connections)
  increase : job.operation = .connection →
    doc.get? "increase_per_interval" = some (.nat job.increase)

theorem perIntervalName_eq (kind : Kind) : perIntervalName kind = "produce_per_interval" ∨
    perIntervalName kind = "query_per_interval" := by
  cases kind with
  | kafka => exact .inl rfl
  | redis => exact .inr rfl
  | sql engine => exact .inr rfl

theorem shownIn_params (job : BackendJob) (kind : Kind) :
    job.ShownIn (Value.ofMembers (job.params kind)) := by
  obtain ⟨operation, maintain, interval, perInterval, connections, increase, mode⟩ := job
  cases operation with
  | heavy =>
      rw [params]
      rcases perIntervalName_eq kind with hname | hname <;> rw [hname]
      · exact ⟨rfl, rfl, fun hne => absurd rfl hne, nofun⟩
      · exact ⟨rfl, rfl, fun hne => absurd rfl hne, nofun⟩
  | multiHeavy =>
      rw [params]
      rcases perIntervalName_eq kind with hname | hname <;> rw [hname]
      · exact ⟨rfl, rfl, fun _ => rfl, nofun⟩
      · exact ⟨rfl, rfl, fun _ => rfl, nofun⟩
  | connection => exact ⟨rfl, rfl, fun _ => rfl, fun _ => rfl⟩

/-- How long a number of seconds is for a job.  A ramp takes it for a number of 64 bits with a
    sign, and a negative one for no time. -/
def spanOf (job : BackendJob) (n : Nat) : Span :=
  if job.operation = .connection ∧ 2 ^ 63 ≤ n then 0 else Span.ofSeconds n

/-- What the driver is called with for a job. -/
def call (job : BackendJob) : DriverCall :=
  { duration := job.spanOf job.maintain, interval := job.spanOf job.interval
    connections := if job.operation = .heavy then none else some job.connections
    increase := if job.operation = .connection then some job.increase else none }

/-- Some seconds of a ramp are taken for a negative number. -/
def Overflows (job : BackendJob) : Prop :=
  job.operation = .connection ∧ (2 ^ 63 ≤ job.maintain ∨ 2 ^ 63 ≤ job.interval)

theorem spanOf_eq_iff : job.spanOf n = Span.ofSeconds n ↔
    ¬ (job.operation = .connection ∧ 2 ^ 63 ≤ n) := by
  rw [spanOf]
  split
  · next hover =>
      refine iff_of_false (fun heq => ?_) (not_not_intro hover)
      have hpos : 0 < Span.ofSeconds n :=
        Nat.mul_pos (Nat.lt_of_lt_of_le (by decide) hover.2) (by decide)
      exact Nat.ne_of_lt hpos heq
  · next hfits => exact iff_of_true rfl hfits

/-- A document with the numbers of a job tells what the driver is called with, unless some
    seconds are taken for a negative number. -/
theorem ShownIn.tellsCall_iff (h : job.ShownIn doc) : TellsCall doc job.call ↔ ¬ job.Overflows := by
  have hmaintain : TellsSpan doc "maintain_second" job.call.duration ↔
      ¬ (job.operation = .connection ∧ 2 ^ 63 ≤ job.maintain) :=
    (tellsSpan_iff h.maintain).trans spanOf_eq_iff
  have hinterval : TellsSpan doc "interval_second" job.call.interval ↔
      ¬ (job.operation = .connection ∧ 2 ^ 63 ≤ job.interval) :=
    (tellsSpan_iff h.interval).trans spanOf_eq_iff
  constructor
  · rintro ⟨hd, hi, -, -⟩ ⟨hconnection, hlong | hlong⟩
    · exact hmaintain.mp hd ⟨hconnection, hlong⟩
    · exact hinterval.mp hi ⟨hconnection, hlong⟩
  · intro hfits
    refine ⟨hmaintain.mpr fun hover => ?_, hinterval.mpr fun hover => ?_, ?_, ?_⟩
    · exact hfits ⟨hover.1, .inl hover.2⟩
    · exact hfits ⟨hover.1, .inr hover.2⟩
    · intro m hm
      by_cases hheavy : job.operation = .heavy
      · rw [call, if_pos hheavy] at hm
        exact nomatch hm
      · rw [call, if_neg hheavy] at hm
        rw [← Option.some.inj hm]
        exact h.connections hheavy
    · intro m hm
      by_cases hconnection : job.operation = .connection
      · rw [call, if_pos hconnection] at hm
        rw [← Option.some.inj hm]
        exact h.increase hconnection
      · rw [call, if_neg hconnection] at hm
        exact nomatch hm

end BackendJob

/-! ## Launched jobs -/

/-- Whatever tells of a job shows its numbers. -/
theorem Desk.Echoes.shownIn (reach : s.Reachable) (hd : d ∈ s.dispatches) (h : s.Echoes d doc)
    (hparams : d.activity.task.params = job.params kind) : job.ShownIn doc := by
  have hget : ∀ {name : String}, name ≠ "job_id" → name ≠ "message" → name ≠ "report" →
      doc.get? name = (Value.ofMembers (job.params kind)).get? name := by
    intro name hjob hmessage hreport
    rw [h.get?_eq reach hd hjob hmessage hreport, hparams]
  obtain ⟨hmaintain, hinterval, hconnections, hincrease⟩ := job.shownIn_params kind
  refine ⟨?_, ?_, fun hne => ?_, fun heq => ?_⟩
  · rw [hget (by decide) (by decide) (by decide), hmaintain]
  · rw [hget (by decide) (by decide) (by decide), hinterval]
  · rw [hget (by decide) (by decide) (by decide), hconnections hne]
  · rw [hget (by decide) (by decide) (by decide), hincrease heq]

theorem starts_launch (job : BackendJob) (kind : Kind) (workload : Workload) :
    ∃ task, (job.launch kind workload).Starts task := by
  rw [BackendJob.launch]
  split
  · exact ⟨_, @Answer.Starts.connect _ _ _ ⟨0, 0⟩⟩
  · exact ⟨_, .job⟩
  · exact ⟨_, .job⟩

/-- A launched job has its own parameters and calls the driver with its numbers. -/
theorem call?_of_starts (hmaintain : job.maintain < 2 ^ 64) (hinterval : job.interval < 2 ^ 64)
    (h : (job.launch kind workload).Starts task) :
    task.params = job.params kind ∧ task.work.call? = some job.call := by
  have hspan : job.operation ≠ .connection → ∀ n, job.spanOf n = Span.ofSeconds n :=
    fun hne n => if_neg fun hover => hne hover.1
  rw [BackendJob.launch] at h
  split at h
  · next hheavy =>
      cases h
      refine ⟨rfl, ?_⟩
      rw [BackendJob.call, hspan (by rw [hheavy]; nofun), hspan (by rw [hheavy]; nofun), hheavy]
      rfl
  · next hmulti =>
      cases h
      refine ⟨rfl, ?_⟩
      rw [BackendJob.call, hspan (by rw [hmulti]; nofun), hspan (by rw [hmulti]; nofun), hmulti]
      rfl
  · next hconnection =>
      cases h
      refine ⟨rfl, ?_⟩
      have hsigned : ∀ n, n < 2 ^ 64 → BackendJob.signedSeconds n = job.spanOf n := by
        intro n hn
        rw [BackendJob.signedSeconds_eq hn, BackendJob.spanOf, hconnection]
        simp only [true_and]
      show some (DriverCall.mk (BackendJob.signedSeconds job.maintain)
        (BackendJob.signedSeconds job.interval) (some job.connections) (some job.increase)) = _
      rw [hsigned _ hmaintain, hsigned _ hinterval, BackendJob.call, hconnection]
      rfl

/-- A job whose caller does not wait can be on record with its reply out. -/
theorem exists_replied {a : Activity} (hmode : a.task.mode = .async) :
    ∃ (s : Desk) (d : Dispatch), s.Reachable ∧ d ∈ s.dispatches ∧ d.activity = a ∧
      d.reply = some (.ok (.document (a.told "started" []))) := by
  obtain ⟨s₁, h₁, hd₁⟩ : ∃ s : Desk, s.Reachable ∧ ⟨a, ⟨0, 0⟩, .entered, none⟩ ∈ s.dispatches :=
    ⟨_, Desk.Reachable.empty.step (.enter ⟨0, 0⟩
      ((Desk.sound_of_reachable .empty).fresh (List.forall_mem_nil _))), List.mem_cons_self⟩
  obtain ⟨s₂, h₂, hd₂⟩ : ∃ s : Desk, s.Reachable ∧ ⟨a, ⟨0, 0⟩, .working, none⟩ ∈ s.dispatches :=
    ⟨_, h₁.step (.begin hd₁ rfl), List.mem_map.mpr ⟨_, hd₁, if_pos rfl⟩⟩
  have hdue : Dispatch.due? ⟨a, ⟨0, 0⟩, .working, none⟩ = some a.started :=
    Dispatch.due?_async hmode Progress.noConfusion
  exact ⟨_, _, h₂.step (.reply hd₂ rfl), List.mem_map.mpr ⟨_, hd₂, if_pos rfl⟩, rfl, hdue⟩

/-- **LAUNCHED JOBS RUN AS TOLD, UNLESS THEIR SECONDS OVERFLOW.**  A job on a back end that is
    launched starts with a call of the driver.  Its record and every reply about it show its
    numbers, whatever else the service does.  What they show is what the driver is called with
    just if no seconds of a ramp are from 2 ^ 63 on; those are run as none (`BackendJob.call`),
    while its other numbers are kept. -/
theorem launched_jobs_run_as_told (reach : s.Reachable) (hmaintain : job.maintain < 2 ^ 64)
    (hinterval : job.interval < 2 ^ 64) (kind : Kind) (workload : Workload) :
    (∃ task, (job.launch kind workload).Starts task) ∧
    ∀ d ∈ s.dispatches, (job.launch kind workload).Starts d.activity.task →
      d.activity.task.work.call? = some job.call ∧
      ∀ doc, s.Echoes d doc →
        job.ShownIn doc ∧ (TellsCall doc job.call ↔ ¬ job.Overflows) := by
  refine ⟨starts_launch job kind workload, fun d hd hstarts => ?_⟩
  obtain ⟨hparams, hcall⟩ := call?_of_starts hmaintain hinterval hstarts
  refine ⟨hcall, fun doc hecho => ?_⟩
  have hshown := hecho.shownIn reach hd hparams
  exact ⟨hshown, hshown.tellsCall_iff⟩

/-- Many workers run for the greatest number of seconds that can be asked for. -/
theorem launched_jobs_run_as_told_longest :
    ∃ (s : Desk) (d : Dispatch) (doc : Value),
      let call : DriverCall :=
        { duration := Span.ofSeconds (2 ^ 64 - 1), interval := Span.ofSeconds (2 ^ 63)
          connections := some 3 }
      s.Reachable ∧ d ∈ s.dispatches ∧ d.reply = some (.ok (.document doc)) ∧
        d.activity.task.work.call? = some call ∧ TellsCall doc call := by
  let job : BackendJob := ⟨.multiHeavy, 2 ^ 64 - 1, 2 ^ 63, 5, 3, 0, .async⟩
  obtain ⟨s, d, reach, hd, hactivity, hreply⟩ :=
    @exists_replied ⟨0, ⟨0⟩, job.task .kafka (.fanOut job.cadence 3 .scripted), none⟩ rfl
  have hstarts : (job.launch .kafka .scripted).Starts d.activity.task := by
    rw [hactivity]
    exact .job
  obtain ⟨hcall, htold⟩ :=
    (launched_jobs_run_as_told reach (by decide) (by decide) .kafka .scripted).2 d hd hstarts
  exact ⟨s, d, _, reach, hd, hreply, hcall, (htold _ (.reply hreply)).2.mpr nofun⟩

/-- **A long ramp is over at once.**  A ramp that tells its caller of 2 ^ 63 seconds is run for
    none. -/
theorem long_ramp_is_over_at_once :
    ∃ (job : BackendJob) (s : Desk) (d : Dispatch) (doc : Value) (call : DriverCall),
      job.maintain = 2 ^ 63 ∧ s.Reachable ∧ d ∈ s.dispatches ∧
        (job.launch .redis .scripted).Starts d.activity.task ∧
        d.activity.task.work.call? = some call ∧ d.reply = some (.ok (.document doc)) ∧
        doc.get? "maintain_second" = some (.nat (2 ^ 63)) ∧ call.duration = 0 ∧
        ¬ TellsCall doc call := by
  let job : BackendJob := ⟨.connection, 2 ^ 63, 1, 0, 1, 1, .async⟩
  obtain ⟨s, d, reach, hd, hactivity, hreply⟩ :=
    @exists_replied ⟨0, ⟨0⟩, job.task .redis (.rampUp job.plan .scripted), none⟩ rfl
  have hparams : d.activity.task.params = job.params .redis := by
    rw [hactivity]
    rfl
  have hshown : job.ShownIn _ := (Desk.Echoes.reply hreply).shownIn reach hd hparams
  refine ⟨job, s, d, _, job.call, rfl, reach, hd, ?_, ?_, hreply, hshown.maintain, rfl, ?_⟩
  · rw [hactivity]
    exact .job
  · rw [hactivity]
    decide
  · intro htells
    exact hshown.tellsCall_iff.mp htells ⟨rfl, .inl (Nat.le_refl _)⟩

end Havoc.Service
