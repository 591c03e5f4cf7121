import Havoc.Proofs.Service.Dispatch
import Havoc.Proofs.Service.Rejection

/-! # Callers who go away

    The work of a job whose caller waits is done for that caller: if he goes away,
    what is done inline for him is dropped where it is.  Workers that the job has sent
    out would go on by themselves until their deadline, but no one is left to put the
    end of the job on record; they are not followed.  A job whose caller does not wait
    goes on.

    The route: a `Room` is a desk with the jobs whose callers went away, which take
    no further step (`Room.Step`).  What is known of them lasts (`Room.Kept`): their
    records say that they run, for good, and the metrics count them.  So the records
    that say so and the gauge tell of the work that goes on just if no caller ever
    went away.  The main theorem is `running_or_dropped`, and
    `disconnect_leaves_phantom` is a run of the service. -/

namespace Havoc.Service

open Havoc.Json

/-- Whether the work of a dispatch goes on. -/
def Progress.isWorking : Progress → Bool
  | .working => true
  | .entered | .ended _ | .marked _ | .noted _ | .finished _ => false

theorem Progress.isWorking_iff {p : Progress} : p.isWorking = true ↔ p = .working := by
  cases p <;> simp [isWorking]

/-- A desk with the jobs whose callers went away while their work went on. -/
structure Room where
  desk : Desk := {}
  dropped : List Job.Id := []

namespace Room

variable {r r' : Room} {d : Dispatch}

/-- The steps of all dispatches and callers.  A dispatch whose caller went away is
    never touched again. -/
inductive Step (r : Room) : Room → Prop where
  | desk {t : Desk} :
      Desk.Step r.desk t → (∀ d ∈ r.desk.dispatches, d.id ∈ r.dropped → d ∈ t.dispatches) →
      Step r { r with desk := t }
  | drop {d : Dispatch} :
      d ∈ r.desk.dispatches → d.activity.task.mode = .sync → d.progress = .working →
      d.id ∉ r.dropped → Step r { r with dropped := d.id :: r.dropped }

/-- The rooms that any interleaving of dispatches and callers leads to. -/
inductive Reachable : Room → Prop where
  | empty : Reachable {}
  | step {r r' : Room} : Reachable r → Step r r' → Reachable r'

/-- The dispatches whose work goes on and has not been dropped. -/
def executing (r : Room) : List Dispatch :=
  (r.desk.dispatches.filter fun d => d.progress.isWorking).filter fun d => d.id ∉ r.dropped

/-- No dispatch is in the middle of its start or its finish. -/
def Rest (r : Room) : Prop :=
  ∀ d ∈ r.desk.dispatches, d.progress.isWorking = true ∨ d.progress.isFinished = true

/-- Only work that goes on is on record as running, and the gauge counts just that. -/
def NoPhantom (r : Room) : Prop :=
  (∀ record ∈ r.desk.ledger.table.records, record.status = .running →
    record.id ∈ r.executing.map Dispatch.id) ∧
  r.desk.registry.jobsActive = r.executing.length

/-- What is known of a room and its dropped jobs. -/
structure Kept (r : Room) : Prop where
  desk : r.desk.Reachable
  dropped : ∀ id ∈ r.dropped, ∃ d ∈ r.desk.dispatches, d.id = id ∧
    d.activity.task.mode = .sync ∧ d.progress = .working
  nodup : r.dropped.Nodup

theorem Kept.step (kept : Kept r) (hstep : Step r r') : Kept r' := by
  cases hstep with
  | desk hdesk hframe =>
      refine ⟨kept.desk.step hdesk, ?_, kept.nodup⟩
      intro id hid
      obtain ⟨d, hd, rfl, hmode, hworking⟩ := kept.dropped id hid
      exact ⟨d, hframe d hd hid, rfl, hmode, hworking⟩
  | @drop d hd hmode hworking hnew =>
      refine ⟨kept.desk, ?_, List.nodup_cons.mpr ⟨hnew, kept.nodup⟩⟩
      intro id hid
      rcases List.mem_cons.mp hid with rfl | hid
      · exact ⟨d, hd, rfl, hmode, hworking⟩
      · exact kept.dropped id hid

theorem kept_of_reachable (reach : Reachable r) : Kept r := by
  induction reach with
  | empty => exact ⟨.empty, fun _ hid => absurd hid List.not_mem_nil, List.nodup_nil⟩
  | step _ hstep ih => exact ih.step hstep

/-- Nothing that was dropped comes back. -/
theorem dropped_lasts (hsteps : Relation.ReflTransGen Step r r') :
    ∀ id ∈ r.dropped, id ∈ r'.dropped := by
  induction hsteps with
  | refl => exact fun _ hid => hid
  | tail _ hstep ih =>
      intro id hid
      cases hstep with
      | desk _ _ => exact ih id hid
      | drop _ _ _ _ => exact List.mem_cons_of_mem _ (ih id hid)

namespace Kept

/-- The record of a dropped job is there and says that the job runs, and its caller
    has not been answered. -/
theorem phantom (kept : Kept r) {id : Job.Id} (hid : id ∈ r.dropped) :
    ∃ d ∈ r.desk.dispatches, d.id = id ∧ d.reply = none ∧
      r.desk.ledger.table.get? id = some d.record ∧ d.record.status = .running := by
  have sound := Desk.sound_of_reachable kept.desk
  obtain ⟨d, hd, rfl, hmode, hworking⟩ := kept.dropped id hid
  have hrecord := sound.onRecord hd
  rw [Desk.OnRecord, hworking] at hrecord
  refine ⟨d, hd, rfl, ?_, hrecord⟩
  cases hreply : d.reply with
  | none => rfl
  | some out =>
      -- a caller who waits is answered after the finish
      have hdue := sound.replies d hd out hreply
      rw [Dispatch.due?_of_waiting hmode (by rw [hworking]; rfl)] at hdue
      cases hdue

/-- At rest the record of a dispatch says that it runs just if its work goes on. -/
theorem running_iff (hrest : Rest r) (hd : d ∈ r.desk.dispatches) :
    d.record.status = .running ↔ d.progress = .working := by
  constructor
  · intro hrunning
    rcases hrest d hd with hworking | hfinished
    · exact Progress.isWorking_iff.mp hworking
    · obtain ⟨m, hm⟩ := Progress.isFinished_iff.mp hfinished
      have hends := @Desk.ends_record d m (by rw [hm]; rfl)
      cases houtcome : m.outcome with
      | ok report =>
          rw [houtcome] at hends
          exact absurd (hends.1.symm.trans hrunning) (by simp)
      | error cause =>
          rw [houtcome] at hends
          exact absurd (hends.1.symm.trans hrunning) (by simp)
  · intro hworking
    rw [Dispatch.record, hworking]
    rfl

theorem mem_executing (hd : d ∈ r.desk.dispatches) (hworking : d.progress = .working)
    (hkept : d.id ∉ r.dropped) : d ∈ r.executing := by
  refine List.mem_filter.mpr ⟨List.mem_filter.mpr ⟨hd, ?_⟩, by simpa using hkept⟩
  exact Progress.isWorking_iff.mpr hworking

/-- The records that say that a job runs are those of the work that goes on and of
    the work that was dropped. -/
theorem running (kept : Kept r) (hrest : Rest r) {record : Job.Record}
    (hrecord : record ∈ r.desk.ledger.table.records) :
    record.status = .running ↔
      record.id ∈ r.executing.map Dispatch.id ∨ record.id ∈ r.dropped := by
  have sound := Desk.sound_of_reachable kept.desk
  obtain ⟨d, hd, rfl⟩ := sound.owner hrecord
  rw [running_iff hrest hd, d.record_id]
  constructor
  · intro hworking
    by_cases hid : d.id ∈ r.dropped
    · exact Or.inr hid
    · exact Or.inl (List.mem_map_of_mem (mem_executing hd hworking hid))
  · intro h
    -- whichever it is, it is the dispatch of this job
    obtain ⟨x, hx, hid, hworking⟩ : ∃ x ∈ r.desk.dispatches, x.id = d.id ∧ x.progress = .working := by
      rcases h with hexecuting | hdropped
      · obtain ⟨x, hx, hid⟩ := List.mem_map.mp hexecuting
        obtain ⟨hx, -⟩ := List.mem_filter.mp hx
        obtain ⟨hx, hworking⟩ := List.mem_filter.mp hx
        exact ⟨x, hx, hid, Progress.isWorking_iff.mp hworking⟩
      · obtain ⟨x, hx, hid, -, hworking⟩ := kept.dropped d.id hdropped
        exact ⟨x, hx, hid, hworking⟩
    rwa [← List.inj_on_of_nodup_map sound.ids hx hd hid]

/-- The gauge counts the work that goes on and the work that was dropped. -/
theorem gauge (kept : Kept r) (hrest : Rest r) :
    r.desk.registry.jobsActive = r.executing.length + r.dropped.length := by
  have sound := Desk.sound_of_reachable kept.desk
  let working := r.desk.dispatches.filter fun d => d.progress.isWorking
  have hactive : (r.desk.dispatches.countP fun d => d.progress.isActive) = working.length := by
    rw [← List.countP_eq_length_filter]
    refine List.countP_congr ?_
    intro d hd
    rcases hrest d hd with hworking | hfinished
    · rw [Progress.isWorking_iff.mp hworking]
      exact ⟨fun _ => rfl, fun _ => rfl⟩
    · obtain ⟨m, hm⟩ := Progress.isFinished_iff.mp hfinished
      rw [hm]
      exact ⟨fun h => Bool.noConfusion h, fun h => Bool.noConfusion h⟩
  -- each dropped job is that of one dispatch whose record says that it runs
  have hdropped : (working.filter fun d => d.id ∈ r.dropped).length = r.dropped.length := by
    have hperm : ((working.filter fun d => d.id ∈ r.dropped).map Dispatch.id).Perm r.dropped := by
      have hsub : (working.filter fun d => d.id ∈ r.dropped).Sublist r.desk.dispatches :=
        List.filter_sublist.trans List.filter_sublist
      refine (List.perm_ext_iff_of_nodup (sound.ids.sublist (hsub.map _)) kept.nodup).mpr ?_
      intro id
      constructor
      · intro hid
        obtain ⟨d, hd, rfl⟩ := List.mem_map.mp hid
        simpa using (List.mem_filter.mp hd).2
      · intro hid
        obtain ⟨d, hd, rfl, -, hworking⟩ := kept.dropped id hid
        refine List.mem_map_of_mem (List.mem_filter.mpr ⟨List.mem_filter.mpr ⟨hd, ?_⟩, ?_⟩)
        · exact Progress.isWorking_iff.mpr hworking
        · simpa using hid
    have hlength := hperm.length_eq
    rwa [List.length_map] at hlength
  have hsplit := List.length_eq_length_filter_add (l := working) fun d => decide (d.id ∈ r.dropped)
  have hexecuting : (working.filter fun d => !decide (d.id ∈ r.dropped)).length =
      r.executing.length := by
    rw [executing]
    simp [working]
  rw [sound.gauge, hactive]
  omega

end Kept

/-- **A CALLER WHO GOES AWAY LEAVES A PHANTOM.**  The record of every job that was
    dropped with its caller says that the job runs, now and for good, although the
    dispatch does no more for it: nobody will put its end on record, and its caller is
    never answered.  At rest the records that say so and the gauge tell of the work
    that goes on and of the dropped work together, and so of the former alone just if
    nothing was ever dropped. -/
theorem running_or_dropped (reach : Reachable r) :
    (∀ r', Relation.ReflTransGen Step r r' → ∀ id ∈ r.dropped,
      id ∉ r'.executing.map Dispatch.id ∧
      ∃ d ∈ r'.desk.dispatches, d.id = id ∧ d.reply = none ∧
        r'.desk.ledger.table.get? id = some d.record ∧ d.record.status = .running) ∧
      (Rest r →
        (∀ record ∈ r.desk.ledger.table.records, record.status = .running ↔
          record.id ∈ r.executing.map Dispatch.id ∨ record.id ∈ r.dropped) ∧
        r.desk.registry.jobsActive = r.executing.length + r.dropped.length ∧
        (NoPhantom r ↔ r.dropped = [])) := by
  have kept := kept_of_reachable reach
  constructor
  · intro r' hsteps id hid
    have hlast := dropped_lasts hsteps id hid
    have reach' : Reachable r' := by
      induction hsteps with
      | refl => exact reach
      | tail hsteps hstep ih => exact (ih (dropped_lasts hsteps id hid)).step hstep
    refine ⟨?_, (kept_of_reachable reach').phantom hlast⟩
    intro hexecuting
    obtain ⟨d, hd, rfl⟩ := List.mem_map.mp hexecuting
    exact absurd hlast (by simpa using (List.mem_filter.mp hd).2)
  · intro hrest
    have hgauge := kept.gauge hrest
    refine ⟨fun record hrecord => kept.running hrest hrecord, hgauge, ?_⟩
    constructor
    · rintro ⟨-, hcount⟩
      rw [hcount] at hgauge
      exact List.length_eq_zero_iff.mp (by omega)
    · intro hnone
      refine ⟨?_, by rw [hgauge, hnone]; simp⟩
      intro record hrecord hrunning
      rcases (kept.running hrest hrecord).mp hrunning with hexecuting | hdropped
      · exact hexecuting
      · rw [hnone] at hdropped
        exact absurd hdropped List.not_mem_nil

/-- A desk that nobody has left. -/
theorem reachable_of_desk {s : Desk} (reach : s.Reachable) : Reachable { desk := s } := by
  induction reach with
  | empty => exact .empty
  | step _ hstep ih =>
      exact ih.step (.desk hstep fun _ _ hid => absurd hid List.not_mem_nil)

/-- One job, whose caller has gone away. -/
theorem running_or_dropped_one :
    ∃ r, Reachable r ∧ Rest r ∧ r.executing = [] ∧ r.desk.registry.jobsActive = 1 ∧
      ¬ NoPhantom r := by
  obtain ⟨s₁, h₁, hd₁⟩ : ∃ s, Desk.Reachable s ∧
      s.dispatches = [⟨Desk.diskJob, ⟨0, 0⟩, .entered, none⟩] :=
    ⟨_, Desk.Reachable.empty.step (.enter (a := Desk.diskJob) ⟨0, 0⟩
      ((Desk.sound_of_reachable .empty).fresh fun _ hd => nomatch hd)), rfl⟩
  have m₁ : ⟨Desk.diskJob, ⟨0, 0⟩, .entered, none⟩ ∈ s₁.dispatches := by
    rw [hd₁]
    exact List.mem_cons_self
  obtain ⟨s₂, h₂, hd₂⟩ : ∃ s, Desk.Reachable s ∧
      s.dispatches = [⟨Desk.diskJob, ⟨0, 0⟩, .working, none⟩] := by
    refine ⟨_, h₁.step (.begin m₁ rfl), ?_⟩
    show replace s₁.dispatches _ = _
    rw [hd₁]
    rfl
  have m₂ : ⟨Desk.diskJob, ⟨0, 0⟩, .working, none⟩ ∈ s₂.dispatches := by
    rw [hd₂]
    exact List.mem_cons_self
  have hdrop : Step { desk := s₂ } ⟨s₂, [Desk.diskJob.id]⟩ :=
    Step.drop (r := { desk := s₂ }) m₂ rfl rfl List.not_mem_nil
  have reach := (reachable_of_desk h₂).step hdrop
  have hrest : Rest ⟨s₂, [Desk.diskJob.id]⟩ := by
    intro d hd
    rw [hd₂] at hd
    rw [List.mem_singleton.mp hd]
    exact Or.inl rfl
  have hexecuting : executing ⟨s₂, [Desk.diskJob.id]⟩ = [] := by
    rw [executing, hd₂]
    rfl
  obtain ⟨-, hall⟩ := running_or_dropped reach
  obtain ⟨-, hgauge, hphantom⟩ := hall hrest
  rw [hexecuting] at hgauge
  refine ⟨_, reach, hrest, hexecuting, hgauge, ?_⟩
  intro hno
  exact absurd (hphantom.mp hno) (List.cons_ne_nil _ _)

/-- **THE SERVICE DROPS A JOB BY THIS STEP.**  Once the caller has gone away the service
    does no more for the job, and the table and the metrics are as they were. -/
theorem abandon_drops {σ : State} {n : Nat} {c : Call} (keeps : Desk.Keeps σ r.desk)
    (hd : d ∈ r.desk.dispatches) (hmode : d.activity.task.mode = .sync)
    (hworking : d.progress = .working) (hnew : d.id ∉ r.dropped) (hcall : σ.call? n = some c)
    (howner : ∀ a ∈ σ.activities, a.id = d.id → a.call = n) :
    ∃ r', Step r r' ∧ Desk.Keeps (σ.abandon n) r'.desk ∧ r'.dropped = d.id :: r.dropped ∧
      ∀ a ∈ (σ.abandon n).activities, a.id ≠ d.id := by
  have habandon : σ.abandon n = (σ.dropCall n).dropActivity n := by
    rw [State.abandon, hcall]
  rw [habandon]
  refine ⟨_, .drop hd hmode hworking hnew, ⟨keeps.table, keeps.registry⟩, rfl, ?_⟩
  intro a ha hid
  obtain ⟨ha, hother⟩ := List.mem_filter.mp ha
  exact absurd (howner a ha hid) (by simpa using hother)

/-- A service without jobs. -/
def quietService : State where
  config := { settings := ⟨.table []⟩, template := .ofString "", isLogging := false }
  words := ⟨fun _ => 0, 0⟩
  registry := some {}

/-- A request for a downtime of half a minute, whose caller waits for its end. -/
def downtimeRequest : Http.Request where
  method := "POST"
  target := ⟨none, "/stress/downtime", none⟩
  body := Text.utf8 "\x7b\"downtime_second\": 30\x7d"

/-- The caller goes away after a second.  Nothing waits and nothing is worked on any more,
    but a record says that a job runs, and the gauge counts one. -/
theorem disconnect_leaves_phantom :
    let s := quietService.run [(0, .arrive 0 downtimeRequest), (1000000000, .leave 0)]
    s.calls.length = 0 ∧ s.activities.length = 0 ∧ s.table.counts.running = 1 ∧
      s.registry.map (·.jobsActive) = some 1 := by
  decide +kernel

end Room

end Havoc.Service
