import Havoc.Proofs.Job.Eviction
import Havoc.Proofs.Json.Value
import Havoc.Proofs.Service.Share

/-! # The life of a job

    A dispatch puts a job on record, lets its work run, and puts the end of the work
    on record; a caller who waits is answered after that, and one who does not is
    answered while the work runs.  Any number of dispatches take their steps in any
    order.

    The route: a `Desk` is the ledger of the jobs and the metrics beside a list of
    the dispatches, and `Step` lists the steps of all dispatches.  A dispatch knows
    what its record should say (`Dispatch.record`) and what its caller is told where
    it is (`Dispatch.due?`), and `Sound` says that the ledger, the gauge and the
    replies agree with that.  Most steps change one dispatch and leave its record
    alone (`Sound.change`).  The main theorem is `jobs_stay_in_step`; that the service
    starts and finishes its jobs by these steps, and answers its callers as the desk
    replies to them, is `start_runs` and `finish_runs`. -/

namespace Havoc.Service

open Havoc.Json

/-- The number, the time and the outcome with which a job was marked as ended. -/
structure Mark where
  number : Nat
  time : Moment
  outcome : Job.Outcome

/-- How far a dispatch is. -/
inductive Progress where
  /-- The job is on record, but the metrics do not know of it. -/
  | entered
  | working
  /-- The work has come to its end. -/
  | ended (outcome : Job.Outcome)
  /-- The end is on record, but the metrics do not know of it. -/
  | marked (mark : Mark)
  /-- Old records are being taken away. -/
  | noted (mark : Mark)
  | finished (mark : Mark)

namespace Progress

/-- The mark of a job whose end is on record. -/
def mark? : Progress → Option Mark
  | marked m | noted m | finished m => some m
  | entered | working | ended _ => none

/-- What the work came to, once it has come to its end. -/
def outcome? : Progress → Option Job.Outcome
  | ended outcome => some outcome
  | marked m | noted m | finished m => some m.outcome
  | entered | working => none

/-- Whether the metrics count the job as active. -/
def isActive : Progress → Bool
  | working | ended _ | marked _ => true
  | entered | noted _ | finished _ => false

/-- Whether the dispatch has come to its end. -/
def isFinished : Progress → Bool
  | finished _ => true
  | entered | working | ended _ | marked _ | noted _ => false

theorem isFinished_iff {p : Progress} : p.isFinished = true ↔ ∃ m, p = .finished m := by
  cases p <;> simp [isFinished]

/-- Whether the dispatch is in the middle of its start or its finish. -/
def isBusy : Progress → Bool
  | entered | marked _ | noted _ => true
  | working | ended _ | finished _ => false

end Progress

/-- A dispatch: the job that it runs, since when, and what its caller was told. -/
structure Dispatch where
  activity : Activity
  startedAt : Moment
  progress : Progress := .entered
  reply : Option Outcome := none

namespace Dispatch

/-- The identifier of the job. -/
def id (d : Dispatch) : Job.Id := d.activity.id

/-- What the record of the job should say. -/
def record (d : Dispatch) : Job.Record :=
  let r := Job.entry d.id d.activity.task.name d.activity.task.mode
    (Value.ofMembers d.activity.task.params) d.startedAt
  match d.progress.mark? with
  | none => r
  | some m => r.finish m.number m.time m.outcome

/-- The record is the job's own. -/
theorem record_id (d : Dispatch) : d.record.id = d.id := by
  rw [record]
  cases d.progress.mark? with
  | none => rfl
  | some m => exact (Job.finish_id _ _ _ _).1

/-- What a dispatch tells its caller where it is, if anything: once the metrics know of the
    job that it has started, or after the finish what has come of it. -/
def due? (d : Dispatch) : Option Outcome :=
  match d.activity.task.mode, d.progress with
  | .async, .entered => none
  | .async, _ => some d.activity.started
  | .sync, .finished m => some (d.activity.completed m.outcome)
  | .sync, _ => none

/-- The dispatch after its caller was told what there is to tell. -/
def replied (d : Dispatch) : Dispatch := { d with reply := d.due? }

theorem due?_async {d : Dispatch} (hmode : d.activity.task.mode = .async)
    (hprogress : d.progress ≠ .entered) : d.due? = some d.activity.started := by
  rw [due?, hmode]
  cases h : d.progress with
  | entered => exact absurd h hprogress
  | _ => rfl

theorem due?_sync {d : Dispatch} {m : Mark} (hmode : d.activity.task.mode = .sync)
    (hprogress : d.progress = .finished m) :
    d.due? = some (d.activity.completed m.outcome) := by
  rw [due?, hmode, hprogress]

/-- Who waits is told nothing before the finish. -/
theorem due?_of_waiting {d : Dispatch} (hmode : d.activity.task.mode = .sync)
    (hway : d.progress.isFinished = false) : d.due? = none := by
  rw [due?, hmode]
  cases h : d.progress with
  | finished m =>
      rw [h] at hway
      exact Bool.noConfusion hway
  | _ => rfl

/-- There is something to tell about a job that the metrics know of, or that is finished. -/
theorem of_due? {d : Dispatch} {out : Outcome} (h : d.due? = some out) :
    (d.activity.task.mode = .async ∧ d.progress ≠ .entered ∧ out = d.activity.started) ∨
      (d.activity.task.mode = .sync ∧
        ∃ m, d.progress = .finished m ∧ out = d.activity.completed m.outcome) := by
  cases hmode : d.activity.task.mode with
  | async =>
      have hprogress : d.progress ≠ .entered := by
        intro hentered
        rw [due?, hmode, hentered] at h
        cases h
      rw [due?_async hmode hprogress] at h
      exact Or.inl ⟨rfl, hprogress, (Option.some.inj h).symm⟩
  | sync =>
      cases hfinished : d.progress.isFinished with
      | false =>
          rw [due?_of_waiting hmode hfinished] at h
          cases h
      | true =>
          obtain ⟨m, hm⟩ := Progress.isFinished_iff.mp hfinished
          rw [due?_sync hmode hm] at h
          exact Or.inr ⟨rfl, m, hm, (Option.some.inj h).symm⟩

end Dispatch

/-! ## What a caller is told -/

/-- A report that is worth showing. -/
def shown : Value → Option Value
  | .null => none
  | report => some report

/-- A document that tells how a job stands: its message, its identifier, its report
    if there is one to show, and the parameters of the job as they are.  A
    parameter gives way where its key is one of the other three. -/
structure Tells (a : Activity) (message : String) (report : Option Value) (doc : Value) :
    Prop where
  message : doc.get? "message" = some (.text (a.task.label ++ " " ++ message))
  job : doc.get? "job_id" = some (.text a.id.text)
  report : (Value.ofMembers a.task.params).get? "report" = none → doc.get? "report" = report
  params : ∀ key, key ≠ "job_id" → key ≠ "message" → key ≠ "report" →
    doc.get? key = (Value.ofMembers a.task.params).get? key

/-- What is told without a report. -/
theorem tells_told (a : Activity) (message : String) :
    Tells a message none (a.told message []) := by
  have htold : a.told message [] = Value.ofMembers
      ((a.task.params ++ [("job_id", .text a.id.text)]) ++
        [("message", .text (a.task.label ++ " " ++ message))]) := by
    rw [Activity.told, List.append_nil, List.append_assoc]
    rfl
  rw [htold]
  refine ⟨?_, ?_, ?_, ?_⟩
  · rw [Value.get?_ofMembers_snoc, if_pos rfl]
  · rw [Value.get?_ofMembers_snoc_of_ne _ _ (by decide), Value.get?_ofMembers_snoc, if_pos rfl]
  · intro hnone
    rw [Value.get?_ofMembers_snoc_of_ne _ _ (by decide),
      Value.get?_ofMembers_snoc_of_ne _ _ (by decide), hnone]
  · intro key hjob hmessage _
    rw [Value.get?_ofMembers_snoc_of_ne _ _ hmessage, Value.get?_ofMembers_snoc_of_ne _ _ hjob]

/-- What is told with a report. -/
theorem tells_told_report (a : Activity) (message : String) (report : Value) :
    Tells a message (some report) (a.told message [("report", report)]) := by
  have hplain := tells_told a message
  have htold : ∀ key, (a.told message [("report", report)]).get? key =
      if key = "report" then some report else (a.told message []).get? key := by
    intro key
    rw [Activity.told, Activity.told, Value.get?_ofMembers_snoc, List.append_nil]
  refine ⟨?_, ?_, ?_, ?_⟩
  · rw [htold, if_neg (by decide), hplain.message]
  · rw [htold, if_neg (by decide), hplain.job]
  · intro _
    rw [htold, if_pos rfl]
  · intro key hjob hmessage hreport
    rw [htold, if_neg hreport, hplain.params key hjob hmessage hreport]

/-- What a caller who waited is told about work that went well. -/
theorem completed_ok (a : Activity) (report : Value) :
    ∃ doc, a.completed (.ok report) = .ok (.document doc) ∧
      Tells a "completed" (shown report) doc := by
  cases report with
  | null => exact ⟨_, rfl, tells_told a "completed"⟩
  | _ => exact ⟨_, rfl, tells_told_report a "completed" _⟩

/-! ## One dispatch among many -/

/-- Puts a dispatch in the place of the one with the same job. -/
def replace (ds : List Dispatch) (d : Dispatch) : List Dispatch :=
  ds.map fun x => if x.id = d.id then d else x

section Replace

variable {ds : List Dispatch} {d d' x : Dispatch}

/-- What is there afterwards is the new dispatch, or was there before. -/
theorem mem_replace (hx : x ∈ replace ds d') : x = d' ∨ (x ∈ ds ∧ x.id ≠ d'.id) := by
  obtain ⟨y, hy, heq⟩ := List.mem_map.mp hx
  by_cases hid : y.id = d'.id
  · rw [if_pos hid] at heq
    exact Or.inl heq.symm
  · rw [if_neg hid] at heq
    rw [← heq]
    exact Or.inr ⟨hy, hid⟩

/-- The new dispatch is there if one with the same job was. -/
theorem self_mem_replace (hd : d ∈ ds) (hid : d.id = d'.id) : d' ∈ replace ds d' :=
  List.mem_map.mpr ⟨d, hd, if_pos hid⟩

/-- The other dispatches stay. -/
theorem other_mem_replace (hx : x ∈ ds) (hid : x.id ≠ d'.id) : x ∈ replace ds d' :=
  List.mem_map.mpr ⟨x, hx, if_neg hid⟩

/-- What was put in last counts. -/
theorem replace_replace (hid : d.id = d'.id) : replace (replace ds d) d' = replace ds d' := by
  rw [replace, replace, replace, List.map_map]
  refine List.map_congr_left ?_
  intro x _
  show (if (if x.id = d.id then d else x).id = d'.id then d' else if x.id = d.id then d else x) = _
  by_cases hx : x.id = d.id
  · rw [if_pos hx, if_pos hid, if_pos (hx.trans hid)]
  · rw [if_neg hx]

/-- Dispatches of other jobs stay as they are. -/
theorem replace_absent (habsent : ∀ x ∈ ds, x.id ≠ d.id) : replace ds d = ds := by
  rw [replace, List.map_congr_left fun x hx => if_neg (habsent x hx)]
  exact List.map_id ds

/-- One dispatch is replaced, and the others keep their places. -/
theorem replace_split (hnodup : (ds.map Dispatch.id).Nodup) (hd : d ∈ ds) (hid : d'.id = d.id) :
    ∃ before after, ds = before ++ d :: after ∧ replace ds d' = before ++ d' :: after := by
  obtain ⟨before, after, rfl⟩ := List.append_of_mem hd
  rw [List.map_append, List.map_cons, List.nodup_middle, List.nodup_cons, List.mem_append,
    ← hid] at hnodup
  obtain ⟨hother, -⟩ := hnodup
  -- no other dispatch has this job
  have hb : replace before d' = before := replace_absent fun x hx heq =>
    hother (Or.inl (heq ▸ List.mem_map_of_mem hx))
  have ha : replace after d' = after := replace_absent fun x hx heq =>
    hother (Or.inr (heq ▸ List.mem_map_of_mem hx))
  refine ⟨before, after, rfl, ?_⟩
  rw [replace] at hb ha ⊢
  rw [List.map_append, List.map_cons, hb, ha, if_pos hid.symm]

/-- The records change as the one record does. -/
theorem map_record_replace (hnodup : (ds.map Dispatch.id).Nodup) (hd : d ∈ ds) (hid : d'.id = d.id)
    {f : Job.Record → Job.Record} (hrecord : d'.record = f d.record)
    (hother : ∀ x ∈ ds, x.id ≠ d.id → f x.record = x.record) :
    (replace ds d').map Dispatch.record = (ds.map Dispatch.record).map f := by
  rw [replace, List.map_map, List.map_map]
  refine List.map_congr_left ?_
  intro x hx
  show (if x.id = d'.id then d' else x).record = f x.record
  by_cases heq : x.id = d'.id
  · rw [if_pos heq, hrecord, List.inj_on_of_nodup_map hnodup hx hd (heq.trans hid)]
  · rw [if_neg heq]
    exact (hother x hx fun h => heq (h.trans hid.symm)).symm

/-- A count changes as the one dispatch does. -/
theorem countP_replace (p : Dispatch → Bool) (hnodup : (ds.map Dispatch.id).Nodup) (hd : d ∈ ds)
    (hid : d'.id = d.id) :
    (replace ds d').countP p + (p d).toNat = ds.countP p + (p d').toNat := by
  obtain ⟨before, after, rfl, hnew⟩ := replace_split hnodup hd hid
  have hcons : ∀ y, (y :: after).countP p = after.countP p + (p y).toNat := by
    intro y
    rw [List.countP_cons]
    cases p y <;> rfl
  rw [hnew, List.countP_append, List.countP_append, hcons, hcons]
  omega

end Replace

/-! ## The desk -/

/-- The ledger of the jobs and the metrics, with all dispatches. -/
structure Desk where
  ledger : Job.Ledger := {}
  registry : Metric.Registry := {}
  dispatches : List Dispatch := []

namespace Desk

variable {s s' : Desk} {d d' : Dispatch} {m : Mark} {outcome : Job.Outcome}

/-- Puts a dispatch in the place of the one with the same job. -/
def put (s : Desk) (d : Dispatch) : Desk :=
  { s with dispatches := replace s.dispatches d }

/-- The steps of all dispatches. -/
inductive Step (s : Desk) : Desk → Prop where
  /-- A job is put on record, under an identifier that was never drawn before. -/
  | enter {a : Activity} (now : Moment) :
      s.ledger.Fresh a.id →
      Step s { s with
        ledger := s.ledger.start a.id a.task.name a.task.mode (Value.ofMembers a.task.params) now
        dispatches := s.dispatches ++ [{ activity := a, startedAt := now }] }
  | begin {d : Dispatch} :
      d ∈ s.dispatches → d.progress = .entered →
      Step s ({ s with
        registry := s.registry.note
          (.jobStarted d.activity.task.name d.activity.task.mode.name) }.put
        { d with progress := .working })
  | work {d : Dispatch} (outcome : Job.Outcome) :
      d ∈ s.dispatches → d.progress = .working →
      Step s (s.put { d with progress := .ended outcome })
  | mark {d : Dispatch} {outcome : Job.Outcome} (now : Moment) :
      d ∈ s.dispatches → d.progress = .ended outcome →
      Step s ({ s with ledger := s.ledger.mark d.id now outcome }.put
        { d with progress := .marked ⟨s.ledger.archive.finished, now, outcome⟩ })
  | note {d : Dispatch} {m : Mark} :
      d ∈ s.dispatches → d.progress = .marked m →
      Step s ({ s with registry := s.registry.note .jobFinished }.put
        { d with progress := .noted m })
  | sweep {d : Dispatch} {m : Mark} {l : Job.Ledger} :
      d ∈ s.dispatches → d.progress = .noted m → Job.Ledger.Sweep d.id s.ledger l →
      Step s { s with ledger := l }
  | leave {d : Dispatch} {m : Mark} :
      d ∈ s.dispatches → d.progress = .noted m → s.ledger.calls d.id = some (.removing []) →
      Step s ({ s with ledger := s.ledger.put d.id none }.put { d with progress := .finished m })
  /-- The caller of a job is told what there is to tell, and nothing more after that. -/
  | reply {d : Dispatch} :
      d ∈ s.dispatches → d.reply = none → Step s (s.put d.replied)
  /-- Something else of the service is noted. -/
  | other (note : Metric.Note) :
      (∀ name mode, note ≠ .jobStarted name mode) → note ≠ .jobFinished →
      Step s { s with registry := s.registry.note note }

/-- The desks that any interleaving of dispatches leads to. -/
inductive Reachable : Desk → Prop where
  | empty : Reachable {}
  | step {s s' : Desk} : Reachable s → Step s s' → Reachable s'

/-- What holds of a desk whatever the order of the steps. -/
structure Sound (s : Desk) : Prop where
  ledger : s.ledger.Reachable
  records : s.ledger.archive.records = s.dispatches.map Dispatch.record
  gauge : s.registry.jobsActive = s.dispatches.countP fun d => d.progress.isActive
  ended : ∀ id ∈ s.ledger.ended, ∃ d ∈ s.dispatches, d.id = id ∧ d.progress.mark? ≠ none
  replies : ∀ d ∈ s.dispatches, ∀ out, d.reply = some out → d.due? = some out

/-- A dispatch that is on its way has told no more than that its job has started, and
    that stays true. -/
theorem due?_later {out : Outcome} {q : Progress} {reply : Option Outcome}
    (hdue : d.due? = some out) (hway : d.progress.isFinished = false) (hq : q ≠ .entered) :
    Dispatch.due? { d with progress := q, reply := reply } = some out := by
  rcases Dispatch.of_due? hdue with ⟨hmode, -, rfl⟩ | ⟨-, m, hm, -⟩
  · exact Dispatch.due?_async hmode hq
  · rw [hm] at hway
    exact Bool.noConfusion hway

namespace Sound

/-- Each dispatch has a job of its own. -/
theorem ids (sound : Sound s) : (s.dispatches.map Dispatch.id).Nodup := by
  have hnodup := (Job.Ledger.sound_of_reachable sound.ledger).ids
  rw [sound.records, List.map_map] at hnodup
  have hids : Job.Record.id ∘ Dispatch.record = Dispatch.id := funext Dispatch.record_id
  rw [hids] at hnodup
  exact hnodup

/-- The record of each dispatch is in the archive. -/
theorem archived (sound : Sound s) (hd : d ∈ s.dispatches) :
    d.record ∈ s.ledger.archive.records := by
  rw [sound.records]
  exact List.mem_map_of_mem hd

/-- A step that changes one dispatch and not its record. -/
theorem change (sound : Sound s) (hd : d ∈ s.dispatches) {q : Progress}
    {reply : Option Outcome} {l : Job.Ledger} {registry : Metric.Registry}
    (hmark : q.mark? = d.progress.mark?)
    (hreply : ∀ out, reply = some out →
      Dispatch.due? { d with progress := q, reply := reply } = some out)
    (hledger : l.Reachable) (harchive : l.archive = s.ledger.archive)
    (hended : l.ended = s.ledger.ended)
    (hgauge : registry.jobsActive + d.progress.isActive.toNat =
      s.registry.jobsActive + q.isActive.toNat) :
    Sound ({ s with ledger := l, registry := registry }.put
      { d with progress := q, reply := reply }) := by
  let d' : Dispatch := { d with progress := q, reply := reply }
  have hid : d'.id = d.id := rfl
  have hrecord : d'.record = d.record := by
    rw [Dispatch.record, Dispatch.record, hmark]
    rfl
  refine ⟨hledger, ?_, ?_, ?_, ?_⟩
  · show l.archive.records = (replace s.dispatches d').map Dispatch.record
    rw [harchive, sound.records]
    have hmap := map_record_replace (f := id) sound.ids hd hid hrecord fun _ _ _ => rfl
    rw [hmap, List.map_id]
  -- the gauge moves as the count does, by this one dispatch
  · show registry.jobsActive = ((replace s.dispatches d').countP _ : Int)
    have hcount : (replace s.dispatches d').countP (fun d => d.progress.isActive) +
        d.progress.isActive.toNat =
          s.dispatches.countP (fun d => d.progress.isActive) + q.isActive.toNat :=
      countP_replace _ sound.ids hd hid
    have hbefore := sound.gauge
    omega
  · intro id hmem
    have hmem' : id ∈ s.ledger.ended := hended ▸ hmem
    obtain ⟨x, hx, hxid, hmarked⟩ := sound.ended id hmem'
    by_cases heq : x.id = d'.id
    · refine ⟨d', self_mem_replace hx heq, heq.symm.trans hxid, ?_⟩
      rw [hmark, ← List.inj_on_of_nodup_map sound.ids hx hd (heq.trans hid)]
      exact hmarked
    · exact ⟨x, other_mem_replace hx heq, hxid, hmarked⟩
  · intro x hx
    rcases mem_replace hx with rfl | ⟨hx, -⟩
    · exact hreply
    · exact sound.replies x hx

/-- A step that takes a dispatch further and leaves its record and its reply
    alone. -/
theorem advance (sound : Sound s) (hd : d ∈ s.dispatches) {p q : Progress} {l : Job.Ledger}
    {registry : Metric.Registry} (hprogress : d.progress = p) (hway : p.isFinished = false)
    (hq : q ≠ .entered) (hmark : q.mark? = p.mark?) (hledger : l.Reachable)
    (harchive : l.archive = s.ledger.archive) (hended : l.ended = s.ledger.ended)
    (hgauge : registry.jobsActive + p.isActive.toNat =
      s.registry.jobsActive + q.isActive.toNat) :
    Sound ({ s with ledger := l, registry := registry }.put { d with progress := q }) := by
  subst hprogress
  refine sound.change hd hmark ?_ hledger harchive hended hgauge
  exact fun out hout => due?_later (sound.replies d hd out hout) hway hq

/-- A new dispatch. -/
theorem enter (sound : Sound s) {a : Activity} {now : Moment} (fresh : s.ledger.Fresh a.id) :
    Sound { s with
      ledger := s.ledger.start a.id a.task.name a.task.mode (Value.ofMembers a.task.params) now
      dispatches := s.dispatches ++ [{ activity := a, startedAt := now }] } := by
  refine ⟨sound.ledger.step (.start _ _ _ _ fresh), ?_, ?_, ?_, ?_⟩
  · show s.ledger.archive.records ++ [Job.entry _ _ _ _ _] = (s.dispatches ++ [_]).map _
    rw [List.map_append, sound.records]
    rfl
  · show s.registry.jobsActive = _
    rw [List.countP_append, sound.gauge]
    rfl
  · intro id hid
    obtain ⟨d, hd, heq, hmark⟩ := sound.ended id hid
    exact ⟨d, List.mem_append_left _ hd, heq, hmark⟩
  · intro d hd out hout
    rcases List.mem_append.mp hd with hd | hd
    · exact sound.replies d hd out hout
    · rw [List.mem_singleton.mp hd] at hout
      exact nomatch hout

/-- Nobody has ended a job whose work has just come to its end. -/
theorem not_ended (sound : Sound s) (hd : d ∈ s.dispatches) (hmark : d.progress.mark? = none) :
    d.id ∉ s.ledger.ended := by
  intro hmem
  obtain ⟨x, hx, hid, hmarked⟩ := sound.ended _ hmem
  rw [List.inj_on_of_nodup_map sound.ids hx hd hid] at hmarked
  exact hmarked hmark

/-- The end of a job is put on record. -/
theorem mark (sound : Sound s) {now : Moment} (hd : d ∈ s.dispatches)
    (hprogress : d.progress = .ended outcome) :
    Sound ({ s with ledger := s.ledger.mark d.id now outcome }.put
      { d with progress := .marked ⟨s.ledger.archive.finished, now, outcome⟩ }) := by
  let d' : Dispatch :=
    { d with progress := .marked ⟨s.ledger.archive.finished, now, outcome⟩ }
  have hid : d'.id = d.id := rfl
  have hmark : d.progress.mark? = none := by rw [hprogress]; rfl
  have hnew := sound.not_ended hd hmark
  have hrecord : d'.record =
      Job.marked d.id s.ledger.archive.finished now outcome d.record := by
    rw [Job.marked, if_pos d.record_id, Dispatch.record, Dispatch.record, hmark]
    rfl
  refine ⟨sound.ledger.step (.mark now outcome hnew), ?_, ?_, ?_, ?_⟩
  -- the archive marks the record of this job and no other
  · show (s.ledger.archive.mark d.id now outcome).records =
      (replace s.dispatches d').map Dispatch.record
    rw [Job.mark_eq ⟨d.record, sound.archived hd, d.record_id⟩, sound.records]
    refine (map_record_replace sound.ids hd hid hrecord ?_).symm
    exact fun x _ hne => Job.marked_of_ne (x.record_id.symm ▸ hne)
  · show s.registry.jobsActive = ((replace s.dispatches d').countP _ : Int)
    -- the metrics learn of the end later, so the job still counts as active
    have hcount := countP_replace (fun d => d.progress.isActive) sound.ids hd hid
    rw [hprogress] at hcount
    have hsame : (replace s.dispatches d').countP (fun d => d.progress.isActive) =
        s.dispatches.countP fun d => d.progress.isActive := Nat.add_right_cancel hcount
    rw [hsame]
    exact sound.gauge
  · intro id hmem
    rcases List.mem_cons.mp hmem with rfl | hmem
    · exact ⟨d', self_mem_replace hd rfl, rfl, Option.some_ne_none _⟩
    · obtain ⟨x, hx, hxid, hmarked⟩ := sound.ended id hmem
      by_cases heq : x.id = d'.id
      · exact ⟨d', self_mem_replace hd rfl, heq.symm.trans hxid, Option.some_ne_none _⟩
      · exact ⟨x, other_mem_replace hx heq, hxid, hmarked⟩
  · intro x hx out hout
    rcases mem_replace hx with rfl | ⟨hx, -⟩
    · refine due?_later (sound.replies d hd out hout) ?_ ?_
      · rw [hprogress]
        rfl
      · intro h
        cases h
    · exact sound.replies x hx out hout

/-- **EVERY STEP KEEPS A DESK SOUND.** -/
theorem step (sound : Sound s) (hstep : Step s s') : Sound s' := by
  cases hstep with
  | enter now fresh => exact sound.enter fresh
  | begin hd hprogress =>
      exact sound.advance hd hprogress rfl (fun h => nomatch h) rfl sound.ledger rfl rfl
        (Int.add_zero _)
  | work outcome hd hprogress =>
      exact sound.advance hd hprogress rfl (fun h => nomatch h) rfl sound.ledger rfl rfl rfl
  | mark now hd hprogress => exact sound.mark hd hprogress
  | note hd hprogress =>
      refine sound.advance hd hprogress rfl (fun h => nomatch h) rfl sound.ledger rfl rfl ?_
      show s.registry.jobsActive - 1 + 1 = s.registry.jobsActive + 0
      omega
  | @sweep d m l hd hprogress hsweep =>
      obtain ⟨harchive, hended, -⟩ := hsweep.frame
      refine ⟨sound.ledger.step (.sweep hsweep), ?_, sound.gauge, ?_, sound.replies⟩
      · exact (congrArg Job.Table.records harchive).trans sound.records
      · exact fun id hid => sound.ended id (hended ▸ hid)
  | leave hd hprogress hcall =>
      exact sound.advance hd hprogress rfl (fun h => nomatch h) rfl
        (sound.ledger.step (.leave hcall)) rfl rfl rfl
  | reply hd hnone =>
      exact sound.change hd rfl (fun out hout => hout) sound.ledger rfl rfl rfl
  | other note hstarted hfinished =>
      refine ⟨sound.ledger, sound.records, ?_, sound.ended, sound.replies⟩
      refine Eq.trans ?_ sound.gauge
      cases note with
      | jobStarted name mode => exact absurd rfl (hstarted name mode)
      | jobFinished => exact absurd rfl hfinished
      | _ => rfl

end Sound

/-- Every desk that an interleaving of dispatches leads to is sound. -/
theorem sound_of_reachable (reach : Reachable s) : Sound s := by
  induction reach with
  | empty =>
      exact ⟨.empty, rfl, rfl, (fun _ hid => nomatch hid), (fun _ hd => nomatch hd)⟩
  | step reach hstep ih => exact ih.step hstep

/-! ## What lasts -/

/-- What is said about a job once lasts: what it came to, its mark and its reply. -/
structure Becomes (d d' : Dispatch) : Prop where
  activity : d'.activity = d.activity
  startedAt : d'.startedAt = d.startedAt
  begun : d.progress ≠ .entered → d'.progress ≠ .entered
  outcome : ∀ o, d.progress.outcome? = some o → d'.progress.outcome? = some o
  mark : ∀ m, d.progress.mark? = some m → d'.progress.mark? = some m
  reply : ∀ out, d.reply = some out → d'.reply = some out

/-- A dispatch becomes itself. -/
theorem Becomes.refl (d : Dispatch) : Becomes d d :=
  ⟨rfl, rfl, fun h => h, fun _ h => h, fun _ h => h, fun _ h => h⟩

/-- What lasts from one moment to the next lasts on. -/
theorem Becomes.trans {d'' : Dispatch} (h : Becomes d d') (h' : Becomes d' d'') :
    Becomes d d'' :=
  ⟨h'.activity.trans h.activity, h'.startedAt.trans h.startedAt,
    fun hbegun => h'.begun (h.begun hbegun), fun o ho => h'.outcome o (h.outcome o ho),
    fun m hm => h'.mark m (h.mark m hm), fun out hout => h'.reply out (h.reply out hout)⟩

/-- The record of a job whose end is on record stays as it is. -/
theorem Becomes.record (h : Becomes d d') (hm : d.progress.mark? = some m) :
    d'.record = d.record := by
  rw [Dispatch.record, Dispatch.record, Dispatch.id, Dispatch.id, hm, h.mark m hm, h.activity,
    h.startedAt]

/-- What a dispatch has come to lasts when it goes further. -/
theorem Becomes.of_progress {p q : Progress} (hprogress : d.progress = p) (hq : q ≠ .entered)
    (houtcome : ∀ o, p.outcome? = some o → q.outcome? = some o)
    (hmark : ∀ m, p.mark? = some m → q.mark? = some m) :
    Becomes d { d with progress := q } := by
  subst hprogress
  exact ⟨rfl, rfl, fun _ => hq, houtcome, hmark, fun _ h => h⟩

/-- All dispatches last when one goes further. -/
theorem becomes_replace (sound : Sound s) (hd : d ∈ s.dispatches) (hbecomes : Becomes d d') :
    ∀ x ∈ s.dispatches, ∃ x' ∈ replace s.dispatches d', Becomes x x' := by
  have hid : d'.id = d.id := congrArg Activity.id hbecomes.activity
  intro x hx
  by_cases heq : x.id = d'.id
  · rw [List.inj_on_of_nodup_map sound.ids hx hd (heq.trans hid)]
    exact ⟨d', self_mem_replace hd hid.symm, hbecomes⟩
  · exact ⟨x, other_mem_replace hx heq, .refl x⟩

/-- What a step makes of the dispatches and of the records taken away. -/
def Lasts (s s' : Desk) : Prop :=
  (∀ d ∈ s.dispatches, ∃ d' ∈ s'.dispatches, Becomes d d') ∧
    ∀ id ∈ s.ledger.removed, id ∈ s'.ledger.removed

/-- A step forgets nothing. -/
theorem Sound.lasts (sound : Sound s) (hstep : Step s s') : Lasts s s' := by
  cases hstep with
  | enter now fresh =>
      exact ⟨fun d hd => ⟨d, List.mem_append_left _ hd, .refl d⟩, fun _ hid => hid⟩
  | begin hd hprogress =>
      refine ⟨becomes_replace sound hd (.of_progress hprogress nofun ?_ ?_), fun _ hid => hid⟩
      · exact fun o ho => nomatch ho
      · exact fun m hm => nomatch hm
  | work outcome hd hprogress =>
      refine ⟨becomes_replace sound hd (.of_progress hprogress nofun ?_ ?_), fun _ hid => hid⟩
      · exact fun o ho => nomatch ho
      · exact fun m hm => nomatch hm
  | mark now hd hprogress =>
      refine ⟨becomes_replace sound hd (.of_progress hprogress nofun ?_ ?_), fun _ hid => hid⟩
      · exact fun o ho => ho
      · exact fun m hm => nomatch hm
  | note hd hprogress =>
      refine ⟨becomes_replace sound hd (.of_progress hprogress nofun ?_ ?_), fun _ hid => hid⟩
      · exact fun o ho => ho
      · exact fun m hm => hm
  | sweep hd hprogress hsweep => exact ⟨fun d hd => ⟨d, hd, .refl d⟩, hsweep.frame.2.2⟩
  | leave hd hprogress hcall =>
      refine ⟨becomes_replace sound hd (.of_progress hprogress nofun ?_ ?_), fun _ hid => hid⟩
      · exact fun o ho => ho
      · exact fun m hm => hm
  | reply hd hnone =>
      refine ⟨becomes_replace sound hd ⟨rfl, rfl, fun h => h, fun _ h => h, fun _ h => h, ?_⟩,
        fun _ hid => hid⟩
      rw [hnone]
      exact fun out hout => nomatch hout
  | other note hstarted hfinished => exact ⟨fun d hd => ⟨d, hd, .refl d⟩, fun _ hid => hid⟩

/-- No run forgets anything. -/
theorem lasts_of_steps (reach : Reachable s) (hsteps : Relation.ReflTransGen Step s s') :
    Reachable s' ∧ Lasts s s' := by
  induction hsteps with
  | refl => exact ⟨reach, fun d hd => ⟨d, hd, .refl d⟩, fun _ hid => hid⟩
  | tail _ hstep ih =>
      obtain ⟨reach', hlasts⟩ := ih
      obtain ⟨hdispatches, hremoved⟩ := (sound_of_reachable reach').lasts hstep
      refine ⟨reach'.step hstep, ?_, fun id hid => hremoved id (hlasts.2 id hid)⟩
      intro d hd
      obtain ⟨d', hd', hbecomes⟩ := hlasts.1 d hd
      obtain ⟨d'', hd'', hbecomes'⟩ := hdispatches d' hd'
      exact ⟨d'', hd'', hbecomes.trans hbecomes'⟩

/-! ## Steps without a break -/

/-- A job that no dispatch has is new. -/
theorem Sound.fresh (sound : Sound s) {id : Job.Id} (hnew : ∀ d ∈ s.dispatches, d.id ≠ id) :
    s.ledger.Fresh id := by
  constructor
  · intro hmem
    obtain ⟨d, hd, heq, -⟩ := sound.ended id hmem
    exact hnew d hd heq
  · rw [sound.records]
    intro r hr heq
    obtain ⟨d, hd, rfl⟩ := List.mem_map.mp hr
    exact hnew d hd (d.record_id.symm.trans heq)

/-- The steps of a sweep are steps of the desk. -/
theorem steps_sweeps (hd : d ∈ s.dispatches) (hprogress : d.progress = .noted m)
    {l : Job.Ledger} (hsweeps : Relation.ReflTransGen (Job.Ledger.Sweep d.id) s.ledger l) :
    Relation.ReflTransGen Step s { s with ledger := l } := by
  induction hsweeps with
  | refl => exact Relation.ReflTransGen.refl
  | @tail l l' _ hsweep ih => exact ih.tail (.sweep hd hprogress hsweep)

/-- The end of work and all steps of its finish, one after the other. -/
theorem steps_finish (reach : Reachable s) (hd : d ∈ s.dispatches)
    (hprogress : d.progress = .working) (now : Moment) (outcome : Job.Outcome) :
    ∃ s', Relation.ReflTransGen Step s s' ∧ s'.ledger = s.ledger.finish d.id now outcome ∧
      s'.registry = s.registry.note .jobFinished ∧
      s'.dispatches = replace s.dispatches
        { d with progress := .finished ⟨s.ledger.archive.finished, now, outcome⟩ } := by
  have hmem : ∀ {s' : Desk} {q : Progress},
      s'.dispatches = replace s.dispatches { d with progress := q } →
        { d with progress := q } ∈ s'.dispatches := by
    intro s' q hds
    rw [hds]
    exact List.mem_map.mpr ⟨d, hd, if_pos rfl⟩
  have hput : ∀ {s' : Desk} {p q : Progress},
      s'.dispatches = replace s.dispatches { d with progress := p } →
        replace s'.dispatches { d with progress := q } =
          replace s.dispatches { d with progress := q } := by
    intro s' p q hds
    rw [hds]
    exact replace_replace rfl
  -- step by step, with what each of them leaves of the desk
  obtain ⟨s₁, h₁, hl₁, hr₁, hd₁⟩ : ∃ s₁, Step s s₁ ∧ s₁.ledger = s.ledger ∧
      s₁.registry = s.registry ∧
      s₁.dispatches = replace s.dispatches { d with progress := .ended outcome } :=
    ⟨_, .work outcome hd hprogress, rfl, rfl, rfl⟩
  obtain ⟨s₂, h₂, hl₂, hr₂, hd₂⟩ : ∃ s₂, Step s₁ s₂ ∧
      s₂.ledger = s₁.ledger.mark d.id now outcome ∧ s₂.registry = s₁.registry ∧
      s₂.dispatches = replace s.dispatches
        { d with progress := .marked ⟨s₁.ledger.archive.finished, now, outcome⟩ } :=
    ⟨_, .mark now (hmem hd₁) rfl, rfl, rfl, hput hd₁⟩
  obtain ⟨s₃, h₃, hl₃, hr₃, hd₃⟩ : ∃ s₃, Step s₂ s₃ ∧ s₃.ledger = s₂.ledger ∧
      s₃.registry = s₂.registry.note .jobFinished ∧
      s₃.dispatches = replace s.dispatches
        { d with progress := .noted ⟨s₁.ledger.archive.finished, now, outcome⟩ } :=
    ⟨_, .note (hmem hd₂) rfl, rfl, rfl, hput hd₂⟩
  have hledger : s₃.ledger = s.ledger.mark d.id now outcome := by rw [hl₃, hl₂, hl₁]
  have hsound := sound_of_reachable (((reach.step h₁).step h₂).step h₃)
  have hnodup := (Job.Ledger.sound_of_reachable hsound.ledger).table_ids
  have hcall : s₃.ledger.calls d.id = some .marked := by
    rw [hledger]
    exact Job.Ledger.put_calls _ _ _
  obtain ⟨s₄, h₄, hl₄, hr₄, hd₄⟩ : ∃ s₄, Relation.ReflTransGen Step s₃ s₄ ∧
      s₄.ledger = ((Job.Table.excess s₃.ledger.table.records).foldl Job.Ledger.remove
        s₃.ledger).put d.id (some (.removing [])) ∧ s₄.registry = s₃.registry ∧
      s₄.dispatches = replace s.dispatches
        { d with progress := .noted ⟨s₁.ledger.archive.finished, now, outcome⟩ } :=
    ⟨_, steps_sweeps (hmem hd₃) rfl (Job.Ledger.sweeps_all hnodup hcall), rfl, rfl, hd₃⟩
  have hlast : s₄.ledger.calls d.id = some (.removing []) := by
    rw [hl₄]
    exact Job.Ledger.put_calls _ _ _
  obtain ⟨s₅, h₅, hl₅, hr₅, hd₅⟩ : ∃ s₅, Step s₄ s₅ ∧ s₅.ledger = s₄.ledger.put d.id none ∧
      s₅.registry = s₄.registry ∧
      s₅.dispatches = replace s.dispatches
        { d with progress := .finished ⟨s₁.ledger.archive.finished, now, outcome⟩ } :=
    ⟨_, .leave (hmem hd₄) rfl hlast, rfl, rfl, hput hd₄⟩
  refine ⟨s₅, ?_, ?_, ?_, ?_⟩
  · exact ((Relation.ReflTransGen.refl.tail h₁ |>.tail h₂ |>.tail h₃).trans h₄).tail h₅
  · rw [hl₅, hl₄, Job.Ledger.put_put, hledger]
    rfl
  · rw [hr₅, hr₄, hr₃, hr₂, hr₁]
  · rw [hd₅, hl₁]

/-! ## The life of a job -/

/-- A record that says how the work of a job ended. -/
def Ends (r : Job.Record) : Job.Outcome → Prop
  | .ok report => r.status = .completed ∧ r.report = some report
  | .error cause => r.status = .failed cause ∧ r.report = none

/-- What the table says about a job: that it runs, until its end is put on record;
    and then how it ended, unless the record has been taken away. -/
def OnRecord (d : Dispatch) (table : Job.Table) : Prop :=
  match d.progress.mark? with
  | none => table.get? d.id = some d.record ∧ d.record.status = .running
  | some m =>
      Ends d.record m.outcome ∧ (table.get? d.id = none ∨ table.get? d.id = some d.record)

/-- A record that says when its job ended just if it has, and what came of it just
    if it went well. -/
def Coherent (r : Job.Record) : Prop :=
  (r.finishedAt ≠ none ↔ r.status ≠ .running) ∧ (r.report ≠ none ↔ r.status = .completed)

/-- What a caller has been told, and when. -/
def Answered (d : Dispatch) (out : Outcome) : Prop :=
  match d.activity.task.mode with
  | .async => ∃ doc, out = .ok (.document doc) ∧ Tells d.activity "started" none doc
  | .sync => ∃ m, d.progress = .finished m ∧
      match m.outcome with
      | .ok report => ∃ doc, out = .ok (.document doc) ∧
          Tells d.activity "completed" (shown report) doc
      | .error cause => ∃ problem, out = .error problem ∧ problem.code = "INTERNAL_ERROR" ∧
          problem.message = cause ∧ d.record.status = .failed cause

/-- The record of a dispatch says how its work ended. -/
theorem ends_record (hm : d.progress.mark? = some m) : Ends d.record m.outcome := by
  rw [Dispatch.record, hm]
  obtain ⟨number, time, outcome⟩ := m
  cases outcome with
  | ok report => exact ⟨rfl, rfl⟩
  | error cause => exact ⟨rfl, rfl⟩

/-- The record of a dispatch is coherent, and keeps the parameters. -/
theorem coherent_record (d : Dispatch) :
    Coherent d.record ∧ d.record.params = Value.ofMembers d.activity.task.params := by
  rw [Dispatch.record, Coherent]
  cases d.progress.mark? with
  | none =>
      refine ⟨⟨⟨fun h => absurd rfl h, fun h => absurd rfl h⟩, fun h => absurd rfl h, ?_⟩, rfl⟩
      exact fun h => nomatch h
  | some m =>
      obtain ⟨number, time, outcome⟩ := m
      cases outcome with
      | ok report =>
          exact ⟨⟨⟨(fun _ h => nomatch h), (fun _ h => nomatch h)⟩, fun _ => rfl,
            (fun _ h => nomatch h)⟩, rfl⟩
      | error cause =>
          exact ⟨⟨⟨(fun _ h => nomatch h), (fun _ h => nomatch h)⟩, fun h => absurd rfl h,
            (fun h => nomatch h)⟩, rfl⟩

namespace Sound

/-- A record of the table belongs to a dispatch. -/
theorem owner (sound : Sound s) {r : Job.Record} (hr : r ∈ s.ledger.table.records) :
    ∃ d ∈ s.dispatches, d.record = r := by
  have hr' := (Job.Ledger.sound_of_reachable sound.ledger).archived hr
  rw [sound.records] at hr'
  exact List.mem_map.mp hr'

/-- Each job is on record as it should be. -/
theorem onRecord (sound : Sound s) (hd : d ∈ s.dispatches) : OnRecord d s.ledger.table := by
  have hledger := Job.Ledger.sound_of_reachable sound.ledger
  have harchived := sound.archived hd
  have hget : d.id ∉ s.ledger.removed → s.ledger.table.get? d.id = some d.record := by
    intro hkept
    rw [← d.record_id] at hkept ⊢
    exact Job.get?_of_mem hledger.table_ids (hledger.mem_table harchived hkept)
  rw [OnRecord]
  cases hmark : d.progress.mark? with
  | none =>
      have hrunning : d.record.status = .running := by
        rw [Dispatch.record, hmark]
        rfl
      refine ⟨hget ?_, hrunning⟩
      intro hgone
      rw [← d.record_id] at hgone
      -- only what is old is taken away, and a running job is not
      have hended := hledger.not_running_of_old harchived (hledger.gone _ hgone)
      rw [Job.Record.isRunning, hrunning] at hended
      exact Bool.noConfusion hended
  | some m =>
      refine ⟨ends_record hmark, ?_⟩
      by_cases hgone : d.id ∈ s.ledger.removed
      · exact Or.inl (Job.get?_of_absent (hledger.not_mem_table hgone))
      · exact Or.inr (hget hgone)

/-- Between starts and finishes the gauge counts the running records. -/
theorem gauge_eq (sound : Sound s) (hrest : ∀ d ∈ s.dispatches, d.progress.isBusy = false) :
    s.registry.jobsActive = s.ledger.table.counts.running := by
  have hledger := Job.Ledger.sound_of_reachable sound.ledger
  show s.registry.jobsActive = (s.ledger.table.records.countP Job.Record.isRunning : Int)
  rw [sound.gauge, hledger.running_count, sound.records, List.countP_map]
  refine congrArg Int.ofNat (List.countP_congr ?_)
  intro d hd
  have hbusy := hrest d hd
  show d.progress.isActive = true ↔ d.record.isRunning = true
  rw [Dispatch.record]
  -- away from starts and finishes the record tells what the metrics count
  cases hprogress : d.progress with
  | entered => rw [hprogress] at hbusy; exact Bool.noConfusion hbusy
  | working => exact ⟨fun _ => rfl, fun _ => rfl⟩
  | ended outcome => exact ⟨fun _ => rfl, fun _ => rfl⟩
  | marked m => rw [hprogress] at hbusy; exact Bool.noConfusion hbusy
  | noted m => rw [hprogress] at hbusy; exact Bool.noConfusion hbusy
  | finished m =>
      show false = true ↔ (Job.Record.finish _ m.number m.time m.outcome).isRunning = true
      rw [(Job.finish_id _ _ _ _).2.2]

/-- What callers have been told is what they should be told. -/
theorem answered (sound : Sound s) (hd : d ∈ s.dispatches) {out : Outcome}
    (hout : d.reply = some out) : Answered d out := by
  rw [Answered]
  rcases Dispatch.of_due? (sound.replies d hd out hout) with
    ⟨hmode, -, rfl⟩ | ⟨hmode, m, hm, rfl⟩
  · rw [hmode]
    exact ⟨_, rfl, tells_told d.activity "started"⟩
  · rw [hmode]
    refine ⟨m, hm, ?_⟩
    have hends : Ends d.record m.outcome := ends_record (by rw [hm]; rfl)
    cases houtcome : m.outcome with
    | ok report => exact completed_ok d.activity report
    | error cause =>
        rw [houtcome] at hends
        exact ⟨.internal cause, rfl, rfl, rfl, hends.1⟩

end Sound

/-- **JOBS STAY IN STEP.**  Whatever the interleaving of dispatches, each has one
    job of its own, which is on record as running until its end is put on record
    and as ended for good after that; every record in the table is coherent and
    keeps the parameters of its job; between starts and finishes the gauge is the
    number of running records; a caller who waits is told after the finish what is
    on record, and one who does not can be told at once that the job has started. -/
theorem jobs_stay_in_step (reach : Reachable s) :
    (s.dispatches.map Dispatch.id).Nodup ∧
      (s.ledger.table.records.map Job.Record.id).Nodup ∧
      (∀ r ∈ s.ledger.table.records, ∃ d ∈ s.dispatches, d.record = r ∧ Coherent r ∧
        r.params = Value.ofMembers d.activity.task.params) ∧
      (∀ d ∈ s.dispatches, OnRecord d s.ledger.table) ∧
      (∀ s', Relation.ReflTransGen Step s s' → ∀ d ∈ s.dispatches,
        (∀ outcome, d.progress.outcome? = some outcome →
          ∃ d' ∈ s'.dispatches, d'.id = d.id ∧ d'.progress.outcome? = some outcome) ∧
        ∀ m, d.progress.mark? = some m →
          (s'.ledger.table.get? d.id = none ∨ s'.ledger.table.get? d.id = some d.record) ∧
            (s.ledger.table.get? d.id = none → s'.ledger.table.get? d.id = none)) ∧
      ((∀ d ∈ s.dispatches, d.progress.isBusy = false) →
        s.registry.jobsActive = s.ledger.table.counts.running) ∧
      (∀ d ∈ s.dispatches, ∀ out, d.reply = some out → Answered d out) ∧
      ∀ d ∈ s.dispatches, d.activity.task.mode = .async → d.progress ≠ .entered →
        d.reply = none →
        Step s (s.put { d with reply := some (.ok (.document (d.activity.told "started" []))) }) := by
  have sound := sound_of_reachable reach
  have hledger := Job.Ledger.sound_of_reachable sound.ledger
  refine ⟨sound.ids, hledger.table_ids, ?_, fun d hd => sound.onRecord hd, ?_, sound.gauge_eq,
    fun d hd out hout => sound.answered hd hout, ?_⟩
  · intro r hr
    obtain ⟨d, hd, rfl⟩ := sound.owner hr
    obtain ⟨hcoherent, hparams⟩ := coherent_record d
    exact ⟨d, hd, rfl, hcoherent, hparams⟩
  · intro s' hsteps d hd
    obtain ⟨reach', hdispatches, hremoved⟩ := lasts_of_steps reach hsteps
    have sound' := sound_of_reachable reach'
    obtain ⟨d', hd', hbecomes⟩ := hdispatches d hd
    have hid : d'.id = d.id := congrArg Activity.id hbecomes.activity
    refine ⟨fun outcome ho => ⟨d', hd', hid, hbecomes.outcome outcome ho⟩, ?_⟩
    intro m hm
    constructor
    · have honrecord := sound'.onRecord hd'
      rw [OnRecord, hbecomes.mark m hm, hid, hbecomes.record hm] at honrecord
      exact honrecord.2
    · intro hnone
      -- a record that is missing was taken away, and stays away
      have hgone : d.id ∈ s.ledger.removed := by
        by_contra hkept
        have hmem := hledger.mem_table (sound.archived hd) (d.record_id.symm ▸ hkept)
        have hget := Job.get?_of_mem hledger.table_ids hmem
        rw [d.record_id, hnone] at hget
        exact nomatch hget
      have hledger' := Job.Ledger.sound_of_reachable sound'.ledger
      exact Job.get?_of_absent (hledger'.not_mem_table (hremoved _ hgone))
  · intro d hd hmode hprogress hnone
    have hstep := Step.reply hd hnone
    rw [Dispatch.replied, Dispatch.due?_async hmode hprogress] at hstep
    exact hstep

/-- A job whose caller waits. -/
def diskJob : Activity := ⟨0, ⟨0⟩, ⟨"disk", "disk job", .sync, [("n", .null)], .wait 0⟩, none⟩

/-- A job whose caller does not wait. -/
def cpuJob : Activity := ⟨1, ⟨1⟩, ⟨"cpu", "cpu job", .async, [], .wait 0⟩, none⟩

/-- A run of two jobs: the work of one fails and its caller is answered, while the
    other goes on. -/
theorem jobs_stay_in_step_two :
    ∃ s d, Reachable s ∧ d ∈ s.dispatches ∧ d.id = diskJob.id ∧
      Answered d (.error (.internal "disk full")) ∧
      s.registry.jobsActive = 1 ∧ s.ledger.table.counts.running = 1 := by
  obtain ⟨s₁, h₁, hd₁⟩ : ∃ s, Reachable s ∧
      s.dispatches = [⟨diskJob, ⟨0, 0⟩, .entered, none⟩] :=
    ⟨_, Reachable.empty.step (.enter (a := diskJob) ⟨0, 0⟩
      ((sound_of_reachable .empty).fresh fun _ hd => nomatch hd)), rfl⟩
  have m₁ : ⟨diskJob, ⟨0, 0⟩, .entered, none⟩ ∈ s₁.dispatches := by
    rw [hd₁]
    exact List.mem_cons_self
  obtain ⟨s₂, h₂, hd₂⟩ : ∃ s, Reachable s ∧
      s.dispatches = [⟨diskJob, ⟨0, 0⟩, .working, none⟩] := by
    refine ⟨_, h₁.step (.begin m₁ rfl), ?_⟩
    show replace s₁.dispatches _ = _
    rw [hd₁]
    rfl
  obtain ⟨s₃, h₃, hd₃⟩ : ∃ s, Reachable s ∧ s.dispatches =
      [⟨diskJob, ⟨0, 0⟩, .working, none⟩, ⟨cpuJob, ⟨1, 0⟩, .entered, none⟩] := by
    refine ⟨_, h₂.step (.enter (a := cpuJob) ⟨1, 0⟩ ((sound_of_reachable h₂).fresh ?_)),
      congrArg (· ++ _) hd₂⟩
    rw [hd₂]
    intro d hd
    rw [List.mem_singleton.mp hd]
    decide
  have m₃ : ⟨cpuJob, ⟨1, 0⟩, .entered, none⟩ ∈ s₃.dispatches := by
    rw [hd₃]
    exact List.mem_cons_of_mem _ List.mem_cons_self
  obtain ⟨s₄, h₄, hd₄⟩ : ∃ s, Reachable s ∧ s.dispatches =
      [⟨diskJob, ⟨0, 0⟩, .working, none⟩, ⟨cpuJob, ⟨1, 0⟩, .working, none⟩] := by
    refine ⟨_, h₃.step (.begin m₃ rfl), ?_⟩
    show replace s₃.dispatches _ = _
    rw [hd₃]
    rfl
  have m₄ : ⟨diskJob, ⟨0, 0⟩, .working, none⟩ ∈ s₄.dispatches := by
    rw [hd₄]
    exact List.mem_cons_self
  obtain ⟨s₅, hsteps, -, -, hd₅⟩ := steps_finish h₄ m₄ rfl ⟨2, 0⟩ (.error "disk full")
  rw [hd₄] at hd₅
  have m₅ : ⟨diskJob, ⟨0, 0⟩, .finished ⟨s₄.ledger.archive.finished, ⟨2, 0⟩,
      .error "disk full"⟩, none⟩ ∈ s₅.dispatches := by
    rw [hd₅]
    exact List.mem_cons_self
  obtain ⟨s, h, hd⟩ : ∃ s, Reachable s ∧ s.dispatches =
      [⟨diskJob, ⟨0, 0⟩, .finished ⟨s₄.ledger.archive.finished, ⟨2, 0⟩, .error "disk full"⟩,
        some (.error (.internal "disk full"))⟩, ⟨cpuJob, ⟨1, 0⟩, .working, none⟩] := by
    refine ⟨_, (lasts_of_steps h₄ hsteps).1.step (.reply m₅ rfl), ?_⟩
    show replace s₅.dispatches _ = _
    rw [hd₅]
    rfl
  have m : ⟨diskJob, ⟨0, 0⟩, .finished ⟨s₄.ledger.archive.finished, ⟨2, 0⟩,
      .error "disk full"⟩, some (.error (.internal "disk full"))⟩ ∈ s.dispatches := by
    rw [hd]
    exact List.mem_cons_self
  obtain ⟨-, -, -, -, -, hgauge, hanswered, -⟩ := jobs_stay_in_step h
  have hactive : s.registry.jobsActive = 1 := by
    rw [(sound_of_reachable h).gauge, hd]
    rfl
  have hrest : ∀ d ∈ s.dispatches, d.progress.isBusy = false := by
    rw [hd]
    intro d hmem
    rcases List.mem_cons.mp hmem with rfl | hmem
    · rfl
    · rw [List.mem_singleton.mp hmem]
      rfl
  have hrunning := hgauge hrest
  refine ⟨s, _, h, m, rfl, hanswered _ m _ rfl, hactive, ?_⟩
  omega

/-! ## The service at the desk -/

/-- A service that keeps the books of a desk. -/
structure Keeps (σ : State) (s : Desk) : Prop where
  table : σ.table = s.ledger.table
  registry : σ.registry = some s.registry

/-- Whether a note is about no start and no end of a job. -/
def isOther : Metric.Note → Bool
  | .jobStarted .. | .jobFinished => false
  | _ => true

/-- Other things may be noted one after the other. -/
theorem steps_other (notes : List Metric.Note) :
    ∀ s : Desk, (∀ note ∈ notes, isOther note = true) →
      Relation.ReflTransGen Step s { s with registry := s.registry.noteAll notes } := by
  induction notes with
  | nil => intro s _; exact Relation.ReflTransGen.refl
  | cons note rest ih =>
      intro s hother
      have hnote := hother note List.mem_cons_self
      refine Relation.ReflTransGen.head (Step.other note ?_ ?_)
        (ih _ fun x hx => hother x (List.mem_cons_of_mem _ hx))
      · intro name mode heq
        rw [heq] at hnote
        exact Bool.noConfusion hnote
      · intro heq
        rw [heq] at hnote
        exact Bool.noConfusion hnote

/-- Answering a call leaves the table alone, and notes at most the answer. -/
theorem answer_frame (σ : State) (now : Instant) (c : Call) (info : Http.Info) (out : Outcome) :
    (σ.answerWith now c info out).table = σ.table ∧
      ∃ notes, (∀ note ∈ notes, isOther note = true) ∧
        (σ.answerWith now c info out).registry = σ.registry.map (·.noteAll notes) := by
  rw [State.answerWith]
  dsimp only
  split
  · refine ⟨rfl, [_], ?_, rfl⟩
    intro note hnote
    rw [List.mem_singleton.mp hnote]
    rfl
  · refine ⟨rfl, [], (fun _ hnote => absurd hnote List.not_mem_nil), ?_⟩
    exact Option.map_id'.symm

/-- What the service does to end a job is one interleaving of the steps of its dispatch, up to
    the reply. -/
theorem steps_of_finish {σ : State} (reach : Reachable s) (keeps : Keeps σ s)
    (hd : d ∈ s.dispatches) (hprogress : d.progress = .working) (now : Instant)
    (outcome : Job.Outcome) :
    ∃ s', Relation.ReflTransGen Step s s' ∧ Keeps (σ.finish now d.activity outcome) s' ∧
      s'.dispatches = replace s.dispatches
        { d with
          progress := .finished ⟨s.ledger.archive.finished, wallClock now, outcome⟩ } := by
  obtain ⟨s₁, hsteps, hledger, hregistry, hd₁⟩ :=
    steps_finish reach hd hprogress (wallClock now) outcome
  have htable : σ.table.finish d.activity.id (wallClock now) outcome = s₁.ledger.table := by
    rw [hledger, Job.Ledger.finish_table, keeps.table]
    rfl
  have hnoted : σ.registry.map (·.noteAll [.jobFinished]) = some s₁.registry := by
    rw [keeps.registry, hregistry]
    rfl
  rw [State.finish]
  dsimp only
  rw [htable]
  split
  · next c hc =>
      obtain ⟨hframe, notes, hother, hanswered⟩ := answer_frame _ now c _ _
      refine ⟨_, hsteps.trans (steps_other notes s₁ hother), ⟨?_, ?_⟩, hd₁⟩
      · exact hframe
      · rw [State.answer, hanswered]
        exact congrArg (Option.map _) hnoted
  · exact ⟨s₁, hsteps, ⟨rfl, hnoted⟩, hd₁⟩

/-- The dispatch after the whole finish: its caller has been told all there is to tell. -/
def concluded (d : Dispatch) (m : Mark) : Dispatch :=
  Dispatch.replied { d with progress := .finished m }

theorem reply_concluded_sync (hmode : d.activity.task.mode = .sync) :
    (concluded d m).reply = some (d.activity.completed m.outcome) :=
  Dispatch.due?_sync (d := { d with progress := .finished m }) hmode rfl

theorem reply_concluded_async (hmode : d.activity.task.mode = .async) :
    (concluded d m).reply = some d.activity.started :=
  Dispatch.due?_async (d := { d with progress := .finished m }) hmode Progress.noConfusion

/-- **THE SERVICE FINISHES A JOB BY THESE STEPS.**  What it does in one go to end
    the job of a dispatch is one interleaving of them.  A caller who waits is told what
    has come of the job, and the desk replies to him just then; nobody else is told
    anything. -/
theorem finish_runs {σ : State} (reach : Reachable s) (keeps : Keeps σ s)
    (hd : d ∈ s.dispatches) (hprogress : d.progress = .working) (hdue : d.reply = d.due?)
    (hcall : (σ.call? d.activity.call).isSome ↔ d.activity.task.mode = .sync) (now : Instant)
    (outcome : Job.Outcome) :
    ∃ s' m, m.outcome = outcome ∧ Relation.ReflTransGen Step s s' ∧
      Keeps (σ.finish now d.activity outcome) s' ∧
      s'.dispatches = replace s.dispatches (concluded d m) ∧
      match d.activity.task.mode with
      | .sync => (concluded d m).reply = some (d.activity.completed outcome) ∧
          ∃ reply, (σ.finish now d.activity outcome).answered =
            ⟨d.activity.call, d.activity.completed outcome, reply⟩ :: σ.answered
      | .async => (concluded d m).reply = d.reply ∧
          (σ.finish now d.activity outcome).answered = σ.answered := by
  obtain ⟨s₁, hsteps, hkeeps, hd₁⟩ := steps_of_finish reach keeps hd hprogress now outcome
  obtain ⟨m, hm⟩ : ∃ m : Mark, m = ⟨s.ledger.archive.finished, wallClock now, outcome⟩ := ⟨_, rfl⟩
  rw [← hm] at hd₁
  have houtcome : m.outcome = outcome := by rw [hm]
  have hanswered := @State.answered_finish σ now d.activity outcome
  cases hmode : d.activity.task.mode with
  | sync =>
      obtain ⟨c, hc⟩ := Option.isSome_iff_exists.mp (hcall.mpr hmode)
      have hnone : d.reply = none := by
        rw [hdue, Dispatch.due?_of_waiting hmode (by rw [hprogress]; rfl)]
      have hmem : { d with progress := .finished m } ∈ s₁.dispatches := by
        rw [hd₁]
        exact List.mem_map.mpr ⟨d, hd, if_pos rfl⟩
      rw [hc] at hanswered
      dsimp only at hanswered
      rw [State.number_of_call? hc] at hanswered
      refine ⟨_, m, houtcome, hsteps.tail (.reply hmem hnone), ⟨hkeeps.table, hkeeps.registry⟩, ?_,
        ?_, _, hanswered⟩
      · show replace s₁.dispatches _ = _
        rw [hd₁]
        exact replace_replace rfl
      · rw [reply_concluded_sync hmode, houtcome]
  | async =>
      have hc : σ.call? d.activity.call = none := by
        rw [← Option.not_isSome_iff_eq_none, hcall, hmode]
        exact Job.Mode.noConfusion
      have hbegun : d.progress ≠ .entered := by
        rw [hprogress]
        exact Progress.noConfusion
      have hreply : (concluded d m).reply = d.reply := by
        rw [reply_concluded_async hmode, hdue, Dispatch.due?_async hmode hbegun]
      rw [hc] at hanswered
      refine ⟨s₁, m, houtcome, hsteps, hkeeps, ?_, hreply, hanswered⟩
      rw [hd₁]
      exact congrArg (replace s.dispatches) (congrArg (Dispatch.mk _ _ _) hreply.symm)

/-- The service with a new job on record. -/
def enrol (σ : State) (now : Instant) (order : Option Fault.Order) (a : Activity) : State :=
  State.note
    { σ with
      rules := order.elim σ.rules (σ.rules.obey now)
      words := (Job.Id.random.run σ.words).2
      table := σ.table.start a.id a.task.name a.task.mode (Value.ofMembers a.task.params)
        (wallClock now)
      activities := σ.activities ++ [a] }
    (.jobStarted a.task.name a.task.mode.name)

/-- The dispatch of a job that has started, whose caller was told what there is to tell. -/
def begun (a : Activity) (now : Instant) : Dispatch :=
  Dispatch.replied { activity := a, startedAt := wallClock now, progress := .working }

/-- **THE SERVICE STARTS A JOB BY THESE STEPS.**  It puts the job on record and
    notes its start; the job of a caller who waits then begins, and a caller who
    does not wait is answered, as the desk does. -/
theorem start_runs {σ : State} (reach : Reachable s) (keeps : Keeps σ s) (now : Instant) (c : Call)
    (order : Option Fault.Order) (task : Task)
    (fresh : ∀ d ∈ s.dispatches, d.id ≠ (Job.Id.random.run σ.words).1) :
    ∃ s' a, a = ⟨c.number, (Job.Id.random.run σ.words).1, task, none⟩ ∧
      Relation.ReflTransGen Step s s' ∧ Keeps (enrol σ now order a) s' ∧
      s'.dispatches = s.dispatches ++ [begun a now] ∧
      match task.mode with
      | .sync => (begun a now).reply = none ∧
          σ.start now c order task = ((enrol σ now order a).wait c .job).begin now a
      | .async => (begun a now).reply = some a.started ∧
          σ.start now c order task =
            ((enrol σ now order a).answer now c a.started, [.begin c.number]) := by
  -- the activity is kept as a variable: its identifier is a draw
  obtain ⟨a, ha⟩ : ∃ a : Activity, a = ⟨c.number, (Job.Id.random.run σ.words).1, task, none⟩ :=
    ⟨_, rfl⟩
  have hother : ∀ d ∈ s.dispatches, d.id ≠ a.id := by
    rw [ha]
    exact fresh
  -- the new dispatch stands at the end, and a step of it leaves the others where they are
  have hput : ∀ {ds : List Dispatch} {d d' : Dispatch}, ds = s.dispatches ++ [d] → d.id = a.id →
      d'.id = a.id → replace ds d' = s.dispatches ++ [d'] := by
    intro ds d d' hds hd hd'
    rw [hds, replace, List.map_append]
    refine congrArg₂ (· ++ ·) ?_ ?_
    · exact replace_absent fun x hx => hd' ▸ hother x hx
    · exact congrArg (fun x => [x]) (if_pos (hd.trans hd'.symm))
  have hlast : ∀ {ds : List Dispatch} {d : Dispatch}, ds = s.dispatches ++ [d] → d ∈ ds := by
    intro ds d hds
    rw [hds]
    exact List.mem_append_right _ List.mem_cons_self
  obtain ⟨s₁, h₁, hl₁, hr₁, hd₁⟩ : ∃ s₁, Step s s₁ ∧
      s₁.ledger = s.ledger.start a.id a.task.name a.task.mode (Value.ofMembers a.task.params)
        (wallClock now) ∧ s₁.registry = s.registry ∧
      s₁.dispatches = s.dispatches ++ [⟨a, wallClock now, .entered, none⟩] :=
    ⟨_, .enter (wallClock now) ((sound_of_reachable reach).fresh hother), rfl, rfl, rfl⟩
  obtain ⟨s₂, h₂, hl₂, hr₂, hd₂⟩ : ∃ s₂, Step s₁ s₂ ∧ s₂.ledger = s₁.ledger ∧
      s₂.registry = s₁.registry.note (.jobStarted a.task.name a.task.mode.name) ∧
      s₂.dispatches = s.dispatches ++ [⟨a, wallClock now, .working, none⟩] := by
    refine ⟨_, .begin (hlast hd₁) rfl, rfl, rfl, ?_⟩
    exact hput hd₁ rfl rfl
  obtain ⟨s₃, h₃, hl₃, hr₃, hd₃⟩ : ∃ s₃, Step s₂ s₃ ∧ s₃.ledger = s₂.ledger ∧
      s₃.registry = s₂.registry ∧ s₃.dispatches = s.dispatches ++ [begun a now] := by
    refine ⟨_, .reply (hlast hd₂) rfl, rfl, rfl, ?_⟩
    exact hput hd₂ rfl rfl
  refine ⟨s₃, a, ha, ((Relation.ReflTransGen.single h₁).tail h₂).tail h₃, ⟨?_, ?_⟩, hd₃, ?_⟩
  · rw [hl₃, hl₂, hl₁]
    show σ.table.start _ _ _ _ _ = s.ledger.table.start _ _ _ _ _
    rw [keeps.table]
  · rw [hr₃, hr₂, hr₁]
    show σ.registry.map _ = _
    rw [keeps.registry]
    rfl
  · have htask : a.task = task := by rw [ha]
    have hstart : σ.start now c order task = match task.mode with
        | .sync => ((enrol σ now order a).wait c .job).begin now a
        | .async => ((enrol σ now order a).answer now c a.started, [.begin c.number]) := by
      rw [ha]
      rfl
    cases hmode : task.mode with
    | sync =>
        rw [hmode] at hstart
        exact ⟨Dispatch.due?_of_waiting (htask ▸ hmode) rfl, hstart⟩
    | async =>
        rw [hmode] at hstart
        exact ⟨Dispatch.due?_async (htask ▸ hmode) Progress.noConfusion, hstart⟩

end Desk

end Havoc.Service
