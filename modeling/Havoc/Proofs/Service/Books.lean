import Havoc.Proofs.Service.Disconnect
import Havoc.Proofs.Service.Effect

/-! # The books of a service

    A service is one way in which dispatches and callers may take their turns: whatever comes in,
    its jobs, its table, its metrics and what it tells its callers are those of a room that some
    interleaving leads to.

    The route: `Mirrors` ties a service to a room.  Each of the four effects of an event is a run
    of the room (`Mirrors.aside`, `.start`, `.advance`, `.abandon`), so that an event is one too
    (`Mirrors.handle`).  A job needs an identifier that no job before it had, so a run is taken with
    the identifiers that its events draw (`Enrols`).  The main theorem is `service_mirrors_room`,
    and `gauge_of_run` says what the gauge of a service counts. -/

namespace Havoc.Service

open Http

/-! ## Dispatches that are replaced -/

section Replace

variable {ds : List Dispatch} {d : Dispatch} {p : Dispatch → Bool}

/-- A dispatch that fails a test is put in the place of one among those that pass it. -/
theorem filter_replace (hp : p d = false) :
    (replace ds d).filter p = (ds.filter p).filter fun x => x.id ≠ d.id := by
  rw [replace, List.filter_map, List.filter_filter]
  induction ds with
  | nil => rfl
  | cons x rest ih =>
      rw [List.filter_cons, List.filter_cons]
      by_cases hid : x.id = d.id
      · simp [hid, hp, ih]
      · by_cases hx : p x = true
        · simp [hid, hx, ih]
        · simp [hid, hx, ih]

/-- What is put in the place of a dispatch has the same job. -/
theorem map_id_replace : (replace ds d).map Dispatch.id = ds.map Dispatch.id := by
  rw [replace, List.map_map]
  refine List.map_congr_left fun x _ => ?_
  show (if x.id = d.id then d else x).id = x.id
  split
  · next h => exact h.symm
  · rfl

end Replace

/-- A dispatch that works is the same before and after a run if it is the same in the end. -/
theorem Desk.Becomes.antisymm {d d' : Dispatch} (h : Becomes d d') (h' : Becomes d' d)
    (hworking : d.progress = .working) : d' = d := by
  have hprogress : d'.progress = .working := by
    have hbegun : d'.progress ≠ .entered := h.begun (by rw [hworking]; exact Progress.noConfusion)
    have hnone : d'.progress.outcome? = none := by
      cases houtcome : d'.progress.outcome? with
      | none => rfl
      | some o =>
          have hended := h'.outcome o houtcome
          rw [hworking] at hended
          exact nomatch hended
    cases hd' : d'.progress with
    | working => rfl
    | entered => exact absurd hd' hbegun
    | ended | marked | noted | finished =>
        rw [hd'] at hnone
        cases hnone
  have hreply : d'.reply = d.reply := by
    cases hr : d'.reply with
    | some out => exact (h'.reply out hr).symm
    | none =>
        cases hr' : d.reply with
        | none => rfl
        | some out => exact hr ▸ h.reply out hr'
  obtain ⟨activity, startedAt, progress, reply⟩ := d
  obtain ⟨activity', startedAt', progress', reply'⟩ := d'
  obtain rfl : activity' = activity := h.activity
  obtain rfl : startedAt' = startedAt := h.startedAt
  obtain rfl : progress' = progress := hprogress.trans hworking.symm
  obtain rfl : reply' = reply := hreply
  rfl

namespace Room

variable {r : Room} {t : Desk} {d : Dispatch}

/-- A dropped job that is the same after a run was the same all along. -/
theorem Kept.mem_between (kept : Kept r) {u : Desk}
    (hsteps : Relation.ReflTransGen Desk.Step r.desk u) (hstep : Desk.Step u t)
    (hd : d ∈ r.desk.dispatches) (hdropped : d.id ∈ r.dropped) (hlast : d ∈ t.dispatches) :
    d ∈ u.dispatches := by
  have sound := Desk.sound_of_reachable kept.desk
  obtain ⟨reach', hlasts⟩ := Desk.lasts_of_steps kept.desk hsteps
  have sound' := Desk.sound_of_reachable reach'
  obtain ⟨d', hd', hbecomes⟩ := hlasts.1 d hd
  obtain ⟨d'', hd'', hbecomes'⟩ := (sound'.lasts hstep).1 d' hd'
  have hid : d''.id = d.id := congrArg Activity.id (hbecomes.trans hbecomes').activity
  obtain rfl := List.inj_on_of_nodup_map (sound'.step hstep).ids hd'' hlast hid
  obtain ⟨x, hx, hxid, -, hworking⟩ := kept.dropped _ hdropped
  obtain rfl := List.inj_on_of_nodup_map sound.ids hx hd hxid
  exact hbecomes.antisymm hbecomes' hworking ▸ hd'

/-- A run of the desk that leaves the dropped jobs as they are is a run of the room. -/
theorem reachable_of_steps (reach : Reachable r) (hsteps : Relation.ReflTransGen Desk.Step r.desk t)
    (hkept : ∀ d ∈ r.desk.dispatches, d.id ∈ r.dropped → d ∈ t.dispatches) :
    Reachable { r with desk := t } := by
  have kept := kept_of_reachable reach
  induction hsteps with
  | refl => exact reach
  | @tail u t hsteps hstep ih =>
      have hbetween := fun d hd hdropped =>
        kept.mem_between hsteps hstep hd hdropped (hkept d hd hdropped)
      refine (ih hbetween).step (.desk hstep ?_)
      intro d hd hdropped
      obtain ⟨x, hx, hid, -⟩ := kept.dropped d.id hdropped
      have hx' := hbetween x hx (hid ▸ hdropped)
      have sound := Desk.sound_of_reachable (Desk.lasts_of_steps kept.desk hsteps).1
      obtain rfl := List.inj_on_of_nodup_map sound.ids hx' hd hid
      exact hkept _ hx hdropped

theorem mem_executing_iff :
    d ∈ r.executing ↔ d ∈ r.desk.dispatches ∧ d.progress = .working ∧ d.id ∉ r.dropped := by
  rw [executing, List.mem_filter, List.mem_filter, Progress.isWorking_iff, decide_eq_true_iff,
    and_assoc]

end Room

/-! ## A service and its room -/

/-- A job as it is before it begins. -/
def Activity.bare (a : Activity) : Activity := { a with shape := none }

/-- A service is the mirror of a room that some interleaving leads to: it keeps the books of the
    desk, its jobs are the work that goes on there, and the callers of the desk were told what there
    was to tell, by the service itself. -/
structure Mirrors (σ : State) (r : Room) : Prop where
  room : r.Reachable
  keeps : Desk.Keeps σ r.desk
  rest : r.Rest
  jobs : σ.activities.map Activity.bare = r.executing.map Dispatch.activity
  told : ∀ d ∈ r.desk.dispatches, d.reply = d.due?
  answered : ∀ d ∈ r.desk.dispatches, ∀ out, d.reply = some out →
    ∃ x ∈ σ.answered, x.call = d.activity.call ∧ x.outcome = out

/-- The jobs that a room has had, one after the other. -/
def Room.ids (r : Room) : List Job.Id := r.desk.dispatches.map Dispatch.id

namespace Mirrors

open State

variable {σ σ' τ : State} {r : Room} {t : Desk} {d : Dispatch} {a : Activity} {c : Call}
  {now : Instant} {step : Load.Step Load.Shape} {order : Option Fault.Order} {task : Task}

theorem sound (h : Mirrors σ r) : r.desk.Sound :=
  Desk.sound_of_reachable (Room.kept_of_reachable h.room).desk

/-- What leaves the jobs alone is a run of the desk on which other things are noted. -/
theorem aside (h : Mirrors σ r) (haside : Aside σ σ') : ∃ r', Mirrors σ' r' ∧ r'.ids = r.ids := by
  obtain ⟨notes, hnotes, hregistry⟩ := haside.registry
  refine ⟨{ r with desk := { r.desk with registry := r.desk.registry.noteAll notes } }, ?_, rfl⟩
  exact {
    room := Room.reachable_of_steps h.room (Desk.steps_other notes r.desk hnotes) fun d hd _ => hd
    keeps := {
      table := haside.table.trans h.keeps.table
      registry := by
        rw [hregistry, h.keeps.registry]
        rfl }
    rest := h.rest
    jobs := haside.activities ▸ h.jobs
    told := h.told
    answered := by
      intro d hd out hout
      obtain ⟨x, hx, htold⟩ := h.answered d hd out hout
      exact ⟨x, haside.answered x hx, htold⟩ }

/-! ## Starts -/

/-- A job that starts is one more dispatch at the end, whose work goes on. -/
theorem enter (h : Mirrors σ r) {s' : Desk} {s : State}
    (hsteps : Relation.ReflTransGen Desk.Step r.desk s')
    (hdispatches : s'.dispatches = r.desk.dispatches ++ [Desk.begun a now])
    (hnew : a.id ∉ r.ids) (hbare : a.bare = a) (hkeeps : Desk.Keeps s s')
    (hactivities : s.activities = σ.activities ++ [a])
    (hanswered : ∀ x ∈ σ.answered, x ∈ s.answered)
    (htold : ∀ out, (Desk.begun a now).reply = some out →
      ∃ x ∈ s.answered, x.call = a.call ∧ x.outcome = out) :
    ∃ r', Mirrors s r' ∧ r'.ids = r.ids ++ [a.id] := by
  have hfresh : a.id ∉ r.dropped := by
    intro hdropped
    obtain ⟨d, hd, hid, -⟩ := (Room.kept_of_reachable h.room).dropped _ hdropped
    exact hnew (hid ▸ List.mem_map_of_mem hd)
  refine ⟨{ r with desk := s' }, ?_, ?_⟩
  · exact {
      room := by
        refine Room.reachable_of_steps h.room hsteps fun d hd _ => ?_
        rw [hdispatches]
        exact List.mem_append_left _ hd
      keeps := hkeeps
      rest := by
        intro d hd
        have hd : d ∈ s'.dispatches := hd
        rw [hdispatches, List.mem_append, List.mem_singleton] at hd
        rcases hd with hd | rfl
        · exact h.rest d hd
        · exact Or.inl rfl
      jobs := by
        have hexecuting : Room.executing { r with desk := s' } =
            r.executing ++ [Desk.begun a now] := by
          have hid : (Desk.begun a now).id ∉ r.dropped := hfresh
          have hworking : (Desk.begun a now).progress.isWorking = true := rfl
          simp [Room.executing, hdispatches, hid, hworking]
        rw [hexecuting, hactivities, List.map_append, List.map_append, h.jobs]
        exact congrArg (_ ++ [·]) hbare
      told := by
        intro d hd
        have hd : d ∈ s'.dispatches := hd
        rw [hdispatches, List.mem_append, List.mem_singleton] at hd
        rcases hd with hd | rfl
        · exact h.told d hd
        · rfl
      answered := by
        intro d hd out hout
        have hd : d ∈ s'.dispatches := hd
        rw [hdispatches, List.mem_append, List.mem_singleton] at hd
        rcases hd with hd | rfl
        · obtain ⟨x, hx, hx'⟩ := h.answered d hd out hout
          exact ⟨x, hanswered x hx, hx'⟩
        · exact htold out hout }
  · show s'.dispatches.map Dispatch.id = _
    rw [hdispatches, List.map_append]
    rfl

/-! ## Steps -/

/-- Each job of the service is the work of a dispatch that goes on. -/
theorem executing_of_activity (h : Mirrors σ r) (ha : a ∈ σ.activities) :
    ∃ d ∈ r.executing, d.activity = a.bare := by
  have hmem : a.bare ∈ r.executing.map Dispatch.activity := by
    rw [← h.jobs]
    exact List.mem_map_of_mem ha
  exact List.mem_map.mp hmem

/-- Without the job of a call the service has the jobs of the room without its dispatch. -/
theorem jobs_without (h : Mirrors σ r) (horderly : Orderly (σ.share a.call))
    (ha : a ∈ σ.activities) (hd : d ∈ r.executing) (hactivity : d.activity = a.bare) :
    (σ.activities.filter fun b => b.call ≠ a.call).map Activity.bare =
      (r.executing.filter fun x => x.id ≠ d.id).map Dispatch.activity := by
  have hcall : ∀ x ∈ r.executing, (x.activity.call ≠ a.call ↔ x.id ≠ d.id) := by
    intro x hx
    obtain ⟨b, hb, hbare⟩ : ∃ b ∈ σ.activities, b.bare = x.activity := by
      have hmem : x.activity ∈ σ.activities.map Activity.bare := by
        rw [h.jobs]
        exact List.mem_map_of_mem hx
      exact List.mem_map.mp hmem
    refine not_congr ⟨fun hsame => ?_, fun hsame => ?_⟩
    · -- under one number stands one job
      have hbcall : b.call = a.call := by
        rw [← hsame, ← hbare]
        rfl
      have hmem : b ∈ (σ.share a.call).activities := mem_share_activities.mpr ⟨hb, hbcall⟩
      rw [horderly.alone ha, List.mem_singleton] at hmem
      rw [Dispatch.id, Dispatch.id, ← hbare, hmem, hactivity]
    · obtain rfl := List.inj_on_of_nodup_map h.sound.ids (Room.mem_executing_iff.mp hx).1
        (Room.mem_executing_iff.mp hd).1 hsame
      rw [hactivity]
      rfl
  have hfilter : (r.executing.filter fun x => x.activity.call ≠ a.call) =
      r.executing.filter fun x => x.id ≠ d.id :=
    List.filter_congr fun x hx => decide_eq_decide.mpr (hcall x hx)
  have hjobs := congrArg (List.filter fun b : Activity => b.call ≠ a.call) h.jobs
  rw [List.filter_map, List.filter_map] at hjobs
  rw [← hfilter]
  exact hjobs

/-- A job that ends is one whole finish on the desk. -/
theorem finish (h : Mirrors σ r) (horderly : Orderly (σ.share a.call)) (ha : a ∈ σ.activities)
    (outcome : Job.Outcome) : ∃ r', Mirrors (σ.finish now a outcome) r' ∧ r'.ids = r.ids := by
  obtain ⟨d, hd, hactivity⟩ := h.executing_of_activity ha
  obtain ⟨hmem, hworking, hkept⟩ := Room.mem_executing_iff.mp hd
  have hcall : (σ.call? d.activity.call).isSome ↔ d.activity.task.mode = .sync := by
    rw [hactivity]
    exact horderly.isSome_call? ha
  obtain ⟨s', m, -, hsteps, hkeeps, hdispatches, hreply⟩ :=
    Desk.finish_runs (Room.kept_of_reachable h.room).desk h.keeps hmem hworking (h.told d hmem)
      hcall now outcome
  have hsame : σ.finish now d.activity outcome = σ.finish now a outcome := by
    rw [hactivity]
    rfl
  rw [hsame] at hkeeps hreply
  have hanswered : (∀ x ∈ σ.answered, x ∈ (σ.finish now a outcome).answered) ∧
      ∀ out, (Desk.concluded d m).reply = some out →
        ∃ x ∈ (σ.finish now a outcome).answered, x.call = d.activity.call ∧ x.outcome = out := by
    cases hmode : d.activity.task.mode with
    | sync =>
        rw [hmode] at hreply
        obtain ⟨hcompleted, reply, htold⟩ := hreply
        rw [htold, hcompleted]
        refine ⟨fun x hx => List.mem_cons_of_mem _ hx, fun out hout => ?_⟩
        exact ⟨_, List.mem_cons_self, rfl, Option.some.inj hout⟩
    | async =>
        rw [hmode] at hreply
        obtain ⟨hstarted, htold⟩ := hreply
        rw [htold, hstarted]
        exact ⟨fun x hx => hx, h.answered d hmem⟩
  refine ⟨{ r with desk := s' }, ?_, ?_⟩
  · exact {
      room := by
        refine Room.reachable_of_steps h.room hsteps fun x hx hdropped => ?_
        rw [hdispatches]
        exact other_mem_replace hx fun hid => hkept (hid ▸ hdropped)
      keeps := hkeeps
      rest := by
        intro x hx
        have hx : x ∈ s'.dispatches := hx
        rw [hdispatches] at hx
        rcases mem_replace hx with rfl | ⟨hx, -⟩
        · exact Or.inr rfl
        · exact h.rest x hx
      jobs := by
        have hexecuting : Room.executing { r with desk := s' } =
            r.executing.filter fun x => x.id ≠ d.id := by
          show (s'.dispatches.filter _).filter _ = _
          rw [hdispatches, filter_replace rfl, List.filter_comm]
          rfl
        rw [hexecuting, activities_finish]
        exact h.jobs_without horderly ha hd hactivity
      told := by
        intro x hx
        have hx : x ∈ s'.dispatches := hx
        rw [hdispatches] at hx
        rcases mem_replace hx with rfl | ⟨hx, -⟩
        · rfl
        · exact h.told x hx
      answered := by
        intro x hx out hout
        have hx : x ∈ s'.dispatches := hx
        rw [hdispatches] at hx
        rcases mem_replace hx with rfl | ⟨hx, -⟩
        · exact hanswered.2 out hout
        · obtain ⟨y, hy, htold⟩ := h.answered x hx out hout
          exact ⟨y, hanswered.1 y hy, htold⟩ }
  · show s'.dispatches.map Dispatch.id = _
    rw [hdispatches, map_id_replace]
    rfl

/-- A step of a job notes other things, and then the job ends or goes on. -/
theorem advance (h : Mirrors σ r) (horderly : ∀ n, Orderly (σ.share n)) (ha : a ∈ σ.activities)
    (hnotes : Load.NotesWork step) :
    ∃ r', Mirrors (σ.advance now a step).1 r' ∧ r'.ids = r.ids := by
  have hother : ∀ note ∈ step.notes, Desk.isOther note = true := by
    intro note hnote
    have hwork := hnotes note hnote
    cases note with
    | jobStarted | jobFinished => exact Bool.noConfusion hwork
    | _ => rfl
  obtain ⟨r₁, h₁, hids₁⟩ := h.aside (aside_noteAll hother)
  rcases advance_eq σ now a step with ⟨outcome, -, heq⟩ | ⟨-, words, heq⟩
  · obtain ⟨r', h', hids'⟩ := h₁.finish (horderly a.call) ha outcome
    exact ⟨r', heq ▸ h', hids'.trans hids₁⟩
  · refine ⟨r₁, ?_, hids₁⟩
    rw [heq]
    refine { h₁ with keeps := ⟨h₁.keeps.table, h₁.keeps.registry⟩, jobs := Eq.trans ?_ h₁.jobs }
    -- what takes the place of the job is the same but for its shape
    show (σ.activities.map _).map Activity.bare = σ.activities.map Activity.bare
    rw [List.map_map]
    refine List.map_congr_left fun b hb => ?_
    show Activity.bare (if b.call = a.call then { a with shape := some step.state } else b) = b.bare
    by_cases hcall : b.call = a.call
    · have hmem : b ∈ (σ.share a.call).activities := mem_share_activities.mpr ⟨hb, hcall⟩
      rw [(horderly a.call).alone ha, List.mem_singleton] at hmem
      rw [if_pos hcall, hmem]
      rfl
    · rw [if_neg hcall]

/-- A job that starts is put on record; it begins at once for a caller who waits, and who does
    not wait is told that it has started. -/
theorem start (h : Mirrors σ r) (horderly : ∀ n, Orderly (σ.share n))
    (hfree : (σ.share c.number).activities = []) (hnew : (Job.Id.random.run σ.words).1 ∉ r.ids) :
    ∃ r', Mirrors (σ.start now c order task).1 r' ∧
      r'.ids = r.ids ++ [(Job.Id.random.run σ.words).1] := by
  have hfresh : ∀ d ∈ r.desk.dispatches, d.id ≠ (Job.Id.random.run σ.words).1 :=
    fun d hd heq => hnew (heq ▸ List.mem_map_of_mem hd)
  obtain ⟨s', a, ha, hsteps, hkeeps, hdispatches, hstart⟩ :=
    Desk.start_runs (Room.kept_of_reachable h.room).desk h.keeps now c order task hfresh
  have hid : a.id = (Job.Id.random.run σ.words).1 := by rw [ha]
  have hcall : a.call = c.number := by rw [ha]
  have hbare : a.bare = a := by
    rw [ha]
    rfl
  rw [← hid] at hnew ⊢
  cases hmode : task.mode with
  | sync =>
      rw [hmode] at hstart
      obtain ⟨hnone, hstart⟩ := hstart
      obtain ⟨r₁, h₁, hids⟩ := h.enter (s := (Desk.enrol σ now order a).wait c .job) hsteps
        hdispatches hnew hbare ⟨hkeeps.table, hkeeps.registry⟩ rfl (fun x hx => hx)
        fun out hout => absurd (hnone.symm.trans hout) (Option.some_ne_none _).symm
      have horderly₁ : ∀ n, Orderly (((Desk.enrol σ now order a).wait c .job).share n) := by
        intro n
        by_cases hn : c.number = n
        · subst hn
          refine .awaited a { c with waiting := .job } (activities_share_enter hcall hfree rfl)
            ?_ ?_ rfl
          · rw [ha]
            exact hmode
          · rw [share_wait_self rfl]
        · have hsame : (Desk.enrol σ now order a).share n = σ.share n :=
            share_enter (hcall ▸ hn) rfl rfl rfl
          rw [share_wait hn, hsame]
          exact horderly n
      have hmem : a ∈ ((Desk.enrol σ now order a).wait c .job).activities :=
        List.mem_append_right _ List.mem_cons_self
      obtain ⟨r', h', hids'⟩ := h₁.advance horderly₁ hmem (a.task.work.begin_notesWork now)
      rw [hstart]
      exact ⟨r', h', hids'.trans hids⟩
  | async =>
      rw [hmode] at hstart
      obtain ⟨hstarted, hstart⟩ := hstart
      obtain ⟨htable, notes, hnotes, hregistry⟩ :=
        Desk.answer_frame (Desk.enrol σ now order a) now c c.info a.started
      rw [hstart]
      refine h.enter (hsteps.trans (Desk.steps_other notes s' hnotes)) hdispatches hnew hbare
        ⟨htable.trans hkeeps.table, ?_⟩ activities_answerWith ?_ ?_
      · rw [State.answer, hregistry, hkeeps.registry]
        rfl
      · intro x hx
        rw [answered_answer]
        exact List.mem_cons_of_mem _ hx
      · intro out hout
        rw [answered_answer]
        exact ⟨_, List.mem_cons_self, hcall.symm, Option.some.inj (hstarted.symm.trans hout)⟩

/-- A caller who goes away takes his job with him. -/
theorem abandon (h : Mirrors σ r) {n : Nat} (horderly : Orderly (σ.share n))
    (hc : σ.call? n = some c) (hsome : (σ.share n).activities ≠ []) :
    ∃ r', Mirrors (σ.abandon n) r' ∧ r'.ids = r.ids := by
  have habandon : σ.abandon n = (σ.dropCall n).dropActivity n := by
    rw [State.abandon, hc]
  obtain ⟨a, hstands⟩ := List.exists_mem_of_ne_nil _ hsome
  obtain ⟨ha, rfl⟩ := mem_share_activities.mp hstands
  obtain ⟨d, hd, hactivity⟩ := h.executing_of_activity ha
  obtain ⟨hmem, hworking, hkept⟩ := Room.mem_executing_iff.mp hd
  have hmode : d.activity.task.mode = .sync := by
    rw [hactivity]
    exact (horderly.isSome_call? ha).mp (by rw [hc]; rfl)
  rw [habandon]
  refine ⟨{ r with dropped := d.id :: r.dropped }, ?_, rfl⟩
  exact { h with
    room := h.room.step (.drop hmem hmode hworking hkept)
    keeps := ⟨h.keeps.table, h.keeps.registry⟩
    jobs := by
      have hexecuting : Room.executing { r with dropped := d.id :: r.dropped } =
          r.executing.filter fun x => x.id ≠ d.id := by
        simp [Room.executing, List.filter_filter, Bool.and_assoc]
      rw [hexecuting]
      exact h.jobs_without horderly ha hd hactivity }

/-! ## Events -/

/-- An event is a run of the room, and takes up at most one job that is new. -/
theorem handle {e : Instant × Event} (h : Mirrors σ r) (horderly : ∀ n, Orderly (σ.share n))
    (harrive : ∀ n, arrival? e = some n → (σ.share n).activities = []) :
    (∃ r', Mirrors (σ.handle e.1 e.2).1 r' ∧ r'.ids = r.ids) ∨ ∃ id, Registers σ e id := by
  cases effect_of_handle horderly harrive with
  | aside haside _ => exact Or.inl (h.aside haside)
  | registers id hregisters => exact Or.inr ⟨id, hregisters⟩
  | @advances s₁ a step hown ha haside hshare hnotes hadvance =>
      obtain ⟨r₁, h₁, hids₁⟩ := h.aside haside
      have ha₁ : a ∈ s₁.activities := haside.activities ▸ ha
      have horderly₁ : ∀ n, Orderly (s₁.share n) := fun n => hshare n ▸ horderly n
      obtain ⟨r', h', hids'⟩ := h₁.advance horderly₁ ha₁ hnotes
      rw [hadvance]
      exact Or.inl ⟨r', h', hids'.trans hids₁⟩
  | @leaves n c hown hc hsome hleaves =>
      rw [hleaves]
      exact Or.inl (h.abandon (horderly n) hc hsome)

/-- The start of a job under an identifier that no job before it had is a run of the room. -/
theorem registers {e : Instant × Event} {id : Job.Id} (h : Mirrors σ r)
    (horderly : ∀ n, Orderly (σ.share n)) (hregisters : Registers σ e id) (hnew : id ∉ r.ids) :
    ∃ r', Mirrors (σ.handle e.1 e.2).1 r' ∧ r'.ids = r.ids ++ [id] := by
  obtain ⟨c, s₁, order, task, -, hfree, haside, hshare, hstart, rfl⟩ := hregisters
  obtain ⟨r₁, h₁, hids₁⟩ := h.aside haside
  rw [← hids₁] at hnew ⊢
  rw [hstart]
  exact h₁.start (fun n => hshare n ▸ horderly n) (hshare _ ▸ hfree) hnew

end Mirrors

/-! ## Runs -/

namespace State

variable {s₀ s : State} {n : Nat} {e : Instant × Event} {events : List (Instant × Event)}
  {ids : List Job.Id} {id : Job.Id}

/-- The identifiers that a run gives to its jobs, one after the other. -/
inductive Enrols (s₀ : State) : List (Instant × Event) → List Job.Id → Prop where
  | start : Enrols s₀ [] []
  | registers {events : List (Instant × Event)} {ids : List Job.Id} {e : Instant × Event}
      {id : Job.Id} : Enrols s₀ events ids → Registers (s₀.run events) e id →
      Enrols s₀ (events ++ [e]) (ids ++ [id])
  | other {events : List (Instant × Event)} {ids : List Job.Id} {e : Instant × Event} :
      Enrols s₀ events ids → (∀ id, ¬ Registers (s₀.run events) e id) →
      Enrols s₀ (events ++ [e]) ids

/-- Every run gives some identifiers to its jobs. -/
theorem exists_enrols (s₀ : State) (events : List (Instant × Event)) :
    ∃ ids, Enrols s₀ events ids := by
  induction events using List.reverseRecOn with
  | nil => exact ⟨[], .start⟩
  | append_singleton events e ih =>
      obtain ⟨ids, hids⟩ := ih
      by_cases h : ∃ id, Registers (s₀.run events) e id
      · obtain ⟨id, hid⟩ := h
        exact ⟨_, hids.registers hid⟩
      · exact ⟨ids, hids.other fun id hid => h ⟨id, hid⟩⟩

/-- Nothing but a request comes to stand under a number. -/
theorem Unknown.handle (h : Unknown n s) (harrive : arrival? e ≠ some n) :
    Unknown n (s.handle e.1 e.2).1 := by
  refine (share_idle ?_ ?_ ?_).trans h
  · rw [h]
  · rw [h]
  · rintro request heq
    exact harrive (by rw [arrival?, heq])

/-- A number that has not come in stands for nothing. -/
theorem Unknown.run (h : Unknown n s₀) (hnot : n ∉ arrivals events) :
    Unknown n (s₀.run events) := by
  induction events using List.reverseRecOn with
  | nil => exact h
  | append_singleton events e ih =>
      rw [mem_arrivals_concat, not_or] at hnot
      rw [run_concat]
      exact (ih hnot.1).handle hnot.2

/-- The requests of a run come in under numbers of their own, which stand for nothing before. -/
structure Numbered (s₀ : State) (events : List (Instant × Event)) : Prop where
  nodup : (arrivals events).Nodup
  unknown : ∀ n ∈ arrivals events, Unknown n s₀

theorem Numbered.init (h : Numbered s₀ (events ++ [e])) : Numbered s₀ events :=
  ⟨(nodup_arrivals_concat h.nodup).1,
    fun n hn => h.unknown n (mem_arrivals_concat.mpr (Or.inl hn))⟩

/-- The number of a request that comes in last stands for nothing until then. -/
theorem Numbered.free_of_arrival (h : Numbered s₀ (events ++ [e])) (hn : arrival? e = some n) :
    ((s₀.run events).share n).activities = [] := by
  have hnot : n ∉ arrivals events := (nodup_arrivals_concat h.nodup).2 n hn
  have hunknown := (h.unknown n (mem_arrivals_concat.mpr (Or.inr hn))).run hnot
  exact congrArg Share.activities hunknown

theorem orderly_run (hnumbered : Numbered s₀ events) (hactivities : s₀.activities = []) :
    ∀ n, Orderly ((s₀.run events).share n) := by
  induction events using List.reverseRecOn with
  | nil =>
      intro n
      refine .free ?_
      show s₀.activities.filter _ = []
      rw [hactivities]
      rfl
  | append_singleton events e ih =>
      rw [run_concat]
      exact Orderly.handle (ih hnumbered.init) fun n hn => hnumbered.free_of_arrival hn

/-- **A SERVICE IS THE MIRROR OF A ROOM.**  A service without jobs is given any events.  As long as
    no two jobs are given the same identifier, its jobs, its table, its metrics and its replies are
    those of dispatches and callers that take their turns in some order. -/
theorem service_mirrors_room (hactivities : s₀.activities = []) (htable : s₀.table = {})
    (hregistry : s₀.registry = some {}) (hnumbered : Numbered s₀ events)
    (henrols : Enrols s₀ events ids) (hids : ids.Nodup) :
    ∃ r, Mirrors (s₀.run events) r ∧ r.ids = ids := by
  induction henrols with
  | start =>
      refine ⟨{}, ?_, rfl⟩
      exact {
        room := .empty
        keeps := ⟨htable, hregistry⟩
        rest := fun d hd => absurd hd List.not_mem_nil
        jobs := congrArg (List.map Activity.bare) hactivities
        told := fun d hd => absurd hd List.not_mem_nil
        answered := fun d hd => absurd hd List.not_mem_nil }
  | @registers events ids e id henrols hregisters ih =>
      rw [List.nodup_append] at hids
      obtain ⟨r, h, hr⟩ := ih hnumbered.init hids.1
      have hnew : id ∉ r.ids := by
        rw [hr]
        exact fun hmem => hids.2.2 id hmem id (List.mem_singleton.mpr rfl) rfl
      rw [run_concat, ← hr]
      exact h.registers (orderly_run hnumbered.init hactivities) hregisters hnew
  | @other events ids e henrols hnone ih =>
      obtain ⟨r, h, hr⟩ := ih hnumbered.init hids
      rw [run_concat]
      rcases h.handle (orderly_run hnumbered.init hactivities)
        fun n hn => hnumbered.free_of_arrival hn with ⟨r', h', hr'⟩ | ⟨id, hid⟩
      · exact ⟨r', h', hr'.trans hr⟩
      · exact absurd hid (hnone id)

/-- What the gauge of a service counts, and which records say that a job runs: the jobs that have
    not ended, those that have broken off among them, and the jobs whose callers went away while
    they waited. -/
theorem gauge_of_run (hactivities : s₀.activities = []) (htable : s₀.table = {})
    (hregistry : s₀.registry = some {}) (hnumbered : Numbered s₀ events)
    (henrols : Enrols s₀ events ids) (hids : ids.Nodup) :
    ∃ dropped : List Job.Id, dropped.Nodup ∧
      (s₀.run events).registry.map (·.jobsActive) =
        some (((s₀.run events).activities.length + dropped.length : Nat) : Int) ∧
      ∀ record ∈ (s₀.run events).table.records, record.status = .running ↔
        record.id ∈ (s₀.run events).activities.map Activity.id ∨ record.id ∈ dropped := by
  obtain ⟨r, h, -⟩ :=
    service_mirrors_room hactivities htable hregistry hnumbered henrols hids
  have kept := Room.kept_of_reachable h.room
  have hlength : (s₀.run events).activities.length = r.executing.length := by
    have hjobs := congrArg List.length h.jobs
    rwa [List.length_map, List.length_map] at hjobs
  have hjobs : (s₀.run events).activities.map Activity.id = r.executing.map Dispatch.id := by
    have hjobs := congrArg (List.map Activity.id) h.jobs
    rw [List.map_map, List.map_map] at hjobs
    exact hjobs
  refine ⟨r.dropped, kept.nodup, ?_, ?_⟩
  · rw [h.keeps.registry, hlength]
    exact congrArg some ((kept.gauge h.rest).trans (Int.natCast_add _ _).symm)
  · rw [h.keeps.table, hjobs]
    exact fun record hrecord => kept.running h.rest hrecord

end State

end Havoc.Service
