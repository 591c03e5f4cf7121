import Havoc.Proofs.Load.Ramp
import Mathlib.Data.List.Nodup

/-! # The numbers of a ramp's resources

    A tick numbers its openings on from the number of resources that are held.  As long as every
    opening succeeds, that gives each resource a number of its own.  An opening that fails leaves
    a number behind it that is too high for what is held then, and a later tick gives out that
    number once more.

    The route: a number is `Outrun` when an opening with a smaller one, begun at the same tick,
    has failed.  `Batch` says where the openings of one tick stand.  When they are over, every
    resource has a number below the count of what is held, or an outrun one (`Batch.low`), so
    the numbers of the next tick meet outrun ones only.  Every move of a ramp keeps this
    (`Numbered.tell`), and the main theorem is `shared_numbers_are_outrun`. -/

namespace Havoc.Load.Ramp

variable {name : String} {p : Plan} {t₀ t now : Instant} {h : List Beat} {b : Beat} {r : Ramp}
  {old new : List Resource} {lost ws : List Nat} {worker : Nat}

/-! ## Outrun numbers -/

/-- An opening under a number began together with one under a smaller number, and that one has
    failed before any other opening began. -/
inductive Outrun (h : List Beat) (worker : Nat) : Prop where
  | intro {past between rest : List Beat} {tick failure : Beat} {smaller : Nat} :
      h = past ++ tick :: (between ++ failure :: rest) →
      (∀ x ∈ between, x.openings = []) →
      worker ∈ tick.openings → smaller ∈ tick.openings → smaller < worker →
      smaller ∈ failure.unopened → Outrun h worker

theorem Outrun.snoc (b : Beat) (ho : Outrun h worker) : Outrun (h ++ [b]) worker := by
  cases ho with
  | @intro past between rest tick failure smaller heq hquiet hworker hsmaller hlt hfail =>
      have hsplit : h ++ [b] = past ++ tick :: (between ++ failure :: (rest ++ [b])) := by
        rw [heq, List.append_assoc, List.cons_append, List.append_assoc, List.cons_append]
      exact .intro hsplit hquiet hworker hsmaller hlt hfail

/-- Where nothing fails no number is outrun. -/
theorem not_outrun (hnone : h.flatMap Beat.unopened = []) : ¬ Outrun h worker := by
  rintro ⟨rfl, -, -, -, -, hfail⟩
  refine absurd (List.mem_flatMap.mpr ⟨_, ?_, hfail⟩) (hnone ▸ List.not_mem_nil)
  exact List.mem_append_right _ (.tail _ (List.mem_append_right _ (.head _)))

/-- Resources of which two with one number are behind a failure. -/
def Apart (h : List Beat) (held : List Resource) : Prop :=
  held.Pairwise fun first second => first.worker = second.worker → Outrun h first.worker

theorem Apart.snoc {held : List Resource} (b : Beat) (ha : Apart h held) : Apart (h ++ [b]) held :=
  ha.imp fun hone heq => (hone heq).snoc b

/-- Resources whose numbers are below their count, or outrun. -/
def Low (h : List Beat) (held : List Resource) : Prop :=
  ∀ resource ∈ held, resource.worker < held.length ∨ Outrun h resource.worker

theorem Low.snoc {held : List Resource} (b : Beat) (hl : Low h held) : Low (h ++ [b]) held :=
  fun resource hmem => (hl resource hmem).imp_right (Outrun.snoc b)

/-! ## The openings of a tick -/

/-- The last moment at which openings began, and those since. -/
structure Since (h : List Beat) (tick : Beat) (since : List Beat) : Prop where
  split : ∃ past, h = past ++ tick :: since
  quiet : ∀ x ∈ since, x.openings = []

theorem Since.snoc {tick : Beat} {since : List Beat} (hs : Since h tick since)
    (hg : b.openings = []) : Since (h ++ [b]) tick (since ++ [b]) := by
  obtain ⟨⟨past, rfl⟩, hquiet⟩ := hs
  refine ⟨⟨past, by rw [List.append_assoc, List.cons_append]⟩, fun x hx => ?_⟩
  rcases List.mem_append.mp hx with hx | hx
  · exact hquiet x hx
  · rw [List.mem_singleton.mp hx, hg]

/-- The openings of the last tick: `old` was held before it, `new` are those that have succeeded,
    `lost` have failed and `ws` are still under way. -/
structure Batch (h : List Beat) (old new : List Resource) (lost ws : List Nat) : Prop where
  low : Low h old
  begun : ∃ tick since, Since h tick since ∧
    (∃ n, tick.openings = (List.range n).map (old.length + ·)) ∧
    tick.openings.Perm (new.map Resource.worker ++ (lost ++ ws)) ∧
    ∀ smaller ∈ lost, ∃ failure ∈ since, smaller ∈ failure.unopened

/-- The numbers of a tick go on from the number of resources held. -/
theorem mem_numbers {n k : Nat} :
    worker ∈ (List.range n).map (k + ·) ↔ k ≤ worker ∧ worker < k + n := by
  rw [List.mem_map]
  constructor
  · rintro ⟨i, hi, rfl⟩
    exact ⟨Nat.le_add_right k i, Nat.add_lt_add_left (List.mem_range.mp hi) k⟩
  · rintro ⟨hle, hlt⟩
    exact ⟨worker - k, List.mem_range.mpr (Nat.sub_lt_left_of_lt_add hle hlt),
      Nat.add_sub_of_le hle⟩

theorem nodup_numbers (n k : Nat) : ((List.range n).map (k + ·)).Nodup :=
  List.Nodup.map (fun _ _ => Nat.add_left_cancel) List.nodup_range

/-- A number with a failed one before it in the batch is outrun. -/
theorem Batch.outrun {smaller : Nat} (hb : Batch h old new lost ws)
    (hworker : worker ∈ new.map Resource.worker) (hlost : smaller ∈ lost)
    (hlt : smaller < worker) : Outrun h worker := by
  obtain ⟨-, tick, since, ⟨⟨past, rfl⟩, hquiet⟩, -, hperm, hfailed⟩ := hb
  obtain ⟨failure, hmem, hfail⟩ := hfailed smaller hlost
  obtain ⟨between, rest, rfl⟩ := List.append_of_mem hmem
  refine .intro rfl (fun x hx => hquiet x (List.mem_append_left _ hx)) ?_ ?_ hlt hfail
  · exact hperm.mem_iff.mpr (List.mem_append_left _ hworker)
  · exact hperm.mem_iff.mpr (List.mem_append_right _ (List.mem_append_left _ hlost))

/-- When the openings of a tick are over, all numbers are low again or outrun: before a number
    that is not, every other of its batch has succeeded. -/
theorem Batch.low_all (hb : Batch h old new lost []) : Low h (old ++ new) := by
  intro resource hmem
  rw [List.length_append]
  rcases List.mem_append.mp hmem with hold | hnew
  · exact (hb.low resource hold).imp_left fun hlt => Nat.lt_add_right _ hlt
  · have hworker : resource.worker ∈ new.map Resource.worker := List.mem_map_of_mem hnew
    by_cases hclear : ∃ smaller ∈ lost, smaller < resource.worker
    · obtain ⟨smaller, hlost, hlt⟩ := hclear
      exact .inr (hb.outrun hworker hlost hlt)
    · left
      obtain ⟨-, tick, since, -, ⟨n, hnumbers⟩, hperm, -⟩ := hb
      rw [hnumbers, List.append_nil] at hperm
      have hrange := mem_numbers.mp (hperm.mem_iff.mpr (List.mem_append_left _ hworker))
      -- the numbers up to this one are numbers of resources that are held
      have hsub : (List.range (resource.worker + 1 - old.length)).map (old.length + ·) ⊆
          new.map Resource.worker := by
        intro w hw
        obtain ⟨hle, hlt⟩ := mem_numbers.mp hw
        have hbatch : w ∈ (List.range n).map (old.length + ·) :=
          mem_numbers.mpr ⟨hle, by omega⟩
        rcases List.mem_append.mp (hperm.mem_iff.mp hbatch) with hopened | hlost
        · exact hopened
        · obtain rfl : w = resource.worker :=
            Nat.le_antisymm (by omega) (Nat.le_of_not_lt fun hless => hclear ⟨w, hlost, hless⟩)
          exact hworker
      have hcount := (List.subperm_of_subset (nodup_numbers _ _) hsub).length_le
      rw [List.length_map, List.length_range, List.length_map] at hcount
      omega

theorem Batch.opened {resource : Resource} (hb : Batch h old new lost ws)
    (hmem : resource.worker ∈ ws) (hg : b.openings = []) :
    Batch (h ++ [b]) old (new ++ [resource]) lost (ws.erase resource.worker) := by
  obtain ⟨hlow, tick, since, hsince, hnumbers, hperm, hfailed⟩ := hb
  refine ⟨hlow.snoc b, tick, since ++ [b], hsince.snoc hg, hnumbers, ?_, ?_⟩
  · rw [List.map_append, List.map_singleton, List.append_assoc]
    refine hperm.trans (List.Perm.append_left _ ?_)
    exact (List.Perm.append_left _ (List.perm_cons_erase hmem)).trans List.perm_middle
  · intro smaller hlost
    obtain ⟨failure, hf, hfail⟩ := hfailed smaller hlost
    exact ⟨failure, List.mem_append_left _ hf, hfail⟩

theorem Batch.failed (hb : Batch h old new lost ws) (hmem : worker ∈ ws) (hg : b.openings = [])
    (hu : b.unopened = [worker]) :
    Batch (h ++ [b]) old new (lost ++ [worker]) (ws.erase worker) := by
  obtain ⟨hlow, tick, since, hsince, hnumbers, hperm, hfailed⟩ := hb
  refine ⟨hlow.snoc b, tick, since ++ [b], hsince.snoc hg, hnumbers, ?_, ?_⟩
  · rw [List.append_assoc]
    refine hperm.trans (List.Perm.append_left _ (List.Perm.append_left _ ?_))
    exact List.perm_cons_erase hmem
  · intro smaller hlost
    rcases List.mem_append.mp hlost with hlost | hlost
    · obtain ⟨failure, hf, hfail⟩ := hfailed smaller hlost
      exact ⟨failure, List.mem_append_left _ hf, hfail⟩
    · exact ⟨b, List.mem_append_right _ (.head _), hu ▸ hlost⟩

/-- A resource that is opened meets its number only among those that are outrun. -/
theorem Batch.apart {resource : Resource} (hb : Batch h old new lost ws)
    (hmem : resource.worker ∈ ws) (ha : Apart h (old ++ new)) :
    Apart h (old ++ new ++ [resource]) := by
  refine List.pairwise_append.mpr ⟨ha, List.pairwise_singleton _ _, ?_⟩
  intro first hfirst second hsecond heq
  rw [List.mem_singleton.mp hsecond] at heq
  obtain ⟨hlow, tick, since, -, ⟨n, hnumbers⟩, hperm, -⟩ := hb
  rw [hnumbers] at hperm
  have hws : resource.worker ∈ lost ++ ws := List.mem_append_right _ hmem
  rcases List.mem_append.mp hfirst with hold | hnew
  · have hrange := mem_numbers.mp (hperm.mem_iff.mpr (List.mem_append_right _ hws))
    refine (hlow first hold).resolve_left fun hlt => ?_
    omega
  · -- one batch gives out no number twice
    have hnodup := hperm.nodup_iff.mp (nodup_numbers _ _)
    have hdisjoint := (List.nodup_append.mp hnodup).2.2
    exact absurd heq (hdisjoint _ (List.mem_map_of_mem hnew) _ hws)

/-! ## Every run -/

/-- The numbers of what a ramp holds: two that are equal are outrun, and the openings under way
    go on from what was held before them. -/
structure Numbered (h : List Beat) (r : Ramp) : Prop where
  apart : Apart h r.held
  batch : r.keeping = true → (Low h r.held ∧ r.waiting = []) ∨
    ∃ old new lost, r.held = old ++ new ∧ Batch h old new lost r.waiting

/-- Between two ticks all numbers are low or outrun. -/
theorem Numbered.low (hn : Numbered h r) (hkeep : r.keeping = true) (hidle : r.waiting = []) :
    Low h r.held := by
  rcases hn.batch hkeep with ⟨hlow, -⟩ | ⟨old, new, lost, hheld, hbatch⟩
  · exact hlow
  · rw [hidle] at hbatch
    exact hheld ▸ hbatch.low_all

/-- The openings of a ramp that waits for some. -/
theorem Numbered.under_way (hn : Numbered h r) (hstage : r.stage = .opening ws)
    (hmem : worker ∈ ws) :
    ∃ old new lost, r.held = old ++ new ∧ Batch h old new lost ws := by
  have hwait : r.waiting = ws := by rw [waiting, hstage]
  rcases hn.batch (by rw [keeping, hstage]) with ⟨-, hidle⟩ | hbatch
  · rw [hwait] at hidle
    exact absurd hmem (hidle ▸ List.not_mem_nil)
  · rw [← hwait]
    exact hbatch

/-- A ramp whose numbers are low moves to a stage in which it waits for no opening. -/
theorem Numbered.idle {r' : Ramp} (hn : Numbered h r) (hlow : Low h r.held) (b : Beat)
    (hheld : r'.held = r.held) (hidle : r'.waiting = []) : Numbered (h ++ [b]) r' := by
  refine ⟨?_, fun _ => .inl ⟨?_, hidle⟩⟩
  · rw [hheld]
    exact hn.apart.snoc b
  · rw [hheld]
    exact hlow.snoc b

/-- A ramp that closes has nothing to number any more. -/
theorem Numbered.close {r : Ramp} {notes : List Metric.Note} (ha : Apart h r.held) (b : Beat) :
    Numbered (h ++ [b]) (r.close notes now).state := by
  rw [Ramp.close]
  split
  · exact ⟨ha.snoc b, fun hkeep => absurd hkeep Bool.false_ne_true⟩
  · exact ⟨ha.snoc b, fun hkeep => absurd hkeep Bool.false_ne_true⟩

theorem Numbered.start (name : String) (p : Plan) (t₀ : Instant) (b : Beat) :
    Numbered [b] ((machine name p).start t₀).state := by
  show Numbered [b] (Ramp.start p t₀).state
  rw [Ramp.start]
  split
  · exact ⟨.nil, fun _ => .inl ⟨List.forall_mem_nil _, rfl⟩⟩
  · exact ⟨.nil, fun _ => .inl ⟨List.forall_mem_nil _, rfl⟩⟩

/-- A move keeps the numbers of a ramp apart. -/
theorem Numbered.tell {signal : Signal} {next : Step Ramp} (hn : Numbered h r)
    (hstep : r.step name now signal = some next) :
    Numbered (h ++ [next.beat now (some signal)]) next.state := by
  cases step_moves hstep with
  | tick hstage hdue =>
      have hlow := hn.low (by rw [keeping, hstage]) (by rw [waiting, hstage])
      rcases tick_spec r now with ⟨-, hquiet, hhold⟩ | ⟨-, -, hstate, hasks⟩
      · obtain ⟨due, stage, heq⟩ := hquiet.state
        exact hn.idle hlow _ (by rw [heq]) (by rw [waiting, hhold])
      · refine ⟨?_, fun _ => .inr ⟨r.held, [], [], ?_, hlow.snoc _, _, [],
          ⟨⟨h, rfl⟩, List.forall_mem_nil _⟩, ?_, ?_, List.forall_mem_nil _⟩⟩
        · rw [hstate]
          exact hn.apart.snoc _
        · rw [hstate, List.append_nil]
        · exact ⟨min r.plan.increase (r.plan.target - r.held.length),
            Step.openings_of_asks hasks⟩
        · rw [Step.openings_of_asks hasks, hstate]
          exact List.Perm.refl _
  | lapse hstage hend =>
      exact hn.idle (hn.low (by rw [keeping, hstage]) (by rw [waiting, hstage])) _ rfl rfl
  | @gain workers resource hstage hmem =>
      obtain ⟨hquiet, hwait, -⟩ :=
        settle_spec (r.gain resource) workers resource.worker [.opened name]
      obtain ⟨due, stage, heq⟩ := hquiet.state
      obtain ⟨old, new, lost, hheld, hbatch⟩ := hn.under_way hstage hmem
      have hnow : (r.gain resource).held = old ++ new ++ [resource] :=
        congrArg (· ++ [resource]) hheld
      refine ⟨?_, fun _ => .inr ⟨old, new ++ [resource], lost, ?_, ?_⟩⟩
      · rw [heq]
        show Apart _ (r.gain resource).held
        rw [hnow]
        exact (hbatch.apart hmem (hheld ▸ hn.apart)).snoc _
      · rw [heq, ← List.append_assoc]
        exact hnow
      · rw [hwait]
        exact hbatch.opened hmem hquiet.openings
  | @lose workers worker signal notes hstage hmem hfail =>
      obtain ⟨hquiet, hwait, -⟩ := settle_spec r.lose workers worker notes
      obtain ⟨due, stage, heq⟩ := hquiet.state
      obtain ⟨old, new, lost, hheld, hbatch⟩ := hn.under_way hstage hmem
      refine ⟨?_, fun _ => .inr ⟨old, new, lost ++ [worker], ?_, ?_⟩⟩
      · rw [heq]
        exact hn.apart.snoc _
      · rw [heq]
        exact hheld
      · rw [hwait]
        exact hbatch.failed hmem hquiet.openings (congrArg Option.toList hfail)
  | release hstage hend => exact Numbered.close hn.apart _
  | @part first rest hstage hheld =>
      refine Numbered.close (r := { r with held := rest }) ?_ _
      exact (List.pairwise_cons.mp (hheld ▸ hn.apart)).2
  | jam hstage hheld =>
      exact ⟨hn.apart.snoc _, fun hkeep => absurd hkeep Bool.false_ne_true⟩

theorem numbered_of_run (run : Run (machine name p) t₀ h now r) : Numbered h r := by
  induction run with
  | start => exact Numbered.start name p t₀ _
  | tell run hle hstep ih => exact ih.tell hstep

/-- Openings begin at a tick only, and then they are its batch. -/
theorem begins {signal : Signal} {next : Step Ramp} (hstep : r.step name now signal = some next) :
    (next.beat now (some signal)).openings = [] ∨
      (r.held.length < r.plan.target ∧ (next.beat now (some signal)).openings = r.batch) := by
  cases step_moves hstep with
  | tick hstage hdue =>
      rcases tick_spec r now with ⟨-, hquiet, -⟩ | ⟨-, hfree, -, hasks⟩
      · exact .inl hquiet.openings
      · exact .inr ⟨hfree, Step.openings_of_asks hasks⟩
  | lapse hstage hend => exact .inl rfl
  | @gain workers resource hstage hmem =>
      exact .inl (settle_spec (r.gain resource) workers resource.worker [.opened name]).1.openings
  | @lose workers worker signal notes hstage hmem hfail =>
      exact .inl (settle_spec r.lose workers worker notes).1.openings
  | release hstage hend => exact .inl (close_openings r [] now)
  | @part first rest hstage hheld =>
      exact .inl (close_openings { r with held := rest } [.closed name] now)
  | jam hstage hheld => exact .inl rfl

/-- The openings that begin at a moment of a run have different numbers below the target. -/
theorem openings_numbered (run : Run (machine name p) t₀ h now r) :
    ∀ b ∈ h, b.openings.Nodup ∧ ∀ w ∈ b.openings, w < p.target := by
  induction run with
  | start =>
      intro b hb
      have hnone : b.openings = [] := by
        rw [List.mem_singleton.mp hb]
        show (Ramp.start p t₀).asks.filterMap Ask.opening? = []
        rw [Ramp.start]
        split
        · rfl
        · rfl
      rw [hnone]
      exact ⟨List.nodup_nil, List.forall_mem_nil _⟩
  | @tell h t now r signal next run hle hstep ih =>
      intro b hb
      rcases List.mem_append.mp hb with hb | hb
      · exact ih b hb
      · rw [List.mem_singleton.mp hb]
        rcases begins hstep with hnone | ⟨hfree, hbatch⟩
        · rw [hnone]
          exact ⟨List.nodup_nil, List.forall_mem_nil _⟩
        · rw [hbatch, batch]
          refine ⟨nodup_numbers _ _, fun w hw => ?_⟩
          have hrange := mem_numbers.mp hw
          rw [(sound_of_run run).books.plan] at hrange hfree
          omega

/-- **SHARED NUMBERS ARE OUTRUN.**  In every run of a ramp the openings of one moment have
    different numbers, all of them below the target.  Of two resources that are held at the same
    time under one number, the first was outrun: an opening that began with it under a smaller
    number had failed.  So as long as nothing fails, each resource that is held has a number of
    its own. -/
theorem shared_numbers_are_outrun (run : Run (machine name p) t₀ h now r) :
    (∀ b ∈ h, b.openings.Nodup ∧ ∀ w ∈ b.openings, w < p.target) ∧
    ∀ g held, g <+: h → g.flatMap Beat.opened = g.flatMap Beat.closed ++ held →
      (held.Pairwise fun first second => first.worker = second.worker → Outrun g first.worker) ∧
      (g.flatMap Beat.unopened = [] → (held.map Resource.worker).Nodup) := by
  refine ⟨openings_numbered run, fun g held hg hheld => ?_⟩
  have hapart : Apart g held := by
    by_cases hne : g = []
    · rw [hne] at hheld
      rw [(List.append_eq_nil_iff.mp hheld.symm).2]
      exact .nil
    · obtain ⟨t, r', -, hrun⟩ := run.of_prefix hg hne
      have hholds := (sound_of_run hrun).books.holds
      rw [hheld] at hholds
      rw [List.append_cancel_left hholds]
      exact (numbered_of_run hrun).apart
  refine ⟨hapart, fun hnone => List.pairwise_map.mpr (hapart.imp fun hone heq => ?_)⟩
  exact not_outrun hnone (hone heq)

/-- The first of two openings is refused, and the next tick opens another resource. -/
theorem run_past_refusal :
    ∃ h now r, Run (machine "redis" ⟨2, 2, Span.ofMillis 100, Span.ofMillis 150⟩) 0 h now r ∧
      r.held = [⟨1, 2⟩, ⟨1, 3⟩] ∧ h.flatMap Beat.opened = r.held ∧ h.flatMap Beat.closed = [] :=
  ⟨_, _, _, Run.of_play
    [(0, .ticked), (0, .refused 0 "connection refused"), (0, .opened ⟨1, 2⟩),
      (Span.ofMillis 100, .ticked), (Span.ofMillis 100, .opened ⟨1, 3⟩)]
    (@Run.start _ (machine "redis" ⟨2, 2, Span.ofMillis 100, Span.ofMillis 150⟩) 0) rfl,
    rfl, rfl, rfl⟩

/-- The number one is outrun, because the opening under the number zero was refused. -/
theorem shared_numbers_are_outrun_past_refusal :
    ∃ h now r, Run (machine "redis" ⟨2, 2, Span.ofMillis 100, Span.ofMillis 150⟩) 0 h now r ∧
      r.held = [⟨1, 2⟩, ⟨1, 3⟩] ∧ Outrun h 1 := by
  obtain ⟨h, now, r, hrun, hheld, hopened, hclosed⟩ := run_past_refusal
  obtain ⟨-, hshared⟩ := shared_numbers_are_outrun hrun
  have hboth := (hshared h r.held (List.prefix_refl h) (by rw [hopened, hclosed]; rfl)).1
  rw [hheld] at hboth
  exact ⟨h, now, r, hrun, hheld, (List.pairwise_cons.mp hboth).1 _ (List.mem_singleton.mpr rfl) rfl⟩

/-- **Two are held under one number.**  When an opening is refused and the one behind it is not,
    the resource that is held has the number that the next tick gives out. -/
theorem two_are_held_under_one_number :
    ∃ h now r, Run (machine "redis" ⟨2, 2, Span.ofMillis 100, Span.ofMillis 150⟩) 0 h now r ∧
      h.flatMap Beat.opened = h.flatMap Beat.closed ++ r.held ∧
      ¬ (r.held.map Resource.worker).Nodup := by
  obtain ⟨h, now, r, hrun, hheld, hopened, hclosed⟩ := run_past_refusal
  refine ⟨h, now, r, hrun, by rw [hopened, hclosed]; rfl, ?_⟩
  rw [hheld]
  decide

end Havoc.Load.Ramp
