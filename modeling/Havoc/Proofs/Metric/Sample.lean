import Havoc.Metric.Registry

/-! # Reading samples back

    Samples stand in the order of their labels, and no labels stand there twice.  So a change
    under some labels is read back under these labels and under no others
    (`Samples.get_update`), and what a registry shows of the load on a workload is the number of
    the notes about it (`Registry.load_noteAll`). -/

namespace Havoc.Metric

variable {α : Type} {labels wanted : List String} {initial : α} {f : α → α} {s : Samples α}

/-! ## One change -/

/-- The labels are in order, none of them twice. -/
def Samples.Ordered (s : Samples α) : Prop := (s.map Prod.fst).Pairwise (· < ·)

theorem Samples.get_cons (wanted : List String) (initial : α) (key : List String) (x : α)
    (s : Samples α) :
    Samples.get wanted initial ((key, x) :: s) =
      if wanted = key then x else s.get wanted initial := by
  rw [get, List.lookup_cons]
  by_cases h : wanted = key
  · rw [if_pos h, beq_iff_eq.mpr h]
    rfl
  · rw [if_neg h, beq_false_of_ne h]
    rfl

theorem Samples.get_of_lt (h : ∀ key ∈ s.map Prod.fst, labels < key) :
    s.get labels initial = initial := by
  induction s with
  | nil => rfl
  | cons sample rest ih =>
      obtain ⟨hfirst, hrest⟩ := List.forall_mem_cons.mp h
      have hne : labels ≠ sample.1 := fun heq => List.lt_irrefl _ (heq ▸ hfirst)
      rw [get_cons, if_neg hne, ih hrest]

theorem Samples.mem_update {key : List String}
    (h : key ∈ (s.update labels initial f).map Prod.fst) :
    key = labels ∨ key ∈ s.map Prod.fst := by
  induction s with
  | nil => exact Or.inl (List.mem_singleton.mp h)
  | cons sample rest ih =>
      rw [update] at h
      split at h
      · exact Or.inr h
      · split at h
        · exact List.mem_cons.mp h
        · rcases List.mem_cons.mp h with hfirst | hrest
          · exact Or.inr (List.mem_cons.mpr (Or.inl hfirst))
          · exact (ih hrest).imp_right (List.mem_cons_of_mem _)

theorem Samples.Ordered.update (h : s.Ordered) : (s.update labels initial f).Ordered := by
  induction s with
  | nil => exact List.pairwise_singleton _ _
  | cons sample rest ih =>
      obtain ⟨hfirst, hrest⟩ := List.pairwise_cons.mp h
      rw [Samples.update]
      split
      · exact h
      · next hne =>
          split
          · next hlt =>
              refine List.pairwise_cons.mpr ⟨?_, h⟩
              exact List.forall_mem_cons.mpr ⟨hlt, fun key hkey => List.lt_trans hlt (hfirst key hkey)⟩
          · next hlt =>
              refine List.pairwise_cons.mpr ⟨fun key hkey => ?_, ih hrest⟩
              rcases mem_update hkey with rfl | hkey
              · refine Decidable.byContradiction fun hge => hne ?_
                exact List.le_antisymm (List.not_lt.mp hlt) (List.not_lt.mp hge)
              · exact hfirst key hkey

/-- What is changed under some labels is read back under just these. -/
theorem Samples.get_update (h : s.Ordered) :
    (s.update labels initial f).get wanted initial =
      if wanted = labels then f (s.get labels initial) else s.get wanted initial := by
  induction s with
  | nil => exact get_cons wanted initial labels (f initial) []
  | cons sample rest ih =>
      obtain ⟨key, x⟩ := sample
      obtain ⟨hfirst, hrest⟩ := List.pairwise_cons.mp h
      rw [update]
      split
      · next hsame =>
          rw [get_cons, get_cons, get_cons, hsame, if_pos rfl]
          split
          · rfl
          · rfl
      · next hne =>
          split
          · next hlt =>
              -- the labels are not there yet
              have hnew : Samples.get labels initial ((key, x) :: rest) = initial :=
                get_of_lt (List.forall_mem_cons.mpr
                  ⟨hlt, fun k hk => List.lt_trans hlt (hfirst k hk)⟩)
              rw [get_cons, hnew]
          · rw [get_cons, get_cons, get_cons, ih hrest, if_neg (Ne.symm hne)]
            by_cases hkey : wanted = key
            · rw [if_pos hkey, if_pos hkey, if_neg (fun heq => hne (hkey.symm.trans heq))]
            · rw [if_neg hkey, if_neg hkey]

theorem Samples.get_update_single (h : s.Ordered) (v w : String) :
    (s.update [v] initial f).get [w] initial =
      if v = w then f (s.get [w] initial) else s.get [w] initial := by
  rw [get_update h]
  by_cases hv : v = w
  · rw [if_pos hv, hv, if_pos rfl]
  · rw [if_neg hv, if_neg fun heq => hv (List.cons.inj heq).1.symm]

/-! ## What a registry shows of the load -/

/-- The samples of the load on workloads are in order. -/
structure Registry.Ordered (r : Registry) : Prop where
  workErrors : r.workErrors.Ordered
  setupFailures : r.setupFailures.Ordered
  resourcesOpen : r.resourcesOpen.Ordered

theorem Registry.Ordered.note {r : Registry} (h : r.Ordered) (note : Note) :
    (r.note note).Ordered := by
  cases note with
  | workFailed w => exact ⟨h.workErrors.update, h.setupFailures, h.resourcesOpen⟩
  | setupFailed w => exact ⟨h.workErrors, h.setupFailures.update, h.resourcesOpen⟩
  | opened w | closed w => exact ⟨h.workErrors, h.setupFailures, h.resourcesOpen.update⟩
  | answered | faultInjected | jobStarted | jobFinished =>
      exact ⟨h.workErrors, h.setupFailures, h.resourcesOpen⟩

theorem Registry.Ordered.noteAll {r : Registry} (h : r.Ordered) (notes : List Note) :
    (r.noteAll notes).Ordered := by
  induction notes generalizing r with
  | nil => exact h
  | cons note rest ih => exact ih (h.note note)

/-- Whether a note tells of the load on a workload. -/
def Note.isLoad : Note → Bool
  | .workFailed _ | .setupFailed _ | .opened _ | .closed _ => true
  | .answered .. | .faultInjected _ | .jobStarted .. | .jobFinished => false

/-- How many resources of a workload are open, as a registry shows it. -/
def Registry.openOf (r : Registry) (w : String) : Int := r.resourcesOpen.get [w] 0

/-- How many openings of a workload have failed, as a registry shows it. -/
def Registry.setupFailuresOf (r : Registry) (w : String) : Nat := r.setupFailures.get [w] 0

/-- How many cycles of a workload have failed, as a registry shows it. -/
def Registry.workErrorsOf (r : Registry) (w : String) : Nat := r.workErrors.get [w] 0

theorem Registry.load_note {r : Registry} (h : r.Ordered) (w : String) (note : Note) :
    (r.note note).openOf w =
        r.openOf w + [note].count (.opened w) - [note].count (.closed w) ∧
      (r.note note).setupFailuresOf w = r.setupFailuresOf w + [note].count (.setupFailed w) ∧
      (r.note note).workErrorsOf w = r.workErrorsOf w + [note].count (.workFailed w) := by
  cases note with
  | opened v =>
      refine ⟨?_, rfl, rfl⟩
      show (r.resourcesOpen.update [v] 0 (· + 1)).get [w] 0 = _
      rw [Samples.get_update_single h.resourcesOpen, openOf]
      by_cases hv : v = w
      · simp [hv]
      · simp [hv]
  | closed v =>
      refine ⟨?_, rfl, rfl⟩
      show (r.resourcesOpen.update [v] 0 (· - 1)).get [w] 0 = _
      rw [Samples.get_update_single h.resourcesOpen, openOf]
      by_cases hv : v = w
      · simp [hv]
      · simp [hv]
  | setupFailed v =>
      refine ⟨by simp [openOf, note], ?_, rfl⟩
      show (r.setupFailures.update [v] 0 (· + 1)).get [w] 0 = _
      rw [Samples.get_update_single h.setupFailures, setupFailuresOf]
      by_cases hv : v = w
      · simp [hv]
      · simp [hv]
  | workFailed v =>
      refine ⟨by simp [openOf, note], rfl, ?_⟩
      show (r.workErrors.update [v] 0 (· + 1)).get [w] 0 = _
      rw [Samples.get_update_single h.workErrors, workErrorsOf]
      by_cases hv : v = w
      · simp [hv]
      · simp [hv]
  | answered | faultInjected | jobStarted | jobFinished =>
      exact ⟨by simp [openOf, note], rfl, rfl⟩

/-- A registry counts what it takes note of. -/
theorem Registry.load_noteAll {r : Registry} (h : r.Ordered) (w : String) (notes : List Note) :
    (r.noteAll notes).openOf w =
        r.openOf w + notes.count (.opened w) - notes.count (.closed w) ∧
      (r.noteAll notes).setupFailuresOf w = r.setupFailuresOf w + notes.count (.setupFailed w) ∧
      (r.noteAll notes).workErrorsOf w = r.workErrorsOf w + notes.count (.workFailed w) := by
  induction notes generalizing r with
  | nil => exact ⟨by simp [noteAll], rfl, rfl⟩
  | cons note rest ih =>
      obtain ⟨hopen, hsetup, hwork⟩ := r.load_note h w note
      obtain ⟨hopen', hsetup', hwork'⟩ := ih (h.note note)
      have hcount : ∀ x : Note, (note :: rest).count x = [note].count x + rest.count x :=
        fun x => (List.count_append : ([note] ++ rest).count x = _)
      rw [hcount, hcount, hcount, hcount]
      refine ⟨?_, ?_, ?_⟩
      · refine hopen'.trans ?_
        rw [hopen]
        omega
      · refine hsetup'.trans ?_
        rw [hsetup, Nat.add_assoc]
      · refine hwork'.trans ?_
        rw [hwork, Nat.add_assoc]

end Havoc.Metric
