import Havoc.Proofs.Log.Figures
import Havoc.Proofs.Log.Template
import Havoc.Proofs.Time.Pattern

/-! # Lines that stay whole

    A line break in a line of the log can only come from a text that was put in: what a template
    adds of its own are figures, and what a pattern of a time adds are figures too.

    The route: a placeholder shows a text of the request, figures, or a time in a pattern, which
    is read a few characters at a time (`unbroken_shows`).  The line follows by induction on the
    braces of the template (`unbroken_render`). -/

namespace Havoc.Log

open Havoc.Text

/-- A carriage return or a line feed. -/
def isBreak (c : Char) : Bool := c = '\r' || c = '\n'

/-- A text that does not end a line. -/
def Unbroken (s : List Char) : Prop := ∀ c ∈ s, isBreak c = false

instance (s : List Char) : Decidable (Unbroken s) := List.decidableBAll _ s

/-- No text of the request ends a line. -/
structure Event.Unbroken (e : Event) : Prop where
  method : Log.Unbroken e.method.toList
  path : Log.Unbroken e.path.toList
  clientIp : Log.Unbroken e.clientIp.toList
  userAgent : Log.Unbroken e.userAgent.toList
  protocol : Log.Unbroken e.protocol.toList

variable {c : Char} {s front back before content rest text pattern : List Char} {t : Moment}
  {e : Event}

theorem Unbroken.cons (hc : isBreak c = false) (h : Unbroken s) : Unbroken (c :: s) :=
  List.forall_mem_cons.mpr ⟨hc, h⟩

theorem unbroken_append : Unbroken (front ++ back) ↔ Unbroken front ∧ Unbroken back :=
  List.forall_mem_append

theorem unbroken_cons : Unbroken (c :: s) ↔ isBreak c = false ∧ Unbroken s :=
  List.forall_mem_cons

/-- No figure ends a line. -/
theorem Unbroken.of_figures (h : Figures s) : Unbroken s := by
  intro c hc
  cases hbreak : isBreak c with
  | false => rfl
  | true =>
      have hfigure := h c hc
      rcases Bool.or_eq_true_iff.mp hbreak with heq | heq <;>
        rw [of_decide_eq_true heq] at hfigure <;> exact absurd hfigure (by decide)

/-! ## Placeholders -/

/-- A pattern breaks a line only where it is broken itself. -/
theorem unbroken_shows (h : Pattern.Shows t pattern text) (hpattern : Unbroken pattern) :
    Unbroken text := by
  induction h with
  | nil => exact hpattern
  | plain _ _ ih =>
      obtain ⟨hc, hrest⟩ := unbroken_cons.mp hpattern
      exact .cons hc (ih hrest)
  | part _ _ ih =>
      obtain ⟨-, hrest⟩ := unbroken_cons.mp (unbroken_cons.mp hpattern).2
      exact unbroken_append.mpr ⟨.of_figures (Figures.part t _), ih hrest⟩
  | sign _ ih =>
      obtain ⟨-, hrest⟩ := unbroken_cons.mp (unbroken_cons.mp hpattern).2
      exact .cons (by decide) (ih hrest)
  | other _ _ _ ih =>
      obtain ⟨hc, hrest⟩ := unbroken_cons.mp (unbroken_cons.mp hpattern).2
      exact .cons (by decide) (.cons hc (ih hrest))
  | trailing => exact hpattern

theorem unbroken_timeText {unit : Option (List Char)} (h : ∀ pattern ∈ unit, Unbroken pattern) :
    Unbroken (timeText t unit).toList := by
  unfold timeText
  rw [String.toList_ofList]
  cases unit with
  | none => exact .of_figures (Figures.standard t)
  | some pattern => exact unbroken_shows (Pattern.shows_format t pattern) (h pattern rfl)

theorem unbroken_placeholder {p : Placeholder} (he : e.Unbroken)
    (hunit : ∀ unit ∈ p.unit, Unbroken unit) : Unbroken (p.render e).toList := by
  obtain ⟨key, unit⟩ := p
  cases key with
  | time => exact unbroken_timeText hunit
  | statusCode => exact .of_figures (Figures.decimal _)
  | method => exact he.method
  | path => exact he.path
  | clientIp => exact he.clientIp
  | latency => exact .of_figures (Figures.latencyText _ _)
  | userAgent => exact he.userAgent
  | protocol => exact he.protocol
  | requestSize | responseSize => exact .of_figures (Figures.sizeText _ _)

/-- The unit of a placeholder is a part of what stands in its braces. -/
theorem mem_of_mem_unit {p : Placeholder} {unit : List Char}
    (h : Placeholder.ofText? content = some p) (hunit : p.unit = some unit) (hc : c ∈ unit) :
    c ∈ content := by
  rw [Placeholder.ofText?] at h
  split at h
  · next key after hcut =>
      obtain ⟨k, -, rfl⟩ := Option.map_eq_some_iff.mp h
      obtain rfl := Option.some.inj hunit
      rw [cutAt_eq hcut]
      exact List.mem_append_right _ (List.mem_cons_of_mem _ hc)
  · obtain ⟨k, -, rfl⟩ := Option.map_eq_some_iff.mp h
    exact absurd hunit nofun

theorem unbroken_resolve (he : e.Unbroken) (h : Unbroken content) :
    Unbroken (resolve content e).toList := by
  rw [resolve]
  cases hp : Placeholder.ofText? content with
  | none => exact (by decide : Unbroken unknownText.toList)
  | some p =>
      exact unbroken_placeholder he fun unit hunit c hc => h c (mem_of_mem_unit hp hunit hc)

/-! ## Lines -/

theorem unbroken_substitute (he : e.Unbroken) (h : Unbroken s) : Unbroken (substitute e s) := by
  induction s using substitute.induct with
  | case1 s hopen =>
      rw [substitute_text (cutAt_eq_none_iff.mp hopen)]
      exact h
  | case2 s before after hopen hclose =>
      obtain ⟨hbefore, rfl⟩ := cutAt_eq_some_iff.mp hopen
      rw [substitute_open hbefore (cutAt_eq_none_iff.mp hclose)]
      exact h
  | case3 s before after hopen content rest hclose ih =>
      obtain ⟨hbefore, rfl⟩ := cutAt_eq_some_iff.mp hopen
      obtain ⟨hcontent, rfl⟩ := cutAt_eq_some_iff.mp hclose
      rw [substitute_braces hbefore hcontent]
      obtain ⟨hfront, hbraces⟩ := unbroken_append.mp h
      obtain ⟨hinside, hbehind⟩ := unbroken_append.mp (unbroken_cons.mp hbraces).2
      have hvalue : Unbroken (resolve content e).toList := unbroken_resolve he hinside
      exact unbroken_append.mpr
        ⟨unbroken_append.mpr ⟨hfront, hvalue⟩, ih (unbroken_cons.mp hbehind).2⟩

/-- A line is broken only by its template or by a text of the request. -/
theorem unbroken_render {template : String} (he : e.Unbroken) (h : Unbroken template.toList) :
    Unbroken ((Template.ofString template).render e).toList := by
  rw [toList_render, Template.ofString, shown_segmentsFrom]
  exact unbroken_substitute he h

end Havoc.Log
