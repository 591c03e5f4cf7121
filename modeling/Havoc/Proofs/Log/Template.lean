import Havoc.Log.Template
import Havoc.Proofs.Text.Cut

/-! # Values are put in once

    What a template shows is said a second time, without pieces and without a reader
    that gathers them: from left to right, text outside of braces is copied, braces
    are replaced by the value of their inside, and a brace that is never closed is
    copied with all that follows it (`substitute`).  Values are written out and never
    looked at again.

    The route: the reader of templates runs over text without braces in one go
    (`segmentsFrom_outside`, `segmentsFrom_inside`), which ties what is held in
    reverse to the text that was read (`shown_segmentsFrom`).  A text that leaves no
    brace open (`Closed`) may be followed by any other, and the lines follow each
    other the same way (`substitute_append`).  The main theorem is
    `render_is_substitution`. -/

namespace Havoc.Log

open Havoc.Text

/-- What a text becomes when every pair of braces in it is replaced by the value of
    its inside. -/
def substitute (e : Event) (s : List Char) : List Char :=
  match _hopen : cutAt '\x7b' s with
  | none => s
  | some (before, after) =>
      match _hclose : cutAt '\x7d' after with
      | none => before ++ '\x7b' :: after
      | some (content, rest) => before ++ (resolve content e).toList ++ substitute e rest
termination_by s.length
decreasing_by
  rw [cutAt_eq _hopen, cutAt_eq _hclose]
  simp only [List.length_append, List.length_cons]
  omega

/-- Every brace that is opened in the text is closed in it. -/
inductive Closed : List Char → Prop where
  | text {s : List Char} : '\x7b' ∉ s → Closed s
  | braces {before content rest : List Char} :
      '\x7b' ∉ before → '\x7d' ∉ content → Closed rest →
      Closed (before ++ '\x7b' :: (content ++ '\x7d' :: rest))

variable {e : Event} {s before content after rest : List Char}

/-! ## Braces one pair at a time -/

theorem substitute_text (h : '\x7b' ∉ s) : substitute e s = s := by
  rw [substitute]
  split
  · rfl
  · next hcut => exact absurd (cutAt_eq_none_iff.mpr h) (by simp [hcut])

theorem substitute_open (hbefore : '\x7b' ∉ before) (hafter : '\x7d' ∉ after) :
    substitute e (before ++ '\x7b' :: after) = before ++ '\x7b' :: after := by
  rw [substitute]
  split
  · rfl
  · next b a hopen =>
      obtain ⟨rfl, rfl⟩ : before = b ∧ after = a := by
        simpa [cutAt_append hbefore] using hopen
      split
      · rfl
      · next hclose => exact absurd (cutAt_eq_none_iff.mpr hafter) (by simp [hclose])

theorem substitute_braces (hbefore : '\x7b' ∉ before) (hcontent : '\x7d' ∉ content) :
    substitute e (before ++ '\x7b' :: (content ++ '\x7d' :: rest)) =
      before ++ (resolve content e).toList ++ substitute e rest := by
  rw [substitute]
  split
  · next hopen => simp [cutAt_append hbefore] at hopen
  · next b a hopen =>
      obtain ⟨rfl, rfl⟩ : before = b ∧ content ++ '\x7d' :: rest = a := by
        simpa [cutAt_append hbefore] using hopen
      split
      · next hclose => simp [cutAt_append hcontent] at hclose
      · next c r hclose =>
          obtain ⟨rfl, rfl⟩ : content = c ∧ rest = r := by
            simpa [cutAt_append hcontent] using hclose
          rfl

/-- Text in front is copied, whatever follows it. -/
theorem substitute_text_append (h : '\x7b' ∉ s) (q : List Char) :
    substitute e (s ++ q) = s ++ substitute e q := by
  cases hopen : cutAt '\x7b' q with
  | none =>
      have hq := cutAt_eq_none_iff.mp hopen
      rw [substitute_text hq, substitute_text]
      rw [List.mem_append, not_or]
      exact ⟨h, hq⟩
  | some cut =>
      obtain ⟨before, after⟩ := cut
      obtain ⟨hbefore, rfl⟩ := cutAt_eq_some_iff.mp hopen
      have hboth : '\x7b' ∉ s ++ before := by
        rw [List.mem_append, not_or]
        exact ⟨h, hbefore⟩
      rw [← List.append_assoc]
      cases hclose : cutAt '\x7d' after with
      | none =>
          have hafter := cutAt_eq_none_iff.mp hclose
          rw [substitute_open hboth hafter, substitute_open hbefore hafter, List.append_assoc]
      | some cut =>
          obtain ⟨content, rest⟩ := cut
          obtain ⟨hcontent, rfl⟩ := cutAt_eq_some_iff.mp hclose
          rw [substitute_braces hboth hcontent, substitute_braces hbefore hcontent]
          simp only [List.append_assoc]

/-- After a text that leaves no brace open everything starts anew. -/
theorem substitute_append (h : Closed s) (q : List Char) :
    substitute e (s ++ q) = substitute e s ++ substitute e q := by
  induction h with
  | text h => rw [substitute_text_append h, substitute_text h]
  | braces hbefore hcontent _ ih =>
      rw [substitute_braces hbefore hcontent, List.append_assoc, List.cons_append,
        List.append_assoc, List.cons_append, substitute_braces hbefore hcontent, ih]
      simp only [List.append_assoc]

/-! ## Braces left open -/

theorem Closed.behind (h : Closed (before ++ '\x7b' :: (content ++ '\x7d' :: rest)))
    (hbefore : '\x7b' ∉ before) (hcontent : '\x7d' ∉ content) : Closed rest := by
  generalize hs : before ++ '\x7b' :: (content ++ '\x7d' :: rest) = s at h
  cases h with
  | text htext => exact absurd (by simp [← hs]) htext
  | braces hb hc hrest =>
      obtain ⟨rfl, heq⟩ := cut_unique hbefore hb hs
      obtain ⟨rfl, rfl⟩ := cut_unique hcontent hc heq
      exact hrest

theorem Closed.not_open (h : Closed s) (hafter : '\x7d' ∉ after) :
    ¬ Closed (s ++ '\x7b' :: after) := by
  induction h with
  | @text s htext =>
      intro hclosed
      generalize hs : s ++ '\x7b' :: after = t at hclosed
      cases hclosed with
      | text h => exact h (by simp [← hs])
      | braces hb hc hrest =>
          obtain ⟨-, rfl⟩ := cut_unique htext hb hs
          exact hafter (by simp)
  | braces hbefore hcontent _ ih =>
      intro hclosed
      simp only [List.append_assoc, List.cons_append] at hclosed
      exact ih (hclosed.behind hbefore hcontent)

/-- A text is not closed just when it opens one more brace behind a closed text. -/
theorem not_closed_iff :
    ¬ Closed s ↔ ∃ closed after,
      Closed closed ∧ '\x7d' ∉ after ∧ s = closed ++ '\x7b' :: after := by
  constructor
  · intro hnot
    -- the induction takes braces off the front, as the substitution does
    induction s using substitute.induct with
    | case1 s hopen => exact absurd (.text (cutAt_eq_none_iff.mp hopen)) hnot
    | case2 s before after hopen hclose =>
        obtain ⟨hbefore, rfl⟩ := cutAt_eq_some_iff.mp hopen
        exact ⟨before, after, .text hbefore, cutAt_eq_none_iff.mp hclose, rfl⟩
    | case3 s before after hopen content rest hclose ih =>
        obtain ⟨hbefore, rfl⟩ := cutAt_eq_some_iff.mp hopen
        obtain ⟨hcontent, rfl⟩ := cutAt_eq_some_iff.mp hclose
        obtain ⟨closed, after, hclosed, hafter, rfl⟩ :=
          ih fun hrest => hnot (.braces hbefore hcontent hrest)
        refine ⟨_, after, .braces hbefore hcontent hclosed, hafter, ?_⟩
        simp only [List.append_assoc, List.cons_append]
  · rintro ⟨closed, after, hclosed, hafter, rfl⟩
    exact hclosed.not_open hafter

/-! ## What the pieces show -/

/-- The line that pieces make. -/
def shown (e : Event) (segments : List Segment) : List Char :=
  segments.flatMap fun segment => (segment.render e).toList

theorem shown_append (e : Event) (front back : List Segment) :
    shown e (front ++ back) = shown e front ++ shown e back :=
  List.flatMap_append

theorem shown_literals (e : Event) (s : List Char) : shown e (Segment.literals s) = s := by
  rw [Segment.literals]
  cases s with
  | nil => rfl
  | cons c s => simp [shown, Segment.render]

/-- The piece that a pair of braces is shows the value of their inside. -/
theorem render_ofContent (content : List Char) (e : Event) :
    (Segment.ofContent content).render e = resolve content e := by
  rw [resolve, Segment.ofContent]
  cases Placeholder.ofText? content with
  | none => rfl
  | some p => rfl

theorem shown_content (e : Event) (content : List Char) (segments : List Segment) :
    shown e (Segment.ofContent content :: segments) =
      (resolve content e).toList ++ shown e segments := by
  rw [← render_ofContent]
  exact List.flatMap_cons

theorem toList_render (t : Template) (e : Event) :
    (t.render e).toList = shown e t.segments := by
  rw [Template.render, String.toList_join, List.flatMap_map]
  rfl

/-! ## Reading a template -/

theorem segmentsFrom_outside (h : '\x7b' ∉ s) (literal rest : List Char) :
    segmentsFrom (.outside literal) (s ++ rest) =
      segmentsFrom (.outside (s.reverse ++ literal)) rest := by
  induction s generalizing literal with
  | nil => rfl
  | cons c s ih =>
      rw [List.mem_cons, not_or] at h
      rw [List.cons_append, segmentsFrom, if_neg (Ne.symm h.1), ih h.2, List.reverse_cons,
        List.append_assoc]
      rfl

theorem segmentsFrom_inside (h : '\x7d' ∉ s) (literal content rest : List Char) :
    segmentsFrom (.inside literal content) (s ++ rest) =
      segmentsFrom (.inside literal (s.reverse ++ content)) rest := by
  induction s generalizing content with
  | nil => rfl
  | cons c s ih =>
      rw [List.mem_cons, not_or] at h
      rw [List.cons_append, segmentsFrom, if_neg (Ne.symm h.1), ih h.2, List.reverse_cons,
        List.append_assoc]
      rfl

/-- A literal text that is held while the rest of a template is read comes first in
    the line. -/
theorem shown_segmentsFrom (e : Event) (literal s : List Char) :
    shown e (segmentsFrom (.outside literal) s) = literal.reverse ++ substitute e s := by
  induction s using substitute.induct generalizing literal with
  | case1 s hopen =>
      have htext := cutAt_eq_none_iff.mp hopen
      have hread := segmentsFrom_outside htext literal []
      rw [List.append_nil] at hread
      rw [hread, segmentsFrom, shown_literals, substitute_text htext, List.reverse_append,
        List.reverse_reverse]
  | case2 s before after hopen hclose =>
      obtain ⟨hbefore, rfl⟩ := cutAt_eq_some_iff.mp hopen
      have hafter := cutAt_eq_none_iff.mp hclose
      have hread := segmentsFrom_inside hafter (before.reverse ++ literal) [] []
      rw [List.append_nil, List.append_nil] at hread
      rw [segmentsFrom_outside hbefore, segmentsFrom, if_pos rfl, hread, segmentsFrom,
        shown_literals, substitute_open hbefore hafter]
      simp only [List.reverse_append, List.reverse_reverse, List.append_assoc]
  | case3 s before after hopen content rest hclose ih =>
      obtain ⟨hbefore, rfl⟩ := cutAt_eq_some_iff.mp hopen
      obtain ⟨hcontent, rfl⟩ := cutAt_eq_some_iff.mp hclose
      rw [segmentsFrom_outside hbefore, segmentsFrom, if_pos rfl, segmentsFrom_inside hcontent,
        segmentsFrom, if_pos rfl, shown_append, shown_literals, shown_content, ih,
        substitute_braces hbefore hcontent]
      simp only [List.append_nil, List.reverse_append, List.reverse_reverse, List.reverse_nil,
        List.nil_append, List.append_assoc]

/-- **VALUES ARE PUT IN ONCE.**  The line of a template is its text with every pair
    of braces replaced, from left to right, by the value of its inside.  So a text
    that leaves no brace open can be followed by any other, and the lines follow
    each other. -/
theorem render_is_substitution (pattern : String) (e : Event) :
    ((Template.ofString pattern).render e).toList = substitute e pattern.toList ∧
      (Closed pattern.toList → ∀ other : String,
        (Template.ofString (pattern ++ other)).render e =
          (Template.ofString pattern).render e ++ (Template.ofString other).render e) := by
  have hline : ∀ p : String,
      ((Template.ofString p).render e).toList = substitute e p.toList := by
    intro p
    rw [toList_render, Template.ofString, shown_segmentsFrom]
    rfl
  refine ⟨hline pattern, ?_⟩
  intro hclosed other
  rw [← String.toList_inj, String.toList_append, hline, hline, hline, String.toList_append,
    substitute_append hclosed]

/-- A path that looks like a placeholder is shown as it is, in front of a text that
    opens a brace and does not close it. -/
theorem render_is_substitution_lookalike :
    let e : Event := {
      time := default, status := 404, method := "GET", path := "\x7bmethod\x7d",
      clientIp := "10.0.0.5", latency := 0, userAgent := "", protocol := "HTTP/1.1",
      requestSize := 0, responseSize := 0 }
    Closed "\x7bpath\x7d ".toList ∧ ¬ Closed "\x7bmethod".toList ∧
      (Template.ofString ("\x7bpath\x7d " ++ "\x7bmethod")).render e =
        "\x7bmethod\x7d \x7bmethod" := by
  intro e
  have hclosed : Closed "\x7bpath\x7d ".toList :=
    @Closed.braces [] "path".toList " ".toList (by decide) (by decide) (.text (by decide))
  have hopen : ¬ Closed "\x7bmethod".toList :=
    not_closed_iff.mpr ⟨[], "method".toList, .text (by decide), by decide, by decide⟩
  refine ⟨hclosed, hopen, ?_⟩
  rw [(render_is_substitution "\x7bpath\x7d " e).2 hclosed]
  decide

end Havoc.Log
