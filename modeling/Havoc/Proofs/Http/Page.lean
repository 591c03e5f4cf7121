import Havoc.Http.Page
import Havoc.Proofs.Log.Figures

/-! # Text in pages

    A page is fixed pieces of markup with texts between them.  What an escaped text may hold is
    said by an inductive predicate (`Escaped`): no mark of markup, and ampersands only in front of
    the five entities.  Reading the entities back gives the text that was escaped
    (`unescape_escape`).

    Markup is read by a small machine (`Cursor.read`), which tells the tags and leaves quoted values
    out of them.  In a text, and in a quoted value, escaped text moves it nowhere
    (`reads_of_escaped`); so a page has the tags of its frame, whatever texts stand in it
    (`reads_weave`). -/

namespace Havoc.Http

/-- The entities, each with the character that it stands for. -/
def entities : List (List Char × Char) :=
  [("&amp;".toList, '&'), ("&lt;".toList, '<'), ("&gt;".toList, '>'), ("&quot;".toList, '"'),
    ("&#39;".toList, '\'')]

/-- A text with an entity for every character that has one. -/
inductive Escaped : List Char → Prop where
  | nil : Escaped []
  | plain {c : Char} {s : List Char} :
      (∀ entity, (entity, c) ∉ entities) → Escaped s → Escaped (c :: s)
  | entity {entity : List Char} {c : Char} {s : List Char} :
      (entity, c) ∈ entities → Escaped s → Escaped (entity ++ s)

/-- A text with the characters in place of their entities. -/
def unescape : List Char → List Char
  | '&' :: 'a' :: 'm' :: 'p' :: ';' :: rest => '&' :: unescape rest
  | '&' :: 'l' :: 't' :: ';' :: rest => '<' :: unescape rest
  | '&' :: 'g' :: 't' :: ';' :: rest => '>' :: unescape rest
  | '&' :: 'q' :: 'u' :: 'o' :: 't' :: ';' :: rest => '"' :: unescape rest
  | '&' :: '#' :: '3' :: '9' :: ';' :: rest => '\'' :: unescape rest
  | c :: rest => c :: unescape rest
  | [] => []

variable {c : Char} {s front back entity : List Char}

/-! ## Escaped text -/

/-- A character without an entity is no mark of markup. -/
theorem not_mark_of_plain (h : ∀ entity, (entity, c) ∉ entities) :
    c ∉ ['&', '<', '>', '"', '\''] := by
  have hmarks : ['&', '<', '>', '"', '\''] = entities.map Prod.snd := by decide
  rw [hmarks, List.mem_map]
  rintro ⟨⟨entity, c⟩, hentity, rfl⟩
  exact h entity hentity

theorem escapeChar_of_entity (h : (entity, c) ∈ entities) : escapeChar c = entity := by
  have hall : ∀ x ∈ entities, escapeChar x.2 = x.1 := by decide
  exact hall (entity, c) h

theorem escapeChar_of_plain (h : ∀ entity, (entity, c) ∉ entities) : escapeChar c = [c] := by
  have hc := not_mark_of_plain h
  unfold escapeChar
  split
  case h_6 => rfl
  all_goals exact absurd (by decide) hc

theorem toList_escape (s : String) : (escape s).toList = s.toList.flatMap escapeChar :=
  String.toList_ofList

theorem escaped_flatMap (s : List Char) : Escaped (s.flatMap escapeChar) := by
  induction s with
  | nil => exact .nil
  | cons c s ih =>
      rw [List.flatMap_cons]
      by_cases hc : ∃ entity, (entity, c) ∈ entities
      · obtain ⟨entity, hentity⟩ := hc
        rw [escapeChar_of_entity hentity]
        exact .entity hentity ih
      · have hplain : ∀ entity, (entity, c) ∉ entities := fun entity h => hc ⟨entity, h⟩
        rw [escapeChar_of_plain hplain]
        exact .plain hplain ih

theorem escaped_escape (s : String) : Escaped (escape s).toList := by
  rw [toList_escape]
  exact escaped_flatMap s.toList

/-- The marks that open and close tags and quoted values do not occur. -/
theorem Escaped.not_mark (h : Escaped s) : ∀ c ∈ s, c ∉ ['<', '>', '"', '\''] := by
  induction h with
  | nil => exact fun _ hc => absurd hc List.not_mem_nil
  | @plain c _ hplain _ ih =>
      exact List.forall_mem_cons.mpr
        ⟨fun hc => not_mark_of_plain hplain (List.mem_cons_of_mem _ hc), ih⟩
  | @entity entity c _ hentity _ ih =>
      have hall : ∀ x ∈ entities, (x.1.all fun c => c ∉ ['<', '>', '"', '\'']) = true := by decide
      have hnone : ∀ c ∈ entity, c ∉ ['<', '>', '"', '\''] :=
        fun c hc => of_decide_eq_true (List.all_eq_true.mp (hall (entity, _) hentity) c hc)
      exact List.forall_mem_append.mpr ⟨hnone, ih⟩

/-- Every ampersand begins an entity. -/
theorem Escaped.ampersand (h : Escaped s) (hs : s = front ++ '&' :: back) :
    ∃ x ∈ entities, x.1 <+: '&' :: back := by
  induction h generalizing front with
  | nil => exact absurd hs.symm (by simp)
  | @plain c s hplain _ ih =>
      cases front with
      | nil =>
          obtain ⟨rfl, -⟩ := List.cons.inj hs
          exact absurd (by decide) (not_mark_of_plain hplain)
      | cons _ front => exact ih (List.cons.inj hs).2
  | @entity entity c s hentity _ ih =>
      rcases List.append_eq_append_iff.mp hs with ⟨before, -, hrest⟩ | ⟨inside, hcut, hrest⟩
      · exact ih hrest
      · cases inside with
        | nil => exact @ih [] hrest.symm
        | cons mark inside =>
            -- an entity holds no second ampersand, so this one is its first character
            obtain ⟨rfl, hback⟩ := List.cons.inj hrest
            have hall : ∀ x ∈ entities, '&' ∉ x.1.tail := by decide
            cases front with
            | nil =>
                refine ⟨(entity, c), hentity, ⟨s, ?_⟩⟩
                rw [hcut, hback]
                rfl
            | cons first front =>
                refine absurd ?_ (hall (entity, c) hentity)
                rw [hcut]
                exact List.mem_append_right _ List.mem_cons_self

theorem unescape_entity (h : (entity, c) ∈ entities) (s : List Char) :
    unescape (entity ++ s) = c :: unescape s := by
  have hcases : (entity, c) = ("&amp;".toList, '&') ∨ (entity, c) = ("&lt;".toList, '<') ∨
      (entity, c) = ("&gt;".toList, '>') ∨ (entity, c) = ("&quot;".toList, '"') ∨
      (entity, c) = ("&#39;".toList, '\'') := by
    simpa [entities] using h
  rcases hcases with h | h | h | h | h <;> obtain ⟨rfl, rfl⟩ := Prod.mk.inj h <;> rfl

theorem unescape_plain (h : ∀ entity, (entity, c) ∉ entities) (s : List Char) :
    unescape (c :: s) = c :: unescape s := by
  have hc : c ≠ '&' := by
    rintro rfl
    exact not_mark_of_plain h (by decide)
  rw [unescape] <;> exact fun _ heq => absurd heq hc

/-- Nothing is lost in a page. -/
theorem unescape_escape (s : String) : unescape (escape s).toList = s.toList := by
  rw [toList_escape]
  induction s.toList with
  | nil => rfl
  | cons c s ih =>
      rw [List.flatMap_cons]
      by_cases hc : ∃ entity, (entity, c) ∈ entities
      · obtain ⟨entity, hentity⟩ := hc
        rw [escapeChar_of_entity hentity, unescape_entity hentity, ih]
      · have hplain : ∀ entity, (entity, c) ∉ entities := fun entity h => hc ⟨entity, h⟩
        rw [escapeChar_of_plain hplain, List.singleton_append, unescape_plain hplain, ih]

/-- Figures are written as they are. -/
theorem escape_of_figures {s : String} (h : Figures s.toList) : escape s = s := by
  rw [← String.toList_inj, toList_escape]
  generalize s.toList = text at h
  induction text with
  | nil => rfl
  | cons c text ih =>
      obtain ⟨hc, htext⟩ := List.forall_mem_cons.mp h
      have hplain : ∀ entity, (entity, c) ∉ entities := by
        intro entity hentity
        have hall : ∀ x ∈ entities, isFigure x.2 = false := by decide
        exact Bool.false_ne_true ((hall _ hentity).symm.trans hc)
      rw [List.flatMap_cons, escapeChar_of_plain hplain, ih htext]
      rfl

/-! ## Markup -/

/-- Where a reader of markup stands: in a text, in a tag, or in a quoted value in a tag.  What was
    read of the tag is held in reverse. -/
inductive Cursor where
  | text
  | tag (held : List Char)
  | quoted (mark : Char) (held : List Char)
  deriving DecidableEq

namespace Cursor

/-- Reads a character, which may complete a tag. -/
def read : Cursor → Char → Cursor × List (List Char)
  | text, c => if c = '<' then (tag [], []) else (text, [])
  | tag held, c =>
      if c = '>' then (text, [held.reverse])
      else if c = '"' ∨ c = '\'' then (quoted c held, [])
      else (tag (c :: held), [])
  | quoted mark held, c => if c = mark then (tag held, []) else (quoted mark held, [])

/-- Reads a text, and gathers the tags in it. -/
def reads (p : Cursor) : List Char → Cursor × List (List Char)
  | [] => (p, [])
  | c :: rest =>
      let next := p.read c
      ((next.1.reads rest).1, next.2 ++ (next.1.reads rest).2)

/-- Whether escaped text may follow. -/
def isSheltered : Cursor → Bool
  | text => true
  | tag _ => false
  | quoted mark _ => mark = '"' || mark = '\''

/-- Whether escaped text may follow each of the pieces of a page. -/
def shelters (p : Cursor) : List String → Bool
  | [] => true
  | piece :: frame =>
      let q := (p.reads piece.toList).1
      q.isSheltered && q.shelters frame

variable {p : Cursor} {frame : List String}

theorem reads_append (p : Cursor) (front back : List Char) :
    p.reads (front ++ back) =
      (((p.reads front).1.reads back).1,
        (p.reads front).2 ++ ((p.reads front).1.reads back).2) := by
  induction front generalizing p with
  | nil => rfl
  | cons c front ih =>
      rw [List.cons_append, reads, reads]
      dsimp only
      rw [ih, List.append_assoc]

theorem read_of_not_mark (hp : p.isSheltered = true) (hc : c ∉ ['<', '>', '"', '\'']) :
    p.read c = (p, []) := by
  cases p with
  | text =>
      refine if_neg ?_
      rintro rfl
      exact hc (by decide)
  | tag held => exact absurd hp Bool.false_ne_true
  | quoted mark held =>
      refine if_neg ?_
      rintro rfl
      rcases Bool.or_eq_true_iff.mp hp with hmark | hmark <;>
        rw [of_decide_eq_true hmark] at hc <;> exact hc (by decide)

/-- Escaped text is no markup. -/
theorem reads_of_escaped (hp : p.isSheltered = true) (h : Escaped s) : p.reads s = (p, []) := by
  have hmarks := h.not_mark
  clear h
  induction s with
  | nil => rfl
  | cons c s ih =>
      obtain ⟨hc, hs⟩ := List.forall_mem_cons.mp hmarks
      rw [reads, read_of_not_mark hp hc]
      dsimp only
      rw [ih hs]
      rfl

end Cursor

/-- The tags of a page, without the quoted values in them, and where its reader is left. -/
def markup (page : String) : Cursor × List (List Char) := Cursor.text.reads page.toList

/-- The pieces of a page with a text behind each of them, as long as there are texts. -/
def weave : List String → List String → String
  | piece :: frame, text :: texts => piece ++ text ++ weave frame texts
  | frame, _ => String.join frame

theorem Cursor.reads_weave {p : Cursor} {frame : List String} (h : p.shelters frame = true)
    (texts : List String) :
    p.reads (weave frame (texts.map escape)).toList = p.reads (String.join frame).toList := by
  induction frame generalizing p texts with
  | nil => rfl
  | cons piece frame ih =>
      cases texts with
      | nil => rfl
      | cons text texts =>
          obtain ⟨hpiece, hframe⟩ := Bool.and_eq_true_iff.mp h
          rw [List.map_cons, weave, String.toList_append, String.toList_append, String.join_cons,
            String.toList_append, List.append_assoc, reads_append, reads_append,
            reads_of_escaped hpiece (escaped_escape text), ih hframe texts, reads_append]
          rfl

/-- **ESCAPED TEXT IS NO MARKUP.**  A page whose pieces leave room for texts has the same tags
    with any texts, or with none. -/
theorem markup_weave {frame : List String} (h : Cursor.text.shelters frame = true)
    (texts : List String) : markup (weave frame (texts.map escape)) = markup (String.join frame) :=
  Cursor.reads_weave h texts

end Havoc.Http
