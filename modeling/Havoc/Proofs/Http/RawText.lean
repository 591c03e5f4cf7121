import Havoc.Proofs.Http.Page

/-! # Raw text in pages

    A text can also stand in a page as it is.  It is its own escaped text exactly if it holds no
    mark of markup (`escape_eq_self_iff`).  In front of markup that closes an element, a reader of
    tags passes over it exactly if it opens no tag (`Cursor.reads_raw_iff`): a tag that is opened
    either ends in the text, or takes in the markup behind it, or opens a quoted value that never
    ends. -/

namespace Havoc.Http

variable {c : Char} {s name more : List Char}

/-! ## Marks -/

theorem plain_iff : (∀ entity, (entity, c) ∉ entities) ↔ c ∉ ['&', '<', '>', '"', '\''] := by
  refine ⟨not_mark_of_plain, fun hc entity hentity => hc ?_⟩
  have hmarks : ['&', '<', '>', '"', '\''] = entities.map Prod.snd := by decide
  rw [hmarks]
  exact List.mem_map_of_mem hentity

/-- Escaping makes no text shorter. -/
theorem length_le_flatMap (s : List Char) : s.length ≤ (s.flatMap escapeChar).length := by
  induction s with
  | nil => exact Nat.le_refl 0
  | cons c s ih =>
      have hc : 1 ≤ (escapeChar c).length := by
        unfold escapeChar
        split <;> exact Nat.le_add_left 1 _
      rw [List.flatMap_cons, List.length_append, List.length_cons]
      omega

theorem flatMap_eq_self_iff :
    s.flatMap escapeChar = s ↔ ∀ c ∈ s, c ∉ ['&', '<', '>', '"', '\''] := by
  induction s with
  | nil => exact ⟨fun _ _ hc => absurd hc List.not_mem_nil, fun _ => rfl⟩
  | cons c s ih =>
      rw [List.flatMap_cons, List.forall_mem_cons, ← plain_iff]
      by_cases hc : ∃ entity, (entity, c) ∈ entities
      · -- an entity is longer than what it stands for, and the rest gets no shorter
        obtain ⟨entity, hentity⟩ := hc
        have hall : ∀ x ∈ entities, 1 < x.1.length := by decide
        have hlong : 1 < entity.length := hall (entity, c) hentity
        have hrest := length_le_flatMap s
        refine ⟨fun heq => ?_, fun h => absurd hentity (h.1 entity)⟩
        have hlength := congrArg List.length heq
        rw [escapeChar_of_entity hentity, List.length_append, List.length_cons] at hlength
        omega
      · have hplain : ∀ entity, (entity, c) ∉ entities := fun entity h => hc ⟨entity, h⟩
        rw [escapeChar_of_plain hplain, List.singleton_append, List.cons_inj_right, ih]
        exact (and_iff_right hplain).symm

/-- A text is written as it is exactly if it holds no mark. -/
theorem escape_eq_self_iff {text : String} :
    escape text = text ↔ ∀ c ∈ text.toList, c ∉ ['&', '<', '>', '"', '\''] := by
  rw [← String.toList_inj, toList_escape]
  exact flatMap_eq_self_iff

/-! ## Tags -/

namespace Cursor

variable {p : Cursor} {held : List Char} {mark : Char}

/-- A value is quoted with one of the two quotes. -/
def Proper : Cursor → Prop
  | text | tag _ => True
  | quoted mark _ => mark = '"' ∨ mark = '\''

theorem Proper.read (hp : p.Proper) (c : Char) : (p.read c).1.Proper := by
  cases p with
  | text =>
      rw [Cursor.read]
      split <;> trivial
  | tag held =>
      rw [Cursor.read]
      split
      · trivial
      · split
        · next hquote => exact hquote
        · trivial
  | quoted mark held =>
      rw [Cursor.read]
      split
      · trivial
      · exact hp

theorem Proper.reads (hp : p.Proper) (s : List Char) : (p.reads s).1.Proper := by
  induction s generalizing p with
  | nil => exact hp
  | cons c s ih => exact ih (hp.read c)

/-- No tag is opened in a text without its mark. -/
theorem reads_text (h : '<' ∉ s) : text.reads s = (text, []) := by
  induction s with
  | nil => rfl
  | cons c s ih =>
      rw [List.mem_cons, not_or] at h
      have hread : text.read c = (text, []) := if_neg (Ne.symm h.1)
      rw [reads, hread]
      exact ih h.2

/-- Only with the end of a tag does the reader get back into a text. -/
theorem tags_ne_nil (hp : p ≠ text) (hs : (p.reads s).1 = text) : (p.reads s).2 ≠ [] := by
  induction s generalizing p with
  | nil => exact absurd hs hp
  | cons c s ih =>
      rw [reads] at hs ⊢
      dsimp only at hs ⊢
      by_cases hnext : (p.read c).1 = text
      · have hends : (p.read c).2 ≠ [] := by
          cases p with
          | text => exact absurd rfl hp
          | tag held =>
              rw [Cursor.read] at hnext ⊢
              split at hnext
              · next hend =>
                  rw [if_pos hend]
                  exact List.cons_ne_nil _ _
              · split at hnext <;> cases hnext
          | quoted mark held =>
              rw [Cursor.read] at hnext
              split at hnext <;> cases hnext
        exact fun hnil => hends (List.append_eq_nil_iff.mp hnil).1
      · exact fun hnil => ih hnext hs (List.append_eq_nil_iff.mp hnil).2

/-- A text that opens a tag moves the reader, or has a tag of its own. -/
theorem reads_opening (h : '<' ∈ s) (hs : (text.reads s).1 = text) : (text.reads s).2 ≠ [] := by
  obtain ⟨front, back, rfl, hfront⟩ := List.eq_append_cons_of_mem h
  rw [reads_append, reads_text hfront] at hs ⊢
  have hread : text.read '<' = (tag [], []) := rfl
  dsimp only at hs ⊢
  rw [reads, hread] at hs ⊢
  exact tags_ne_nil Cursor.noConfusion hs

theorem reads_quoted (h : mark ∉ s) : (quoted mark held).reads s = (quoted mark held, []) := by
  induction s with
  | nil => rfl
  | cons c s ih =>
      rw [List.mem_cons, not_or] at h
      have hread : (quoted mark held).read c = (quoted mark held, []) := if_neg (Ne.symm h.1)
      rw [reads, hread]
      exact ih h.2

theorem reads_tag (h : ∀ c ∈ name, c ∉ ['>', '"', '\'']) :
    (tag held).reads name = (tag (name.reverse ++ held), []) := by
  induction name generalizing held with
  | nil => rfl
  | cons c name ih =>
      obtain ⟨hc, hname⟩ := List.forall_mem_cons.mp h
      have hend : c ≠ '>' := by
        rintro rfl
        exact hc (by decide)
      have hquote : ¬ (c = '"' ∨ c = '\'') := by
        rintro (rfl | rfl) <;> exact hc (by decide)
      have hread : (tag held).read c = (tag (c :: held), []) := by
        rw [Cursor.read, if_neg hend, if_neg hquote]
      rw [reads, hread]
      dsimp only
      rw [ih hname, List.reverse_cons, List.append_assoc]
      rfl

/-- Markup that begins with a tag, quotes nothing and leaves no tag open. -/
structure Closes (name more : List Char) : Prop where
  plain : ∀ c ∈ name, c ∉ ['>', '"', '\'']
  unquoted : '"' ∉ more ∧ '\'' ∉ more
  back : (text.reads more).1 = text

/-- The markup with its first tag. -/
def closing (name more : List Char) : List Char := '<' :: name ++ '>' :: more

theorem Closes.reads_closing (h : Closes name more) :
    text.reads (closing name more) = (text, name :: (text.reads more).2) := by
  have hopen : text.read '<' = (tag [], []) := rfl
  have hend : (tag (name.reverse ++ [])).read '>' = (text, [name]) := by
    rw [Cursor.read, if_pos rfl, List.append_nil, List.reverse_reverse]
  rw [closing, List.cons_append, reads, hopen]
  dsimp only
  rw [reads_append, reads_tag h.plain]
  dsimp only
  rw [reads, hend]
  dsimp only
  rw [h.back]
  rfl

/-- An open tag takes in the first tag of the markup. -/
theorem Closes.reads_tag_closing (h : Closes name more) (held : List Char) :
    (tag held).reads (closing name more) =
      (text, (held.reverse ++ '<' :: name) :: (text.reads more).2) := by
  have hplain : ∀ c ∈ '<' :: name, c ∉ ['>', '"', '\''] :=
    List.forall_mem_cons.mpr ⟨by decide, h.plain⟩
  have hend : (tag (('<' :: name).reverse ++ held)).read '>' =
      (text, [held.reverse ++ '<' :: name]) := by
    rw [Cursor.read, if_pos rfl, List.reverse_append, List.reverse_reverse]
  rw [closing, reads_append, reads_tag hplain]
  dsimp only
  rw [reads, hend]
  dsimp only
  rw [h.back]
  rfl

/-- An open quoted value takes in all of the markup. -/
theorem Closes.reads_quoted_closing (h : Closes name more) (hmark : mark = '"' ∨ mark = '\'') :
    (quoted mark held).reads (closing name more) = (quoted mark held, []) := by
  refine reads_quoted fun hmem => ?_
  rw [closing, List.cons_append, List.mem_cons, List.mem_append, List.mem_cons] at hmem
  have hnone : mark ∉ name ∧ mark ∉ more := by
    rcases hmark with rfl | rfl
    · exact ⟨fun hname => h.plain _ hname (by decide), h.unquoted.1⟩
    · exact ⟨fun hname => h.plain _ hname (by decide), h.unquoted.2⟩
  have hother : mark ≠ '<' ∧ mark ≠ '>' := by
    rcases hmark with rfl | rfl <;> decide
  rcases hmem with hfirst | hname | hfirst | hmore
  · exact hother.1 hfirst
  · exact hnone.1 hname
  · exact hother.2 hfirst
  · exact hnone.2 hmore

/-- **A RAW TEXT IS NO MARKUP UNLESS IT OPENS A TAG.**  In front of markup that closes an element,
    a text changes the tags exactly if the mark that opens one is in it. -/
theorem Closes.reads_raw_iff (h : Closes name more) :
    text.reads (s ++ closing name more) = text.reads (closing name more) ↔ '<' ∉ s := by
  constructor
  · intro heq hopens
    rw [reads_append, h.reads_closing] at heq
    obtain ⟨hcursor, htags⟩ := Prod.mk.inj heq
    have hproper : (text.reads s).1.Proper := Proper.reads (p := text) trivial s
    generalize hstand : (text.reads s).1 = p at hcursor htags hproper
    cases p with
    | text =>
        -- the tags of the text come before the others
        rw [h.reads_closing] at htags
        exact reads_opening hopens hstand (List.append_left_eq_self.mp htags)
    | tag held =>
        rw [h.reads_tag_closing held] at htags
        have hlength := congrArg List.length htags
        rw [List.length_append, List.length_cons, List.length_cons] at hlength
        have hnone : (text.reads s).2 = [] := List.length_eq_zero_iff.mp (by omega)
        rw [hnone, List.nil_append] at htags
        have hname := congrArg List.length (List.cons.inj htags).1
        rw [List.length_append, List.length_cons] at hname
        omega
    | quoted mark held =>
        rw [h.reads_quoted_closing hproper] at hcursor
        exact nomatch hcursor
  · intro hnone
    rw [reads_append, reads_text hnone]
    rfl

end Cursor

/-- A raw text between two pieces of a page, of which the latter closes an element, leaves the
    tags of the page as they are exactly if it opens none. -/
theorem markup_raw_iff {front raw back : String} (hfront : (markup front).1 = .text)
    (hback : back.toList = Cursor.closing name more) (hcloses : Cursor.Closes name more) :
    markup (front ++ (raw ++ back)) = markup (front ++ back) ↔ '<' ∉ raw.toList := by
  rw [markup] at hfront
  -- the front has the same tags in both pages
  have hreads : ∀ rest, Cursor.text.reads (front.toList ++ rest) =
      ((Cursor.text.reads rest).1,
        (Cursor.text.reads front.toList).2 ++ (Cursor.text.reads rest).2) := by
    intro rest
    rw [Cursor.reads_append, hfront]
  rw [markup, markup, ← hcloses.reads_raw_iff, String.toList_append, String.toList_append,
    String.toList_append, hreads, hreads, ← hback, Prod.mk.injEq, List.append_cancel_left_eq,
    ← Prod.ext_iff]

end Havoc.Http
