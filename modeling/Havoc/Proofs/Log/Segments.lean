import Havoc.Proofs.Log.Format

/-! # The pieces of a template

    The reader of templates cuts every text in one way only: literal pieces are as long as they
    can be, a brace that is never closed is part of the last one, and what stands in a pair of
    braces holds no closing brace.  `Pieces` says so from left to right, without a reader that
    gathers characters, and the reader is tied to it once (`pieces_segmentsFrom`,
    `Pieces.segmentsFrom`).

    All else goes by induction on `Pieces`: the pieces are canonical (`Pieces.canonical`), the
    text spells them, with its own way to write the names of keys (`Pieces.spelled`), and the
    text that they are printed as has the same pieces (`Pieces.printed`).  The main theorem is
    `segments_survive_printing`. -/

namespace Havoc.Log

open Havoc.Text

/-- A text and its pieces. -/
inductive Pieces : List Char → List Segment → Prop where
  | text {s : List Char} : '\x7b' ∉ s → Pieces s (Segment.literals s)
  | unclosed {before after : List Char} :
      '\x7b' ∉ before → '\x7d' ∉ after →
      Pieces (before ++ '\x7b' :: after) [.literal (before ++ '\x7b' :: after)]
  | braces {before content rest : List Char} {segments : List Segment} :
      '\x7b' ∉ before → '\x7d' ∉ content → Pieces rest segments →
      Pieces (before ++ '\x7b' :: (content ++ '\x7d' :: rest))
        (Segment.literals before ++ Segment.ofContent content :: segments)

/-- Whether a piece is a literal text. -/
def Segment.isLiteral : Segment → Bool
  | .literal _ => true
  | .placeholder _ | .unknown _ => false

/-- Pieces that no other pieces are printed like. -/
structure Canonical (segments : List Segment) : Prop where
  nonempty : .literal [] ∉ segments
  /-- No two literal pieces stand beside each other. -/
  apart : segments.IsChain fun x y => x.isLiteral = false ∨ y.isLiteral = false
  /-- Only the last piece may be a literal that opens a brace. -/
  unopened : ∀ text, .literal text ∈ segments.dropLast → '\x7b' ∉ text
  unclosed : ∀ before after, .literal (before ++ '\x7b' :: after) ∈ segments → '\x7d' ∉ after
  unit : ∀ p unit, .placeholder p ∈ segments → p.unit = some unit → '\x7d' ∉ unit
  unknown : ∀ content, .unknown content ∈ segments → '\x7d' ∉ content

/-- The name of a key in any case of its letters, with blanks around it. -/
def SpellsKey (key : Key) (s : List Char) : Prop :=
  ∃ left name right, s = left ++ name ++ right ∧ asciiLower name = key.name.toList ∧
    (∀ c ∈ left, isBlank c = true) ∧ ∀ c ∈ right, isBlank c = true

/-- A way to write a piece: only the name of a key can be spelled in more than one way. -/
inductive Spells : Segment → List Char → Prop where
  | literal (text : List Char) : Spells (.literal text) text
  | placeholder {p : Placeholder} {name : List Char} :
      SpellsKey p.key name →
      Spells (.placeholder p) ('\x7b' :: (name ++ p.unit.elim [] (':' :: ·)) ++ ['\x7d'])
  | unknown (content : List Char) :
      Spells (.unknown content) ('\x7b' :: content ++ ['\x7d'])

/-- A text that spells pieces one after the other.  Two texts that spell the same pieces differ
    in the case of the names of keys and in the blanks around them, and in nothing else. -/
def Spell (segments : List Segment) (s : List Char) : Prop :=
  ∃ texts, List.Forall₂ Spells segments texts ∧ texts.flatten = s

/-- The text that pieces are printed as. -/
def printed (segments : List Segment) : List Char := segments.flatMap Segment.chars

variable {s before after content rest : List Char} {segments : List Segment} {key : Key}
  {p : Placeholder}

/-! ## The reader -/

theorem segmentsFrom_text (h : '\x7b' ∉ s) :
    segmentsFrom (.outside []) s = Segment.literals s := by
  have hread := segmentsFrom_outside h [] []
  rwa [List.append_nil, List.append_nil, segmentsFrom, List.reverse_reverse] at hread

theorem segmentsFrom_unclosed (hbefore : '\x7b' ∉ before) (hafter : '\x7d' ∉ after) :
    segmentsFrom (.outside []) (before ++ '\x7b' :: after) =
      [.literal (before ++ '\x7b' :: after)] := by
  have hread := segmentsFrom_inside hafter before.reverse [] []
  rw [List.append_nil, List.append_nil, segmentsFrom, List.reverse_reverse,
    List.reverse_reverse] at hread
  rw [segmentsFrom_outside hbefore, segmentsFrom, if_pos rfl, List.append_nil, hread,
    Segment.literals, if_neg (by simp)]

theorem segmentsFrom_braces (hbefore : '\x7b' ∉ before) (hcontent : '\x7d' ∉ content) :
    segmentsFrom (.outside []) (before ++ '\x7b' :: (content ++ '\x7d' :: rest)) =
      Segment.literals before ++
        Segment.ofContent content :: segmentsFrom (.outside []) rest := by
  rw [segmentsFrom_outside hbefore, segmentsFrom, if_pos rfl, segmentsFrom_inside hcontent,
    segmentsFrom, if_pos rfl, List.append_nil, List.append_nil, List.reverse_reverse,
    List.reverse_reverse]

/-- The reader cuts every text into its pieces. -/
theorem pieces_segmentsFrom (s : List Char) : Pieces s (segmentsFrom (.outside []) s) := by
  induction s using substitute.induct with
  | case1 s hopen =>
      have htext := cutAt_eq_none_iff.mp hopen
      rw [segmentsFrom_text htext]
      exact .text htext
  | case2 s before after hopen hclose =>
      obtain ⟨hbefore, rfl⟩ := cutAt_eq_some_iff.mp hopen
      have hafter := cutAt_eq_none_iff.mp hclose
      rw [segmentsFrom_unclosed hbefore hafter]
      exact .unclosed hbefore hafter
  | case3 s before after hopen content rest hclose ih =>
      obtain ⟨hbefore, rfl⟩ := cutAt_eq_some_iff.mp hopen
      obtain ⟨hcontent, rfl⟩ := cutAt_eq_some_iff.mp hclose
      rw [segmentsFrom_braces hbefore hcontent]
      exact .braces hbefore hcontent ih

/-- A text has no other pieces than those that the reader finds. -/
theorem Pieces.eq_segmentsFrom (h : Pieces s segments) :
    segmentsFrom (.outside []) s = segments := by
  induction h with
  | text h => exact segmentsFrom_text h
  | unclosed hbefore hafter => exact segmentsFrom_unclosed hbefore hafter
  | braces hbefore hcontent _ ih => rw [segmentsFrom_braces hbefore hcontent, ih]

/-! ## Keys and placeholders -/

theorem Key.lower_of_ofText? (h : Key.ofText? s = some key) :
    asciiLower (trim s) = key.name.toList := by
  have hname := List.find?_some h
  exact (of_decide_eq_true hname).symm

theorem Key.ofText?_name (key : Key) : Key.ofText? key.name.toList = some key := by
  cases key <;> decide

theorem Key.name_plain (key : Key) : ':' ∉ key.name.toList ∧ '\x7d' ∉ key.name.toList := by
  cases key <;> decide

theorem spellsKey_of_ofText? (h : Key.ofText? s = some key) : SpellsKey key s := by
  obtain ⟨left, right, hsplit, hleft, hright⟩ := trim_split s
  exact ⟨left, trim s, right, hsplit, Key.lower_of_ofText? h, hleft, hright⟩

/-- The inside of a pair of braces with a known key is a spelling of the key, with the unit
    behind it. -/
theorem Placeholder.content_of_ofText? (h : Placeholder.ofText? content = some p) :
    ∃ name, content = name ++ p.unit.elim [] (':' :: ·) ∧ Key.ofText? name = some p.key := by
  rw [Placeholder.ofText?] at h
  cases hcut : cutAt ':' content with
  | none =>
      rw [hcut] at h
      obtain ⟨key, hkey, rfl⟩ := Option.map_eq_some_iff.mp h
      exact ⟨content, (List.append_nil content).symm, hkey⟩
  | some cut =>
      obtain ⟨name, unit⟩ := cut
      rw [hcut] at h
      obtain ⟨key, hkey, rfl⟩ := Option.map_eq_some_iff.mp h
      exact ⟨name, cutAt_eq hcut, hkey⟩

theorem Placeholder.ofText?_content (p : Placeholder) : Placeholder.ofText? p.content = some p := by
  obtain ⟨key, unit⟩ := p
  rw [Placeholder.ofText?, Placeholder.content]
  cases unit with
  | none =>
      rw [Option.elim_none, List.append_nil, cutAt_eq_none_iff.mpr key.name_plain.1]
      simp only [Key.ofText?_name, Option.map_some]
  | some unit =>
      rw [Option.elim_some, cutAt_append key.name_plain.1]
      simp only [Key.ofText?_name, Option.map_some]

/-- A placeholder that was read between braces is read again from what it is printed as. -/
theorem Placeholder.readable_of_ofText? (h : Placeholder.ofText? content = some p)
    (hcontent : '\x7d' ∉ content) : p.Readable := by
  obtain ⟨name, rfl, -⟩ := content_of_ofText? h
  refine ⟨?_, ofText?_content p⟩
  rw [Placeholder.content, List.mem_append, not_or]
  exact ⟨p.key.name_plain.2, fun hmem => hcontent (List.mem_append_right name hmem)⟩

/-! ## One pair of braces -/

theorem Segment.ofContent_not_literal (content : List Char) :
    (Segment.ofContent content).isLiteral = false := by
  rw [Segment.ofContent]
  split <;> rfl

theorem Segment.content_of_placeholder {unit : List Char}
    (h : Segment.ofContent content = .placeholder p) (hunit : p.unit = some unit) :
    ∃ name, content = name ++ ':' :: unit := by
  rw [Segment.ofContent] at h
  split at h
  · next hread =>
      obtain rfl := Segment.placeholder.inj h
      obtain ⟨name, hname, -⟩ := Placeholder.content_of_ofText? hread
      rw [hunit] at hname
      exact ⟨name, hname⟩
  · cases h

theorem Segment.content_of_unknown {other : List Char}
    (h : Segment.ofContent content = .unknown other) : other = content := by
  rw [Segment.ofContent] at h
  split at h
  · cases h
  · exact (Segment.unknown.inj h).symm

/-- The piece that a pair of braces is, is printed as a pair of braces that is the same
    piece. -/
theorem Segment.chars_ofContent (h : '\x7d' ∉ content) :
    ∃ content', '\x7d' ∉ content' ∧ Segment.ofContent content' = Segment.ofContent content ∧
      (Segment.ofContent content).chars = '\x7b' :: (content' ++ ['\x7d']) := by
  cases hread : Placeholder.ofText? content with
  | none =>
      refine ⟨content, h, rfl, ?_⟩
      simp only [Segment.ofContent, hread, Segment.chars, List.cons_append]
  | some p =>
      have hp := Placeholder.readable_of_ofText? hread h
      refine ⟨p.content, hp.closed, ?_, ?_⟩
      · simp only [Segment.ofContent, hread, hp.read]
      · simp only [Segment.ofContent, hread, Segment.chars, p.chars_eq]

theorem Segment.spells_ofContent (content : List Char) :
    Spells (Segment.ofContent content) ('\x7b' :: content ++ ['\x7d']) := by
  rw [Segment.ofContent]
  split
  · next p hread =>
      obtain ⟨name, rfl, hkey⟩ := Placeholder.content_of_ofText? hread
      exact .placeholder (spellsKey_of_ofText? hkey)
  · exact .unknown content

theorem Segment.spells_chars (segment : Segment) : Spells segment segment.chars := by
  cases segment with
  | literal text => exact .literal text
  | placeholder p => exact .placeholder (spellsKey_of_ofText? (Key.ofText?_name p.key))
  | unknown content => exact .unknown content

theorem spell_literals (s : List Char) : Spell (Segment.literals s) s := by
  cases s with
  | nil => exact ⟨[], .nil, rfl⟩
  | cons c s => exact ⟨[c :: s], .cons (.literal _) .nil, List.append_nil _⟩

theorem printed_append (front back : List Segment) :
    printed (front ++ back) = printed front ++ printed back :=
  List.flatMap_append

theorem spell_printed (segments : List Segment) : Spell segments (printed segments) := by
  refine ⟨segments.map Segment.chars, ?_, List.flatMap_def.symm⟩
  rw [List.forall₂_map_right_iff, List.forall₂_same]
  exact fun segment _ => segment.spells_chars

theorem printed_literals (s : List Char) : printed (Segment.literals s) = s := by
  cases s with
  | nil => rfl
  | cons c s => exact List.append_nil _

/-! ## Canonical pieces -/

theorem not_mem_behind {front back : List Char} (hbefore : '\x7b' ∉ before)
    (hafter : '\x7d' ∉ after) (heq : before ++ '\x7b' :: after = front ++ '\x7b' :: back) :
    '\x7d' ∉ back := by
  by_cases hmem : '\x7b' ∈ front
  · -- the brace in front comes first, and all of this is behind it
    obtain ⟨first, mid, rfl, hfirst⟩ := List.eq_append_cons_of_mem hmem
    rw [List.append_assoc, List.cons_append] at heq
    obtain ⟨-, rfl⟩ := cut_unique hbefore hfirst heq
    exact fun hback => hafter (List.mem_append_right mid (List.mem_cons_of_mem _ hback))
  · obtain ⟨-, rfl⟩ := cut_unique hbefore hmem heq
    exact hafter

theorem literal_nil_not_mem_literals (s : List Char) : .literal [] ∉ Segment.literals s := by
  intro hmem
  obtain rfl := Segment.literal.inj (mem_literals hmem)
  exact absurd hmem List.not_mem_nil

theorem Segment.dropLast_literals (s : List Char) : (Segment.literals s).dropLast = [] := by
  cases s <;> rfl

theorem canonical_literals (h : '\x7b' ∉ s) : Canonical (Segment.literals s) where
  nonempty := literal_nil_not_mem_literals s
  apart := by
    cases s with
    | nil => exact .nil
    | cons c s => exact .singleton _
  unopened text hmem := by
    rw [Segment.dropLast_literals] at hmem
    exact absurd hmem List.not_mem_nil
  unclosed before after hmem := by
    obtain rfl := Segment.literal.inj (mem_literals hmem)
    exact absurd (List.mem_append_right before List.mem_cons_self) h
  unit p unit hmem := nomatch mem_literals hmem
  unknown content hmem := nomatch mem_literals hmem

theorem canonical_unclosed (hbefore : '\x7b' ∉ before) (hafter : '\x7d' ∉ after) :
    Canonical [.literal (before ++ '\x7b' :: after)] where
  nonempty hmem := by
    have heq := Segment.literal.inj (List.mem_singleton.mp hmem)
    exact List.append_ne_nil_of_right_ne_nil before (List.cons_ne_nil _ _) heq.symm
  apart := .singleton _
  unopened text hmem := absurd hmem List.not_mem_nil
  unclosed front back hmem :=
    not_mem_behind hbefore hafter (Segment.literal.inj (List.mem_singleton.mp hmem)).symm
  unit p unit hmem := nomatch List.mem_singleton.mp hmem
  unknown content hmem := nomatch List.mem_singleton.mp hmem

theorem Canonical.braces (hbefore : '\x7b' ∉ before) (hcontent : '\x7d' ∉ content)
    (h : Canonical segments) :
    Canonical (Segment.literals before ++ Segment.ofContent content :: segments) := by
  have hliteral := Segment.ofContent_not_literal content
  have hmem : ∀ segment ∈ Segment.literals before ++ Segment.ofContent content :: segments,
      segment ∈ Segment.literals before ∨ segment = Segment.ofContent content ∨
        segment ∈ segments := by
    intro segment hmem
    rcases List.mem_append.mp hmem with hmem | hmem
    · exact Or.inl hmem
    · exact Or.inr (List.mem_cons.mp hmem)
  refine ⟨?_, ?_, ?_, ?_, ?_, ?_⟩
  · intro hnil
    rcases hmem _ hnil with hnil | hnil | hnil
    · exact literal_nil_not_mem_literals before hnil
    · rw [← hnil] at hliteral
      exact nomatch hliteral
    · exact h.nonempty hnil
  · have hback : (Segment.ofContent content :: segments).IsChain
        fun x y => x.isLiteral = false ∨ y.isLiteral = false := by
      cases segments with
      | nil => exact .singleton _
      | cons segment segments => exact .cons_cons (Or.inl hliteral) h.apart
    cases before with
    | nil => exact hback
    | cons c before => exact .cons_cons (Or.inr hliteral) hback
  · intro text htext
    rw [List.dropLast_append_cons] at htext
    rcases List.mem_append.mp htext with htext | htext
    · obtain rfl := Segment.literal.inj (mem_literals htext)
      exact hbefore
    · cases segments with
      | nil => exact absurd htext List.not_mem_nil
      | cons segment segments =>
          rcases List.mem_cons.mp htext with htext | htext
          · rw [← htext] at hliteral
            exact nomatch hliteral
          · exact h.unopened text htext
  · intro front back hfront
    rcases hmem _ hfront with hfront | hfront | hfront
    · obtain rfl := Segment.literal.inj (mem_literals hfront)
      exact absurd (List.mem_append_right front List.mem_cons_self) hbefore
    · rw [← hfront] at hliteral
      exact nomatch hliteral
    · exact h.unclosed front back hfront
  · intro p unit hp hunit
    rcases hmem _ hp with hp | hp | hp
    · exact nomatch mem_literals hp
    · obtain ⟨name, rfl⟩ := Segment.content_of_placeholder hp.symm hunit
      exact fun h => hcontent (List.mem_append_right name (List.mem_cons_of_mem _ h))
    · exact h.unit p unit hp hunit
  · intro other hother
    rcases hmem _ hother with hother | hother | hother
    · exact nomatch mem_literals hother
    · rwa [Segment.content_of_unknown hother.symm]
    · exact h.unknown other hother

/-! ## All pieces -/

theorem Pieces.canonical (h : Pieces s segments) : Canonical segments := by
  induction h with
  | text h => exact canonical_literals h
  | unclosed hbefore hafter => exact canonical_unclosed hbefore hafter
  | braces hbefore hcontent _ ih => exact .braces hbefore hcontent ih

/-- The pieces of a text are printed as a text with the same pieces. -/
theorem Pieces.printed (h : Pieces s segments) : Pieces (printed segments) segments := by
  induction h with
  | @text s h =>
      rw [printed_literals]
      exact .text h
  | @unclosed before after hbefore hafter =>
      have hsame : Log.printed [.literal (before ++ '\x7b' :: after)] =
          before ++ '\x7b' :: after := List.append_nil _
      rw [hsame]
      exact .unclosed hbefore hafter
  | @braces before content rest segments hbefore hcontent _ ih =>
      obtain ⟨content', hcontent', hsame, hchars⟩ := Segment.chars_ofContent hcontent
      have hprinted :
          Log.printed (Segment.literals before ++ Segment.ofContent content :: segments) =
            before ++ '\x7b' :: (content' ++ '\x7d' :: Log.printed segments) := by
        have hcons : Log.printed (Segment.ofContent content :: segments) =
            (Segment.ofContent content).chars ++ Log.printed segments := List.flatMap_cons
        rw [printed_append, printed_literals, hcons, hchars]
        simp only [List.cons_append, List.append_assoc, List.nil_append]
      rw [hprinted, ← hsame]
      exact .braces hbefore hcontent' ih

/-- A text spells its pieces. -/
theorem Pieces.spelled (h : Pieces s segments) : Spell segments s := by
  induction h with
  | @text s h => exact spell_literals s
  | unclosed => exact ⟨[_], .cons (.literal _) .nil, List.append_nil _⟩
  | @braces before content rest segments _ _ _ ih =>
      obtain ⟨front, hfront, rfl⟩ := spell_literals before
      obtain ⟨back, hback, rfl⟩ := ih
      refine ⟨front ++ ('\x7b' :: content ++ ['\x7d']) :: back, ?_, ?_⟩
      · exact List.rel_append hfront (.cons (Segment.spells_ofContent content) hback)
      · simp only [List.flatten_append, List.flatten_cons, List.cons_append, List.append_assoc,
          List.nil_append]

/-- **THE PIECES OF A TEMPLATE SURVIVE PRINTING.**  Whatever the text is, its pieces are
    canonical: literals are not empty, never beside each other and without open braces but at
    the very end, and no unit and nothing unknown holds a closing brace.  The text and the
    text that the pieces are printed as spell the same pieces, so they are the same but for
    the case of keys and the blanks around them; and both are read as just these pieces. -/
theorem segments_survive_printing (pattern : String) :
    Canonical (Template.ofString pattern).segments ∧
      let segments := (Template.ofString pattern).segments
      Spell segments pattern.toList ∧ Spell segments (printed segments) ∧
        (Template.ofString (String.ofList (printed segments))).segments = segments := by
  let segments := (Template.ofString pattern).segments
  have hpieces : Pieces pattern.toList segments := pieces_segmentsFrom pattern.toList
  refine ⟨hpieces.canonical, hpieces.spelled, spell_printed segments, ?_⟩
  rw [Template.ofString, String.toList_ofList]
  exact hpieces.printed.eq_segmentsFrom

/-- A key in another case and among blanks, one with two colons behind it, and a brace that is
    never closed. -/
example :
    let pattern := "\x7b Time :%H:%M\x7d-\x7bti\x7bme\x7d \x7bPATH"
    printed (Template.ofString pattern).segments =
      "\x7btime:%H:%M\x7d-\x7bti\x7bme\x7d \x7bPATH".toList := by
  decide

end Havoc.Log
