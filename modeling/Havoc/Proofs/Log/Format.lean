import Havoc.Log.Format
import Havoc.Proofs.Draw.Select
import Havoc.Proofs.Log.Template
import Havoc.Proofs.Text.Blank

/-! # What a random format always holds

    A random format is drawn as a text and read like any other, so what it holds is what the
    reader finds in the text.  `Shows` says which placeholders a text shows, one pair of braces
    after the other; a text that shows some of them is read as just these
    (`Shows.placeholders`), and texts can be put behind each other (`Shows.append`).  Every
    part that is drawn shows its own key with a fitting unit and neither begins nor ends with a
    blank (`always_randomParts`), and that passes on to the parts joined.

    The main theorem `random_format_holds` puts it together with what is known of drawn keys,
    on every stream of words. -/

namespace Havoc.Log

open Havoc.Text Havoc.Draw

/-- The inside of the braces that a template writes for a placeholder. -/
def Placeholder.content (p : Placeholder) : List Char :=
  p.key.name.toList ++ p.unit.elim [] (':' :: ·)

/-- A placeholder that is read back from what a template writes for it. -/
structure Placeholder.Readable (p : Placeholder) : Prop where
  closed : '\x7d' ∉ p.content
  read : Placeholder.ofText? p.content = some p

/-- The placeholders that a text shows; it has no other braces. -/
inductive Shows : List Placeholder → List Char → Prop where
  | text {s : List Char} : '\x7b' ∉ s → Shows [] s
  | braces {before rest : List Char} {p : Placeholder} {ps : List Placeholder} :
      '\x7b' ∉ before → p.Readable → Shows ps rest →
      Shows (p :: ps) (before ++ '\x7b' :: (p.content ++ '\x7d' :: rest))

/-- A text that neither begins nor ends with a blank. -/
structure Tight (s : List Char) : Prop where
  front : ∃ c rest, s = c :: rest ∧ isBlank c = false
  back : ∃ rest c, s = rest ++ [c] ∧ isBlank c = false

variable {p : Placeholder} {ps qs : List Placeholder} {s t before : List Char}

/-! ## Texts and their placeholders -/

theorem Placeholder.chars_eq (p : Placeholder) :
    p.chars = '\x7b' :: (p.content ++ ['\x7d']) := by
  simp only [chars, content, List.cons_append, List.append_assoc]

theorem Shows.behind_text (h : Shows ps t) (hs : '\x7b' ∉ s) : Shows ps (s ++ t) := by
  cases h with
  | text ht => exact .text fun hmem => (List.mem_append.mp hmem).elim hs ht
  | braces hbefore hp hrest =>
      rw [← List.append_assoc]
      exact .braces (fun hmem => (List.mem_append.mp hmem).elim hs hbefore) hp hrest

theorem Shows.append (h : Shows ps s) (h' : Shows qs t) : Shows (ps ++ qs) (s ++ t) := by
  induction h with
  | text hs => exact h'.behind_text hs
  | braces hbefore hp _ ih =>
      simp only [List.append_assoc, List.cons_append]
      exact .braces hbefore hp ih

theorem Placeholder.Readable.shows (hp : p.Readable) : Shows [p] p.chars := by
  rw [p.chars_eq]
  exact @Shows.braces [] [] p [] List.not_mem_nil hp (.text List.not_mem_nil)

theorem mem_literals {text : List Char} {segment : Segment}
    (h : segment ∈ Segment.literals text) : segment = .literal text := by
  rw [Segment.literals] at h
  split at h
  · exact absurd h List.not_mem_nil
  · exact List.mem_singleton.mp h

/-- The pieces of a text are literal texts and the placeholders that it shows, with nothing
    that is not known between them. -/
theorem Shows.segments (h : Shows ps s) (literal : List Char) :
    (Template.mk "" (segmentsFrom (.outside literal) s)).placeholders = ps ∧
      ∀ segment ∈ segmentsFrom (.outside literal) s, ∀ content, segment ≠ .unknown content := by
  have hnone : ∀ text : List Char, (Template.mk "" (Segment.literals text)).placeholders = [] := by
    intro text
    refine List.filterMap_eq_nil_iff.mpr fun segment hmem => ?_
    rw [mem_literals hmem]
  induction h generalizing literal with
  | @text s hs =>
      have hread := segmentsFrom_outside hs literal []
      rw [List.append_nil, segmentsFrom] at hread
      rw [hread]
      refine ⟨hnone _, fun segment hmem content => ?_⟩
      rw [mem_literals hmem]
      exact Segment.noConfusion
  | @braces before rest p ps hbefore hp _ ih =>
      obtain ⟨hps, hknown⟩ := ih []
      have hread : segmentsFrom (.outside literal)
          (before ++ '\x7b' :: (p.content ++ '\x7d' :: rest)) =
            Segment.literals (before.reverse ++ literal).reverse ++
              .placeholder p :: segmentsFrom (.outside []) rest := by
        rw [segmentsFrom_outside hbefore, segmentsFrom, if_pos rfl,
          segmentsFrom_inside hp.closed, segmentsFrom, if_pos rfl, List.append_nil,
          List.reverse_reverse, Segment.ofContent, hp.read]
      rw [hread]
      constructor
      · rw [Template.placeholders, List.filterMap_append, ← Template.placeholders.eq_1 ⟨"", _⟩,
          hnone]
        exact congrArg (p :: ·) hps
      · intro segment hmem content
        rcases List.mem_append.mp hmem with hmem | hmem
        · rw [mem_literals hmem]
          exact Segment.noConfusion
        · rcases List.mem_cons.mp hmem with rfl | hmem
          · exact Segment.noConfusion
          · exact hknown segment hmem content

/-- What a text shows is what a reader of templates finds in it. -/
theorem Shows.placeholders (h : Shows ps s) :
    (Template.ofString (String.ofList s)).placeholders = ps := by
  rw [Template.ofString, String.toList_ofList]
  exact (h.segments []).1

theorem Shows.known (h : Shows ps s) :
    ∀ segment ∈ (Template.ofString (String.ofList s)).segments,
      ∀ content, segment ≠ .unknown content := by
  rw [Template.ofString, String.toList_ofList]
  exact (h.segments []).2

/-! ## Texts without blanks at their ends -/

theorem Tight.trim_eq (h : Tight s) : trim s = s := by
  obtain ⟨first, rest, hfront, hfirst⟩ := h.front
  obtain ⟨before, last, hback, hlast⟩ := h.back
  have hdrop : s.dropWhile isBlank = s := by
    rw [hfront, List.dropWhile_cons_of_neg (by rw [hfirst]; exact Bool.false_ne_true)]
  rw [trim, trimWhile, hdrop, dropRightWhile_eq, List.rdropWhile_eq_self_iff]
  intro hne
  have hend : s.getLast hne = last := by
    simp only [hback, List.getLast_append_singleton]
  rw [hend, hlast]
  exact Bool.false_ne_true

theorem tight_enclosed {c d : Char} (hc : isBlank c = false) (hd : isBlank d = false)
    (s : List Char) : Tight (c :: (s ++ [d])) :=
  ⟨⟨c, s ++ [d], rfl, hc⟩, ⟨c :: s, d, rfl, hd⟩⟩

theorem Tight.joined (hs : Tight s) (ht : Tight t) : Tight (s ++ ' ' :: t) := by
  obtain ⟨first, rest, rfl, hfirst⟩ := hs.front
  obtain ⟨before, last, rfl, hlast⟩ := ht.back
  refine ⟨⟨first, rest ++ ' ' :: (before ++ [last]), rfl, hfirst⟩, ?_⟩
  refine ⟨first :: rest ++ ' ' :: before, last, ?_, hlast⟩
  simp only [List.cons_append, List.append_assoc]

/-- A text that shows placeholders and has no blanks at its ends. -/
structure Phrase (ps : List Placeholder) (s : List Char) : Prop where
  shows : Shows ps s
  tight : Tight s

/-- The placeholders that texts show one after the other, each without blanks at its ends. -/
inductive Phrases : List Placeholder → List (List Char) → Prop where
  | nil : Phrases [] []
  | cons {ps qs : List Placeholder} {s : List Char} {parts : List (List Char)} :
      Phrase ps s → Phrases qs parts → Phrases (ps ++ qs) (s :: parts)

variable {parts parts' : List (List Char)}

theorem Phrases.append (h : Phrases ps parts) (h' : Phrases qs parts') :
    Phrases (ps ++ qs) (parts ++ parts') := by
  induction h with
  | nil => exact h'
  | cons hphrase _ ih =>
      rw [List.append_assoc]
      exact .cons hphrase ih

theorem Phrases.joined (h : Phrases ps parts) (hne : parts ≠ []) :
    Phrase ps (joinWith ' ' parts) := by
  induction h with
  | nil => exact absurd rfl hne
  | @cons ps qs s parts hphrase hrest ih =>
      cases hrest with
      | nil =>
          rw [List.append_nil]
          exact hphrase
      | cons hnext hrest =>
          have hjoined := ih (List.cons_ne_nil _ _)
          refine ⟨hphrase.shows.append (hjoined.shows.behind_text (s := [' ']) ?_), ?_⟩
          · decide
          · exact hphrase.tight.joined hjoined.tight

/-! ## Drawn parts -/

/-- The characters between the parts of a drawn date. -/
def dateSeparators : List Char := ['-', '/', ':', '.']

/-- The units of a latency that are drawn. -/
def latencyUnits : List String := ["s", "ms", "mcs", "ns"]

/-- The units of a size that are drawn. -/
def sizeUnits : List String := ["b", "kb", "mb", "gb"]

/-- The unit fits the key: a time may have a full pattern with one separator, a latency and a
    size have one of their units, and nothing else has a unit. -/
def Placeholder.Fitting (p : Placeholder) : Prop :=
  match p.key with
  | .time => p.unit = none ∨ ∃ c ∈ dateSeparators, p.unit = some (dateTimePattern c)
  | .latency => ∃ u ∈ latencyUnits, p.unit = some u.toList
  | .requestSize | .responseSize => ∃ u ∈ sizeUnits, p.unit = some u.toList
  | _ => p.unit = none

/-- Neither a key nor a fitting unit has a brace, and a key has no colon. -/
theorem Placeholder.Fitting.readable (h : p.Fitting) : p.Readable := by
  obtain ⟨key, unit⟩ := p
  cases key with
  | time =>
      rcases h with rfl | ⟨c, hc, rfl⟩
      · exact ⟨by decide, by decide⟩
      · simp only [dateSeparators, List.mem_cons, List.not_mem_nil, or_false] at hc
        rcases hc with rfl | rfl | rfl | rfl <;> exact ⟨by decide, by decide⟩
  | latency =>
      obtain ⟨u, hu, rfl⟩ := h
      simp only [latencyUnits, List.mem_cons, List.not_mem_nil, or_false] at hu
      rcases hu with rfl | rfl | rfl | rfl <;> exact ⟨by decide, by decide⟩
  | requestSize | responseSize =>
      obtain ⟨u, hu, rfl⟩ := h
      simp only [sizeUnits, List.mem_cons, List.not_mem_nil, or_false] at hu
      rcases hu with rfl | rfl | rfl | rfl <;> exact ⟨by decide, by decide⟩
  | statusCode | method | path | clientIp | userAgent | protocol =>
      obtain rfl : unit = none := h
      exact ⟨by decide, by decide⟩

theorem always_randomUnit (key : Key) :
    Always (randomUnit key) fun unit => (Placeholder.mk key unit).Fitting := by
  cases key with
  | time =>
      refine (always_of_all fun _ => trivial).bind fun dated _ => ?_
      cases dated with
      | false => exact .return (Or.inl rfl)
      | true => exact (always_choose _ _).bind fun c hc => .return (Or.inr ⟨c, hc, rfl⟩)
  | latency | requestSize | responseSize =>
      exact (always_choose _ _).bind fun u hu => .return ⟨u, hu, rfl⟩
  | statusCode | method | path | clientIp | userAgent | protocol => exact .return rfl

theorem Placeholder.Readable.phrase (hp : p.Readable) : Phrase [p] p.chars := by
  refine ⟨hp.shows, ?_⟩
  rw [p.chars_eq]
  exact tight_enclosed (by decide) (by decide) p.content

/-- What a part is wrapped in is neither a brace nor a blank. -/
theorem Placeholder.Readable.wrapped (hp : p.Readable) {wrap : Char × Char}
    (hwrap : wrap ∈ [('"', '"'), ('\'', '\''), ('[', ']')]) :
    Phrase [p] (wrap.1 :: p.chars ++ [wrap.2]) := by
  have hplain : ('\x7b' ≠ wrap.1 ∧ '\x7b' ≠ wrap.2) ∧
      isBlank wrap.1 = false ∧ isBlank wrap.2 = false := by
    simp only [List.mem_cons, List.not_mem_nil, or_false] at hwrap
    rcases hwrap with rfl | rfl | rfl <;> decide
  obtain ⟨⟨hopening, hclosing⟩, hopens, hcloses⟩ := hplain
  have hfirst : '\x7b' ∉ [wrap.1] := fun hmem => hopening (List.mem_singleton.mp hmem)
  have hlast : Shows [] [wrap.2] := .text fun hmem => hclosing (List.mem_singleton.mp hmem)
  exact ⟨(hp.shows.append hlast).behind_text hfirst, tight_enclosed hopens hcloses p.chars⟩

theorem always_randomParts (key : Key) :
    Always (randomParts key) fun parts =>
      parts ≠ [] ∧ ∃ p : Placeholder, p.key = key ∧ p.Fitting ∧ Phrases [p] parts := by
  refine (always_randomUnit key).bind fun unit hunit => ?_
  have hread := Placeholder.Fitting.readable hunit
  -- a hyphen that follows shows nothing
  have hhyphen : Phrase [] ['-'] :=
    ⟨.text (by decide), ⟨'-', [], rfl, by decide⟩, ⟨[], '-', rfl, by decide⟩⟩
  have hend : ∀ wrapped, Phrase [⟨key, unit⟩] wrapped →
      Always (do if ← Draw.chance hyphenChance then return [wrapped, ['-']] else return [wrapped])
        fun parts =>
          parts ≠ [] ∧ ∃ p : Placeholder, p.key = key ∧ p.Fitting ∧ Phrases [p] parts := by
    intro wrapped hwrapped
    refine (always_of_all fun _ => trivial).bind fun hyphen _ => ?_
    cases hyphen with
    | false => exact .return ⟨List.cons_ne_nil _ _, _, rfl, hunit, .cons hwrapped .nil⟩
    | true =>
        exact .return ⟨List.cons_ne_nil _ _, _, rfl, hunit, .cons hwrapped (.cons hhyphen .nil)⟩
  refine (always_of_all fun _ => trivial).bind fun wrap _ => ?_
  cases wrap with
  | false => exact (Always.return hread.phrase).bind hend
  | true =>
      exact (always_choose _ _).bind fun _ hmem => (Always.return (hread.wrapped hmem)).bind hend

theorem always_randomPartsOf (keys : List Key) :
    Always (randomPartsOf keys) fun parts =>
      (keys ≠ [] → parts ≠ []) ∧ ∃ ps : List Placeholder,
        ps.map (·.key) = keys ∧ (∀ p ∈ ps, p.Fitting) ∧ Phrases ps parts := by
  induction keys with
  | nil => exact .return ⟨fun h => absurd rfl h, [], rfl, fun p hp => absurd hp List.not_mem_nil, .nil⟩
  | cons key keys ih =>
      refine (always_randomParts key).bind ?_
      rintro parts ⟨hne, p, rfl, hfit, hparts⟩
      refine ih.bind ?_
      rintro more ⟨-, ps, rfl, hfits, hmore⟩
      refine .return ⟨fun _ => List.append_ne_nil_of_left_ne_nil hne more, p :: ps, rfl, ?_, ?_⟩
      · exact List.forall_mem_cons.mpr ⟨hfit, hfits⟩
      · exact hparts.append hmore

/-! ## A drawn format -/

/-- A text with a brace and without blanks at its ends is a template of its own, whatever the
    case of its letters, and nothing is drawn for it. -/
theorem select_own (hbrace : '\x7b' ∈ s) (htight : Tight s) (w : Words) :
    select (String.ofList s) w = (Template.ofString (String.ofList s), w) := by
  have hname : ∀ name : String, '\x7b' ∉ name.toList →
      String.ofList (asciiLower s) ≠ name := by
    rintro name hnone rfl
    rw [String.toList_ofList] at hnone
    exact hnone (List.mem_map.mpr ⟨_, hbrace, by decide⟩)
  rw [select, String.toList_ofList, htight.trim_eq]
  generalize hlower : String.ofList (asciiLower s) = lowered
  split
  · exact absurd hlower (hname _ (by decide))
  · exact absurd hlower (hname _ (by decide))
  · exact absurd hlower (hname _ (by decide))
  · exact absurd hlower (hname _ (by decide))
  · exact absurd hlower (hname _ (by decide))
  · rfl

theorem Shows.has_brace (h : Shows (p :: ps) s) : '\x7b' ∈ s := by
  cases h with
  | braces => exact List.mem_append_right _ List.mem_cons_self

/-- A drawn format is read from a text that shows fitting placeholders, whose keys are the
    mandatory ones and at most two others. -/
theorem always_randomFormat :
    Always randomFormat fun t => ∃ (chosen : List Key) (ps : List Placeholder) (s : List Char),
      t = Template.ofString (String.ofList s) ∧ Phrase ps s ∧ (∀ p ∈ ps, p.Fitting) ∧
        (ps.map (·.key)).Perm (Key.mandatory ++ chosen) ∧
        chosen.Nodup ∧ chosen ⊆ Key.optional ∧ chosen.length ≤ 2 := by
  have hbelow : Always (Draw.below 3) (· < 3) := fun w => belowWith_lt (by decide) patience w
  refine hbelow.bind fun extra hextra => ?_
  refine (always_several (by decide) extra).bind ?_
  rintro chosen ⟨hnodup, hsubset, hlength⟩
  refine (always_shuffle _).bind fun keys hkeys => ?_
  refine (always_randomPartsOf keys).bind ?_
  rintro parts ⟨hne, ps, hps, hfit, hparts⟩
  have hmandatory : keys ≠ [] := by
    intro h
    rw [h] at hkeys
    exact List.cons_ne_nil _ _ hkeys.symm.eq_nil
  refine .return ⟨chosen, ps, _, rfl, hparts.joined (hne hmandatory), hfit, ?_, hnodup, hsubset, ?_⟩
  · rw [hps]
    exact hkeys
  · rw [hlength]
    exact Nat.le_trans (Nat.min_le_left _ _) (Nat.le_of_lt_succ hextra)

/-- **A RANDOM FORMAT HOLDS EVERY MANDATORY KEY.**  Whatever the words of the stream are, the
    template that is read from the drawn text shows each mandatory key once, at most two
    others, none of them twice, each with a fitting unit, and nothing that is not known.
    Asked for as a format of one's own, its text gives the same template, and no word is
    drawn. -/
theorem random_format_holds (w : Words) :
    let t := (randomFormat w).1
    let keys := t.placeholders.map (·.key)
    (∀ key ∈ Key.mandatory, keys.count key = 1) ∧
      keys.countP (· ∈ Key.optional) ≤ 2 ∧
      keys.Nodup ∧ 5 ≤ keys.length ∧ keys.length ≤ 7 ∧
      (∀ segment ∈ t.segments, ∀ content, segment ≠ .unknown content) ∧
      (∀ p ∈ t.placeholders, p.Fitting) ∧
      ∀ w' : Words, select t.source w' = (t, w') := by
  have hdrawn := always_randomFormat w
  revert hdrawn
  generalize (randomFormat w).1 = t
  rintro ⟨chosen, ps, s, rfl, hphrase, hfit, hperm, hnodup, hsubset, hlength⟩ t keys
  have hps : t.placeholders = ps := hphrase.shows.placeholders
  have hkeys : keys.Perm (Key.mandatory ++ chosen) := by
    show (t.placeholders.map (·.key)).Perm _
    rw [hps]
    exact hperm
  -- the keys at choice are none of the mandatory ones
  have hapart : ∀ key ∈ Key.mandatory, key ∉ chosen := by
    intro key hkey hmem
    have : ∀ key ∈ Key.mandatory, key ∉ Key.optional := by decide
    exact this key hkey (hsubset hmem)
  have hcount := hkeys.length_eq
  rw [List.length_append] at hcount
  have hfive : Key.mandatory.length = 5 := rfl
  refine ⟨?_, ?_, ?_, by omega, by omega, ?_, ?_, ?_⟩
  · intro key hkey
    have honce : ∀ key ∈ Key.mandatory, Key.mandatory.count key = 1 := by decide
    rw [hkeys.count_eq, List.count_append, honce key hkey,
      List.count_eq_zero.mpr (hapart key hkey)]
  · have hnone : Key.mandatory.countP (· ∈ Key.optional) = 0 := by decide
    rw [hkeys.countP_eq, List.countP_append, hnone, Nat.zero_add]
    exact Nat.le_trans List.countP_le_length hlength
  · rw [hkeys.nodup_iff, List.nodup_append']
    exact ⟨by decide, hnodup, fun key hkey hmem => hapart key hkey hmem⟩
  · exact hphrase.shows.known
  · rw [hps]
    exact hfit
  · intro w'
    have hbrace : '\x7b' ∈ s := by
      cases ps with
      | nil => exact absurd hperm.symm.eq_nil (List.cons_ne_nil _ _)
      | cons p ps => exact hphrase.shows.has_brace
    exact select_own hbrace hphrase.tight w'

end Havoc.Log
