import Havoc.Url.Percent
import Mathlib.Data.List.Basic

/-! # What comes back of percent encoding

    Encoding and decoding are no inverses for texts that hold percent signs: the part
    of an address that stands for a user lets a percent sign through, and a reader
    takes it with two digits behind it for a byte.  So the encoded text is decoded to
    the same bytes as the text itself (`decode_encode`), and these are the bytes of the
    text exactly if it holds no such escape (`decode_eq_utf8_iff`).

    Both are proved by induction along what a reader takes at a time: an escape, a
    percent sign alone, or any other character (`reading_induction`). -/

namespace Havoc

/-! ## Bytes of texts -/

namespace Text

theorem toList_loop (bytes : ByteArray) (i : Nat) (read : List UInt8) :
    ByteArray.toList.loop bytes i read = read.reverse ++ bytes.data.toList.drop i := by
  fun_induction ByteArray.toList.loop bytes i read with
  | case1 i read hi ih =>
      have hlength : i < bytes.data.toList.length := hi
      have hget : bytes.get! i = bytes.data.toList[i] := getElem!_pos bytes.data i hi
      rw [ih, List.reverse_cons, List.append_assoc, List.drop_eq_getElem_cons hlength, hget]
      rfl
  | case2 i read hi =>
      rw [List.drop_eq_nil_of_le (Nat.le_of_not_lt hi), List.append_nil]

theorem utf8_eq_data (s : String) : utf8 s = s.toByteArray.data.toList := toList_loop _ 0 []

theorem utf8_ofList_cons (c : Char) (s : List Char) :
    utf8 (String.ofList (c :: s)) = utf8 (String.singleton c) ++ utf8 (String.ofList s) := by
  have hcons : String.ofList (c :: s) = String.singleton c ++ String.ofList s := by
    rw [← List.singleton_append, String.ofList_append]
    rfl
  rw [hcons, utf8_eq_data, utf8_eq_data, utf8_eq_data, String.toByteArray_append,
    ByteArray.toList_data_append]

theorem utf8_singleton (c : Char) : utf8 (String.singleton c) = String.utf8EncodeChar c := by
  rw [utf8_eq_data]
  show (String.ofList [c]).toByteArray.data.toList = _
  rw [String.toByteArray_ofList, List.utf8Encode_singleton, List.toList_data_toByteArray]

theorem utf8_ofList_cons_pos (c : Char) (s : List Char) :
    (utf8 (String.ofList s)).length < (utf8 (String.ofList (c :: s))).length := by
  rw [utf8_ofList_cons, utf8_singleton, List.length_append]
  exact Nat.lt_add_of_pos_left (List.length_pos_iff.mpr String.utf8EncodeChar_ne_nil)

end Text

namespace Url

open Text

/-! ## Escapes -/

/-- Whether a character is a hexadecimal digit of either case. -/
def IsHex (c : Char) : Prop := (Number.hexValue? c).isSome = true

/-- The byte that two hexadecimal digits at the front of a text stand for, and the rest. -/
def hexPair? : List Char → Option (UInt8 × List Char)
  | h :: l :: rest =>
    match Number.hexValue? h, Number.hexValue? l with
    | some high, some low => some (UInt8.ofNat (high * 16 + low), rest)
    | _, _ => none
  | _ => none

/-- A text holds a percent sign with two hexadecimal digits behind it. -/
def Escapes (s : List Char) : Prop :=
  ∃ before h l after, s = before ++ '%' :: h :: l :: after ∧ IsHex h ∧ IsHex l

variable {c h l : Char} {s t rest : List Char} {b : UInt8} {set : EncodeSet}

theorem hexPair?_isSome_iff :
    (hexPair? t).isSome = true ↔ ∃ h l rest, t = h :: l :: rest ∧ IsHex h ∧ IsHex l := by
  constructor
  · intro hsome
    match t with
    | [] => exact nomatch hsome
    | [h] => exact nomatch hsome
    | h :: l :: rest =>
        refine ⟨h, l, rest, rfl, ?_⟩
        rw [hexPair?] at hsome
        cases hh : Number.hexValue? h with
        | none => simp [hh] at hsome
        | some high =>
            cases hl : Number.hexValue? l with
            | none => simp [hh, hl] at hsome
            | some low => exact ⟨Option.isSome_of_eq_some hh, Option.isSome_of_eq_some hl⟩
  · rintro ⟨h, l, rest, rfl, hh, hl⟩
    obtain ⟨high, hh⟩ := Option.isSome_iff_exists.mp hh
    obtain ⟨low, hl⟩ := Option.isSome_iff_exists.mp hl
    simp [hexPair?, hh, hl]

/-- Two digits are taken off the front. -/
theorem eq_of_hexPair? (h : hexPair? t = some (b, rest)) : ∃ h l, t = h :: l :: rest := by
  obtain ⟨x, y, more, rfl, hx, hy⟩ := hexPair?_isSome_iff.mp (Option.isSome_of_eq_some h)
  obtain ⟨high, hx⟩ := Option.isSome_iff_exists.mp hx
  obtain ⟨low, hy⟩ := Option.isSome_iff_exists.mp hy
  simp only [hexPair?, hx, hy] at h
  obtain ⟨-, rfl⟩ := Prod.mk.inj (Option.some.inj h)
  exact ⟨x, y, rfl⟩

theorem escapes_cons : Escapes (c :: s) ↔ (c = '%' ∧ (hexPair? s).isSome = true) ∨ Escapes s := by
  rw [hexPair?_isSome_iff]
  constructor
  · rintro ⟨before, h, l, after, heq, hh, hl⟩
    cases before with
    | nil =>
        obtain ⟨rfl, rfl⟩ := List.cons.inj heq
        exact Or.inl ⟨rfl, h, l, after, rfl, hh, hl⟩
    | cons x before =>
        obtain ⟨rfl, rfl⟩ := List.cons.inj heq
        exact Or.inr ⟨before, h, l, after, rfl, hh, hl⟩
  · rintro (⟨rfl, h, l, after, rfl, hh, hl⟩ | ⟨before, h, l, after, rfl, hh, hl⟩)
    · exact ⟨[], h, l, after, rfl, hh, hl⟩
    · exact ⟨c :: before, h, l, after, rfl, hh, hl⟩

theorem not_escapes_nil : ¬ Escapes [] := by
  rintro ⟨before, h, l, after, heq, -⟩
  exact absurd heq.symm (List.append_ne_nil_of_right_ne_nil before (List.cons_ne_nil _ _))

instance decidableEscapes : (s : List Char) → Decidable (Escapes s)
  | [] => isFalse not_escapes_nil
  | _ :: s =>
    have := decidableEscapes s
    decidable_of_iff _ escapes_cons.symm

/-! ## Decoding -/

theorem decode_cons_of_ne (hc : c ≠ '%') (t : List Char) :
    decode (c :: t) = utf8 (String.singleton c) ++ decode t :=
  decode.eq_3 c t fun _ _ _ h _ => hc h

theorem utf8_percent : utf8 (String.singleton '%') = [0x25] := by
  rw [utf8_singleton]
  decide

/-- A percent sign stands for the byte of the digits behind it, or for itself. -/
theorem decode_percent (t : List Char) :
    decode ('%' :: t) =
      match hexPair? t with
      | some (b, rest) => b :: decode rest
      | none => 0x25 :: decode t := by
  cases t with
  | nil =>
      rw [decode.eq_3 '%' [] fun _ _ _ _ h => absurd h.symm (List.cons_ne_nil _ _), utf8_percent]
      rfl
  | cons h more =>
      cases more with
      | nil =>
          rw [decode.eq_3 '%' [h] fun _ _ _ _ h =>
            absurd (List.cons.inj h).2.symm (List.cons_ne_nil _ _), utf8_percent]
          rfl
      | cons l rest =>
          rw [decode, hexPair?]
          cases Number.hexValue? h with
          | none => rfl
          | some high =>
              cases Number.hexValue? l with
              | none => rfl
              | some low => rfl

/-- Texts are read escape by escape and character by character. -/
@[elab_as_elim]
theorem reading_induction {motive : List Char → Prop} (nil : motive [])
    (escape : ∀ t b rest, hexPair? t = some (b, rest) → motive rest → motive ('%' :: t))
    (sign : ∀ t, hexPair? t = none → motive t → motive ('%' :: t))
    (char : ∀ c t, c ≠ '%' → motive t → motive (c :: t)) (s : List Char) : motive s := by
  induction hn : s.length using Nat.strongRecOn generalizing s with
  | _ n ih =>
      subst hn
      match s with
      | [] => exact nil
      | c :: t =>
          have htail := ih t.length (Nat.lt_succ_self _) t rfl
          by_cases hc : c = '%'
          · subst hc
            cases hpair : hexPair? t with
            | none => exact sign t hpair htail
            | some found =>
                obtain ⟨b, rest⟩ := found
                refine escape t b rest hpair (ih rest.length ?_ rest rfl)
                obtain ⟨h, l, rfl⟩ := eq_of_hexPair? hpair
                simp only [List.length_cons]
                omega
          · exact char c t hc htail

/-- A reader gives a text without escapes back, and makes a text with escapes shorter. -/
theorem decode_spec (s : List Char) :
    (Escapes s ∧ (decode s).length < (utf8 (String.ofList s)).length) ∨
      (¬ Escapes s ∧ decode s = utf8 (String.ofList s)) := by
  induction s using reading_induction with
  | nil =>
      refine Or.inr ⟨not_escapes_nil, ?_⟩
      rw [decode, utf8_eq_data]
      rfl
  | escape t b rest hpair ih =>
      have hfound : (hexPair? t).isSome = true := Option.isSome_of_eq_some hpair
      refine Or.inl ⟨escapes_cons.mpr (Or.inl ⟨rfl, hfound⟩), ?_⟩
      have hle : (decode rest).length ≤ (utf8 (String.ofList rest)).length := by
        rcases ih with ⟨-, hlt⟩ | ⟨-, heq⟩
        · exact Nat.le_of_lt hlt
        · exact Nat.le_of_eq (congrArg List.length heq)
      obtain ⟨h, l, rfl⟩ := eq_of_hexPair? hpair
      have hl := utf8_ofList_cons_pos l rest
      have hh := utf8_ofList_cons_pos h (l :: rest)
      have hsign := utf8_ofList_cons_pos '%' (h :: l :: rest)
      simp only [decode_percent, hpair, List.length_cons]
      omega
  | sign t hpair ih =>
      simp only [escapes_cons, decode_percent, hpair, utf8_ofList_cons, utf8_percent]
      simpa using ih
  | char c t hc ih =>
      simp only [escapes_cons, hc, false_and, false_or, decode_cons_of_ne hc, utf8_ofList_cons]
      simpa using ih

/-- A text is read as it is exactly if it holds no escape. -/
theorem decode_eq_utf8_iff (s : String) : decode s.toList = utf8 s ↔ ¬ Escapes s.toList := by
  have hspec := decode_spec s.toList
  rw [String.ofList_toList] at hspec
  rcases hspec with ⟨hesc, hlt⟩ | ⟨hno, heq⟩
  · refine iff_of_false ?_ (not_not_intro hesc)
    intro heq
    exact absurd (congrArg List.length heq) (Nat.ne_of_lt hlt)
  · exact iff_of_true heq hno

/-! ## Bytes as escapes -/

theorem hexPadded_two {n : Nat} (hn : n < 256) :
    Number.hexPadded 2 n = [Nat.digitChar (n / 16), Nat.digitChar (n % 16)] := by
  have hhigh : n / 16 < 16 := by omega
  rw [Number.hexPadded, Number.padLeft]
  by_cases hsmall : n < 16
  · rw [Nat.toDigits_of_lt_base hsmall, Nat.div_eq_of_lt hsmall, Nat.mod_eq_of_lt hsmall]
    rfl
  · rw [Nat.toDigits_of_base_le (by decide) (Nat.le_of_not_lt hsmall),
      Nat.toDigits_of_lt_base hhigh]
    rfl

theorem hexValue?_digit : ∀ d < 16, Number.hexValue? (Nat.digitChar d).toUpper = some d := by
  decide

/-- A byte is written as a percent sign and its two digits. -/
theorem encodeByte_eq (b : UInt8) :
    ∃ h l, encodeByte b = ['%', h, l] ∧ Number.hexValue? h = some (b.toNat / 16) ∧
      Number.hexValue? l = some (b.toNat % 16) := by
  have hb : b.toNat < 256 := b.toNat_lt
  refine ⟨_, _, ?_, hexValue?_digit _ (by omega), hexValue?_digit _ (Nat.mod_lt _ (by decide))⟩
  rw [encodeByte, hexPadded_two hb]
  rfl

theorem decode_encodeByte (b : UInt8) (t : List Char) :
    decode (encodeByte b ++ t) = b :: decode t := by
  obtain ⟨h, l, heq, hh, hl⟩ := encodeByte_eq b
  have hbyte : b.toNat / 16 * 16 + b.toNat % 16 = b.toNat := by omega
  have hpair : hexPair? (h :: l :: t) = some (b, t) := by
    simp only [hexPair?, hh, hl, hbyte, UInt8.ofNat_toNat]
  rw [heq]
  show decode ('%' :: h :: l :: t) = _
  rw [decode_percent, hpair]

theorem decode_encodeBytes (bytes : List UInt8) (t : List Char) :
    decode (bytes.flatMap encodeByte ++ t) = bytes ++ decode t := by
  induction bytes with
  | nil => rfl
  | cons b bytes ih =>
      rw [List.flatMap_cons, List.append_assoc, decode_encodeByte, ih]
      rfl

/-! ## Encoding -/

/-- A set that encodes neither percent signs nor hexadecimal digits. -/
structure LetsEscapes (set : EncodeSet) : Prop where
  sign : set '%' = false
  digit : ∀ c, IsHex c → set c = false

theorem isAlphanum_iff (c : Char) : c.isAlphanum = true ↔
    ((65 ≤ c.toNat ∧ c.toNat ≤ 90) ∨ (97 ≤ c.toNat ∧ c.toNat ≤ 122)) ∨
      (48 ≤ c.toNat ∧ c.toNat ≤ 57) := by
  delta Char.isAlphanum Char.isAlpha Char.isUpper Char.isLower Char.isDigit
  simp only [Bool.or_eq_true, Bool.and_eq_true, decide_eq_true_eq, ge_iff_le,
    UInt32.le_iff_toNat_le]
  exact Iff.rfl

theorem isAlphanum_of_isHex (hc : IsHex c) : c.isAlphanum = true := by
  have hrange : ('0' ≤ c ∧ c ≤ '9') ∨ ('a' ≤ c ∧ c ≤ 'f') ∨ ('A' ≤ c ∧ c ≤ 'F') := by
    rw [IsHex, Number.hexValue?] at hc
    by_contra hno
    rw [not_or, not_or] at hno
    rw [if_neg hno.1, if_neg hno.2.1, if_neg hno.2.2] at hc
    exact nomatch hc
  simp only [Char.le_def, UInt32.le_iff_toNat_le] at hrange
  change (48 ≤ c.toNat ∧ c.toNat ≤ 57) ∨ (97 ≤ c.toNat ∧ c.toNat ≤ 102) ∨
    (65 ≤ c.toNat ∧ c.toNat ≤ 70) at hrange
  rw [isAlphanum_iff]
  omega

theorem controls_of_isAlphanum (hc : c.isAlphanum = true) : controls c = false := by
  rw [isAlphanum_iff] at hc
  simp only [controls, Bool.or_eq_false_iff, decide_eq_false_iff_not]
  omega

/-- A letter or a digit is none of some other characters. -/
theorem contains_of_isAlphanum {others : List Char}
    (hothers : others.all (fun x => !x.isAlphanum) = true) (hc : c.isAlphanum = true) :
    others.contains c = false := by
  refine Bool.eq_false_iff.mpr fun hmem => ?_
  have hno := List.all_eq_true.mp hothers c (List.contains_iff_mem.mp hmem)
  rw [hc] at hno
  exact nomatch hno

/-- What stands for a user keeps letters and digits, and percent signs too. -/
theorem letsEscapes_inUserinfo : LetsEscapes inUserinfo where
  sign := by decide
  digit c hc := by
    have halnum := isAlphanum_of_isHex hc
    rw [inUserinfo, inPath, inFragment, controls_of_isAlphanum halnum,
      contains_of_isAlphanum (by decide) halnum, contains_of_isAlphanum (by decide) halnum,
      contains_of_isAlphanum (by decide) halnum]
    rfl

theorem encode_cons (set : EncodeSet) (c : Char) (s : List Char) :
    encode set (c :: s) = encodeChar set c ++ encode set s := List.flatMap_cons

theorem encodeChar_of_not (hc : set c = false) : encodeChar set c = [c] := by
  rw [encodeChar, hc]
  rfl

/-- A character that is no digit is written without a digit in front. -/
theorem encodeChar_front (set : EncodeSet) (hc : ¬ IsHex c) :
    ∃ x more, encodeChar set c = x :: more ∧ ¬ IsHex x := by
  rw [encodeChar]
  split
  · have hsign : ¬ IsHex '%' := by
      rw [IsHex]
      decide
    cases hbytes : utf8 (String.singleton c) with
    | nil =>
        rw [utf8_singleton] at hbytes
        exact absurd hbytes String.utf8EncodeChar_ne_nil
    | cons b bytes =>
        obtain ⟨h, l, heq, -, -⟩ := encodeByte_eq b
        rw [List.flatMap_cons, heq]
        exact ⟨'%', _, rfl, hsign⟩
  · exact ⟨c, [], rfl, hc⟩

theorem hexPair?_of_not (hc : ¬ IsHex c) (t : List Char) : hexPair? (c :: t) = none := by
  have hnone := Option.not_isSome_iff_eq_none.mp hc
  cases t with
  | nil => rfl
  | cons l rest => simp only [hexPair?, hnone]

theorem hexPair?_of_not_second (hc : ¬ IsHex c) (h : Char) (t : List Char) :
    hexPair? (h :: c :: t) = none := by
  have hnone := Option.not_isSome_iff_eq_none.mp hc
  simp only [hexPair?, hnone]
  cases Number.hexValue? h with
  | none => rfl
  | some high => rfl

/-- Two digits stand at the front of an encoded text just where they did before. -/
theorem hexPair?_encode (hset : LetsEscapes set) (t : List Char) :
    hexPair? (encode set t) = (hexPair? t).map fun (b, rest) => (b, encode set rest) := by
  match t with
  | [] => rfl
  | h :: t =>
      by_cases hh : IsHex h
      · rw [encode_cons, encodeChar_of_not (hset.digit h hh)]
        match t with
        | [] => rfl
        | l :: rest =>
            by_cases hl : IsHex l
            · rw [encode_cons, encodeChar_of_not (hset.digit l hl)]
              obtain ⟨high, hh⟩ := Option.isSome_iff_exists.mp hh
              obtain ⟨low, hl⟩ := Option.isSome_iff_exists.mp hl
              simp only [List.singleton_append, hexPair?, hh, hl]
              rfl
            · obtain ⟨x, more, heq, hx⟩ := encodeChar_front set hl
              rw [encode_cons, heq, hexPair?_of_not_second hl]
              exact hexPair?_of_not_second hx h _
      · obtain ⟨x, more, heq, hx⟩ := encodeChar_front set hh
        rw [encode_cons, heq, hexPair?_of_not hh]
        exact hexPair?_of_not hx _

theorem decode_encodeChar (hc : c ≠ '%') (t : List Char) :
    decode (encodeChar set c ++ t) = utf8 (String.singleton c) ++ decode t := by
  rw [encodeChar]
  split
  · exact decode_encodeBytes _ t
  · exact decode_cons_of_ne hc t

/-- An encoded text is read as the text itself would be. -/
theorem decode_encode (hset : LetsEscapes set) (s : List Char) :
    decode (encode set s) = decode s := by
  induction s using reading_induction with
  | nil => rfl
  | escape t b rest hpair ih =>
      rw [encode_cons, encodeChar_of_not hset.sign]
      show decode ('%' :: encode set t) = _
      rw [decode_percent, hexPair?_encode hset, decode_percent, hpair]
      exact congrArg (b :: ·) ih
  | sign t hpair ih =>
      rw [encode_cons, encodeChar_of_not hset.sign]
      show decode ('%' :: encode set t) = _
      rw [decode_percent, hexPair?_encode hset, decode_percent, hpair]
      exact congrArg (0x25 :: ·) ih
  | char c t hc ih => rw [encode_cons, decode_encodeChar hc, decode_cons_of_ne hc, ih]

/-- What an encoded text is made of. -/
theorem mem_encode (h : c ∈ encode set s) : (c ∈ s ∧ set c = false) ∨ c = '%' ∨ IsHex c := by
  obtain ⟨x, hx, hc⟩ := List.mem_flatMap.mp h
  rw [encodeChar] at hc
  split at hc
  · obtain ⟨b, -, hb⟩ := List.mem_flatMap.mp hc
    obtain ⟨high, low, heq, hhigh, hlow⟩ := encodeByte_eq b
    rw [heq] at hb
    simp only [List.mem_cons, List.not_mem_nil, or_false] at hb
    rcases hb with rfl | rfl | rfl
    · exact Or.inr (Or.inl rfl)
    · exact Or.inr (Or.inr (Option.isSome_of_eq_some hhigh))
    · exact Or.inr (Or.inr (Option.isSome_of_eq_some hlow))
  · next hno =>
      rw [List.mem_singleton.mp hc]
      exact Or.inl ⟨hx, Bool.eq_false_iff.mpr hno⟩

/-- Nothing that is to be encoded is left in an encoded text. -/
theorem not_set_of_mem_encode (hset : LetsEscapes set) (h : c ∈ encode set s) : set c = false := by
  rcases mem_encode h with ⟨-, hc⟩ | rfl | hc
  · exact hc
  · exact hset.sign
  · exact hset.digit c hc

end Url
end Havoc
