import Havoc.Proofs.Number.Integer
import Havoc.Proofs.Text.Cut
import Havoc.Proofs.Url.Percent
import Havoc.Url.Reader
import Mathlib.Data.List.DropRight

/-! # Who is asked, read off a written address

    A client finds the user and the password of an address in its text: they stand
    behind the scheme and two slashes, before the last `@` of the authority, with the
    first colon between them (`credentials?`).  It finds what the parts of the address
    hold if none of them holds a sign that separates others (`Authority.Plain`), and
    every authority that is read from a text is plain (`plain_of_parse`). -/

namespace Havoc.Url

open Text

/-! ## Reading the text of an address -/

/-- The authority of a written address: what stands behind the scheme and two slashes. -/
def authorityText? (s : List Char) : Option (List Char) :=
  (cutAt ':' s).bind fun (_, rest) =>
    (after? ['/', '/'] rest).map (·.takeWhile fun c => !endsAuthority false c)

/-- The user and the password of a written address, as they are written. -/
def credentials? (s : List Char) : Option (List Char × List Char) :=
  (authorityText? s).map fun authority =>
    match cutAtLast '@' authority with
    | some (info, _) => (cutAt ':' info).getD (info, [])
    | none => ([], [])

/-- Whether a character ends a host, or a user in front of it. -/
def separates (c : Char) : Bool := endsAuthority false c || c = '@'

/-- An authority none of whose parts holds a sign that separates others. -/
structure Authority.Plain (a : Authority) : Prop where
  username : ∀ c ∈ a.username, inUserinfo c = false
  password : ∀ c ∈ a.password, inUserinfo c = false
  host : ∀ c ∈ a.host, separates c = false

variable {a : Authority} {u : Url} {c : Char} {s rest host : List Char}

theorem separates_of_isAlphanum (hc : c.isAlphanum = true) : separates c = false := by
  refine Bool.eq_false_iff.mpr fun hsep => ?_
  simp only [separates, endsAuthority, Bool.false_and, Bool.or_false, Bool.or_eq_true,
    decide_eq_true_eq] at hsep
  rcases hsep with ((rfl | rfl) | rfl) | rfl <;> exact absurd hc (by decide)

/-- What stands for a user encodes all signs that separate. -/
theorem separates_of_inUserinfo (hc : inUserinfo c = false) : separates c = false := by
  refine Bool.eq_false_iff.mpr fun hsep => ?_
  simp only [separates, endsAuthority, Bool.false_and, Bool.or_false, Bool.or_eq_true,
    decide_eq_true_eq] at hsep
  rcases hsep with ((rfl | rfl) | rfl) | rfl <;> exact absurd hc (by decide)

theorem ne_of_not_separates (hc : separates c = false) : c ≠ '@' := by
  rintro rfl
  exact nomatch hc

theorem mem_port_isDigit {port : Option Nat}
    (h : c ∈ port.elim [] fun p => ':' :: Number.digits p) : c = ':' ∨ c.isAlphanum = true := by
  cases port with
  | none => exact absurd h List.not_mem_nil
  | some p =>
      rcases List.mem_cons.mp h with rfl | h
      · exact Or.inl rfl
      · have hdigit := Nat.isDigit_of_mem_toDigits (by decide) (by decide) h
        exact Or.inr (by rw [Char.isAlphanum, hdigit, Bool.or_true])

/-- The host and the port of a plain authority hold no sign that separates. -/
theorem Authority.Plain.site (ha : a.Plain) :
    ∀ c ∈ a.host ++ a.port.elim [] fun p => ':' :: Number.digits p, separates c = false := by
  intro c hc
  rcases List.mem_append.mp hc with hc | hc
  · exact ha.host c hc
  · rcases mem_port_isDigit hc with rfl | hc
    · decide
    · exact separates_of_isAlphanum hc

/-- Nothing in a plain authority ends it. -/
theorem Authority.Plain.chars (ha : a.Plain) : ∀ c ∈ a.chars, endsAuthority false c = false := by
  have hends : ∀ c, separates c = false → endsAuthority false c = false :=
    fun c hc => (Bool.or_eq_false_iff.mp hc).1
  intro c hc
  rw [Authority.chars, List.append_assoc] at hc
  rcases List.mem_append.mp hc with hc | hc
  · rw [userinfo] at hc
    split at hc
    · exact absurd hc List.not_mem_nil
    · rw [List.append_assoc] at hc
      rcases List.mem_append.mp hc with hc | hc
      · exact hends c (separates_of_inUserinfo (ha.username c hc))
      · rcases List.mem_append.mp hc with hc | hc
        · split at hc
          · exact absurd hc List.not_mem_nil
          · rcases List.mem_cons.mp hc with rfl | hc
            · decide
            · exact hends c (separates_of_inUserinfo (ha.password c hc))
        · rw [List.mem_singleton.mp hc]
          decide
  · exact hends c (ha.site c hc)

theorem cutAtLast_append {before after : List Char} (h : c ∉ after) :
    cutAtLast c (before ++ c :: after) = some (before, after) := by
  have hreversed : (before ++ c :: after).reverse = after.reverse ++ c :: before.reverse := by
    rw [List.reverse_append, List.reverse_cons, List.append_assoc]
    rfl
  rw [cutAtLast, hreversed, cutAt_append (by rwa [List.mem_reverse]), Option.map_some]
  show some (before.reverse.reverse, after.reverse.reverse) = _
  rw [List.reverse_reverse, List.reverse_reverse]

theorem cutAtLast_eq_none (h : c ∉ s) : cutAtLast c s = none := by
  rw [cutAtLast, cutAt_eq_none_iff.mpr (by rwa [List.mem_reverse])]
  rfl

/-- The user and the password of a plain authority are found in its text. -/
theorem Authority.Plain.cut (ha : a.Plain) :
    (match cutAtLast '@' a.chars with
      | some (info, _) => (cutAt ':' info).getD (info, [])
      | none => ([], [])) = (a.username, a.password) := by
  have hsite : '@' ∉ a.host ++ a.port.elim [] fun p => ':' :: Number.digits p :=
    fun hmem => ne_of_not_separates (ha.site '@' hmem) rfl
  have hname : ':' ∉ a.username := fun hmem => nomatch ha.username ':' hmem
  rw [Authority.chars, List.append_assoc, userinfo]
  by_cases hempty : (a.username.isEmpty && a.password.isEmpty) = true
  · rw [if_pos hempty, List.nil_append, cutAtLast_eq_none hsite]
    rw [Bool.and_eq_true, List.isEmpty_iff, List.isEmpty_iff] at hempty
    rw [hempty.1, hempty.2]
  · rw [if_neg hempty, List.append_assoc _ ['@'], List.singleton_append, cutAtLast_append hsite]
    by_cases hpassword : a.password.isEmpty = true
    · rw [if_pos hpassword, List.append_nil]
      show (cutAt ':' a.username).getD (a.username, []) = _
      rw [cutAt_eq_none_iff.mpr hname, List.isEmpty_iff.mp hpassword]
      rfl
    · rw [if_neg hpassword]
      show (cutAt ':' (a.username ++ ':' :: a.password)).getD _ = _
      rw [cutAt_append hname]
      rfl

/-- A client finds the user and the password of a plain authority in the address. -/
theorem credentials?_chars (hscheme : ':' ∉ u.scheme) (hauthority : u.authority = some a)
    (ha : a.Plain) (hpath : u.path.head? = some '/') :
    credentials? u.chars = some (a.username, a.password) := by
  obtain ⟨path, hpath⟩ := List.head?_eq_some_iff.mp hpath
  have htext : authorityText? u.chars = some a.chars := by
    have hchars : u.chars = u.scheme ++ ':' :: ('/' :: '/' :: (a.chars ++ '/' :: (path ++
        u.query.elim [] ('?' :: ·) ++ u.fragment.elim [] ('#' :: ·)))) := by
      simp [Url.chars, hauthority, hpath]
    rw [authorityText?, hchars, cutAt_append hscheme]
    show some (List.takeWhile _ (a.chars ++ '/' :: _)) = _
    rw [List.takeWhile_append_of_pos (fun c hc => by rw [ha.chars c hc]; rfl)]
    show some (a.chars ++ []) = _
    rw [List.append_nil]
  rw [credentials?, htext, Option.map_some, ha.cut]

/-! ## Hosts -/

theorem mem_joinWith {pieces : List (List Char)} {sep : Char} (h : c ∈ joinWith sep pieces) :
    c = sep ∨ ∃ piece ∈ pieces, c ∈ piece := by
  fun_induction joinWith sep pieces with
  | case1 => exact absurd h List.not_mem_nil
  | case2 piece => exact Or.inr ⟨piece, List.mem_singleton_self piece, h⟩
  | case3 piece rest hrest ih =>
      rcases List.mem_append.mp h with h | h
      · exact Or.inr ⟨piece, List.mem_cons_self, h⟩
      · rcases List.mem_cons.mp h with rfl | h
        · exact Or.inl rfl
        · rcases ih h with rfl | ⟨p, hp, hc⟩
          · exact Or.inl rfl
          · exact Or.inr ⟨p, List.mem_cons_of_mem _ hp, hc⟩

theorem isAlphanum_of_mem_hex {n : Nat} (h : c ∈ Nat.toDigits 16 n) : c.isAlphanum = true := by
  have hdigit : ∀ d < 16, (Nat.digitChar d).isAlphanum = true := by decide
  obtain ⟨d, hd, rfl⟩ := Number.exists_digit_of_mem_hex h
  exact hdigit d hd

theorem separates_of_mem_pieces {pieces : List Nat}
    (h : c ∈ joinWith ':' (pieces.map fun n => Nat.toDigits 16 n)) : separates c = false := by
  rcases mem_joinWith h with rfl | ⟨piece, hpiece, hc⟩
  · decide
  · obtain ⟨n, -, rfl⟩ := List.mem_map.mp hpiece
    exact separates_of_isAlphanum (isAlphanum_of_mem_hex hc)

theorem separates_of_mem_ipv6Text {pieces : List Nat} (h : c ∈ ipv6Text pieces) :
    separates c = false := by
  rw [ipv6Text] at h
  split at h
  · exact separates_of_mem_pieces h
  · rcases List.mem_append.mp h with h | h
    · rcases List.mem_append.mp h with h | h
      · exact separates_of_mem_pieces h
      · simp only [List.mem_cons, List.not_mem_nil, or_false, or_self] at h
        rw [h]
        decide
    · exact separates_of_mem_pieces h

theorem separates_of_bracketed (h : bracketed? s = .ok host) :
    ∀ c ∈ host, separates c = false := by
  intro c hc
  rw [bracketed?] at h
  split at h
  · split at h
    · obtain rfl := Except.ok.inj h
      rcases List.mem_append.mp hc with hc | hc
      · rcases List.mem_cons.mp hc with rfl | hc
        · decide
        · exact separates_of_mem_ipv6Text hc
      · rw [List.mem_singleton.mp hc]
        decide
    · exact nomatch h
  · exact nomatch h

theorem separates_of_not_forbidden (hc : isForbidden c = false) : separates c = false := by
  refine Bool.eq_false_iff.mpr fun hsep => ?_
  simp only [separates, endsAuthority, Bool.false_and, Bool.or_false, Bool.or_eq_true,
    decide_eq_true_eq] at hsep
  rcases hsep with ((rfl | rfl) | rfl) | rfl <;> exact absurd hc (by decide)

theorem separates_of_opaqueHost (h : opaqueHost s = .ok host) :
    ∀ c ∈ host, separates c = false := by
  rw [opaqueHost] at h
  split at h
  · exact separates_of_bracketed h
  · split at h
    · exact nomatch h
    · next hplain =>
        obtain rfl := Except.ok.inj h
        intro c hc
        rcases mem_encode hc with ⟨hc, -⟩ | rfl | hc
        · refine separates_of_not_forbidden (Bool.eq_false_iff.mpr fun hforbidden => hplain ?_)
          exact List.any_eq_true.mpr ⟨c, hc, hforbidden⟩
        · decide
        · exact separates_of_isAlphanum (isAlphanum_of_isHex hc)

theorem separates_of_mem_ipv4Text {n : Nat} (h : c ∈ ipv4Text n) : separates c = false := by
  rcases mem_joinWith h with rfl | ⟨piece, hpiece, hc⟩
  · decide
  · obtain ⟨n, -, rfl⟩ := List.mem_map.mp hpiece
    have hdigit := Nat.isDigit_of_mem_toDigits (by decide) (by decide) hc
    exact separates_of_isAlphanum (by rw [Char.isAlphanum, hdigit, Bool.or_true])

theorem separates_of_specialHost (h : specialHost s = .ok host) :
    ∀ c ∈ host, separates c = false := by
  rw [specialHost] at h
  split at h
  · exact separates_of_bracketed h
  · split at h
    · exact nomatch h
    · dsimp only at h
      split at h
      · exact nomatch h
      · next hplain =>
          split at h
          · exact nomatch h
          · split at h
            · split at h
              · obtain rfl := Except.ok.inj h
                exact fun c hc => separates_of_mem_ipv4Text hc
              · exact nomatch h
            · obtain rfl := Except.ok.inj h
              intro c hc
              refine separates_of_not_forbidden (Bool.eq_false_iff.mpr fun hforbidden => hplain ?_)
              exact List.any_eq_true.mpr ⟨c, hc, by rw [hforbidden]; rfl⟩

/-! ## Authorities that are read -/

theorem bind_eq_ok {ε α β : Type} {x : Except ε α} {f : α → Except ε β} {b : β} :
    (x >>= f) = .ok b ↔ ∃ a, x = .ok a ∧ f a = .ok b := by
  cases x with
  | error e => exact iff_of_false nofun (fun ⟨_, h, _⟩ => nomatch h)
  | ok a => exact ⟨fun h => ⟨a, rfl, h⟩, fun ⟨_, ha, h⟩ => Except.ok.inj ha ▸ h⟩

theorem of_unless_throw {ε α : Type} {p : Prop} [Decidable p] {e : ε} {f : Unit → Except ε α}
    {x : α} (h : (if p then (throw e : Except ε Unit) >>= f else f ()) = Except.ok x) :
    f () = .ok x := by
  split at h
  · exact nomatch h
  · exact h

/-- An authority holds the host and the user that it was made of. -/
theorem authority_of_host {scheme username password portText : List Char}
    {reading : Except UrlError (List Char)}
    (h : (do
      let host ← reading
      if host.isEmpty ∧ !portText.isEmpty then throw UrlError.emptyHost
      let port ← port? scheme (portText.drop 1)
      if host.isEmpty ∧ !(username.isEmpty && password.isEmpty) then throw UrlError.emptyHost
      return ({ username, password, host, port } : Authority)) = .ok a) :
    reading = .ok a.host ∧ (a.username, a.password) = (username, password) := by
  obtain ⟨host, hreading, h⟩ := bind_eq_ok.mp h
  have h := of_unless_throw h
  obtain ⟨port, -, h⟩ := bind_eq_ok.mp h
  have h := of_unless_throw h
  obtain rfl := Except.ok.inj h
  exact ⟨hreading, rfl⟩

/-- Where the host and the user of an authority come from. -/
theorem authority?_eq_ok {scheme : List Char} {followed : Bool}
    (h : authority? scheme followed s = .ok a) :
    (∃ name, specialHost name = .ok a.host ∨ opaqueHost name = .ok a.host) ∧
      (a.username, a.password) =
        ((cutAtLast '@' s).map (·.1)).elim ([], []) userinfoOf := by
  unfold authority? at h
  cases hcut : cutAtLast '@' s with
  | none =>
      simp only [hcut] at h
      have h := of_unless_throw (of_unless_throw h)
      split at h
      · obtain ⟨hhost, hinfo⟩ := authority_of_host h
        exact ⟨⟨_, Or.inl hhost⟩, hinfo⟩
      · obtain ⟨hhost, hinfo⟩ := authority_of_host h
        exact ⟨⟨_, Or.inr hhost⟩, hinfo⟩
  | some parts =>
      simp only [hcut] at h
      have h := of_unless_throw (of_unless_throw h)
      split at h
      · obtain ⟨hhost, hinfo⟩ := authority_of_host h
        exact ⟨⟨_, Or.inl hhost⟩, hinfo⟩
      · obtain ⟨hhost, hinfo⟩ := authority_of_host h
        exact ⟨⟨_, Or.inr hhost⟩, hinfo⟩

theorem userinfoOf_plain (info : List Char) :
    (∀ c ∈ (userinfoOf info).1, inUserinfo c = false) ∧
      ∀ c ∈ (userinfoOf info).2, inUserinfo c = false := by
  have hencoded : ∀ s, ∀ c ∈ encode inUserinfo s, inUserinfo c = false :=
    fun s c hc => not_set_of_mem_encode letsEscapes_inUserinfo hc
  rw [userinfoOf]
  split
  · exact ⟨hencoded _, hencoded _⟩
  · exact ⟨hencoded _, nofun⟩

/-- An authority that is read from a text is plain, and has no user if the text has no `@`. -/
theorem plain_of_authority? {scheme : List Char} {followed : Bool}
    (h : authority? scheme followed s = .ok a) :
    a.Plain ∧ ('@' ∉ s → a.username = [] ∧ a.password = []) := by
  obtain ⟨⟨name, hhost⟩, hinfo⟩ := authority?_eq_ok h
  have hplain : ∀ c ∈ a.host, separates c = false := by
    rcases hhost with hhost | hhost
    · exact separates_of_specialHost hhost
    · exact separates_of_opaqueHost hhost
  cases hcut : (cutAtLast '@' s).map (·.1) with
  | none =>
      rw [hcut] at hinfo
      obtain ⟨hname, hpassword⟩ := Prod.mk.inj hinfo
      refine ⟨⟨?_, ?_, hplain⟩, fun _ => ⟨hname, hpassword⟩⟩
      · rw [hname]
        exact nofun
      · rw [hpassword]
        exact nofun
  | some info =>
      rw [hcut] at hinfo
      obtain ⟨hname, hpassword⟩ := Prod.mk.inj hinfo
      obtain ⟨hnames, hpasswords⟩ := userinfoOf_plain info
      refine ⟨⟨?_, ?_, hplain⟩, fun hnone => ?_⟩
      · rw [hname]
        exact hnames
      · rw [hpassword]
        exact hpasswords
      · rw [cutAtLast_eq_none hnone] at hcut
        exact nomatch hcut

theorem withAuthority_eq_ok {scheme : List Char} (h : withAuthority scheme s = .ok u) :
    u.scheme = scheme ∧ ∃ a followed, u.authority = some a ∧
      authority? scheme followed (s.takeWhile fun c => !endsAuthority (isSpecial scheme) c) =
        .ok a := by
  unfold withAuthority at h
  obtain ⟨a, hread, h⟩ := bind_eq_ok.mp h
  obtain rfl := Except.ok.inj h
  exact ⟨rfl, a, _, rfl, hread⟩

/-- No letter becomes a colon in lower case. -/
theorem toLower_eq_colon (h : c.toLower = ':') : c = ':' := by
  delta Char.toLower at h
  split at h
  · next hupper =>
      have hlow : 65 ≤ c.val.toNat := UInt32.le_iff_toNat_le.mp hupper.1
      have hhigh : c.val.toNat ≤ 90 := UInt32.le_iff_toNat_le.mp hupper.2
      have hval : (c.val.toNat + 32) % 2 ^ 32 = 58 := congrArg (fun x : Char => x.val.toNat) h
      omega
  · exact h

/-- A scheme holds no colon, and what follows it stood there before. -/
theorem scheme?_eq_some {scheme : List Char} (h : scheme? s = some (scheme, rest)) :
    ':' ∉ scheme ∧ ∀ c ∈ rest, c ∈ s := by
  unfold scheme? at h
  split at h
  · next name after hcut =>
      split at h
      · next first more =>
          split at h
          · obtain ⟨rfl, rfl⟩ := Prod.mk.inj (Option.some.inj h)
            have hname := not_mem_of_cutAt hcut
            refine ⟨fun hmem => hname ?_, fun c hc => ?_⟩
            · obtain ⟨x, hx, hlower⟩ := List.mem_map.mp hmem
              rwa [← toLower_eq_colon hlower]
            · rw [cutAt_eq hcut]
              exact List.mem_append_right _ (List.mem_cons_of_mem _ hc)
          · exact nomatch h
      · exact nomatch h
  · exact nomatch h

theorem mem_of_mem_cleaned (h : c ∈ cleaned s) : c ∈ s := by
  have htrimmed := List.mem_of_mem_filter h
  have hfront : c ∈ s.dropWhile fun c => c.toNat ≤ 0x20 :=
    (List.rdropWhile_prefix _ _).subset htrimmed
  exact (List.dropWhile_suffix _).subset hfront

/-- The authority of an address that is read is plain, and has no user if the text has no `@`. -/
theorem plain_of_parse {text : String} (h : parse text = .ok u)
    (hauthority : u.authority = some a) :
    ':' ∉ u.scheme ∧ a.Plain ∧ ('@' ∉ text.toList → a.username = [] ∧ a.password = []) := by
  -- only one way of reading gives an authority
  have hread : ∀ scheme rest, scheme? (cleaned text.toList) = some (scheme, rest) →
      ∀ s, (∀ c ∈ s, c ∈ rest) → withAuthority scheme s = .ok u → ':' ∉ u.scheme ∧ a.Plain ∧
        ('@' ∉ text.toList → a.username = [] ∧ a.password = []) := by
    intro scheme rest hscheme s hs hwith
    obtain ⟨hcolon, hrest⟩ := scheme?_eq_some hscheme
    obtain ⟨rfl, a', followed, hauthority', hread⟩ := withAuthority_eq_ok hwith
    obtain rfl := Option.some.inj (hauthority.symm.trans hauthority')
    obtain ⟨hplain, hnone⟩ := plain_of_authority? hread
    refine ⟨hcolon, hplain, fun hat => hnone fun hmem => hat ?_⟩
    exact mem_of_mem_cleaned (hrest _ (hs _ ((List.takeWhile_prefix _).subset hmem)))
  have hwithout : ∀ scheme rest, (.ok (withoutAuthority scheme rest) : Except UrlError Url) ≠
      .ok u := by
    intro scheme rest heq
    obtain rfl := Except.ok.inj heq
    exact nomatch hauthority
  unfold parse at h
  split at h
  · exact nomatch h
  · next scheme rest hscheme =>
      split at h
      · exact absurd h (hwithout _ _)
      · split at h
        · exact hread scheme rest hscheme _ (fun c hc => (List.dropWhile_suffix _).subset hc) h
        · split at h
          · next after hafter =>
              refine hread scheme rest hscheme after (fun c hc => ?_) h
              rw [after?_eq_some_iff.mp hafter]
              exact List.mem_append_right _ hc
          · exact absurd h (hwithout _ _)

end Havoc.Url
