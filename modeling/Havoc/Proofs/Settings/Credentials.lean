import Havoc.Proofs.Url.Authority
import Havoc.Settings.Backend

/-! # What a client reads of the user and the password

    The address of an SQL engine is made for a client that reads user and password off
    its text and decodes them.  They are written as a part of an address that lets
    percent signs through, so the client reads back exactly those that hold no escape;
    a setting such as `a%41b` reaches it as `aAb`.

    The route: `url_eq_ok` opens the address, its authority is plain since the one that
    the host gave is, so that the client finds both parts, and decoding undoes encoding
    up to escapes.  The main theorem is `credentials_read_back_unless_escaped`. -/

namespace Havoc.Settings

open Text Url

variable {s : SqlSettings} {u v : Url} {a : Authority}

/-! ## The parts of the address -/

theorem withAuthorityChanged_eq_some {change : Authority → Authority}
    (h : u.withAuthorityChanged change = some v) :
    ∃ a, u.authority = some a ∧ v = { u with authority := some (change a) } := by
  unfold withAuthorityChanged at h
  split at h
  · next a hauthority =>
      split at h
      · exact nomatch h
      · exact ⟨a, hauthority, (Option.some.inj h).symm⟩
  · exact nomatch h

/-- A credential as the address writes it: one that is not set is what the host has of its own. -/
def written (given : String) (own : List Char) : List Char :=
  if given.isEmpty then own else encode inUserinfo given.toList

theorem mapError_eq_ok {ε ε' α : Type} {f : ε → ε'} {x : Except ε α} {a : α}
    (h : x.mapError f = .ok a) : x = .ok a := by
  cases x with
  | error e => exact nomatch h
  | ok b => exact congrArg Except.ok (Except.ok.inj h)

theorem ite_bind_eq_ok {ε α β : Type} {p : Prop} [Decidable p] {x y : Except ε α}
    {f : α → Except ε β} {b : β} (h : (if p then x >>= f else y >>= f) = .ok b) :
    ∃ a, (if p then x else y) = .ok a ∧ f a = .ok b := by
  split at h
  · next hp =>
      rw [if_pos hp]
      exact bind_eq_ok.mp h
  · next hp =>
      rw [if_neg hp]
      exact bind_eq_ok.mp h

/-- A credential that is set changes its part of the authority, and one that is not set none. -/
theorem credential_eq_ok {given : String} {own : List Char} {e : AddressError}
    (change : List Char → Authority → Authority) (hauthority : u.authority = some a)
    (hown : change own a = a)
    (h : (if given.isEmpty then pure u
      else match u.withAuthorityChanged (change (encode inUserinfo given.toList)) with
        | some u => .ok u
        | none => .error e : Except AddressError Url) = .ok v) :
    v.scheme = u.scheme ∧ v.authority = some (change (written given own) a) := by
  rw [written]
  split at h
  · next hempty =>
      obtain rfl := Except.ok.inj h
      rw [if_pos hempty, hown]
      exact ⟨rfl, hauthority⟩
  · next hgiven =>
      split at h
      · next changed hchanged =>
          obtain rfl := Except.ok.inj h
          obtain ⟨a', hauthority', rfl⟩ := withAuthorityChanged_eq_some hchanged
          obtain rfl := Option.some.inj (hauthority.symm.trans hauthority')
          rw [if_neg hgiven]
          exact ⟨rfl, rfl⟩
      · exact nomatch h

/-- The address is that of the host with another port and with the credentials that are set. -/
theorem url_eq_ok (h : s.url = .ok u) :
    ∃ host own, Url.parse (s.engine.scheme ++ "://" ++ s.host) = .ok host ∧
      host.authority = some own ∧ u.scheme = host.scheme ∧ u.path.head? = some '/' ∧
      u.authority = some {
        username := written s.username own.username
        password := written s.password own.password
        host := own.host
        port := if defaultPort? host.scheme = some s.port then none else some s.port } := by
  unfold SqlSettings.url at h
  obtain ⟨host, hparse, h⟩ := bind_eq_ok.mp h
  obtain ⟨ported, hport, h⟩ := bind_eq_ok.mp h
  obtain ⟨named, hname, h⟩ := ite_bind_eq_ok h
  obtain ⟨keyed, hpassword, hdone⟩ := ite_bind_eq_ok h
  cases hchanged : host.withPort s.port with
  | none =>
      rw [hchanged] at hport
      exact nomatch hport
  | some x =>
      rw [hchanged] at hport
      obtain rfl := Except.ok.inj hport
      obtain ⟨own, hown, heq⟩ := withAuthorityChanged_eq_some hchanged
      have hported := congrArg Url.authority heq
      obtain ⟨hscheme, hnamed⟩ :=
        credential_eq_ok (fun name a => { a with username := name }) hported rfl hname
      obtain ⟨hscheme', hkeyed⟩ :=
        credential_eq_ok (fun key a => { a with password := key }) hnamed rfl hpassword
      obtain rfl := Except.ok.inj hdone
      have hhost : keyed.scheme = host.scheme := by rw [hscheme', hscheme, heq]
      refine ⟨host, own, mapError_eq_ok hparse, hown, ?_, ?_, ?_⟩
      · split <;> exact hhost
      · split <;> rfl
      · split <;> exact hkeyed

/-! ## What the client reads -/

/-- A credential is decoded as the setting itself would be, and so to the setting exactly if that
    holds no escape; one that is not set is so if the host has none of its own. -/
theorem decode_written {given : String} {own : List Char} (h : given ≠ "" ∨ own = []) :
    decode (written given own) = decode given.toList ∧
      (decode (written given own) = utf8 given ↔ ¬ Escapes given.toList) := by
  have hsame : decode (written given own) = decode given.toList := by
    rw [written]
    split
    · next hempty =>
        have hgiven : given = "" := String.isEmpty_iff.mp hempty
        rw [h.resolve_left (not_not_intro hgiven), hgiven]
        rfl
    · exact decode_encode letsEscapes_inUserinfo _
  exact ⟨hsame, by rw [hsame, decode_eq_utf8_iff]⟩

/-- **CREDENTIALS ARE READ BACK UNLESS THEY ARE ESCAPED.**  From the text of the address of an SQL
    engine a client reads what the setting itself would be decoded to, for a user or a password
    that is set and for any if the host has no `@`.  This is the setting exactly if no percent
    sign in it stands before two hexadecimal digits. -/
theorem credentials_read_back_unless_escaped (h : s.url = .ok u) :
    ∃ username password, credentials? u.chars = some (username, password) ∧
      (s.username ≠ "" ∨ '@' ∉ s.host.toList →
        decode username = decode s.username.toList ∧
          (decode username = utf8 s.username ↔ ¬ Escapes s.username.toList)) ∧
      (s.password ≠ "" ∨ '@' ∉ s.host.toList →
        decode password = decode s.password.toList ∧
          (decode password = utf8 s.password ↔ ¬ Escapes s.password.toList)) := by
  obtain ⟨host, own, hparse, hown, hscheme, hpath, hauthority⟩ := url_eq_ok h
  obtain ⟨hcolon, hplain, hnone⟩ := plain_of_parse hparse hown
  have hwritten : ∀ (given : String) (own : List Char), (∀ c ∈ own, inUserinfo c = false) →
      ∀ c ∈ written given own, inUserinfo c = false := by
    intro given own hown c hc
    rw [written] at hc
    split at hc
    · exact hown c hc
    · exact not_set_of_mem_encode letsEscapes_inUserinfo hc
  have hfound := credentials?_chars (hscheme ▸ hcolon) hauthority
    ⟨hwritten _ _ hplain.username, hwritten _ _ hplain.password, hplain.host⟩ hpath
  -- the schemes of the engines hold no `@` either
  have hsite : '@' ∉ s.host.toList → own.username = [] ∧ own.password = [] := by
    intro hat
    refine hnone fun hmem => ?_
    rw [String.toList_append, String.toList_append, List.mem_append, List.mem_append] at hmem
    rcases hmem with (hmem | hmem) | hmem
    · cases hengine : s.engine <;> rw [hengine] at hmem <;> exact absurd hmem (by decide)
    · exact absurd hmem (by decide)
    · exact hat hmem
  exact ⟨_, _, hfound, fun hset => decode_written (hset.imp id fun hat => (hsite hat).1),
    fun hset => decode_written (hset.imp id fun hat => (hsite hat).2)⟩

/-- An engine whose password holds signs that separate, and a percent sign that no two digits
    follow. -/
def signed : SqlSettings :=
  { engine := .redshift, host := "db.internal", port := 5439, username := "app",
    password := "p@ss:50%/a", dbname := "stress" }

/-- Both are read back to the last sign. -/
theorem credentials_read_back_unless_escaped_signed :
    ∃ u username password, signed.url = .ok u ∧
      credentials? u.chars = some (username, password) ∧ decode username = utf8 "app" ∧
        decode password = utf8 "p@ss:50%/a" := by
  have hsome : signed.url.toOption.isSome = true := by decide +kernel
  cases hurl : signed.url with
  | error e =>
      rw [hurl] at hsome
      exact nomatch hsome
  | ok u =>
      obtain ⟨username, password, hfound, hname, hpassword⟩ :=
        credentials_read_back_unless_escaped hurl
      exact ⟨u, username, password, rfl, hfound, (hname (Or.inr (by decide))).2.mpr (by decide),
        (hpassword (Or.inr (by decide))).2.mpr (by decide)⟩

/-- An engine whose password looks as if it were encoded. -/
def encodedLook : SqlSettings :=
  { engine := .mysql, host := "db", port := 3306, username := "app", password := "a%41b",
    dbname := "" }

/-- **An escape in a password is decoded.**  The password `a%41b` stands in the address as it is,
    and a client reads `aAb`. -/
theorem escaped_password_is_misread :
    encodedLook.url.map Url.render = .ok "mysql://app:a%41b@db:3306/" ∧
      (encodedLook.url.map fun u => (credentials? u.chars).map fun found => decode found.2) =
        .ok (some (utf8 "aAb")) ∧
      utf8 "aAb" ≠ utf8 encodedLook.password := by
  decide +kernel

end Havoc.Settings
