import Havoc.Proofs.Draw.Select
import Havoc.Proofs.Text.Blank
import Havoc.Settings.Backend

/-! # The host of an SQL engine

    An SQL engine is described by a document or by keys of its own, and is not configured
    without a host.  The two descriptions differ in what they take for a host: a key is
    trimmed and a blank one does not count, but whatever a document states is taken as it
    stands, so that an engine whose document states a single space counts as configured.

    The route: `get?_eq_none_iff` and `get?_eq_some_iff` say what a key gives,
    `HostFrom` says which host applies, `sql_of_document` and `sql_of_no_host` open the look-up,
    and `host_of_sql` says where a host that is found comes from.  The main theorem is
    `host_usable_unless_document`. -/

namespace Havoc.Settings

open Text Backend

variable {s : Settings} {engine : Engine} {key x document : String} {host : Option String}
  {w w' : Words} {q : SqlSettings} {info : ConnectionInfo}

/-! ## What a key gives -/

/-- The text that stands under a key. -/
def text? (s : Settings) (key : String) : Option String :=
  ((path? (asciiLower key.toList)).bind (Tree.get? · s.tree)).bind Tree.text?

/-- Nothing but blanks. -/
def Blank (x : String) : Prop := ∀ c ∈ x.toList, isBlank c = true

/-- A key is missing or blank. -/
def Absent (s : Settings) (key : String) : Prop := ∀ x, s.text? key = some x → Blank x

theorem trimmed_eq_empty_iff : trimmed x = "" ↔ Blank x := by
  rw [trimmed, String.ofList_eq_empty_iff, trim_eq_nil_iff, Blank]

theorem get?_eq (s : Settings) (key : String) :
    s.get? key = (s.text? key).bind fun x => if trimmed x = "" then none else some (trimmed x) := by
  rw [get?, text?]
  cases ((path? (asciiLower key.toList)).bind (Tree.get? · s.tree)).bind Tree.text? with
  | none => rfl
  | some x => simp only [String.isEmpty_iff, Option.bind_some]

theorem get?_eq_none_iff : s.get? key = none ↔ s.Absent key := by
  rw [get?_eq, Option.bind_eq_none_iff]
  refine forall_congr' fun x => imp_congr_right fun _ => ?_
  rw [← trimmed_eq_empty_iff]
  simp

theorem get?_eq_some_iff :
    s.get? key = some x ↔ ∃ y, s.text? key = some y ∧ ¬ Blank y ∧ x = trimmed y := by
  rw [get?_eq, Option.bind_eq_some_iff]
  refine exists_congr fun y => and_congr_right fun _ => ?_
  rw [← trimmed_eq_empty_iff, Option.ite_none_left_eq_some, Option.some.injEq, @eq_comm _ x]

/-- A host as a client can use it: something is in it, and no blanks are around it. -/
structure Usable (host : String) : Prop where
  notBlank : ¬ Blank host
  stripped : Stripped host.toList

theorem usable_trimmed (hx : ¬ Blank x) : Usable (trimmed x) where
  notBlank := by
    rw [← trimmed_eq_empty_iff] at hx ⊢
    have hsame : trimmed (trimmed x) = trimmed x := by
      rw [trimmed, trimmed, String.toList_ofList, trim_idem]
    rwa [hsame]
  stripped := by
    rw [trimmed, String.toList_ofList]
    exact stripped_trim _

/-! ## Which host applies -/

/-- A key of an engine. -/
def engineKey (engine : Engine) (name : String) : String := engine.settingsKey ++ "_" ++ name

/-- The host that a document states, if it states one. -/
def statedHost? (d : Json.Written) : Option String :=
  ((Json.record? ["username", "password", "host", "port", "dbname"] d).bind
    (·.lookup "host")).bind Json.Written.text?

/-- The two ways to describe an engine. -/
inductive Origin where
  | document | keys

/-- What is stated as the host of an engine where its description is: in a document that is not
    blank and can be read, or else in keys, if there is no document. -/
inductive HostFrom (s : Settings) (engine : Engine) : Origin → Option String → Prop
  | document {x : String} {d : Json.Written} {info : ConnectionInfo}
      (htext : s.text? (engineKey engine "DBINFO") = some x)
      (hx : ¬ Blank x) (hread : Json.read? (utf8 (trimmed x)) = some d)
      (hinfo : ConnectionInfo.ofWritten? d = some info) :
      HostFrom s engine .document (statedHost? d)
  | keys (habsent : s.Absent (engineKey engine "DBINFO")) :
      HostFrom s engine .keys (s.text? (engineKey engine "HOST"))

/-- The host of a document that can be read is the stated one, and empty if none is. -/
theorem host_eq_stated {d : Json.Written} (h : ConnectionInfo.ofWritten? d = some info) :
    info.host = (statedHost? d).getD "" := by
  simp only [ConnectionInfo.ofWritten?, Option.bind_eq_bind, Option.bind_eq_some_iff] at h
  obtain ⟨r, hr, username, -, password, -, host, hhost, port, -, dbname, -, heq⟩ := h
  obtain rfl := Option.some.inj heq
  rw [statedHost?, hr, Option.bind_some]
  rw [Json.Record.get?] at hhost
  cases hmember : r.lookup "host" with
  | none =>
      rw [hmember] at hhost
      exact (Option.some.inj hhost).symm
  | some member =>
      rw [hmember] at hhost
      rw [Option.bind_some, show member.text? = some host from hhost]
      rfl

variable {o : Origin}

/-! ## What a look-up does -/

/-- A document that is read states its host, if that is not empty. -/
theorem hostFrom_document (hdocument : s.get? (engineKey engine "DBINFO") = some document)
    (hread : (Json.read? (utf8 document)).bind ConnectionInfo.ofWritten? = some info)
    (hhost : info.host ≠ "") : s.HostFrom engine .document (some info.host) := by
  obtain ⟨d, hd, hinfo⟩ := Option.bind_eq_some_iff.mp hread
  obtain ⟨x, htext, hx, rfl⟩ := get?_eq_some_iff.mp hdocument
  have hstated : statedHost? d = some info.host := by
    have heq := host_eq_stated hinfo
    cases hd : statedHost? d with
    | none =>
        rw [hd] at heq
        exact absurd heq hhost
    | some host =>
        rw [hd] at heq
        exact congrArg some heq.symm
  rw [← hstated]
  exact .document htext hx hd hinfo

theorem sql_of_document (hdocument : s.get? (engineKey engine "DBINFO") = some document)
    (hread : (Json.read? (utf8 document)).bind ConnectionInfo.ofWritten? = some info) :
    s.sql engine = if info.host = "" then throw (.notConfigured engine.name) else return {
      engine
      host := info.host
      port := info.port.getD engine.defaultPort
      username := info.username
      password := info.password
      dbname := info.dbname } := by
  rw [engineKey] at hdocument
  simp only [sql, hdocument, hread, String.isEmpty_iff]

theorem sql_of_no_host (hdocument : s.get? (engineKey engine "DBINFO") = none)
    (hhost : s.get? (engineKey engine "HOST") = none) :
    s.sql engine = throw (.notConfigured engine.name) := by
  rw [engineKey] at hdocument hhost
  simp only [sql, hdocument, hhost]

theorem run_bind {α β : Type} (a : Lookup α) (f : α → Lookup β) (w : Words) :
    (a >>= f).run w = match a.run w with
      | (.ok x, w₁) => (f x).run w₁
      | (.error e, w₁) => (.error e, w₁) := by
  rw [ExceptT.run_bind, Draw.bind_apply]
  rcases a.run w with ⟨_ | _, w₁⟩
  · rfl
  · rfl

/-- The host of an engine that is described by keys is the one under its key. -/
theorem host_of_keys (hdocument : s.get? (engineKey engine "DBINFO") = none)
    (h : (s.sql engine).run w = (.ok q, w')) : s.get? (engineKey engine "HOST") = some q.host := by
  cases hhost : s.get? (engineKey engine "HOST") with
  | none =>
      rw [sql_of_no_host hdocument hhost] at h
      exact nomatch h
  | some host =>
      rw [engineKey] at hdocument hhost
      simp only [sql, hdocument, hhost] at h
      rw [run_bind] at h
      split at h
      · obtain rfl := Except.ok.inj (congrArg Prod.fst h)
        rfl
      · exact nomatch h

/-- An engine is configured if the look-up gives something. -/
theorem isConfigured_sql (s : Settings) (engine : Engine) (w : Words) :
    (s.isConfigured (.sql engine)).run w =
      (((s.sql engine).run w).1.isOk, ((s.sql engine).run w).2) := by
  rw [isConfigured, StateT.run, Draw.bind_apply, run_bind]
  rcases (s.sql engine).run w with ⟨_ | _, w₁⟩
  · rfl
  · rfl

theorem isConfigured_of_ok (h : (s.sql engine).run w = (.ok q, w')) :
    (s.isConfigured (.sql engine)).run w = (true, w') := by
  rw [isConfigured_sql, h]
  rfl

/-! ## The host that is found -/

/-- A host that is found is the stated one: as it stands if a document states it, and trimmed if
    a key does. -/
theorem host_of_sql (h : (s.sql engine).run w = (.ok q, w')) :
    (s.HostFrom engine .document (some q.host) ∧ q.host ≠ "") ∨
      ∃ x, s.HostFrom engine .keys (some x) ∧ ¬ Blank x ∧ q.host = trimmed x := by
  cases hdocument : s.get? (engineKey engine "DBINFO") with
  | none =>
      obtain ⟨x, htext, hx, heq⟩ := get?_eq_some_iff.mp (host_of_keys hdocument h)
      refine .inr ⟨x, ?_, hx, heq⟩
      rw [← htext]
      exact .keys (get?_eq_none_iff.mp hdocument)
  | some document =>
      cases hread : (Json.read? (utf8 document)).bind ConnectionInfo.ofWritten? with
      | none =>
          rw [engineKey] at hdocument
          simp only [sql, hdocument, hread] at h
          exact nomatch h
      | some info =>
          rw [sql_of_document hdocument hread] at h
          split at h
          · exact nomatch h
          · next hhost =>
              obtain rfl := Except.ok.inj (congrArg Prod.fst h)
              exact .inl ⟨hostFrom_document hdocument hread hhost, hhost⟩

/-- Without a host an engine is not configured; a document states none, or an empty one. -/
theorem sql_of_absent (horigin : s.HostFrom engine o host) (hblank : ∀ x, host = some x → Blank x)
    (hdocument : o = .document → host.getD "" = "") :
    s.sql engine = throw (.notConfigured engine.name) := by
  cases horigin with
  | document htext hx hread hinfo =>
      rw [sql_of_document (get?_eq_some_iff.mpr ⟨_, htext, hx, rfl⟩)
        (Option.bind_eq_some_iff.mpr ⟨_, hread, hinfo⟩), host_eq_stated hinfo,
        if_pos (hdocument rfl)]
  | keys habsent =>
      exact sql_of_no_host (get?_eq_none_iff.mpr habsent) (get?_eq_none_iff.mpr hblank)

/-- Any host that is not empty will do in a document. -/
theorem sql_of_stated (hstated : s.HostFrom engine .document (some x)) (hx : x ≠ "") (w : Words) :
    ∃ q, (s.sql engine).run w = (.ok q, w) ∧ q.host = x := by
  generalize hhost : some x = host at hstated
  cases hstated with
  | document htext hblank hread hinfo =>
      have heq := host_eq_stated hinfo
      rw [← hhost, Option.getD_some] at heq
      rw [sql_of_document (get?_eq_some_iff.mpr ⟨_, htext, hblank, rfl⟩)
        (Option.bind_eq_some_iff.mpr ⟨_, hread, hinfo⟩), if_neg (heq ▸ hx)]
      exact ⟨_, rfl, heq⟩

/-- **A HOST IS USABLE UNLESS A DOCUMENT STATES IT.**  A host that is found is not empty; it is
    not blank and has no blanks around it either, or else it stands so in the document.  Without
    a host, or with a blank one, an engine is not configured, unless the blanks are in the
    document: whatever that states is taken as it stands, and only an empty host counts as
    none. -/
theorem host_usable_unless_document (s : Settings) (engine : Engine) (w : Words) :
    (∀ q w', (s.sql engine).run w = (.ok q, w') →
      q.host ≠ "" ∧ (Usable q.host ∨ s.HostFrom engine .document (some q.host))) ∧
    (∀ o host, s.HostFrom engine o host → (∀ x, host = some x → Blank x) →
      ((s.sql engine).run w = (.error (.notConfigured engine.name), w) ∧
        (s.isConfigured (.sql engine)).run w = (false, w)) ∨
      (o = .document ∧ ∃ x, host = some x ∧ x ≠ "")) ∧
    (∀ x, s.HostFrom engine .document (some x) → x ≠ "" →
      (∃ q, (s.sql engine).run w = (.ok q, w) ∧ q.host = x) ∧
        (s.isConfigured (.sql engine)).run w = (true, w)) := by
  refine ⟨fun q w' h => ?_, fun o host horigin hblank => ?_, fun x hstated hx => ?_⟩
  · rcases host_of_sql h with ⟨hstated, hne⟩ | ⟨x, -, hx, heq⟩
    · exact ⟨hne, .inr hstated⟩
    · rw [heq]
      exact ⟨mt trimmed_eq_empty_iff.mp hx, .inl (usable_trimmed hx)⟩
  · by_cases hkept : o = .document ∧ ∃ x, host = some x ∧ x ≠ ""
    · exact .inr hkept
    · have hnone : s.sql engine = throw (.notConfigured engine.name) := by
        refine sql_of_absent horigin hblank fun hdocument => ?_
        cases host with
        | none => rfl
        | some x => exact by_contra fun hx => hkept ⟨hdocument, x, rfl, hx⟩
      rw [isConfigured_sql, hnone]
      exact .inl ⟨rfl, rfl⟩
  · obtain ⟨q, hrun, hhost⟩ := sql_of_stated hstated hx w
    exact ⟨⟨q, hrun, hhost⟩, isConfigured_of_ok hrun⟩

theorem host_usable_unless_document_of_each_source :
    ∃ s, ofPairs [("MYSQL_HOST", " db "), ("POSTGRES_DBINFO", "\x7b\"host\":\"db\"\x7d")] = .ok s ∧
      ∀ w, (∃ q, (s.sql .mysql).run w = (.ok q, w) ∧ q.host ≠ "" ∧
          (Usable q.host ∨ s.HostFrom .mysql .document (some q.host))) ∧
        (((s.sql .redshift).run w = (.error (.notConfigured "redshift"), w) ∧
            (s.isConfigured (.sql .redshift)).run w = (false, w)) ∨
          (Origin.keys = .document ∧ ∃ x : String, none = some x ∧ x ≠ "")) ∧
        (∃ q, (s.sql .postgres).run w = (.ok q, w) ∧ q.host = "db") ∧
        (s.isConfigured (.sql .postgres)).run w = (true, w) := by
  obtain ⟨s, hs⟩ : ∃ s : Settings, s = ⟨.table [("mysql_host".toList, .leaf " db "),
    ("postgres_dbinfo".toList, .leaf "\x7b\"host\":\"db\"\x7d")]⟩ := ⟨_, rfl⟩
  have hkeys : ∀ w, (s.sql .mysql).run w = (.ok ⟨.mysql, "db", 3306, "", "", ""⟩, w) := by
    intro w
    rw [hs]
    rfl
  have hnone : s.HostFrom .redshift .keys none := by
    have htext : s.text? (engineKey .redshift "HOST") = none := by
      rw [hs]
      rfl
    have habsent : s.get? (engineKey .redshift "DBINFO") = none := by
      rw [hs]
      rfl
    rw [← htext]
    exact .keys (get?_eq_none_iff.mp habsent)
  have hdocument : s.HostFrom .postgres .document (some "db") := by
    have hget : s.get? (engineKey .postgres "DBINFO") = some "\x7b\"host\":\"db\"\x7d" := by
      rw [hs]
      rfl
    have hread : (Json.read? (utf8 "\x7b\"host\":\"db\"\x7d")).bind ConnectionInfo.ofWritten? =
        some ⟨"", "", "db", none, ""⟩ := by
      decide +kernel
    exact hostFrom_document hget hread (by decide)
  refine ⟨s, by rw [hs]; rfl, fun w => ?_⟩
  exact ⟨⟨_, hkeys w, (host_usable_unless_document s .mysql w).1 _ _ (hkeys w)⟩,
    (host_usable_unless_document s .redshift w).2.1 _ _ hnone (fun x hx => nomatch hx),
    (host_usable_unless_document s .postgres w).2.2 _ hdocument (by decide)⟩

/-- A document whose host is a single space configures its engine with that host. -/
theorem blank_host_of_document :
    ∃ s, ofPairs [("POSTGRES_DBINFO", "\x7b\"host\":\" \"\x7d")] = .ok s ∧
      s.HostFrom .postgres .document (some " ") ∧ Blank " " ∧
      ∀ w, (∃ q, (s.sql .postgres).run w = (.ok q, w) ∧ ¬ Usable q.host) ∧
        (s.isConfigured (.sql .postgres)).run w = (true, w) := by
  have hdocument : (⟨.table [("postgres_dbinfo".toList, .leaf "\x7b\"host\":\" \"\x7d")]⟩ :
      Settings).get? (engineKey .postgres "DBINFO") = some "\x7b\"host\":\" \"\x7d" := by
    rfl
  have hread : (Json.read? (utf8 "\x7b\"host\":\" \"\x7d")).bind ConnectionInfo.ofWritten? =
      some ⟨"", "", " ", none, ""⟩ := by
    decide +kernel
  have hstated := hostFrom_document hdocument hread (by decide)
  have hblank : Blank " " := trimmed_eq_empty_iff.mp (by decide)
  refine ⟨_, rfl, hstated, hblank, fun w => ?_⟩
  obtain ⟨q, hrun, hhost⟩ := sql_of_stated hstated (by decide) w
  exact ⟨⟨q, hrun, fun husable => husable.notBlank (hhost ▸ hblank)⟩, isConfigured_of_ok hrun⟩

end Havoc.Settings
