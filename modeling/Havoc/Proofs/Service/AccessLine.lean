import Havoc.Proofs.Log.Lines
import Havoc.Proofs.Service.Dealing
import Havoc.Proofs.Service.Rejection

/-! # A request is one line of the access log

    Nobody can write a second line into the access log with a request: whatever its headers, its
    body and its path are, and whatever becomes of it, its line holds no line break.

    The route: what may stand in a request is little enough (`accepted_of_grammar`), header values
    are read as text only if they are visible (`unbroken_visibleText`), and so nothing that is
    known about a request breaks a line (`Accepted.info`).  Calls that wait were requests before,
    so a run keeps the lines whole (`Whole.handle`, by the cases of `handle_cases`, and
    `Whole.run`).  The main theorem is `access_lines_stay_whole`. -/

namespace Havoc.Http

open Havoc.Text Havoc.Log

/-- What the access log tells about a request does not end a line. -/
structure Info.Unbroken (i : Info) : Prop where
  method : Log.Unbroken i.method.toList
  path : Log.Unbroken i.path.toList
  clientIp : Log.Unbroken i.clientIp.toList
  userAgent : Log.Unbroken i.userAgent.toList
  protocol : Log.Unbroken i.protocol.toList

/-- A request as the network can bring it.  Nothing is asked of its headers, its query and its
    body. -/
structure Accepted (r : Request) : Prop where
  method : Log.Unbroken r.method.toList
  path : Log.Unbroken r.target.path.toList
  peer : ∀ address ∈ r.peer, Log.Unbroken address.toList

variable {r : Request} {method text : String} {target : Target}

/-! ## What is read from the network -/

theorem unbroken_of_all {p : Char → Bool} {s : List Char} (h : s.all p = true)
    (hreturn : p '\r' = false) (hfeed : p '\n' = false) : Log.Unbroken s := by
  intro c hc
  cases hbreak : isBreak c with
  | false => rfl
  | true =>
      have hp := List.all_eq_true.mp h c hc
      rcases Bool.or_eq_true_iff.mp hbreak with heq | heq
      · rw [of_decide_eq_true heq, hreturn] at hp
        exact absurd hp Bool.false_ne_true
      · rw [of_decide_eq_true heq, hfeed] at hp
        exact absurd hp Bool.false_ne_true

theorem unbroken_token (h : isToken method.toList = true) : Log.Unbroken method.toList :=
  unbroken_of_all ((Bool.and_eq_true_iff.mp h).2) (by decide) (by decide)

theorem unbroken_pathAndQuery {s : List Char} {path : String} {query : Option String}
    (h : pathAndQuery? s = some (path, query)) : Log.Unbroken path.toList := by
  unfold pathAndQuery? at h
  dsimp only at h
  split at h
  · exact absurd h nofun
  · next hall =>
      have hpath : Log.Unbroken (if (s.takeWhile fun c => c ≠ '?' && c ≠ '#').isEmpty then "/"
          else String.ofList (s.takeWhile fun c => c ≠ '?' && c ≠ '#')).toList := by
        split
        · decide
        · rw [String.toList_ofList]
          exact unbroken_of_all (by simpa using hall) (by decide) (by decide)
      split at h
      · split at h
        · obtain ⟨rfl, -⟩ := Prod.mk.inj (Option.some.inj h)
          exact hpath
        · exact absurd h nofun
      · obtain ⟨rfl, -⟩ := Prod.mk.inj (Option.some.inj h)
        exact hpath

theorem unbroken_target (h : Target.read? text = some target) :
    Log.Unbroken target.path.toList := by
  unfold Target.read? at h
  dsimp only at h
  split at h
  · exact absurd h nofun
  · split at h
    · obtain rfl := Option.some.inj h
      decide
    · split at h
      · obtain ⟨⟨path, query⟩, hread, rfl⟩ := Option.map_eq_some_iff.mp h
        exact unbroken_pathAndQuery hread
      · split at h
        · split at h
          · exact absurd h nofun
          · split at h
            · exact absurd h nofun
            · obtain ⟨⟨path, query⟩, hread, rfl⟩ := Option.map_eq_some_iff.mp h
              exact unbroken_pathAndQuery hread
        · split at h
          · exact absurd h nofun
          · obtain rfl := Option.some.inj h
            exact (by decide : Log.Unbroken "".toList)

/-- The grammar of requests lets no line break through. -/
theorem accepted_of_grammar (hmethod : isToken r.method.toList = true)
    (htarget : Target.read? text = some r.target)
    (hpeer : ∀ address ∈ r.peer, Log.Unbroken address.toList) : Accepted r :=
  ⟨unbroken_token hmethod, unbroken_target htarget, hpeer⟩

theorem unbroken_visibleText {value : List UInt8} (h : visibleText? value = some text) :
    Log.Unbroken text.toList := by
  rw [visibleText?] at h
  split at h
  · next hall =>
      rw [← Option.some.inj h, String.toList_ofList]
      intro c hc
      obtain ⟨b, hb, rfl⟩ := List.mem_map.mp hc
      have hbytes : ∀ n < 256, isVisible (UInt8.ofNat n) = true →
          isBreak (Char.ofNat n) = false := by decide +kernel
      refine hbytes b.toNat b.toNat_lt ?_
      rw [UInt8.ofNat_toNat]
      exact List.all_eq_true.mp hall b hb
  · exact absurd h nofun

theorem unbroken_header {name : String} (h : r.header? name = some text) :
    Log.Unbroken text.toList := by
  obtain ⟨value, -, hread⟩ := Option.bind_eq_some_iff.mp h
  exact unbroken_visibleText hread

theorem unbroken_forwardedFor (h : r.forwardedFor? = some text) : Log.Unbroken text.toList := by
  obtain ⟨value, hvalue, hfirst⟩ := Option.bind_eq_some_iff.mp h
  dsimp only at hfirst
  split at hfirst
  · exact absurd hfirst nofun
  · rw [← Option.some.inj hfirst, String.toList_ofList]
    intro c hc
    have hpiece := mem_of_mem_trim hc
    refine unbroken_header hvalue c ?_
    cases hsplit : splitOn ',' value.toList with
    | nil =>
        rw [hsplit] at hpiece
        exact absurd hpiece List.not_mem_nil
    | cons first rest =>
        rw [hsplit] at hpiece
        exact mem_of_mem_splitOn (hsplit ▸ List.mem_cons_self) hpiece

theorem unbroken_getD {found : Option String}
    (h : ∀ text, found = some text → Log.Unbroken text.toList) :
    Log.Unbroken (found.getD "").toList := by
  cases found with
  | none => exact fun _ hc => absurd hc List.not_mem_nil
  | some text => exact h text rfl

/-- Nothing that is known about a request ends a line. -/
theorem Accepted.info (h : Accepted r) : (Info.ofRequest r).Unbroken where
  method := h.method
  path := h.path
  clientIp := by
    refine unbroken_getD fun text htext => ?_
    rcases Option.or_eq_some_iff.mp htext with hforwarded | ⟨-, hpeer⟩
    · exact unbroken_forwardedFor hforwarded
    · exact h.peer text hpeer
  userAgent := unbroken_getD fun _ htext => unbroken_header htext
  protocol := by
    show Log.Unbroken r.version.text.toList
    cases r.version <;> decide

end Havoc.Http

namespace Havoc.Service.State

open Havoc.Http Havoc.Log

variable {s₀ s s' : State} {c : Call} {pattern : String} {events : List (Instant × Event)}

/-- Lines were added to the log, none of which holds a line break, and none can come of the calls
    that wait. -/
structure Whole (s₀ s : State) : Prop where
  config : s.config = s₀.config
  lines : ∃ lines, s.log = lines ++ s₀.log ∧ ∀ line ∈ lines, Unbroken line.toList
  waiting : ∀ c ∈ s.calls, c.info.Unbroken

theorem unbroken_event (h : c.info.Unbroken) (now : Instant) (reply : Reply) :
    (c.event now reply).Unbroken :=
  ⟨h.method, h.path, h.clientIp, h.userAgent, h.protocol⟩

theorem Whole.handle {e : Instant × Event} (h : Whole s₀ s)
    (htemplate : s₀.config.template = .ofString pattern) (hpattern : Unbroken pattern.toList)
    (hlogging : s₀.config.isLogging = true)
    (haccepted : ∀ n request, e.2 = .arrive n request → Accepted request) :
    Whole s₀ (s.handle e.1 e.2).1 := by
  -- what the handlers have come to does not matter here
  let seen : Attendance := fun _ _ _ => True
  have hstanding : ∀ number, e.2.call? = some number → Standing seen (s.share number) :=
    fun _ _ _ _ => Or.inl ⟨.page "", trivial⟩
  cases handle_cases s e.1 e.2 hstanding (fun _ _ _ _ _ => trivial) with
  | still hstill =>
      refine ⟨hstill.config.trans h.config, hstill.log ▸ h.lines, ?_⟩
      intro c hc
      exact h.waiting c (hstill.calls c hc)
  | held n request due hevent hwait =>
      rw [hwait]
      refine ⟨h.config, h.lines, ?_⟩
      intro c hc
      rcases mem_wait.mp hc with ⟨hold, -⟩ | rfl
      · exact h.waiting c hold
      · exact (haccepted n request hevent).info
  | dealt c _ hfrom hdealt =>
      have hinfo : c.info.Unbroken := by
        rcases hfrom with hold | ⟨request, hevent, hc⟩
        · exact h.waiting c hold
        · rw [hc]
          exact (haccepted _ request hevent).info
      cases hdealt with
      | waits hquiet _ hcalls =>
          refine ⟨hquiet.config.trans h.config, hquiet.log ▸ h.lines, ?_⟩
          intro x hx
          rcases hcalls x hx with ⟨hold, -⟩ | ⟨waiting, rfl, -⟩
          · exact h.waiting x hold
          · exact hinfo
      | answers outcome _ hcloses =>
          obtain ⟨lines, hlines, hwhole⟩ := h.lines
          have hline := hcloses.log (h.config ▸ hlogging)
          rw [h.config, htemplate, hlines] at hline
          refine ⟨hcloses.config.trans h.config, ⟨_ :: lines, hline, ?_⟩, ?_⟩
          · exact List.forall_mem_cons.mpr
              ⟨unbroken_render (unbroken_event hinfo e.1 _) hpattern, hwhole⟩
          · intro x hx
            exact h.waiting x (hcloses.calls x hx).1

theorem Whole.run (h : Whole s₀ s) (htemplate : s₀.config.template = .ofString pattern)
    (hpattern : Unbroken pattern.toList) (hlogging : s₀.config.isLogging = true)
    (haccepted : ∀ e ∈ events, ∀ n request, e.2 = .arrive n request → Accepted request) :
    Whole s₀ (s.run events) := by
  induction events generalizing s with
  | nil => exact h
  | cons e events ih =>
      rw [run_cons]
      exact ih (h.handle htemplate hpattern hlogging (haccepted e List.mem_cons_self))
        fun x hx => haccepted x (List.mem_cons_of_mem e hx)

/-- **ACCESS LINES STAY WHOLE.**  If the format of the access log holds no line break, neither
    does any line that a run writes, whatever requests come in and whatever becomes of them.  The
    method and the path of a request hold none because of the syntax of requests; headers, query
    and body may hold any bytes. -/
theorem access_lines_stay_whole (pattern : String) (hpattern : Unbroken pattern.toList) :
    (∀ (r : Request) (text : String), isToken r.method.toList = true →
      Target.read? text = some r.target → (∀ address ∈ r.peer, Unbroken address.toList) →
        Accepted r) ∧
    ∀ (s : State) (events : List (Instant × Event)),
      s.config.template = .ofString pattern → s.config.isLogging = true → s.calls = [] →
      (∀ e ∈ events, ∀ n request, e.2 = .arrive n request → Accepted request) →
        ∃ lines, (s.run events).log = lines ++ s.log ∧ ∀ line ∈ lines, Unbroken line.toList := by
  refine ⟨fun r text => accepted_of_grammar, ?_⟩
  intro s events htemplate hlogging hcalls haccepted
  have hstart : Whole s s := by
    refine ⟨rfl, ⟨[], rfl, fun _ h => absurd h List.not_mem_nil⟩, ?_⟩
    intro c hc
    rw [hcalls] at hc
    exact absurd hc List.not_mem_nil
  exact (hstart.run htemplate hpattern hlogging haccepted).lines

/-- Who asks, what with, and a time in a pattern that formatters take for a line feed. -/
def watchfulPattern : String := "\x7bclient_ip\x7d \x7buser_agent\x7d \x7btime:%n\x7d"

/-- A service whose access log has that format. -/
def watchfulService : State where
  config := { settings := ⟨.table []⟩, template := .ofString watchfulPattern }
  words := ⟨fun _ => 0, 0⟩

/-- A browser with a line break in its name is not named at all. -/
theorem access_lines_stay_whole_forged :
    let request : Request := {
      method := "GET", target := ⟨none, "/simple/none", none⟩, body := [13, 10]
      headers := [("user-agent", [97, 13, 10, 98]), ("x-forwarded-for", [9, 58, 58, 49, 44])] }
    let s := watchfulService.run [(0, .arrive 0 request)]
    s.log = ["::1  %n"] ∧ ∀ line ∈ s.log, Unbroken line.toList := by
  intro request s
  have hlog : s.log = ["::1  %n"] := by decide
  obtain ⟨hgrammar, hruns⟩ := access_lines_stay_whole watchfulPattern (by decide)
  have haccepted : Accepted request := hgrammar request "/simple/none" (by decide) (by decide) nofun
  obtain ⟨lines, hlines, hwhole⟩ := hruns watchfulService [(0, .arrive 0 request)] rfl rfl rfl (by
    intro e he n other hevent
    rw [List.mem_singleton.mp he] at hevent
    obtain ⟨-, rfl⟩ := Event.arrive.inj hevent
    exact haccepted)
  refine ⟨hlog, ?_⟩
  rw [show s.log = lines from hlines.trans (List.append_nil lines)]
  exact hwhole

end Havoc.Service.State
