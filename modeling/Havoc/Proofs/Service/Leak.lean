import Havoc.Proofs.Service.Lasting
import Havoc.Proofs.Service.Rejection
import Havoc.Proofs.Service.Repeating

/-! # What a leak adds up to

    A request for a leak names a size in mebibytes and a number of seconds.  The size is cut into
    as many parts as there are half seconds, and each cycle of the job takes one part for good.

    Two things follow.  The job never takes more than it was asked for, however long the cycles
    take and whichever fail, because no more of them fit into its time than there are parts
    (`leak_never_overshoots`).  But a size that is no multiple of the parts is not reached, even
    if no cycle takes any time: what the division leaves is never taken
    (`leak_retains_whole_parts`). -/

namespace Havoc.Service

open Havoc.Http Havoc.Json Havoc.Number

variable {p : MemoryOrder} {w : Words} {m n : Int}

/-! ## Parts -/

/-- The time of one part. -/
def leakInterval : Span := Span.ofMillis leakTick

/-- Half seconds are counted, one at least, and the count is never near to wrapping. -/
theorem leakParts_secondsOf (h : FitsInt64 n) :
    leakParts (secondsOf n) = max (2 * n.toNat) 1 := by
  have hsmall : n.toNat < 2 ^ 63 := by
    have := h.2
    omega
  have hparts : Span.millis (secondsOf n) / leakTick = 2 * n.toNat := by
    show n.toNat * 1000000000 / 1000000 / 500 = 2 * n.toNat
    omega
  rw [leakParts, hparts, Nat.mod_eq_of_lt]
  omega

theorem leakParts_pos (h : FitsInt64 n) : 0 < leakParts (secondsOf n) := by
  rw [leakParts_secondsOf h]
  exact Nat.lt_of_lt_of_le Nat.zero_lt_one (Nat.le_max_right _ _)

/-- Whole seconds are so many times the time of one part. -/
theorem leakParts_mul (h : FitsInt64 n) (hlong : 1 ≤ n) :
    leakParts (secondsOf n) * leakInterval = secondsOf n := by
  rw [leakParts_secondsOf h]
  show max (2 * n.toNat) 1 * (500 * 1000000) = n.toNat * 1000000000
  omega

/-- No more cycles have a time before the end than there are parts. -/
theorem le_leakParts (h : FitsInt64 n) {won : Nat}
    (hbound : ∀ k < won, k * leakInterval < secondsOf n) : won ≤ leakParts (secondsOf n) := by
  refine Nat.le_of_not_lt fun hmore => ?_
  have hlast := hbound _ hmore
  rw [leakParts_secondsOf h] at hlast
  have hlast : max (2 * n.toNat) 1 * (500 * 1000000) < n.toNat * 1000000000 := hlast
  omega

/-! ## The request -/

/-- What the two quantities of a request come to, drawn one after the other. -/
def LeakAmounts (p : MemoryOrder) (w : Words) (m n : Int) : Prop :=
  ∃ w', (integer (ownRange 1 101) p.size).run w = (.ok m, w') ∧
    ((integer maintainRange p.maintain).run w').1 = .ok n

/-- The job of a request for a leak of some mebibytes. -/
def leakTask (p : MemoryOrder) (mib : Nat) (n : Int) : Task where
  name := "memory_leak"
  label := "memory leak simulation"
  mode := .ofAsync p.isAsync
  params := [count "chosen_leak_size_mb" mib, count "maintain_second" n.toNat]
  work := .repeats ⟨secondsOf n, leakInterval⟩ (.leak (mib * 2 ^ 20 / leakParts (secondsOf n)))

theorem LeakAmounts.fits (h : LeakAmounts p w m n) : FitsInt64 n := by
  obtain ⟨w', -, hn⟩ := h
  exact Resolves.fits ⟨w', hn⟩ (by decide)

theorem run_bind_of_ok {α β : Type} {a : Attempt α} {f : α → Attempt β} {x : α} {w' : Words}
    (h : a.run w = (.ok x, w')) : (a >>= f).run w = (f x).run w' := by
  rw [ExceptT.run_bind, Draw.bind_apply, h]

/-- A size that cannot be counted is turned down, and any other is the size of a job. -/
theorem LeakAmounts.run (h : LeakAmounts p w m n) : ∃ w', (memoryLeak p).run w =
    ((mebibytes "leak_size_mb" m.toNat).map fun _ => .job none (leakTask p m.toNat n), w') := by
  obtain ⟨w₁, hm, hn⟩ := h
  obtain ⟨w₂, hn⟩ : ∃ w₂, (integer maintainRange p.maintain).run w₁ = (.ok n, w₂) :=
    ⟨_, Prod.ext hn rfl⟩
  refine ⟨w₂, ?_⟩
  have hamount : (amount (ownRange 1 101) p.size).run w = (.ok m.toNat, w₁) := run_bind_of_ok hm
  rw [memoryLeak, run_bind_of_ok hamount, run_bind_of_ok hn, mebibytes]
  split
  · rfl
  · rfl

/-- A handler is called with a request for a leak, whose quantities come to two numbers. -/
structure LeakRequest (s : State) (c : Call) (p : MemoryOrder) (m n : Int) : Prop where
  route : Route.resolve c.info.method c.info.path = .ok .memoryLeak
  read : (memoryForm "leak_size_mb").read c.info.body = .ok p
  amounts : LeakAmounts p s.words m n
  pending : State.Pending c.number s

namespace State

variable {s : State} {now t₀ : Instant} {c : Call} {later : List (Instant × Event)}

/-- What the handler makes of a request for a leak. -/
theorem direct_leak (now : Instant) (h : LeakRequest s c p m n) : ∃ words,
    (m.toNat * 2 ^ 20 < 2 ^ 64 → s.direct now c =
      ({ s with words } : State).start now c none (leakTask p m.toNat n)) ∧
    (2 ^ 64 ≤ m.toNat * 2 ^ 20 → s.direct now c =
      (({ s with words } : State).answer now c
        (.error (.invalidPayload s!"leak_size_mb is too large: {m.toNat} MiB")), [])) := by
  obtain ⟨words, hrun⟩ := h.amounts.run
  have hread : ((memoryForm "leak_size_mb").read c.info.body : Attempt MemoryOrder).run s.words =
      (.ok p, s.words) := by
    rw [h.read]
    rfl
  have hattend : (s.attend now c.info .memoryLeak).run s.words =
      ((mebibytes "leak_size_mb" m.toNat).map fun _ => .job none (leakTask p m.toNat n), words) :=
    (run_bind_of_ok hread).trans hrun
  have hdraw : s.draw (s.attend now c.info .memoryLeak).run =
      ((mebibytes "leak_size_mb" m.toNat).map fun _ => .job none (leakTask p m.toNat n),
        { s with words }) := by
    show (((s.attend now c.info .memoryLeak).run s.words).1,
      ({ s with words := ((s.attend now c.info .memoryLeak).run s.words).2 } : State)) = _
    rw [hattend]
  refine ⟨words, fun hfits => ?_, fun hlarge => ?_⟩
  · rw [State.direct, h.route]
    dsimp only
    rw [hdraw, mebibytes, if_pos hfits]
    rfl
  · rw [State.direct, h.route]
    dsimp only
    rw [hdraw, mebibytes, if_neg (Nat.not_lt.mpr hlarge)]
    rfl

/-- The job stands where a job stands that starts. -/
theorem repeating_leak (now : Instant) (h : LeakRequest s c p m n)
    (hfits : m.toNat * 2 ^ 20 < 2 ^ 64) :
    Repeating c.number (leakTask p m.toNat n)
      (.initial ((leakTask p m.toNat n).loop ⟨secondsOf n, leakInterval⟩) now
        (leakTask p m.toNat n).mode) (s.direct now c).1 := by
  obtain ⟨words, hstart, -⟩ := direct_leak now h
  rw [hstart hfits]
  exact repeating_start (s := { s with words }) h.pending.1 rfl

/-- There is no job when the request is turned down. -/
theorem repeating_refused (now : Instant) (h : LeakRequest s c p m n)
    (hlarge : 2 ^ 64 ≤ m.toNat * 2 ^ 20) :
    Repeating c.number (leakTask p m.toNat n) .gone (s.direct now c).1 := by
  obtain ⟨words, -, hrefused⟩ := direct_leak now h
  rw [hrefused hlarge]
  refine ⟨?_, ⟨0⟩, ?_⟩
  · rw [answer, share_answerWith_self rfl]
    exact fun _ hx => absurd hx List.not_mem_nil
  · rw [answer, share_answerWith_self rfl]
    exact h.pending.1

/-! ## A caller who asks for one mebibyte -/

/-- The numbers of a request that writes them out. -/
def writtenLeak? (p : MemoryOrder) : Option (Int × Int × Bool) :=
  match p.size, p.maintain with
  | .number (.integer m), .number (.integer n) => some (m, n, p.isAsync)
  | _, _ => none

theorem read_of_written {f : Form MemoryOrder} {body : List UInt8} {isAsync : Bool}
    (h : (f.read body).toOption.bind writtenLeak? = some (m, n, isAsync)) :
    f.read body = .ok ⟨.number (.integer m), .number (.integer n), isAsync⟩ := by
  obtain ⟨p, hp, hwritten⟩ := Option.bind_eq_some_iff.mp h
  cases hread : f.read body with
  | error problem =>
      rw [hread] at hp
      exact nomatch hp
  | ok q =>
      rw [hread] at hp
      obtain rfl := Option.some.inj hp
      obtain ⟨size, maintain, isAsync⟩ := q
      unfold writtenLeak? at hwritten
      split at hwritten
      · next hsize hmaintain =>
          obtain ⟨rfl, rfl, rfl⟩ := hwritten
          exact congrArg Except.ok (by rw [← hsize, ← hmaintain])
      · exact nomatch hwritten

/-- A caller asks for a leak of one mebibyte in some seconds and waits for it. -/
def leakCall (seconds : String) : Call :=
  incoming 0 startup {
    method := "POST"
    target := ⟨none, "/stress/memory_leak", none⟩
    body := Text.utf8 ("\x7b\"leak_size_mb\":1,\"maintain_second\":" ++ seconds ++ "\x7d") }

/-- What the caller asks for. -/
def leakOrder (seconds : Int) : MemoryOrder :=
  ⟨.number (.integer 1), .number (.integer seconds), false⟩

theorem leakRequest_of_written {seconds : String} (hfits : FitsInt64 n)
    (h : ((memoryForm "leak_size_mb").read (leakCall seconds).info.body).toOption.bind
      writtenLeak? = some (1, n, false)) :
    LeakRequest cacheService (leakCall seconds) (leakOrder n) 1 n where
  route := by
    show Route.resolve "POST" "/stress/memory_leak" = _
    decide +kernel
  read := read_of_written h
  amounts := by
    refine ⟨_, rfl, ?_⟩
    show ((integer maintainRange (.number (.integer n))).run _).1 = _
    rw [integer, RawQuantity.int, Quantity.ofRaw_integer hfits]
    rfl
  pending := ⟨rfl, rfl⟩

theorem leakRequest_one : LeakRequest cacheService (leakCall "1") (leakOrder 1) 1 1 :=
  leakRequest_of_written (by decide) (by decide +kernel)

/-! ## Every run -/

/-- **A LEAK NEVER OVERSHOOTS.**  Whatever a request for a leak comes to, its size is divided by no
    zero.  It is told of an invalid payload, and no job is put on record, if its size has more
    bytes than 64 bits count, and its job starts if not.  In every run from there on, whatever
    happens at whatever instants, the blocks that the events of the job add to the store are no
    larger than the size together, and the store keeps all that it held. -/
theorem leak_never_overshoots (h : LeakRequest s c p m n) (hnow : now ≤ lastInstant) :
    let bytes := m.toNat * 2 ^ 20
    let s' := (s.direct now c).1
    0 < leakParts (secondsOf n) ∧
      (2 ^ 64 ≤ bytes → (c.number, "INVALID_PAYLOAD") ∈ s'.problems ∧ s'.marks = s.marks ∧
        (s'.share c.number).activities = []) ∧
      (bytes < 2 ^ 64 → (c.number, "INVALID_PAYLOAD") ∉ s'.problems ∧ ∃ words,
        s.direct now c = ({ s with words } : State).start now c none (leakTask p m.toNat n)) ∧
      ∀ later : List (Instant × Event), (now :: later.map Prod.fst).Pairwise (· ≤ ·) →
        (∀ e ∈ later, e.1 ≤ lastInstant) →
        (∀ e ∈ later, ∀ request, e.2 ≠ .arrive c.number request) →
          (blocksBy c.number s' later).sum ≤ bytes ∧
            ∃ added, (s'.run later).leaked = s.leaked ++ added ∧
              (blocksBy c.number s' later).Sublist added := by
  intro bytes s'
  have hparts : 0 < leakParts (secondsOf n) := leakParts_pos h.amounts.fits
  obtain ⟨words, hstart, hrefused⟩ := direct_leak now h
  refine ⟨hparts, fun hlarge => ?_, fun hfits => ⟨?_, words, hstart hfits⟩, ?_⟩
  · have hs' : s' = ({ s with words } : State).answer now c
        (.error (.invalidPayload s!"leak_size_mb is too large: {m.toNat} MiB")) :=
      congrArg Prod.fst (hrefused hlarge)
    refine ⟨?_, ?_, (repeating_refused now h hlarge).activities.choose_spec⟩
    · rw [hs', problems, answer, (answerWith_frame _ now c _ _).1.1]
      exact List.mem_cons_self
    · rw [hs']
      exact marks_answerWith
  · have hs' : s' = (({ s with words } : State).start now c none (leakTask p m.toNat n)).1 :=
      congrArg Prod.fst (hstart hfits)
    have hgranted : Granted c.number s' := by
      rw [hs']
      exact granted_start h.pending rfl
    have hcode : "INVALID_PAYLOAD" ≠ internalCode := by decide
    exact fun htold => hgranted.not_rejected ⟨_, htold, rfl, hcode⟩
  · intro later horder hlast honce
    have hbound : ∃ gained, blocksBy c.number s' later =
        List.replicate gained (bytes / leakParts (secondsOf n)) ∧
        ∀ k < 0 + gained, k * leakInterval < secondsOf n := by
      rcases Nat.lt_or_ge bytes (2 ^ 64) with hfits | hlarge
      · exact (repeating_leak now h hfits).blocks_lt rfl (by decide)
          (Stint.apart_initial hnow _) horder hlast honce
      · exact (repeating_refused now h hlarge).blocks_lt rfl (by decide)
          (fun k hk => absurd hk (Nat.not_lt_zero k)) horder hlast honce
    obtain ⟨gained, hblocks, hlt⟩ := hbound
    have hgained : gained ≤ leakParts (secondsOf n) :=
      le_leakParts h.amounts.fits (Nat.zero_add gained ▸ hlt)
    constructor
    · rw [hblocks, List.sum_replicate_nat]
      calc gained * (bytes / leakParts (secondsOf n))
          ≤ leakParts (secondsOf n) * (bytes / leakParts (secondsOf n)) :=
            Nat.mul_le_mul_right _ hgained
        _ ≤ bytes := Nat.mul_div_le bytes _
    · have hkept : s'.leaked = s.leaked := steady_direct.leaked
      rw [← hkept]
      exact blocksBy_sublist c.number s' later

/-- The first of two blocks is half a mebibyte. -/
theorem leak_never_overshoots_one :
    let s' := (cacheService.direct startup (leakCall "1")).1
    let later : List (Instant × Event) := [(startup, .signal 0 (.worked 0 false))]
    (0, "INVALID_PAYLOAD") ∉ s'.problems ∧ blocksBy 0 s' later = [2 ^ 19] ∧
      (blocksBy 0 s' later).sum ≤ 2 ^ 20 := by
  intro s' later
  have hnow : startup ≤ lastInstant := by decide
  obtain ⟨-, -, haccepted, hruns⟩ := leak_never_overshoots leakRequest_one hnow
  have honce : ∀ e ∈ later, ∀ request, e.2 ≠ .arrive 0 request := by
    intro e he request
    rw [List.mem_singleton.mp he]
    exact nofun
  have htimes : (startup :: later.map Prod.fst).Pairwise (· ≤ ·) := by decide
  have hlast : ∀ e ∈ later, e.1 ≤ lastInstant := by
    intro e he
    rw [List.mem_singleton.mp he]
    decide
  exact ⟨(haccepted (by decide)).1, by decide +kernel, (hruns later htimes hlast honce).1⟩

/-! ## Blocks that are had at once -/

/-- The events of a job whose blocks are had at once and whose rests end when their timers go off,
    from the instant on at which it begins. -/
def eventsAtOnce (number : Nat) (task : Task) (n : Int) (t₀ : Instant) : List (Instant × Event) :=
  ((task.loop ⟨secondsOf n, leakInterval⟩).paced .atOnce t₀
    (2 * leakParts (secondsOf n))).beats.filterMap (beatEvent? number task.mode)

theorem call?_of_eventsAtOnce {number : Nat} {task : Task} {e : Instant × Event}
    (h : e ∈ eventsAtOnce number task n t₀) : e.2.call? = some number := by
  obtain ⟨b, -, hb⟩ := List.mem_filterMap.mp h
  unfold beatEvent? at hb
  split at hb
  · obtain rfl := Option.some.inj hb
    rfl
  · obtain rfl := Option.some.inj hb
    rfl
  · exact nomatch hb

theorem eventsOf_eventsAtOnce {number : Nat} {task : Task} :
    eventsOf number (eventsAtOnce number task n t₀) = eventsAtOnce number task n t₀ :=
  List.filter_eq_self.mpr fun _ he => decide_eq_true (call?_of_eventsAtOnce he)

theorem not_exit_of_eventsAtOnce {number : Nat} {task : Task} {e : Instant × Event}
    (h : e ∈ eventsAtOnce number task n t₀) : e.2 ≠ .exit := by
  intro hexit
  have hcall := call?_of_eventsAtOnce h
  rw [hexit] at hcall
  exact nomatch hcall

/-- **A LEAK RETAINS WHOLE PARTS.**  A leak of at least a second whose deadline can be represented
    comes to its end when every block is had at once.  By then it has taken as many blocks as there
    are parts, each of the size that the division gives, and these are the size that was asked for
    just when the parts divide it. -/
theorem leak_retains_whole_parts (h : LeakRequest s c p m n) (hgoing : s.hasEnded = false)
    (hcounts : m.toNat * 2 ^ 20 < 2 ^ 64) (hlong : 1 ≤ n)
    (hfits : t₀ + secondsOf n ≤ lastInstant) (hstart : p.isAsync = false → t₀ = now)
    (hexit : ∀ e ∈ later, e.2 ≠ .exit)
    (hown : eventsOf c.number later = eventsAtOnce c.number (leakTask p m.toNat n) n t₀) :
    let bytes := m.toNat * 2 ^ 20
    let parts := leakParts (secondsOf n)
    let s' := (s.direct now c).1
    ((s'.run later).share c.number).activities = [] ∧
      blocksBy c.number s' later = List.replicate parts (bytes / parts) ∧
      ((blocksBy c.number s' later).sum = bytes ↔ parts ∣ bytes) := by
  intro bytes parts s'
  have hspan : parts * leakInterval = secondsOf n := leakParts_mul h.amounts.fits hlong
  obtain ⟨report, hdone, hwon⟩ := Load.Repeat.paced_at_once (leakTask p m.toNat n).noteName t₀
    leakInterval parts (by decide) (by decide) (by decide) (by rw [hspan]; exact hfits)
  rw [hspan] at hdone hwon
  have hrun := Load.Machine.paced_run ((leakTask p m.toNat n).loop ⟨secondsOf n, leakInterval⟩)
    .atOnce t₀ (2 * parts)
  have hinitial : Repeating c.number (leakTask p m.toNat n)
      (.initial ((leakTask p m.toNat n).loop ⟨secondsOf n, leakInterval⟩) t₀
        (leakTask p m.toNat n).mode) s' := by
    have hstands := repeating_leak now h hcounts
    cases hasync : p.isAsync with
    | true =>
        -- the job waits for its reply to be out
        have hmode : (leakTask p m.toNat n).mode = .async := congrArg Job.Mode.ofAsync hasync
        rw [hmode] at hstands ⊢
        exact hstands
    | false =>
        rw [hstart hasync]
        exact hstands
  have hreached := hinitial.follows hrun rfl (steady_direct.hasEnded.trans hgoing) hexit hown
  obtain ⟨id, hnone⟩ := hdone ▸ hreached.repeating.activities
  have hblocks : blocksBy c.number s' later = List.replicate parts (bytes / parts) :=
    hreached.blocks.trans (congrArg (List.replicate · _) hwon)
  refine ⟨hnone, hblocks, ?_⟩
  rw [hblocks, List.sum_replicate_nat, Nat.mul_comm]
  exact (Nat.dvd_iff_div_mul_eq bytes parts).symm

/-- Two blocks of half a mebibyte are one mebibyte. -/
theorem leak_retains_whole_parts_one :
    let s' := (cacheService.direct startup (leakCall "1")).1
    let later := eventsAtOnce 0 (leakTask (leakOrder 1) 1 1) 1 startup
    ((s'.run later).share 0).activities = [] ∧ (blocksBy 0 s' later).sum = 2 ^ 20 := by
  intro s' later
  have hfits : startup + secondsOf 1 ≤ lastInstant := by decide
  obtain ⟨hended, -, hexact⟩ := leak_retains_whole_parts leakRequest_one rfl (by decide) (by decide)
    hfits (fun _ => rfl) (fun _ he => not_exit_of_eventsAtOnce he) eventsOf_eventsAtOnce
  exact ⟨hended, hexact.mpr (by decide)⟩

/-- **Three seconds are not enough for a mebibyte.**  Six parts do not divide it, so six blocks fall
    four bytes short of it. -/
theorem uneven_leak_falls_short :
    let s' := (cacheService.direct startup (leakCall "3")).1
    let later := eventsAtOnce 0 (leakTask (leakOrder 3) 1 3) 3 startup
    LeakRequest cacheService (leakCall "3") (leakOrder 3) 1 3 ∧
      startup + secondsOf 3 ≤ lastInstant ∧
      ((s'.run later).share 0).activities = [] ∧
      (blocksBy 0 s' later).sum + 4 = 2 ^ 20 := by
  intro s' later
  refine ⟨leakRequest_of_written (by decide) (by decide +kernel), by decide, ?_,
    by decide +kernel⟩
  have hended : ((s'.run later).share 0).activities.isEmpty = true := by decide +kernel
  exact List.isEmpty_iff.mp hended

end State

end Havoc.Service
