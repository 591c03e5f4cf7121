import Havoc.Proofs.Fault.Orders
import Havoc.Proofs.Service.BackendOrder
import Havoc.Service.Handle

/-! # Who asks for longer

    A deadline beyond the last instant is thirty years away instead.  So a longer span ends no
    sooner than a shorter one, unless the longer one ends beyond the last instant and the
    shorter one does not and is more than thirty years (`deadlineAfter_le_iff`).

    The rest ties this to requests.  Every endpoint that keeps something up (`Keeps`) reads one
    quantity as a number of seconds; what comes of the request lasts for just these seconds
    (`Keeps.lasts`), and a job and a fault rule that begin at an instant have their deadline
    that long after it (`Answer.Lasts.endsAt`).  The main theorem is
    `longer_is_later_unless_overtaken`. -/

namespace Havoc

/-! ## Two deadlines -/

/-- A longer span is taken for thirty years, and a shorter one is more than that. -/
def Overtaken (start : Instant) (short long : Span) : Prop :=
  start + short ≤ lastInstant ∧ lastInstant < start + long ∧ farFuture < short

theorem deadlineAfter_le_iff {start short long : Nat} (h : short ≤ long) :
    deadlineAfter start short ≤ deadlineAfter start long ↔ ¬ Overtaken start short long := by
  have hsum : start + short ≤ start + long := Nat.add_le_add_left h start
  rw [deadlineAfter, deadlineAfter, Overtaken]
  by_cases hlong : start + long ≤ lastInstant
  · rw [if_pos hlong, if_pos (Nat.le_trans hsum hlong)]
    refine iff_of_true hsum fun hover => ?_
    exact Nat.not_lt.mpr hlong hover.2.1
  · rw [if_neg hlong]
    by_cases hshort : start + short ≤ lastInstant
    · rw [if_pos hshort, Nat.add_le_add_iff_left]
      constructor
      · intro hfar hover
        exact Nat.not_lt.mpr hfar hover.2.2
      · intro hover
        exact Nat.le_of_not_lt fun hfar => hover ⟨hshort, Nat.lt_of_not_le hlong, hfar⟩
    · rw [if_neg hshort]
      exact iff_of_true (Nat.le_refl _) fun hover => hshort hover.1

namespace Service

open Havoc.Draw Havoc.Json Havoc.Http Havoc.Number

variable {α β : Type} {P Q : α → Prop} {a : Attempt α} {q : RawQuantity} {own : IntRange}
  {n : Int} {now : Instant}

/-! ## Until when a job goes -/

/-- For how long a job is to go. -/
def Work.span : Work → Span
  | .wait span | .keepMemory _ span => span
  | .repeats cadence _ | .drive _ cadence _ | .fanOut cadence _ _ => cadence.duration
  | .rampUp plan _ => plan.duration

/-- The deadline of a job that has begun at an instant; memory that is taken is had at once. -/
def deadlineOf (now : Instant) : Load.Shape → Option Instant
  | .taking span _ => some (deadlineAfter now span)
  | .keeping wake _ => some wake
  | .repeating (.cycling loop) => some loop.deadline
  | .repeating (.done _) => some now
  | .single (.cycling _ loop) | .single (.closing _ loop) => some loop.deadline
  | .many workers => some workers.deadline
  | .ramping ramp => some ramp.deadline
  | _ => none

theorem deadlineOf_begin (w : Work) (now : Instant) :
    deadlineOf now (w.begin now).state = some (deadlineAfter now w.span) := by
  cases w with
  | wait span => rfl
  | keepMemory bytes span => rfl
  | repeats cadence chore =>
      show deadlineOf now (.repeating (Load.Repeat.start cadence now).state) = _
      rw [Load.Repeat.start, Load.Cycling.turn]
      dsimp only
      split
      · rfl
      · next hover =>
          -- the deadline of no time at all has come at once
          exact congrArg some (Nat.le_antisymm (le_deadlineAfter now _) (Nat.le_of_not_lt hover))
  | drive resource cadence workload =>
      show deadlineOf now (.single (Load.Worker.hold resource _ _ [] now).state) = _
      rw [Load.Worker.hold, Load.Cycling.turn]
      dsimp only
      split
      · rfl
      · rfl
  | fanOut cadence workers workload => rfl
  | rampUp plan workload =>
      show deadlineOf now (.ramping (Load.Ramp.start plan now).state) = _
      rw [Load.Ramp.start]
      split
      · rfl
      · rfl

/-- When the rule of a slot lapses. -/
def expiryOf (r : Fault.Rules) : Fault.Slot → Option Instant
  | .latency => r.latency.map (·.expiry)
  | .packetLoss => r.packetLoss.map (·.expiry)
  | .errorRate => r.errorRate.map (·.expiry)
  | .downtime => r.downtime.map (·.expiry)

theorem expiryOf_obey (r : Fault.Rules) (now : Instant) (o : Fault.Order) :
    expiryOf (r.obey now o) o.slot = some (deadlineAfter now o.lifetime) := by
  cases o with
  | latency | packetLoss | errorRate | downtime => rfl

/-- What comes of a request lasts for a span: its job, and a fault rule that comes with it. -/
def Answer.Lasts (span : Span) : Answer → Prop
  | .job order task => task.work.span = span ∧ ∀ o ∈ order, o.lifetime = span
  | .connect _ _ task => ∀ resource, (task resource).work.span = span
  | _ => False

/-- What comes of a request and begins at an instant ends at another: the deadline of its job
    and the expiry of a fault rule that comes with it. -/
def Answer.EndsAt (now t : Instant) : Answer → Prop
  | .job order task =>
      deadlineOf now (task.work.begin now).state = some t ∧
        ∀ o ∈ order, ∀ r : Fault.Rules, expiryOf (r.obey now o) o.slot = some t
  | .connect _ _ task => ∀ resource, deadlineOf now ((task resource).work.begin now).state = some t
  | _ => False

theorem Answer.Lasts.endsAt {x : Answer} {span : Span} (h : x.Lasts span) (now : Instant) :
    x.EndsAt now (deadlineAfter now span) := by
  cases x with
  | job order task =>
      obtain ⟨hwork, horder⟩ := h
      refine ⟨hwork ▸ deadlineOf_begin task.work now, fun o ho r => ?_⟩
      rw [expiryOf_obey, horder o ho]
  | connect kind workload task =>
      intro resource
      rw [deadlineOf_begin, h resource]
  | _ => exact h

/-! ## The endpoints -/

theorem lasts_arming (name label : String) (isAsync : Bool) (params : List (String × Value))
    (order : Fault.Order) : (arming name label isAsync params order).Lasts order.lifetime := by
  refine ⟨rfl, fun o ho => ?_⟩
  obtain rfl := Option.some.inj ho
  rfl

/-- The endpoints that keep something up, each with the quantity that says for how long. -/
inductive Keeps : Attempt Answer → RawQuantity → Prop where
  | cpu (p : CpuOrder) : Keeps (cpu p) p.maintain
  | memory (p : MemoryOrder) : Keeps (memory p) p.maintain
  | memoryLeak (p : MemoryOrder) : Keeps (memoryLeak p) p.maintain
  | fileWrite (p : FileWriteOrder) : Keeps (fileWrite p) p.maintain
  | fileRead (p : FileReadOrder) : Keeps (fileRead p) p.maintain
  | logs (p : LogsOrder) : Keeps (logs p) p.maintain
  | latency (p : FaultOrder) : Keeps (latency p) p.maintain
  | packetLoss (p : FaultOrder) : Keeps (packetLoss p) p.maintain
  | errorInjection (p : FaultOrder) : Keeps (errorInjection p) p.maintain
  | downtime (p : DowntimeOrder) : Keeps (downtime p) p.downtime
  | concurrentFlood (info : Info) (p : FloodOrder) : Keeps (concurrentFlood info p) p.maintain
  | ddos (info : Info) (p : FloodOrder) : Keeps (ddos info p) p.maintain
  | thirdParty (p : ThirdPartyOrder) : Keeps (thirdParty p) p.maintain
  | backendJob (settings : Settings) (kind : Backend.Kind) (operation : Backend.Operation)
      (p : BackendOrder) : Keeps (backendJob settings kind operation p) p.maintain

/-- The answer lasts for the seconds that a quantity comes to. -/
def LastsFor (q : RawQuantity) (x : Answer) : Prop :=
  ∃ n, Resolves maintainRange q n ∧ x.Lasts (secondsOf n)

theorem gives_arming {name label : String} {isAsync : Bool} {params : List (String × Value)}
    {order : Fault.Order} (hn : Resolves maintainRange q n) (h : order.lifetime = secondsOf n) :
    Gives (return arming name label isAsync params order) (LastsFor q) :=
  .return ⟨n, hn, h ▸ lasts_arming name label isAsync params order⟩

theorem gives_repeats {name label : String} {mode : Job.Mode} {params : List (String × Value)}
    {interval : Span} {chore : Chore} (hn : Resolves maintainRange q n) :
    Gives (return .job none ⟨name, label, mode, params, .repeats ⟨secondsOf n, interval⟩ chore⟩)
      (LastsFor q) :=
  .return ⟨n, hn, rfl, fun _ ho => nomatch ho⟩

theorem gives_flood (name label countName : String) (requests : Nat) (info : Info)
    (p : FloodOrder) :
    Gives (flood name label countName requests info p) (LastsFor p.maintain) := by
  refine gives_behind fun address => ?_
  refine gives_integer.bind fun n hn => ?_
  refine gives_behind fun interval => ?_
  exact gives_repeats hn

theorem gives_resolve (operation : Backend.Operation) (kind : Backend.Kind) (p : BackendOrder) :
    Gives (BackendJob.resolve operation kind p) fun job =>
      ∃ n, Resolves maintainRange p.maintain n ∧ job.maintain = n.toNat :=
  gives_numbers.mono fun _ h => h.maintain.resolves

/-- A ramp reads its seconds with a sign, which makes no difference to a number of 64 bits. -/
theorem lasts_launch {job : BackendJob} (hfits : FitsInt64 n) (hjob : job.maintain = n.toNat)
    (kind : Backend.Kind) (workload : Workload) :
    (job.launch kind workload).Lasts (secondsOf n) := by
  have hduration : job.cadence.duration = secondsOf n := congrArg Span.ofSeconds hjob
  rw [BackendJob.launch]
  split
  · exact fun resource => hduration
  · exact ⟨hduration, fun _ ho => nomatch ho⟩
  · refine ⟨?_, fun _ ho => nomatch ho⟩
    show BackendJob.signedSeconds job.maintain = secondsOf n
    have hsmall : n.toNat < 2 ^ 63 := by
      have := hfits.2
      omega
    rw [hjob, BackendJob.signedSeconds_eq (Nat.lt_trans hsmall (by decide)),
      if_neg (Nat.not_le.mpr hsmall)]
    rfl

theorem Keeps.lasts {a : Attempt Answer} (h : Keeps a q) : Gives a (LastsFor q) := by
  cases h with
  | cpu p =>
      refine gives_behind fun percent => ?_
      exact gives_integer.bind fun n hn => gives_repeats hn
  | memory p =>
      refine gives_behind fun mib => ?_
      refine gives_integer.bind fun n hn => ?_
      refine gives_behind fun bytes => ?_
      exact .return ⟨n, hn, rfl, fun _ ho => nomatch ho⟩
  | memoryLeak p =>
      refine gives_behind fun mib => ?_
      refine gives_integer.bind fun n hn => ?_
      exact gives_behind fun bytes => gives_repeats hn
  | fileWrite p =>
      refine gives_behind fun size => ?_
      refine gives_behind fun files => ?_
      refine gives_integer.bind fun n hn => ?_
      exact gives_behind fun interval => gives_repeats hn
  | fileRead p =>
      rw [Service.fileRead]
      split
      · exact gives_throw _ _
      · refine gives_behind fun frequency => ?_
        refine gives_integer.bind fun n hn => ?_
        exact gives_behind fun interval => gives_repeats hn
  | logs p =>
      refine gives_behind fun messages => ?_
      refine gives_behind fun lines => ?_
      refine gives_integer.bind fun n hn => ?_
      exact gives_behind fun interval => gives_repeats hn
  | latency p =>
      refine gives_behind fun delay => ?_
      exact gives_integer.bind fun n hn => gives_arming hn rfl
  | packetLoss p =>
      refine gives_behind fun percent => ?_
      exact gives_integer.bind fun n hn => gives_arming hn rfl
  | errorInjection p =>
      refine gives_behind fun rate => ?_
      exact gives_integer.bind fun n hn => gives_arming hn rfl
  | downtime p => exact gives_integer.bind fun n hn => gives_arming hn rfl
  | concurrentFlood info p =>
      exact gives_behind fun requests => gives_flood _ _ _ _ info p
  | ddos info p =>
      exact gives_behind fun requests => gives_flood _ _ _ _ info p
  | thirdParty p =>
      rw [Service.thirdParty]
      split
      · exact gives_throw _ _
      · refine gives_behind fun rate => ?_
        refine gives_integer.bind fun n hn => ?_
        exact gives_behind fun interval => gives_repeats hn
  | backendJob settings kind operation p =>
      refine (gives_resolve operation kind p).bind fun job hjob => ?_
      obtain ⟨n, hn, hmaintain⟩ := hjob
      refine gives_behind fun workload => .return ⟨n, hn, ?_⟩
      exact lasts_launch (hn.fits (by decide)) hmaintain kind workload

/-- **LONGER IS LATER, UNLESS OVERTAKEN.**  Of two spans from the same instant the longer one ends
    no sooner, just when it is not overtaken.  So it is with what two requests keep up from the
    same instant on, jobs and fault rules of any kind: each goes for the seconds that its
    quantity comes to, a negative number of them counting as none, and a number that is written
    out comes to itself. -/
theorem longer_is_later_unless_overtaken (now : Instant) :
    (∀ short long : Span, short ≤ long →
      (deadlineAfter now short ≤ deadlineAfter now long ↔ ¬ Overtaken now short long)) ∧
    (∀ m n : Int, FitsInt64 m →
      (Resolves maintainRange (.number (.integer m)) n ↔ n = m)) ∧
    ∀ (a a' : Attempt Answer) (q q' : RawQuantity) (w w' : Words) (x x' : Answer),
      Keeps a q → Keeps a' q' → (a.run w).1 = .ok x → (a'.run w').1 = .ok x' →
        ∃ n n' : Int,
          let t := deadlineAfter now (secondsOf n)
          let t' := deadlineAfter now (secondsOf n')
          (Resolves maintainRange q n ∧ x.EndsAt now t) ∧
          (Resolves maintainRange q' n' ∧ x'.EndsAt now t') ∧
          (n ≤ n' → (t ≤ t' ↔ ¬ Overtaken now (secondsOf n) (secondsOf n'))) := by
  refine ⟨fun short long => deadlineAfter_le_iff, fun m n => resolves_integer, ?_⟩
  intro a a' q q' w w' x x' h h' hx hx'
  obtain ⟨n, hn, hlasts⟩ := h.lasts w x hx
  obtain ⟨n', hn', hlasts'⟩ := h'.lasts w' x' hx'
  refine ⟨n, n', ⟨hn, hlasts.endsAt now⟩, ⟨hn', hlasts'.endsAt now⟩, fun hle => ?_⟩
  refine deadlineAfter_le_iff (Nat.mul_le_mul_right _ ?_)
  omega

/-- **The longest is overtaken.**  Downtime of the greatest number of seconds, asked for at the
    start of the service, is over before downtime of a hundred years. -/
theorem longest_is_overtaken :
    ∃ (x x' : Answer) (t t' : Instant),
      ((downtime ⟨.number (.integer 3153600000), true⟩).run ⟨fun _ => 0, 0⟩).1 = .ok x ∧
      ((downtime ⟨.number (.integer (2 ^ 63 - 1)), true⟩).run ⟨fun _ => 0, 0⟩).1 = .ok x' ∧
      x.EndsAt startup t ∧ x'.EndsAt startup t' ∧ t' < t := by
  have hends : ∀ n : Int, (arming "downtime" "downtime simulation" true
      [count "downtime_second" n.toNat] (.downtime (secondsOf n))).EndsAt startup
        (deadlineAfter startup (secondsOf n)) := fun n => (lasts_arming _ _ _ _ _).endsAt startup
  exact ⟨_, _, _, _, rfl, rfl, hends 3153600000, hends (2 ^ 63 - 1), by decide +kernel⟩

end Service
end Havoc
