import Havoc.Time.Clock

/-! # An agenda

    Things that are to happen are kept in the order of the instants at which they are due, those
    that are due together in the order in which they were written down, urgent ones before all
    others.  Time stands still while something is left to do, and then moves on to the next
    thing. -/

namespace Havoc

/-- An entry of an agenda. -/
structure Entry (ε : Type) where
  due : Instant
  event : ε
  /-- Whether it comes before everything else that is due at the same instant. -/
  isUrgent : Bool := false

/-- Whether an entry stays before one that is written down after it. -/
def Entry.precedes (x e : Entry ε) : Bool :=
  x.due < e.due || (x.due = e.due && (x.isUrgent || !e.isUrgent))

/-- What is to happen, the next thing first. -/
structure Agenda (ε : Type) where
  entries : List (Entry ε) := []

namespace Agenda

/-- Puts an entry behind all that precede it. -/
def insert (e : Entry ε) : List (Entry ε) → List (Entry ε)
  | [] => [e]
  | x :: rest => if x.precedes e then x :: insert e rest else e :: x :: rest

/-- A timer goes off at the first whole millisecond that is not before the instant asked for. -/
def wholeMillis (t : Instant) : Instant := (t + 999999) / 1000000 * 1000000

/-- Writes an entry down. -/
def add (a : Agenda ε) (e : Entry ε) : Agenda ε :=
  ⟨insert { e with due := wholeMillis e.due } a.entries⟩

/-- Writes several entries down. -/
def addAll (a : Agenda ε) (later : List (Entry ε)) : Agenda ε := later.foldl add a

/-- The first entry, if it is due by an instant, and the agenda without it. -/
def dueBy? (a : Agenda ε) (limit : Instant) : Option (Entry ε × Agenda ε) :=
  match a.entries with
  | e :: rest => if e.due ≤ limit then some (e, ⟨rest⟩) else none
  | [] => none

end Agenda

/-! ## The course of things -/

/-- What comes of an event: a state, and what is to happen because of it. -/
structure Reaction (σ ε : Type) where
  state : σ
  /-- What happens before anything else. -/
  next : List ε := []
  /-- What happens when everything else that is due has had its turn. -/
  aside : List ε := []
  /-- What happens before the clock moves on, but not as long as nobody waits for it. -/
  slow : List ε := []
  later : List (Entry ε) := []

/-- Something happens as a timing says; what is due by now happens next. -/
def Reaction.timed (state : σ) (now : Instant) (timing : Timing) (event : ε)
    (isUrgent : Bool := false) : Reaction σ ε :=
  match timing with
  | .inTurn => { state, aside := [event] }
  | .at due =>
    if due ≤ now then { state, next := [event] } else { state, later := [{ due, event, isUrgent }] }

/-- What an event makes of a state. -/
abbrev Handler (σ ε : Type) := Instant → ε → σ → Reaction σ ε

/-- A state on its way through time. -/
structure Course (σ ε : Type) where
  now : Instant
  state : σ
  next : List ε := []
  /-- What was put aside, the last first. -/
  aside : List ε := []
  slow : List ε := []
  agenda : Agenda ε := {}

namespace Course

/-- An event happens now. -/
def happen (handle : Handler σ ε) (c : Course σ ε) (event : ε) : Course σ ε :=
  let r := handle c.now event c.state
  { c with
    state := r.state, next := r.next ++ c.next, aside := r.aside.reverse ++ c.aside
    slow := c.slow ++ r.slow, agenda := c.agenda.addAll r.later }

/-- The next thing that is left to do by now.  Of what was put aside the last comes first. -/
def present? (c : Course σ ε) : Option (ε × Course σ ε) :=
  match c.next, c.agenda.dueBy? c.now, c.aside with
  | event :: next, _, _ => some (event, { c with next })
  | [], some (e, agenda), _ => some (e.event, { c with agenda })
  | [], none, event :: next => some (event, { c with next, aside := [] })
  | [], none, [] => none

/-- The next thing that takes time, if it is over by a limit: what is slow comes before the clock
    moves on. -/
def future? (limit : Instant) (c : Course σ ε) : Option (ε × Course σ ε) :=
  if limit ≤ c.now then none
  else
    match c.slow with
    | event :: slow => some (event, { c with slow })
    | [] => (c.agenda.dueBy? limit).map fun (e, agenda) => (e.event, { c with now := e.due, agenda })

/-- The next thing happens, if it does by a limit. -/
def step? (handle : Handler σ ε) (limit : Instant) (c : Course σ ε) : Option (Course σ ε) :=
  match c.present? with
  | some (event, c) => some (c.happen handle event)
  | none => (c.future? limit).map fun (event, c) => c.happen handle event

/-- Things happen until a condition holds or nothing more happens by a limit; no more than `fuel`
    of them. -/
def runUntil (handle : Handler σ ε) (isDone : σ → Bool) (limit : Instant) :
    Nat → Course σ ε → Course σ ε
  | 0, c => c
  | fuel + 1, c =>
    if isDone c.state then c
    else
      match c.step? handle limit with
      | some c => c.runUntil handle isDone limit fuel
      | none => c

end Course

end Havoc
