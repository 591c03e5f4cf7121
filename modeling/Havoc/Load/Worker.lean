import Havoc.Load.Cycling

/-! # A worker

    A worker opens one resource, runs cycles of work on it until its deadline and closes it.  A
    worker whose resource cannot be opened ends at once, and runs and closes nothing.  A worker with
    a cycle or a closing that breaks off ends there, and leaves its resource as it is. -/

namespace Havoc.Load

/-- Until when a worker runs: a fixed instant, or a span after its resource is open. -/
inductive Limit where
  | at (deadline : Instant)
  | after (duration : Span)
  deriving DecidableEq, Repr

/-- The deadline of a worker whose resource is open at an instant. -/
def Limit.deadline : Limit → Instant → Instant
  | .at deadline, _ => deadline
  | .after duration, now => deadlineAfter now duration

/-- How far a worker is. -/
inductive Worker where
  | opening (limit : Limit) (interval : Span)
  | cycling (resource : Resource) (loop : Cycling)
  | closing (resource : Resource) (loop : Cycling)
  | done (report : CycleReport)
  /-- The resource could not be opened, with the cause if there was an answer. -/
  | failed (cause : Option String)
  /-- A cycle broke off, or the closing of the resource, which was not closed then. -/
  | broken (resource : Resource)
  deriving DecidableEq, Repr

namespace Worker

/-- A worker that is about to open its resource. -/
def start (number : Nat) (limit : Limit) (interval : Span) : Step Worker :=
  ⟨opening limit interval, [], [.opening number]⟩

/-- A worker whose loop stands before its next cycle or at its end. -/
def ofTurn (resource : Resource) (notes : List Metric.Note) : Turn → Step Worker
  | .on loop ask => ⟨cycling resource loop, notes, [ask]⟩
  | .ended loop => ⟨closing resource loop, notes, [.closing resource]⟩
  | .broken _ => ⟨broken resource, notes, []⟩

/-- A worker that holds an open resource. -/
def hold (resource : Resource) (limit : Limit) (interval : Span) (notes : List Metric.Note)
    (now : Instant) : Step Worker :=
  let loop : Cycling :=
    { worker := resource.worker, started := now, deadline := limit.deadline now, interval }
  ofTurn resource notes (loop.turn now)

/-- What a signal makes of the worker with a number, on a workload with a name. -/
def step (name : String) (number : Nat) (w : Worker) (now : Instant) (signal : Signal) :
    Option (Step Worker) :=
  match w with
  | opening limit interval =>
    match signal with
    | .opened r =>
      if r.worker = number then some (hold r limit interval [.opened name] now) else none
    | .refused n cause => if n = number then some ⟨failed cause, [.setupFailed name], []⟩ else none
    | .broke n => if n = number then some ⟨failed none, [], []⟩ else none
    | _ => none
  | cycling resource loop =>
    (loop.step now signal).map (ofTurn resource (failureNotes name signal))
  | closing resource loop =>
    match signal with
    | .closed r => if r = resource then some ⟨done (loop.report now), [.closed name], []⟩ else none
    | .jammed r => if r = resource then some ⟨broken resource, [], []⟩ else none
    | _ => none
  | done _ | failed _ | broken _ => none

/-- Whether the worker has ended. -/
def isOver : Worker → Bool
  | done _ | failed _ | broken _ => true
  | opening .. | cycling .. | closing .. => false

end Worker

end Havoc.Load
