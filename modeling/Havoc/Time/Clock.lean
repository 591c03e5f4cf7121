import Havoc.Number.Digits

/-! # The clock of the service

    Instants and spans are whole nanoseconds.  Instants are counted from the start of the system;
    there is a last instant, and a deadline that would lie beyond it is thirty years away
    instead. -/

namespace Havoc

/-- Nanoseconds since the start of the system. -/
abbrev Instant := Nat

/-- A length of time in nanoseconds. -/
abbrev Span := Nat

namespace Span

/-- A number of milliseconds. -/
def ofMillis (n : Nat) : Span := n * 1000000

/-- A number of seconds. -/
def ofSeconds (n : Nat) : Span := n * 1000000000

/-- The whole milliseconds of a span. -/
def millis (s : Span) : Nat := s / 1000000

/-- The whole milliseconds of a span as a number of 64 bits, which wraps. -/
def millisWord (s : Span) : Nat := s.millis % 2 ^ 64

/-- The longest span. -/
def longest : Span := ofSeconds (2 ^ 64) - 1

end Span

/-- The last instant that can be represented. -/
def lastInstant : Instant := Span.ofSeconds (2 ^ 63) - 1

/-- About thirty years, which stand for a deadline that never comes. -/
def farFuture : Span := Span.ofSeconds (86400 * 365 * 30)

/-- The instant a span after another; one beyond the last is thirty years after it instead. -/
def deadlineAfter (start : Instant) (span : Span) : Instant :=
  if start + span ≤ lastInstant then start + span else start + farFuture

/-- The instant at which a service starts: the system has been up for a while by then. -/
def startup : Instant := Span.ofSeconds 1000000

/-- When something comes. -/
inductive Timing where
  /-- When all else that is due has had its turn. -/
  | inTurn
  | at (due : Instant)
  deriving DecidableEq, Repr

/-- A deadline is not before its start. -/
theorem le_deadlineAfter (start : Instant) (span : Span) : start ≤ deadlineAfter start span := by
  simp only [deadlineAfter]
  split <;> exact Nat.le_add_right _ _

end Havoc
