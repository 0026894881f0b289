import GuardedMatch.Fault

/-!
# Spans

A span is a range of offsets in the source text, from `start` up to and not including `stop`.
Nothing forces `start ≤ stop`: spans come from whoever built the syntax.
-/

namespace GuardedMatch

structure Span where
  start : Nat
  stop : Nat
deriving DecidableEq

namespace Span

/-- The span that stands in where there is none. -/
def none : Span := ⟨0, 0⟩

/-- The empty span at an offset. -/
def point (offset : Nat) : Span := ⟨offset, offset⟩

/-- The number of offsets in a span; a reversed span has no length. -/
def length (s : Span) : Except Fault Nat :=
  if s.stop < s.start then .error .reversedSpan else .ok (s.stop - s.start)

def isEmpty (s : Span) : Bool := s.start == s.stop

def contains (s : Span) (offset : Nat) : Bool := s.start ≤ offset && offset < s.stop

/-- The smallest span that includes both. -/
def merge (s t : Span) : Span := ⟨min s.start t.start, max s.stop t.stop⟩

/-- From the start of the first to the stop of the second, wherever that is. -/
def through (s t : Span) : Span := ⟨s.start, t.stop⟩

/-- Written as `start..stop`. -/
def text (s : Span) : String := toString s.start ++ ".." ++ toString s.stop

end Span

end GuardedMatch
