import GuardedMatch.Index

/-!
# Faults

A fault is a misuse of the library: a reference that leads nowhere, a label placed twice, a
number out of range.  It says nothing about the program being compiled, and no result that was
computed beside it means anything.

A pass stops at the first fault, and nothing that it did before counts.
-/

namespace GuardedMatch

inductive Fault
  /-- A span that ends before it starts has no length. -/
  | reversedSpan
  /-- A name has sixteen shards, each with `2 ^ 28` places. -/
  | nameOutOfRange
  | unknownPattern (id : PatternId)
  | unknownExpr (id : ExprId)
  | unknownLocal (id : LocalId)
  /-- Flow through a guarded pattern is defined only when it has a sub-pattern. -/
  | emptyGuard (id : PatternId)
  | unknownLabel (label : Label)
  | labelPlacedTwice (label : Label)
  /-- Slots are numbered below `65535`. -/
  | slotsExhausted
  /-- The coverage check met a type that contains itself and that no row settles. -/
  | unboundedCoverage
deriving DecidableEq

end GuardedMatch
