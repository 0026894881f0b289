import Std.Data.ExtTreeMap
import Std.Data.ExtTreeSet

/-!
# Numbers that stand for things

Patterns, expressions and locals of a unit are numbered from zero in the order in which they
are made, and so are the labels, values and flow states that the passes create.  Facts about
them are kept in tables keyed by these numbers.  The tables are ordered and extensional: two
tables are equal as soon as they answer every lookup alike.
-/

namespace GuardedMatch

/-- The number of a pattern in its arena. -/
abbrev PatternId := Nat

/-- The number of a guard expression in its arena. -/
abbrev ExprId := Nat

/-- The number of a local variable in its arena. -/
abbrev LocalId := Nat

/-- A symbolic jump target. -/
abbrev Label := Nat

/-- A value computed by the emitted code. -/
abbrev ValueId := Nat

/-- The position of a recorded flow state. -/
abbrev StateIndex := Nat

/-- A table keyed by numbers, listed in ascending order. -/
abbrev IdMap (α : Type) := Std.ExtTreeMap Nat α compare

/-- A set of numbers, listed in ascending order. -/
abbrev IdSet := Std.ExtTreeSet Nat compare

end GuardedMatch
