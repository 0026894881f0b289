import GuardedMatch.Coverage.Relations
import GuardedMatch.Diagnostic.Queue
import GuardedMatch.Syntax.Forest

/-!
# Switches

A case of a switch is dominated if an earlier case matches whatever it matches.  A switch is
exhaustive if every value of the selector's type is matched by some case.

Coverage is decided on a matrix: a row for each case and a column for each value still to be
looked at.  A cell is a pattern, or nothing where everything matches.  The first column is
dealt with by the type of its values.

* A record is replaced by its components, in the rows that can match it.
* Otherwise the rows that cover the type leave the column, and if they do not settle the rest, a
  sealed abstract type is split into its permitted subtypes.

What is left to do after the first column is a function of the rows, so `covered` deals with one
type at a time.  Its budget bounds how deep types are taken apart.
-/

namespace GuardedMatch

/-- A row of the matrix, from the first column that is left; an empty cell matches
everything. -/
abbrev Row := List (Option Pattern)

mutual

/-- The patterns any of which is enough to match: those below guards that are always true.  A
guard that may be false guarantees nothing. -/
def Pattern.alternatives : Pattern → Except Fault (List Pattern)
  | .guarded _ patterns condition _ =>
    match condition.isVacuous with
    | .ok true => Pattern.alternativesAll patterns
    | .ok false => .ok []
    | .error fault => .error fault
  | .missing id => .error (.unknownPattern id)
  | pattern => .ok [pattern]

def Pattern.alternativesAll : List Pattern → Except Fault (List Pattern)
  | [] => .ok []
  | pattern :: patterns => do
    let first ← pattern.alternatives
    let others ← Pattern.alternativesAll patterns
    return first ++ others

end

namespace Row

/-- A row for each alternative of its first cell. -/
def expand : Row → Except Fault (List Row)
  | some pattern :: cells => do
    let alternatives ← pattern.alternatives
    return alternatives.map (some · :: cells)
  | row => .ok [row]

/-- What is left of a row for the values of a type, if it matches all of them. -/
def default? (pool : Pool) (table : Resolution) (ty : Ty) : Row → Except Fault (Option Row)
  | some pattern :: cells => do
    if ← pattern.covers pool table ty then return some cells else return none
  | none :: cells => .ok (some cells)
  | [] => .ok none

/-- The row for the components of a record, if it can match one. -/
def specialize? (pool : Pool) (table : Resolution) (ty : Ty) : Row → Except Fault (Option Row)
  | some (.record id written components span) :: cells =>
    if table.patternTypes[id]? = some ty ∧
        components.length = (pool.components ty).length then
      .ok (some (components.map some ++ cells))
    else do
      if ← (Pattern.record id written components span).covers pool table ty then
        return some (List.replicate (pool.components ty).length none ++ cells)
      else return none
  | some pattern :: cells => do
    if ← pattern.covers pool table ty then
      return some (List.replicate (pool.components ty).length none ++ cells)
    else return none
  | none :: cells => .ok (some (List.replicate (pool.components ty).length none ++ cells))
  | [] => .ok none

end Row

/-- Keep the rows that a partial step on rows answers. -/
def keepRows (step : Row → Except Fault (Option Row)) : List Row → Except Fault (List Row)
  | [] => .ok []
  | row :: rows => do
    let kept ← step row
    let others ← keepRows step rows
    return kept.toList ++ others

def expandRows : List Row → Except Fault (List Row)
  | [] => .ok []
  | row :: rows => do
    let first ← row.expand
    let others ← expandRows rows
    return first ++ others

/-- Whether a check holds of every element. -/
def Check.all {α : Type} (check : α → Check) : List α → Check
  | [] => .ok true
  | a :: as => Check.andThen (check a) fun _ => Check.all check as

/-- Whether the rows cover all values of a type in the first column, where `rest` decides what
is left after it. -/
def covered (pool : Pool) (table : Resolution) :
    (budget : Nat) → Ty → (rest : List Row → Check) → List Row → Check
  | 0, _, _, _ => .error .unboundedCoverage
  | budget + 1, ty, rest, rows =>
    match expandRows rows with
    | .error fault => .error fault
    | .ok rows =>
      if rows.isEmpty then .ok false
      else if pool.isRecord ty then
        match keepRows (Row.specialize? pool table ty) rows with
        | .error fault => .error fault
        | .ok specialized =>
          (pool.componentTypes ty).foldr (covered pool table budget) rest specialized
      else
        match keepRows (Row.default? pool table ty) rows with
        | .error fault => .error fault
        | .ok defaults =>
          Check.orElse (rest defaults) fun _ =>
            if pool.isSealed ty && pool.isAbstract ty && !(pool.permittedSubtypes ty).isEmpty then
              Check.all (fun sub => covered pool table budget sub rest rows)
                (pool.permittedSubtypes ty)
            else .ok false

/-- A budget for patterns of some depth.  Taking a record apart also takes record patterns apart,
and below the depth of the patterns all cells are empty; then a type that contains itself is
never settled.  Between two records there are at most as many splits as types. -/
def coverageBudget (pool : Pool) (depth : Nat) : Nat :=
  (depth + pool.size + 2) * (pool.size + 2)

/-- Whether every value of a type is matched by some case.  No case is deeper than `depth`. -/
def isExhaustive (pool : Pool) (table : Resolution) (depth : Nat) (cases : List Pattern)
    (selector : Ty) : Check :=
  if pool.isError selector then .ok true
  else
    covered pool table (coverageBudget pool depth) selector (fun rows => .ok !rows.isEmpty)
      (cases.map fun pattern => [some pattern])

/-! ## Dominated cases -/

/-- A case that can never match, and the first earlier case that matches in its place. -/
structure DominatedCase where
  position : Nat
  earlier : Nat
deriving DecidableEq

/-- The position of the first pattern that dominates another. -/
def firstDominator (pool : Pool) (table : Resolution) (later : Pattern) :
    (position : Nat) → List Pattern → Except Fault (Option Nat)
  | _, [] => .ok none
  | position, pattern :: patterns => do
    if ← pattern.dominates pool table later then return some position
    else firstDominator pool table later (position + 1) patterns

/-- The dominated cases among those that follow the cases in `before`. -/
def dominatedCases (pool : Pool) (table : Resolution) :
    (before : List Pattern) → List Pattern → Except Fault (List DominatedCase)
  | _, [] => .ok []
  | before, pattern :: patterns => do
    let dominator ← firstDominator pool table pattern 0 before
    let others ← dominatedCases pool table (before ++ [pattern]) patterns
    return (dominator.map fun earlier => ⟨before.length, earlier⟩).toList ++ others

/-- The span of a case that exists. -/
def caseSpan (cases : List Pattern) (position : Nat) : Except Fault Span :=
  match cases[position]? with
  | some (.missing id) => .error (.unknownPattern id)
  | some pattern => .ok pattern.span
  | none => .ok Span.none

/-- What is wrong with a dominated case. -/
def DominatedCase.diagnostic (cases : List Pattern) (dominated : DominatedCase) :
    Except Fault Diagnostic := do
  let span ← caseSpan cases dominated.position
  let earlier ← caseSpan cases dominated.earlier
  return Diagnostic.dominatedCase span earlier

structure SwitchReport where
  dominated : List DominatedCase
  exhaustive : Bool
deriving DecidableEq

/-- A fault stops a check. -/
abbrev CheckM := EStateM Fault Queue

def CheckM.offer (diagnostic : Diagnostic) : CheckM Unit :=
  modify fun queue => (queue.add diagnostic).2

namespace Forest

/-- Check the cases of a switch over values of a type. -/
def examineSwitch (forest : Forest) (pool : Pool) (table : Resolution) (cases : List PatternId)
    (selector : Ty) (span : Span) : CheckM SwitchReport := do
  let patterns := cases.map forest.pattern
  let dominated ← MonadExcept.ofExcept (dominatedCases pool table [] patterns)
  dominated.forM fun found => do
    CheckM.offer (← MonadExcept.ofExcept (found.diagnostic patterns))
  let exhaustive ← MonadExcept.ofExcept
    (isExhaustive pool table forest.depth patterns selector)
  if !exhaustive then
    CheckM.offer (Diagnostic.notExhaustive span (pool.display selector))
  return ⟨dominated, exhaustive⟩

/-- Check a switch with a queue of its own, which drops nothing.  Answers the report and the
diagnostics it offers. -/
def checkSwitch (forest : Forest) (pool : Pool) (table : Resolution) (cases : List PatternId)
    (selector : Ty) (span : Span) : Except Fault (SwitchReport × List Diagnostic) :=
  match EStateM.run (forest.examineSwitch pool table cases selector span) (.new .unlimited) with
  | .ok report queue => .ok (report, queue.diagnostics)
  | .error fault _ => .error fault

end Forest

end GuardedMatch
