import GuardedMatch.Constant
import GuardedMatch.Resolution.Table
import GuardedMatch.Syntax.Tree
import GuardedMatch.Types.Subtyping

/-!
# Relations between patterns

Three static facts about resolved patterns: a pattern has only guards that are always true, a
pattern covers a type, a pattern dominates another.  All three are conservative: a negative
answer means that the fact is not evident.

An answer looks at no more of a pattern than it needs, and a missing node is a fault only where
it is looked at.  So answers are combined from left to right and stop as soon as they are
settled.
-/

namespace GuardedMatch

/-- A yes or no, or the fault of a missing node that was looked at. -/
abbrev Check := Except Fault Bool

namespace Check

/-- Look at the second check only if the first holds. -/
def andThen (first : Check) (second : Unit → Check) : Check :=
  match first with
  | .ok true => second ()
  | .ok false => .ok false
  | .error fault => .error fault

/-- Look at the second check only if the first does not hold. -/
def orElse (first : Check) (second : Unit → Check) : Check :=
  match first with
  | .ok true => .ok true
  | .ok false => second ()
  | .error fault => .error fault

end Check

/-- Whether a condition is known to be true. -/
def Expr.isVacuous (condition : Expr) : Check :=
  match condition.foldFault with
  | some fault => .error fault
  | none => .ok (condition.truth == some true)

mutual

/-- Whether every guard that decides if the pattern matches is always true. -/
def Pattern.isAlwaysTrue : Pattern → Check
  | .guarded _ _ condition _ => condition.isVacuous
  | .record _ _ components _ => Pattern.areAlwaysTrue components
  | .type .. | .any .. => .ok true
  | .missing id => .error (.unknownPattern id)

def Pattern.areAlwaysTrue : List Pattern → Check
  | [] => .ok true
  | pattern :: patterns =>
    Check.andThen pattern.isAlwaysTrue fun _ => Pattern.areAlwaysTrue patterns

end

/-- Whether the resolved type of a pattern includes a type. -/
def Resolution.includes (table : Resolution) (pool : Pool) (id : PatternId) (ty : Ty) : Bool :=
  !pool.isError (table.patternType id) && pool.isSubtype ty (table.patternType id)

mutual

/-- Whether the pattern matches every value of a type. -/
def Pattern.covers (pool : Pool) (table : Resolution) : Pattern → Ty → Check
  | pattern, ty =>
    if pool.isError ty then .ok false
    else match pattern with
      | .type id .. => .ok (table.includes pool id ty)
      | .record id _ components _ =>
        if !table.includes pool id ty then .ok false
        else if (pool.components (table.patternType id)).length ≠ components.length then .ok false
        else Pattern.coverEach pool table components (pool.componentTypes (table.patternType id))
      | .any .. => .ok true
      | .guarded _ patterns condition _ =>
        Check.andThen condition.isVacuous fun _ => Pattern.someCovers pool table patterns ty
      | .missing id => .error (.unknownPattern id)

/-- Whether each pattern covers the type at its position. -/
def Pattern.coverEach (pool : Pool) (table : Resolution) : List Pattern → List Ty → Check
  | pattern :: patterns, ty :: types =>
    Check.andThen (pattern.covers pool table ty) fun _ =>
      Pattern.coverEach pool table patterns types
  | _, _ => .ok true

/-- Whether one of the patterns covers a type. -/
def Pattern.someCovers (pool : Pool) (table : Resolution) : List Pattern → Ty → Check
  | [], _ => .ok false
  | pattern :: patterns, ty =>
    Check.orElse (pattern.covers pool table ty) fun _ => Pattern.someCovers pool table patterns ty

end

mutual

/-- Whether the pattern matches every value that the other pattern matches. -/
def Pattern.dominates (pool : Pool) (table : Resolution) : Pattern → (other : Pattern) → Check
  | .type id .., other =>
    match other.core with
    | some (.missing id) => .error (.unknownPattern id)
    | some core =>
      .ok (!pool.isError (table.patternType core.id) &&
        table.includes pool id (table.patternType core.id))
    | none => .ok false
  | .record id _ components _, other =>
    match other.core with
    | some (.missing id) => .error (.unknownPattern id)
    | some (.record id' _ components' _) =>
      if !pool.isError (table.patternType id) ∧ table.patternType id = table.patternType id' ∧
          components.length = components'.length then
        Pattern.dominateEach pool table components components'
      else .ok false
    | _ => .ok false
  | .any .., _ => .ok true
  | .guarded _ patterns condition _, other =>
    Check.andThen condition.isVacuous fun _ => Pattern.someDominates pool table patterns other
  | .missing id, _ => .error (.unknownPattern id)

/-- Whether each pattern dominates the one at its position. -/
def Pattern.dominateEach (pool : Pool) (table : Resolution) :
    List Pattern → (others : List Pattern) → Check
  | pattern :: patterns, other :: others =>
    Check.andThen (pattern.dominates pool table other) fun _ =>
      Pattern.dominateEach pool table patterns others
  | _, _ => .ok true

/-- Whether one of the patterns dominates the other. -/
def Pattern.someDominates (pool : Pool) (table : Resolution) :
    List Pattern → (other : Pattern) → Check
  | [], _ => .ok false
  | pattern :: patterns, other =>
    Check.orElse (pattern.dominates pool table other) fun _ =>
      Pattern.someDominates pool table patterns other

end

end GuardedMatch
