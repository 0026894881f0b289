import GuardedMatch.Index
import GuardedMatch.Types.Basic

/-!
# The table of a resolution

Everything that resolution finds out is kept beside the syntax, by number: the types of
patterns, expressions and locals, the conversions that operands need, the local that each
identifier means, which names are used in a guard, and which guarded pattern a record pattern
inside a condition belongs to.
-/

namespace GuardedMatch

/-- A conversion that an operand undergoes before its operator is applied. -/
inductive Conversion
  | unbox
  | widen (target : Ty)
  | unboxAndWiden (target : Ty)
deriving DecidableEq

structure Resolution where
  patternTypes : IdMap Ty
  exprTypes : IdMap Ty
  localTypes : IdMap Ty
  conversions : IdMap Conversion
  identLocals : IdMap LocalId
  /-- The identifiers and fields in a guard that read a local. -/
  guardNames : IdSet
  /-- For a record pattern inside a condition, the guarded pattern with that condition. -/
  elseOwners : IdMap PatternId

namespace Resolution

def empty : Resolution := ⟨∅, ∅, ∅, ∅, ∅, ∅, ∅⟩

/-- The type of a pattern; one that is not resolved has the error type. -/
def patternType (table : Resolution) (id : PatternId) : Ty :=
  table.patternTypes[id]?.getD Ty.error

/-- The record patterns inside the condition of a guarded pattern, in order of number. -/
def recordsOwnedBy (table : Resolution) (owner : PatternId) : List PatternId :=
  (table.elseOwners.toList.filter (·.2 == owner)).map (·.1)

def setPatternType (table : Resolution) (id : PatternId) (ty : Ty) : Resolution :=
  { table with patternTypes := table.patternTypes.insert id ty }

def setExprType (table : Resolution) (id : ExprId) (ty : Ty) : Resolution :=
  { table with exprTypes := table.exprTypes.insert id ty }

def setLocalType (table : Resolution) (id : LocalId) (ty : Ty) : Resolution :=
  { table with localTypes := table.localTypes.insert id ty }

def setConversion (table : Resolution) (id : ExprId) (conversion : Conversion) : Resolution :=
  { table with conversions := table.conversions.insert id conversion }

def setIdentLocal (table : Resolution) (id : ExprId) (target : LocalId) : Resolution :=
  { table with identLocals := table.identLocals.insert id target }

def tagGuardName (table : Resolution) (id : ExprId) : Resolution :=
  { table with guardNames := table.guardNames.insert id }

def setElseOwner (table : Resolution) (owner record : PatternId) : Resolution :=
  { table with elseOwners := table.elseOwners.insert record owner }

end Resolution

end GuardedMatch
