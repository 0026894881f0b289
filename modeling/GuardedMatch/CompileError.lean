import GuardedMatch.Fault

/-!
# Refusals

The reasons for which a unit is not compiled.  Unlike a fault, a refusal says something about
the unit, and it is worded for its author.
-/

namespace GuardedMatch

inductive CompileError
  | cancelled
  | emptyGuard (id : PatternId)
  | unknownPattern (id : PatternId)
  | notAnalysed (id : PatternId)
deriving DecidableEq

namespace CompileError

def patternText (id : PatternId) : String := "PatternId(" ++ toString id ++ ")"

def message : CompileError → String
  | cancelled => "compilation cancelled"
  | emptyGuard id => "guarded pattern " ++ patternText id ++ " has no sub-patterns"
  | unknownPattern id => "pattern " ++ patternText id ++ " does not belong to this unit"
  | notAnalysed id =>
    "pattern " ++ patternText id ++ " must be flow-analyzed before code generation"

end CompileError

/-- Why there is no result: the unit was refused, or there was a fault. -/
inductive Failure
  | refused (reason : CompileError)
  | faulty (fault : Fault)
deriving DecidableEq

end GuardedMatch
