import GuardedMatch.Index
import GuardedMatch.Types.Basic

/-!
# Scopes

The names that an expression can see.  A later declaration hides an earlier one of the same
name.
-/

namespace GuardedMatch

structure ScopeEntry where
  name : String
  id : LocalId
  ty : Ty
deriving DecidableEq

/-- The visible declarations, innermost first. -/
structure Scope where
  entries : List ScopeEntry

namespace Scope

def empty : Scope := ⟨[]⟩

def declare (scope : Scope) (entry : ScopeEntry) : Scope := ⟨entry :: scope.entries⟩

def lookup (scope : Scope) (name : String) : Option ScopeEntry :=
  scope.entries.find? (·.name == name)

/-- The locals in order of declaration. -/
def locals (scope : Scope) : List LocalId := scope.entries.reverse.map (·.id)

def size (scope : Scope) : Nat := scope.entries.length

def isEmpty (scope : Scope) : Bool := scope.entries.isEmpty

end Scope

end GuardedMatch
