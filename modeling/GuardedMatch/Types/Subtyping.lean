import GuardedMatch.Index
import GuardedMatch.Types.Pool

/-!
# Subtyping and castability

Subtyping is nominal: a reference type is a subtype of what its declared supertypes lead to,
and of `Object`.  The error type is a subtype and a supertype of everything, so that one
mistake is reported once.  Declarations may form cycles, so the search for a supertype keeps
the types it has left behind.
-/

namespace GuardedMatch.Pool

/-- Search upward from the types in `work` for a type that lists `goal` as a supertype.  Types
in `seen` are done, and the last of the supertypes that a type lists is looked at first.  Every step
takes a type off `work`, and a type adds its supertypes only once, so `steps` need not exceed the
number of supertypes listed in the pool plus the number of types that the search starts from. -/
def reaches (pool : Pool) (goal : Ty) :
    (steps : Nat) → (work : List Ty) → (seen : IdSet) → Bool
  | 0, _, _ => false
  | _ + 1, [], _ => false
  | steps + 1, ty :: work, seen =>
    if seen.contains ty.index then pool.reaches goal steps work seen
    else if goal ∈ pool.supertypes ty then true
    else pool.reaches goal steps ((pool.supertypes ty).reverse ++ work) (seen.insert ty.index)

/-- The number of supertypes listed in the pool. -/
def edgeCount (pool : Pool) : Nat :=
  pool.entries.toList.foldl (fun count entry => count + entry.supertypes.length) 0

def isSubtype (pool : Pool) (sub sup : Ty) : Bool :=
  if sub = sup ∨ pool.isError sub ∨ pool.isError sup then true
  else if pool.isPrimitive sub ∨ pool.isPrimitive sup then false
  else if sup = Ty.object then true
  else pool.reaches sup (pool.edgeCount + 1) [sub] ∅

/-- Whether a class that is not declared here could still implement the interface `iface`. -/
def isOpenTo (pool : Pool) (iface other : Ty) : Bool :=
  pool.isInterface iface && !pool.isFinal other && !pool.isSealed other

/-- Whether a value of type `source` may turn out to be a value of type `target`.  Unrelated
reference types meet only through an interface that some class may still implement. -/
def isCastable (pool : Pool) (source target : Ty) : Bool :=
  if source = target ∨ pool.isError source ∨ pool.isError target then true
  else match pool.isPrimitive source, pool.isPrimitive target with
    | true, true => pool.isNumeric source && pool.isNumeric target
    | true, false => source.boxed?.any fun box => pool.isSubtype box target
    | false, true => target.boxed?.any fun box => pool.isSubtype box source
    | false, false =>
      pool.isSubtype source target || pool.isSubtype target source ||
        pool.isOpenTo source target || pool.isOpenTo target source ||
        (pool.isInterface source && pool.isInterface target)

end GuardedMatch.Pool
