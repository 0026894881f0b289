import GuardedMatch.Bindings
import GuardedMatch.Proofs.References

/-!
# Visible locals

Which locals an identifier can mean depends on where it stands.  It sees the locals that its tree
is resolved with, those that the sub-patterns of a guard bind if it stands in the condition, and
those that the left operand of `&&` or `||` binds on the way to the right one if it stands there.

* `Pattern.reads`, `Expr.reads`: the identifiers of a tree with the locals that they see.
* `Pattern.node_reads_sublist`, `Expr.node_reads_sublist`: identifiers are met in this order, so in
  a tree that meets no node twice each of them is read in one place.
-/

namespace GuardedMatch

/-- An identifier, and the locals that are visible to it. -/
structure Read where
  id : ExprId
  visible : List LocalId

def Read.node (read : Read) : Node := .expr read.id

mutual

/-- The identifiers in a pattern that is resolved where the given locals are visible. -/
def Pattern.reads : Pattern → (visible : List LocalId) → List Read
  | .record _ _ components _, visible => Pattern.readsAll components visible
  | .guarded _ patterns condition _, visible =>
    Pattern.readsAll patterns visible ++ condition.reads (visible ++ Pattern.bindingsAll patterns)
  | .type .., _ | .any .., _ | .missing _, _ => []

def Pattern.readsAll : List Pattern → (visible : List LocalId) → List Read
  | [], _ => []
  | pattern :: patterns, visible => pattern.reads visible ++ Pattern.readsAll patterns visible

/-- The identifiers in an expression that is resolved where the given locals are visible. -/
def Expr.reads : Expr → (visible : List LocalId) → List Read
  | .ident id _ _, visible => [⟨id, visible⟩]
  | .field _ receiver _ _, visible => receiver.reads visible
  | .unary _ _ operand _, visible => operand.reads visible
  | .binary _ op left right _, visible =>
    left.reads visible ++
      right.reads (if op.isLogical then visible ++ left.bindings (op == .and) else visible)
  | .instanceOf _ tested pattern _, visible => tested.reads visible ++ pattern.reads visible
  | .call _ _ args _ _, visible => Expr.readsAll args visible
  | .bool .., _ | .int .., _ | .missing _, _ => []

def Expr.readsAll : List Expr → (visible : List LocalId) → List Read
  | [], _ => []
  | expr :: exprs, visible => expr.reads visible ++ Expr.readsAll exprs visible

end

/-- Reading in order is kept when one part follows another. -/
theorem Read.append_sublist {reads reads' : List Read} {visits visits' : List Visit}
    (h : (reads.map Read.node).Sublist (visits.filterMap Visit.node?))
    (h' : (reads'.map Read.node).Sublist (visits'.filterMap Visit.node?)) :
    ((reads ++ reads').map Read.node).Sublist ((visits ++ visits').filterMap Visit.node?) := by
  rw [List.map_append, List.filterMap_append]
  exact h.append h'

mutual

theorem Pattern.node_reads_sublist : ∀ (pattern : Pattern) (visible : List LocalId),
    ((pattern.reads visible).map Read.node).Sublist (pattern.visits.filterMap Visit.node?)
  | .record _ _ components _, visible =>
    (Pattern.node_readsAll_sublist components visible).cons _
  | .guarded _ patterns condition _, visible =>
    (Read.append_sublist (Pattern.node_readsAll_sublist patterns visible)
      (condition.node_reads_sublist _)).cons _
  | .type .., _ | .any .., _ | .missing _, _ => List.nil_sublist _

theorem Pattern.node_readsAll_sublist : ∀ (patterns : List Pattern) (visible : List LocalId),
    ((Pattern.readsAll patterns visible).map Read.node).Sublist
      ((Pattern.visitsAll patterns).filterMap Visit.node?)
  | [], _ => List.nil_sublist _
  | pattern :: patterns, visible =>
    Read.append_sublist (pattern.node_reads_sublist visible)
      (Pattern.node_readsAll_sublist patterns visible)

theorem Expr.node_reads_sublist : ∀ (expr : Expr) (visible : List LocalId),
    ((expr.reads visible).map Read.node).Sublist (expr.visits.filterMap Visit.node?)
  | .ident .., _ => List.Sublist.refl _
  | .field _ receiver _ _, visible => (receiver.node_reads_sublist visible).cons _
  | .unary _ _ operand _, visible => (operand.node_reads_sublist visible).cons _
  | .binary _ _ left right _, visible =>
    (Read.append_sublist (left.node_reads_sublist visible) (right.node_reads_sublist _)).cons _
  | .instanceOf _ tested pattern _, visible =>
    (Read.append_sublist (tested.node_reads_sublist visible)
      (pattern.node_reads_sublist visible)).cons _
  | .call _ _ args _ _, visible => (Expr.node_readsAll_sublist args visible).cons _
  | .bool .., _ | .int .., _ | .missing _, _ => List.nil_sublist _

theorem Expr.node_readsAll_sublist : ∀ (exprs : List Expr) (visible : List LocalId),
    ((Expr.readsAll exprs visible).map Read.node).Sublist
      ((Expr.visitsAll exprs).filterMap Visit.node?)
  | [], _ => List.nil_sublist _
  | expr :: exprs, visible =>
    Read.append_sublist (expr.node_reads_sublist visible) (Expr.node_readsAll_sublist exprs visible)

end

end GuardedMatch
