import GuardedMatch.Syntax.Tree

/-!
# Walking a tree

The visits of a tree are its nodes in source order, each before what is below it, together with
the locals that type patterns bind.  "Below a pattern" always means: among its visits.

A reference that leads nowhere is a `missing` node or an undeclared local.
-/

namespace GuardedMatch

inductive Visit
  | pattern (pattern : Pattern)
  | expr (expr : Expr)
  | binding (id : LocalId)

mutual

def Pattern.visits : Pattern → List Visit
  | .type id ty binds span =>
    .pattern (.type id ty binds span) :: (binds.toList.map .binding)
  | .record id ty components span =>
    .pattern (.record id ty components span) :: Pattern.visitsAll components
  | .guarded id patterns condition span =>
    .pattern (.guarded id patterns condition span) ::
      (Pattern.visitsAll patterns ++ condition.visits)
  | .any id span => [.pattern (.any id span)]
  | .missing id => [.pattern (.missing id)]

def Pattern.visitsAll : List Pattern → List Visit
  | [] => []
  | pattern :: patterns => pattern.visits ++ Pattern.visitsAll patterns

def Expr.visits : Expr → List Visit
  | .bool id value span => [.expr (.bool id value span)]
  | .int id value span => [.expr (.int id value span)]
  | .ident id name span => [.expr (.ident id name span)]
  | .field id receiver name span => .expr (.field id receiver name span) :: receiver.visits
  | .binary id op left right span =>
    .expr (.binary id op left right span) :: (left.visits ++ right.visits)
  | .unary id op operand span => .expr (.unary id op operand span) :: operand.visits
  | .instanceOf id tested pattern span =>
    .expr (.instanceOf id tested pattern span) :: (tested.visits ++ pattern.visits)
  | .call id callee args result span =>
    .expr (.call id callee args result span) :: Expr.visitsAll args
  | .missing id => [.expr (.missing id)]

def Expr.visitsAll : List Expr → List Visit
  | [] => []
  | expr :: exprs => expr.visits ++ Expr.visitsAll exprs

end

/-! What is below a part of a node is below the node. -/

theorem Visit.left_subset {root : Visit} {left right : List Visit} :
    left ⊆ root :: (left ++ right) :=
  List.subset_cons_of_subset _ (List.subset_append_left ..)

theorem Visit.right_subset {root : Visit} {left right : List Visit} :
    right ⊆ root :: (left ++ right) :=
  List.subset_cons_of_subset _ (List.subset_append_right ..)

theorem Pattern.visitsAll_eq (patterns : List Pattern) :
    Pattern.visitsAll patterns = patterns.flatMap Pattern.visits := by
  induction patterns with
  | nil => rfl
  | cons pattern patterns ih => rw [Pattern.visitsAll, ih, List.flatMap_cons]

theorem Expr.visitsAll_eq (exprs : List Expr) :
    Expr.visitsAll exprs = exprs.flatMap Expr.visits := by
  induction exprs with
  | nil => rfl
  | cons expr exprs ih => rw [Expr.visitsAll, ih, List.flatMap_cons]

theorem Pattern.self_mem_visits (pattern : Pattern) : .pattern pattern ∈ pattern.visits := by
  cases pattern <;> exact List.mem_cons_self

theorem Expr.self_mem_visits (expr : Expr) : .expr expr ∈ expr.visits := by
  cases expr <;> exact List.mem_cons_self

namespace Visit

def binding? : Visit → Option LocalId
  | binding id => some id
  | _ => none

def expr? : Visit → Option Expr
  | expr e => some e
  | _ => none

def pattern? : Visit → Option Pattern
  | pattern p => some p
  | _ => none

/-- The visits from a visit on. -/
def below : Visit → List Visit
  | pattern p => p.visits
  | expr e => e.visits
  | binding id => [binding id]

/-- With a visit everything below it is among the visits, in the same order. -/
def Closed (visits : List Visit) : Prop := ∀ ⦃visit⦄, visit ∈ visits → visit.below.Sublist visits

theorem Closed.nil : Closed [] := fun _ h => absurd h List.not_mem_nil

theorem Closed.cons {visit : Visit} {visits : List Visit} (hself : visit.below = visit :: visits)
    (h : Closed visits) : Closed (visit :: visits) := by
  intro other hother
  rcases List.mem_cons.mp hother with rfl | hother
  · exact hself ▸ List.Sublist.refl _
  · exact (h hother).cons _

theorem Closed.append {visits more : List Visit} (h : Closed visits) (hmore : Closed more) :
    Closed (visits ++ more) := by
  intro visit hvisit
  rcases List.mem_append.mp hvisit with hvisit | hvisit
  · exact List.sublist_append_of_sublist_left (h hvisit)
  · exact List.sublist_append_of_sublist_right (hmore hvisit)

end Visit

mutual

/-- What is below a visit of a pattern is below the pattern. -/
theorem Pattern.below_sublist : ∀ pattern : Pattern, Visit.Closed pattern.visits
  | .type _ _ none _ | .any .. | .missing _ => .cons rfl .nil
  | .type _ _ (some _) _ => .cons rfl (.cons rfl .nil)
  | .record _ _ components _ => .cons rfl (Pattern.below_sublist_all components)
  | .guarded _ patterns condition _ =>
    .cons rfl ((Pattern.below_sublist_all patterns).append condition.below_sublist)

theorem Pattern.below_sublist_all : ∀ patterns : List Pattern,
    Visit.Closed (Pattern.visitsAll patterns)
  | [] => .nil
  | pattern :: patterns => pattern.below_sublist.append (Pattern.below_sublist_all patterns)

/-- What is below a visit of an expression is below the expression. -/
theorem Expr.below_sublist : ∀ expr : Expr, Visit.Closed expr.visits
  | .bool .. | .int .. | .ident .. | .missing _ => .cons rfl .nil
  | .field _ operand _ _ | .unary _ _ operand _ => .cons rfl operand.below_sublist
  | .binary _ _ left right _ => .cons rfl (left.below_sublist.append right.below_sublist)
  | .instanceOf _ tested pattern _ => .cons rfl (tested.below_sublist.append pattern.below_sublist)
  | .call _ _ args _ _ => .cons rfl (Expr.below_sublist_all args)

theorem Expr.below_sublist_all : ∀ exprs : List Expr, Visit.Closed (Expr.visitsAll exprs)
  | [] => .nil
  | expr :: exprs => expr.below_sublist.append (Expr.below_sublist_all exprs)

end

/-- The locals bound anywhere in a pattern, in source order. -/
def Pattern.allLocals (pattern : Pattern) : List LocalId := pattern.visits.filterMap Visit.binding?

/-- The locals bound anywhere in an expression, in source order. -/
def Expr.allLocals (expr : Expr) : List LocalId := expr.visits.filterMap Visit.binding?

theorem Visit.binding?_eq_some {visit : Visit} {id : LocalId} :
    visit.binding? = some id ↔ visit = .binding id := by
  cases visit <;> simp [Visit.binding?]

theorem Pattern.mem_allLocals (pattern : Pattern) {id : LocalId} :
    id ∈ pattern.allLocals ↔ .binding id ∈ pattern.visits := by
  simp [Pattern.allLocals, List.mem_filterMap, Visit.binding?_eq_some]

theorem Expr.mem_allLocals (expr : Expr) {id : LocalId} :
    id ∈ expr.allLocals ↔ .binding id ∈ expr.visits := by
  simp [Expr.allLocals, List.mem_filterMap, Visit.binding?_eq_some]

mutual

/-- The first reference in a pattern that leads nowhere, when `count` locals are declared. -/
def Pattern.fault? (count : Nat) : Pattern → Option Fault
  | .type _ _ (some id) _ => if id < count then none else some (.unknownLocal id)
  | .type _ _ none _ | .any .. => none
  | .record _ _ components _ => Pattern.faultAmong? count components
  | .guarded _ patterns condition _ =>
    Pattern.faultAmong? count patterns <|> condition.fault? count
  | .missing id => some (.unknownPattern id)

def Pattern.faultAmong? (count : Nat) : List Pattern → Option Fault
  | [] => none
  | pattern :: patterns => pattern.fault? count <|> Pattern.faultAmong? count patterns

/-- The first reference in an expression that leads nowhere, when `count` locals are declared. -/
def Expr.fault? (count : Nat) : Expr → Option Fault
  | .bool .. | .int .. | .ident .. => none
  | .field _ receiver _ _ => receiver.fault? count
  | .binary _ _ left right _ => left.fault? count <|> right.fault? count
  | .unary _ _ operand _ => operand.fault? count
  | .instanceOf _ tested pattern _ => tested.fault? count <|> pattern.fault? count
  | .call _ _ args _ _ => Expr.faultAmong? count args
  | .missing id => some (.unknownExpr id)

def Expr.faultAmong? (count : Nat) : List Expr → Option Fault
  | [] => none
  | expr :: exprs => expr.fault? count <|> Expr.faultAmong? count exprs

end

end GuardedMatch
