import GuardedMatch.Syntax.Tree

/-!
# Bindings

The locals that a pattern binds when it matches, and those that a condition binds when it comes
out true or false.  They depend on the syntax alone.  A binding list keeps the order in which
locals first come and has no duplicates.

`a && b` is true only when both are, so its true bindings are those of both; `a || b` likewise
when it is false; `!a` swaps the two.  No other operator passes bindings on.
-/

namespace GuardedMatch

/-- Locals in the order in which they first came. -/
abbrev Bindings := List LocalId

namespace Bindings

/-- Add a local at the end unless it is there already. -/
def push (bindings : Bindings) (binding : LocalId) : Bindings :=
  if binding ∈ bindings then bindings else bindings ++ [binding]

/-- Add the locals of another list, in order. -/
def merge (bindings : Bindings) (others : List LocalId) : Bindings := others.foldl push bindings

/-- The first occurrences in a list. -/
def ofList (locals : List LocalId) : Bindings := merge [] locals

@[simp]
theorem mem_push {bindings : Bindings} {binding id : LocalId} :
    id ∈ bindings.push binding ↔ id ∈ bindings ∨ id = binding := by
  rw [push]
  split
  next h =>
    refine ⟨Or.inl, fun hid => ?_⟩
    rcases hid with hid | rfl
    · exact hid
    · exact h
  next => rw [List.mem_append, List.mem_singleton]

@[simp]
theorem mem_merge {bindings : Bindings} {others : List LocalId} {id : LocalId} :
    id ∈ bindings.merge others ↔ id ∈ bindings ∨ id ∈ others := by
  rw [merge]
  induction others generalizing bindings with
  | nil => simp
  | cons other others ih => rw [List.foldl_cons, ih, mem_push, List.mem_cons, or_assoc]

end Bindings

mutual

/-- The locals bound when the pattern matches. -/
def Pattern.bindings : Pattern → Bindings
  | .type _ _ (some binding) _ => [binding]
  | .type _ _ none _ => []
  | .record _ _ components _ => Pattern.bindingsAll components
  | .guarded _ patterns condition _ =>
    Bindings.merge (Pattern.bindingsAll patterns) (condition.bindings true)
  | .any _ _ => []
  | .missing _ => []

/-- The locals bound when all patterns match, left to right. -/
def Pattern.bindingsAll : List Pattern → Bindings
  | [] => []
  | pattern :: patterns => Bindings.merge pattern.bindings (Pattern.bindingsAll patterns)

/-- The locals bound when the condition comes out as `outcome`. -/
def Expr.bindings : Expr → (outcome : Bool) → Bindings
  | .instanceOf _ _ pattern _, true => pattern.bindings
  | .unary _ .not operand _, outcome => operand.bindings (!outcome)
  | .binary _ .and left right _, true => Bindings.merge (left.bindings true) (right.bindings true)
  | .binary _ .or left right _, false =>
    Bindings.merge (left.bindings false) (right.bindings false)
  | _, _ => []

end

end GuardedMatch
