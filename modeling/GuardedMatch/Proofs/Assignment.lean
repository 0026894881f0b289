import GuardedMatch.Flow.Analysis
import GuardedMatch.Proofs.Scoping

/-!
# Assignment of visible locals

Scopes and flows grow in step.  A flow that has assigned the locals visible to a tree comes out of
the tree with them and with the locals that the tree binds, those of a condition on the side of
the outcome that binds them.

* `Resolution.Sees`: identifiers mean locals that are visible to them.
* `Flow.Carries`: what is assigned before, or bound on the way, is assigned after.
-/

namespace GuardedMatch

/-- What an identifier means is visible to it. -/
def Resolution.Sees (table : Resolution) (reads : List Read) : Prop :=
  ∀ read ∈ reads, ∀ target, table.identLocals[read.id]? = some target → target ∈ read.visible

theorem Resolution.sees_append {table : Resolution} {reads reads' : List Read} :
    table.Sees (reads ++ reads') ↔ table.Sees reads ∧ table.Sees reads' := List.forall_mem_append

/-- An analysis goes no further than a reference that leads nowhere or a guard on nothing. -/
def Visit.Blocks : Visit → Prop
  | pattern (.missing _) | expr (.missing _) | pattern (.guarded _ [] _ _) => True
  | _ => False

/-! ## Flows -/

namespace Flow

/-- What is assigned stays assigned, and what is bound for an outcome is assigned for it. -/
def Carries (flow : Flow) (bindings : Bool → Bindings) (after : Flow) : Prop :=
  ∀ outcome id, flow.isAssigned id = true ∨ id ∈ bindings outcome →
    (after.half outcome).isAssigned id = true

variable {flow mid after : Flow} {bindings : Bool → Bindings} {id : LocalId}

theorem Carries.isAssigned (h : flow.Carries bindings after) (hid : flow.isAssigned id = true) :
    after.isAssigned id = true := isAssigned_iff.mpr fun outcome => h outcome id (.inl hid)

/-- What is bound for both outcomes is assigned. -/
theorem Carries.isAssigned_of_mem {bound : Bindings} (h : flow.Carries (fun _ => bound) after)
    (hid : id ∈ bound) : after.isAssigned id = true :=
  isAssigned_iff.mpr fun outcome => h outcome id (.inr hid)

theorem carries_of_isAssigned {bound : Bindings}
    (h : ∀ id, flow.isAssigned id = true ∨ id ∈ bound → after.isAssigned id = true) :
    flow.Carries (fun _ => bound) after :=
  fun outcome id hid => isAssigned_iff.mp (h id hid) outcome

theorem Carries.drop (h : flow.Carries bindings after) : flow.Carries (fun _ => []) after :=
  fun outcome id hid => h outcome id (.inl (hid.resolve_right (List.not_mem_nil)))

theorem Carries.refl (flow : Flow) : flow.Carries (fun _ => []) flow :=
  carries_of_isAssigned fun _ hid => hid.resolve_right List.not_mem_nil

theorem Carries.trans {first rest : Bindings} (h : flow.Carries (fun _ => first) mid)
    (h' : mid.Carries (fun _ => rest) after) : flow.Carries (fun _ => first.merge rest) after := by
  refine carries_of_isAssigned fun id hid => ?_
  rw [Bindings.mem_merge] at hid
  rcases hid with hid | hid | hid
  · exact h'.isAssigned (h.isAssigned hid)
  · exact h'.isAssigned (h.isAssigned_of_mem hid)
  · exact h'.isAssigned_of_mem hid

/-- The second condition is tried only if the first one came out as `way`; both bind then. -/
theorem Carries.shortCircuit {one two : Flow} {left right bindings : Bool → Bindings}
    (hone : flow.Carries left one) (way : Bool) (htwo : (plain (one.half way)).Carries right two)
    (hway : after.half way = two.half way)
    (hother : after.half (!way) = (one.half !way).merge (two.half !way))
    (hboth : ∀ id ∈ bindings way, id ∈ left way ∨ id ∈ right way) (hnone : bindings (!way) = []) :
    flow.Carries bindings after := by
  intro outcome id hid
  have hkept : flow.isAssigned id = true → ∀ outcome, (two.half outcome).isAssigned id = true :=
    fun hassigned outcome => htwo outcome id (.inl (hone way id (.inl hassigned)))
  rcases Bool.eq_or_eq_not outcome way with rfl | rfl
  · rw [hway]
    rcases hid with hid | hid
    · exact hkept hid outcome
    · exact htwo outcome id ((hboth id hid).imp_left fun hleft => hone outcome id (.inr hleft))
  · have hassigned : flow.isAssigned id = true :=
      hid.resolve_right fun hmem => List.not_mem_nil (hnone ▸ hmem)
    rw [hother, FlowState.isAssigned_merge, hone _ id (.inl hassigned), hkept hassigned]
    rfl

end Flow

end GuardedMatch
