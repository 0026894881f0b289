import GuardedMatch.Proofs.Converting
import GuardedMatch.Proofs.Typing

/-!
# What is required of expressions

An expression requires a type of each of its operands, and a guard requires a truth value.  The
conversions of operands are noted after the operands have been resolved.  A guarded pattern may be
met several times, but its condition is resolved once.  So if no expression is part of two others,
what is noted about an expression stays.

* `Expr.own`: an expression and what it is made of, outside of patterns.
* `Visit.Tidy`: conditions have no expression in common.
* `Resolver.Sound`: the demands in the conditions of guarded patterns that are done with are
  fulfilled, and nothing is known of those that have not begun.
* `Resolver.Worked.finish`: an expression whose operands are resolved can be resolved.
* `Resolver.Worked.answered`: a condition that is resolved can be converted to a truth value.
-/

namespace GuardedMatch

/-! ## Operands -/

/-- The expressions of which an expression is made. -/
def Expr.operands : Expr → List Expr
  | .field _ receiver _ _ => [receiver]
  | .unary _ _ operand _ => [operand]
  | .binary _ _ left right _ => [left, right]
  | .instanceOf _ tested _ _ => [tested]
  | .call _ _ args _ _ => args
  | .bool .. | .int .. | .ident .. | .missing _ => []

mutual

/-- An expression and all that it is made of, outside of patterns. -/
def Expr.own : Expr → List Expr
  | .field id receiver name span => .field id receiver name span :: receiver.own
  | .unary id op operand span => .unary id op operand span :: operand.own
  | .binary id op left right span => .binary id op left right span :: (left.own ++ right.own)
  | .instanceOf id tested pattern span => .instanceOf id tested pattern span :: tested.own
  | .call id callee args written span => .call id callee args written span :: Expr.ownAll args
  | .bool id value span => [.bool id value span]
  | .int id value span => [.int id value span]
  | .ident id name span => [.ident id name span]
  | .missing id => [.missing id]

def Expr.ownAll : List Expr → List Expr
  | [] => []
  | expr :: exprs => expr.own ++ Expr.ownAll exprs

end

namespace Expr

def ownIds (expr : Expr) : List ExprId := expr.own.map Expr.id

theorem ownAll_eq (exprs : List Expr) : ownAll exprs = exprs.flatMap own := by
  induction exprs with
  | nil => rfl
  | cons expr exprs ih => rw [ownAll, ih, List.flatMap_cons]

theorem own_eq (expr : Expr) : expr.own = expr :: expr.operands.flatMap own := by
  cases expr with
  | field | unary | binary | instanceOf => simp [own, operands]
  | call id callee args written span => rw [own, ownAll_eq, operands]
  | bool | int | ident | missing => rfl

theorem ownIds_eq (expr : Expr) : expr.ownIds = expr.id :: expr.operands.flatMap ownIds := by
  rw [ownIds, own_eq, List.map_cons, List.map_flatMap]
  rfl

theorem self_mem_own (expr : Expr) : expr ∈ expr.own := by
  rw [own_eq]
  exact List.mem_cons_self

theorem sizeOf_operand {expr operand : Expr} (h : operand ∈ expr.operands) :
    sizeOf operand < sizeOf expr := by
  cases expr with
  | field | unary | instanceOf =>
    rw [List.mem_singleton.mp h]
    decreasing_tactic
  | binary id op left right span =>
    rw [binary.sizeOf_spec]
    rcases List.mem_pair.mp h with rfl | rfl <;> omega
  | call id callee args written span =>
    have hlt : sizeOf operand < sizeOf args := List.sizeOf_lt_of_mem h
    rw [call.sizeOf_spec]
    omega
  | bool | int | ident | missing => cases h

/-- Whatever an expression is made of is made of operands that are among it. -/
theorem operand_mem_own {expr : Expr} : ∀ {sub operand : Expr}, sub ∈ expr.own →
    operand ∈ sub.operands → operand ∈ expr.operands.flatMap own := by
  induction hsize : sizeOf expr using Nat.strong_induction_on generalizing expr with
  | _ size ih =>
    intro sub operand hsub hoperand
    rw [own_eq, List.mem_cons, List.mem_flatMap] at hsub
    rcases hsub with rfl | ⟨part, hpart, hsub⟩
    · exact List.mem_flatMap.mpr ⟨operand, hoperand, operand.self_mem_own⟩
    · refine List.mem_flatMap.mpr ⟨part, hpart, ?_⟩
      rw [own_eq]
      exact List.mem_cons_of_mem _ (ih _ (hsize ▸ sizeOf_operand hpart) rfl hsub hoperand)

theorem operand_id_mem {expr sub operand : Expr} (hsub : sub ∈ expr.own)
    (hoperand : operand ∈ sub.operands) : operand.id ∈ expr.operands.flatMap ownIds := by
  obtain ⟨part, hpart, hmem⟩ := List.mem_flatMap.mp (operand_mem_own hsub hoperand)
  exact List.mem_flatMap.mpr ⟨part, hpart, List.mem_map_of_mem hmem⟩

theorem operand_id_mem_ownIds {expr sub operand : Expr} (hsub : sub ∈ expr.own)
    (hoperand : operand ∈ sub.operands) : operand.id ∈ expr.ownIds := by
  rw [ownIds_eq]
  exact List.mem_cons_of_mem _ (operand_id_mem hsub hoperand)

theorem id_mem_ownIds (expr : Expr) : expr.id ∈ expr.ownIds := List.mem_map_of_mem expr.self_mem_own

theorem ids_sublist (exprs : List Expr) : (exprs.map Expr.id).Sublist (exprs.flatMap ownIds) := by
  induction exprs with
  | nil => exact .slnil
  | cons expr exprs ih =>
    rw [List.map_cons, List.flatMap_cons, ownIds_eq, List.cons_append]
    exact (ih.trans (List.sublist_append_right ..)).cons_cons _

/-- What an operand is made of is no operand, if no number occurs twice. -/
theorem notMem_ids {exprs : List Expr} (h : (exprs.flatMap ownIds).Nodup) :
    ∀ expr ∈ exprs, ∀ id ∈ expr.operands.flatMap ownIds, id ∉ exprs.map Expr.id := by
  induction exprs with
  | nil => exact nofun
  | cons first rest ih =>
    rw [List.flatMap_cons, ownIds_eq, List.cons_append, List.nodup_cons, List.nodup_append] at h
    obtain ⟨hfirst, -, hrest, hapart⟩ := h
    intro expr hexpr id hid
    rw [List.map_cons, List.mem_cons, not_or]
    rcases List.mem_cons.mp hexpr with rfl | hexpr
    · refine ⟨fun heq => hfirst (heq ▸ List.mem_append_left _ hid), fun hmem => ?_⟩
      exact hapart id hid id ((ids_sublist rest).subset hmem) rfl
    · refine ⟨fun heq => hfirst (List.mem_append_right _ ?_), ih hrest expr hexpr id hid⟩
      refine List.mem_flatMap.mpr ⟨expr, hexpr, ?_⟩
      rw [ownIds_eq, ← heq]
      exact List.mem_cons_of_mem _ hid

end Expr

/-! ## Demands -/

/-- The type that an expression requires of an operand. -/
def Expr.required? (typeOf : ExprId → Ty) (operand : ExprId) : Expr → Option Ty
  | .unary _ op _ _ => op.required? (typeOf operand)
  | .binary _ op left right _ =>
    op.required? (typeOf left.id) (typeOf right.id) (typeOf operand)
  | _ => some (typeOf operand)

/-- What an expression demands of its operands. -/
def Expr.demands (typeOf : ExprId → Ty) (expr : Expr) : List Demand :=
  expr.operands.map fun operand =>
    ⟨operand.id, typeOf operand.id, expr.required? typeOf operand.id⟩

/-- Whether an expression is an operator applied to operands. -/
def Expr.isOperation : Expr → Bool
  | .unary .. | .binary .. => true
  | _ => false

/-- Only operators require other types than those that there are. -/
theorem Expr.required_eq_source {expr : Expr} (h : expr.isOperation = false)
    (typeOf : ExprId → Ty) :
    ∀ demand ∈ expr.demands typeOf, demand.required = some demand.source := by
  intro demand hdemand
  obtain ⟨operand, -, rfl⟩ := List.mem_map.mp hdemand
  cases expr with
  | unary | binary => cases h
  | field | instanceOf | call | bool | int | ident | missing => rfl

/-- What a guard demands of its condition. -/
def Expr.guardDemand (typeOf : ExprId → Ty) (condition : Expr) : Demand :=
  ⟨condition.id, typeOf condition.id, some Ty.boolean⟩

theorem Expr.demands_congr {typeOf typeOf' : ExprId → Ty} {expr : Expr}
    (h : ∀ operand ∈ expr.operands, typeOf operand.id = typeOf' operand.id) :
    expr.demands typeOf = expr.demands typeOf' := by
  refine List.map_congr_left fun operand hoperand => ?_
  have hrequired : expr.required? typeOf operand.id = expr.required? typeOf' operand.id := by
    cases expr with
    | unary => rw [required?, required?, h operand hoperand]
    | binary id op left right span =>
      rw [required?, required?, h left (by simp [operands]), h right (by simp [operands]),
        h operand hoperand]
    | field | instanceOf | call | bool | int | ident | missing =>
      exact congrArg some (h operand hoperand)
  rw [h operand hoperand, hrequired]

namespace Resolution

variable {table mid after : Resolution}

/-- The type of an expression, or an error if it has none. -/
def exprType (table : Resolution) (id : ExprId) : Ty := table.exprTypes[id]?.getD Ty.error

theorem getElem?_of_typed {id : ExprId} (h : id ∈ table.exprTypes) :
    table.exprTypes[id]? = some (table.exprType id) := by
  obtain ⟨ty, hty⟩ := Option.isSome_iff_exists.mp (Std.ExtTreeMap.mem_iff_isSome_getElem?.mp h)
  rw [exprType, hty, Option.getD_some]

/-- The operands have the types that the demands speak of, and the demands are met. -/
def Fulfils (table : Resolution) (demands : List Demand) : Prop :=
  ∀ demand ∈ demands, table.exprTypes[demand.operand]? = some demand.source ∧ table.Met demand

/-- What a condition demands and what is demanded of it is fulfilled. -/
structure Settles (table : Resolution) (condition : Expr) : Prop where
  inside : ∀ sub ∈ condition.own, table.Fulfils (sub.demands table.exprType)
  truth : table.Fulfils [condition.guardDemand table.exprType]

/-- An expression has the type and the conversion that it had. -/
structure SameAt (table after : Resolution) (id : ExprId) : Prop where
  type : after.exprTypes[id]? = table.exprTypes[id]?
  conversion : after.conversions[id]? = table.conversions[id]?

theorem SameAt.trans {id : ExprId} (h : SameAt table mid id) (h' : SameAt mid after id) :
    SameAt table after id := ⟨h'.type.trans h.type, h'.conversion.trans h.conversion⟩

theorem SameAt.exprType {id : ExprId} (h : SameAt table after id) :
    after.exprType id = table.exprType id := congrArg (·.getD Ty.error) h.type

theorem SameAt.fulfils {demands : List Demand} (h : table.Fulfils demands)
    (hsame : ∀ demand ∈ demands, SameAt table after demand.operand) : after.Fulfils demands := by
  intro demand hdemand
  obtain ⟨htype, ty, hrequired, happlied⟩ := h demand hdemand
  have hat := hsame demand hdemand
  exact ⟨hat.type.trans htype, ty, hrequired, by rw [hat.conversion, happlied]⟩

/-- What an expression demands does not change if its operands do not. -/
theorem SameAt.demands {expr : Expr} (h : table.Fulfils (expr.demands table.exprType))
    (hsame : ∀ operand ∈ expr.operands, SameAt table after operand.id) :
    after.Fulfils (expr.demands after.exprType) := by
  rw [Expr.demands_congr fun operand hoperand => (hsame operand hoperand).exprType]
  refine SameAt.fulfils h fun demand hdemand => ?_
  obtain ⟨operand, hoperand, rfl⟩ := List.mem_map.mp hdemand
  exact hsame operand hoperand

theorem Settles.same {condition : Expr} (h : table.Settles condition)
    (hsame : ∀ id ∈ condition.ownIds, SameAt table after id) : after.Settles condition := by
  have hself := hsame condition.id (List.mem_map_of_mem condition.self_mem_own)
  refine ⟨fun sub hsub => SameAt.demands (h.inside sub hsub) fun operand hoperand =>
    hsame _ (Expr.operand_id_mem_ownIds hsub hoperand), ?_⟩
  · rw [Expr.guardDemand, hself.exprType]
    refine SameAt.fulfils h.truth fun demand hdemand => ?_
    rw [List.mem_singleton.mp hdemand]
    exact hself

end Resolution

/-! ## Conditions -/

/-- What is met is told apart by numbers, and no expression is part of two conditions. -/
structure Visit.Tidy (all : List Visit) : Prop where
  same : ∀ pattern other, .pattern pattern ∈ all → .pattern other ∈ all → pattern.id = other.id →
    pattern = other
  nodup : ∀ guard patterns condition span, .pattern (.guarded guard patterns condition span) ∈ all →
    condition.ownIds.Nodup
  apart : ∀ guard patterns condition span, .pattern (.guarded guard patterns condition span) ∈ all →
    ∀ guard' patterns' condition' span',
      .pattern (.guarded guard' patterns' condition' span') ∈ all →
    ∀ id ∈ condition.ownIds, id ∈ condition'.ownIds → guard = guard'

/-- Expressions are in no condition but in those of some guarded patterns. -/
def Visit.Outside (all : List Visit) (guards : List PatternId) (ids : List ExprId) : Prop :=
  ∀ guard patterns condition span, .pattern (.guarded guard patterns condition span) ∈ all →
    guard ∉ guards → ∀ id ∈ ids, id ∉ condition.ownIds

theorem Visit.outside_nil (all : List Visit) (guards : List PatternId) : Outside all guards [] :=
  fun _ _ _ _ _ _ _ hid => absurd hid List.not_mem_nil

/-- An expression is in the condition of a guarded pattern that has no type yet. -/
def Resolution.Awaits (all : List Visit) (table : Resolution) (id : ExprId) : Prop :=
  ∃ guard patterns condition span, .pattern (.guarded guard patterns condition span) ∈ all ∧
    guard ∉ table.patternTypes ∧ id ∈ condition.ownIds

/-- Nothing is known of some expressions. -/
def Resolution.Untouched (table : Resolution) (ids : List ExprId) : Prop :=
  ∀ id ∈ ids, table.exprTypes[id]? = none ∧ table.conversions[id]? = none

namespace Resolver

/-- There is nothing to report, and no expression has an error for a type. -/
structure Clean (pool : Pool) (state : Resolver) : Prop where
  silent : state.queue.IsSilent
  types : ∀ (id : ExprId) ty, state.table.exprTypes[id]? = some ty → pool.isError ty = false

/-- A resolution changes what is known of the given expressions and of those in conditions that have
not begun. -/
structure Within (all : List Visit) (ids : List ExprId) (state after : Resolver) : Prop where
  others : ∀ id, id ∉ ids → ¬ state.table.Awaits all id → state.table.SameAt after.table id
  patterns : ∀ id, id ∈ state.table.patternTypes → id ∈ after.table.patternTypes
  silent : after.queue.IsSilent → state.queue.IsSilent

/-- The state of a resolution in which the conditions of the given guarded patterns have begun and
are not done with. -/
structure Sound (pool : Pool) (all : List Visit) (guards : List PatternId) (state : Resolver) :
    Prop where
  begun : ∀ guard ∈ guards, guard ∈ state.table.patternTypes
  fresh : ∀ guard patterns condition span, .pattern (.guarded guard patterns condition span) ∈ all →
    guard ∉ state.table.patternTypes → state.table.Untouched condition.ownIds
  settled : ∀ guard patterns condition span,
    .pattern (.guarded guard patterns condition span) ∈ all → guard ∈ state.table.patternTypes →
    guard ∉ guards → state.Clean pool → state.table.Settles condition

variable {pool : Pool} {all : List Visit} {guards : List PatternId} {ids ids' : List ExprId}
  {state mid after : Resolver}

/-- What is in a condition that has begun does not await it. -/
theorem Sound.not_awaits (h : Sound pool all guards state) (hout : Visit.Outside all guards ids)
    {id : ExprId} (hid : id ∈ ids) : ¬ state.table.Awaits all id := by
  rintro ⟨guard, patterns, condition, span, hvisit, hnone, hmem⟩
  by_cases hguard : guard ∈ guards
  · exact hnone (h.begun guard hguard)
  · exact hout guard patterns condition span hvisit hguard id hid hmem

/-- Nothing is known of what awaits its condition. -/
theorem Sound.untouched (h : Sound pool all guards state) {id : ExprId}
    (hid : state.table.Awaits all id) :
    state.table.exprTypes[id]? = none ∧ state.table.conversions[id]? = none := by
  obtain ⟨guard, patterns, condition, span, hvisit, hnone, hmem⟩ := hid
  exact h.fresh guard patterns condition span hvisit hnone id hmem

namespace Within

theorem refl (ids : List ExprId) (state : Resolver) : Within all ids state state :=
  ⟨fun _ _ _ => ⟨rfl, rfl⟩, fun _ h => h, fun h => h⟩

theorem trans (h : Within all ids state mid) (h' : Within all ids' mid after) :
    Within all (ids ++ ids') state after := by
  refine ⟨fun id hid hnot => ?_, fun id hid => h'.patterns id (h.patterns id hid),
    fun hafter => h.silent (h'.silent hafter)⟩
  rw [List.mem_append, not_or] at hid
  refine (h.others id hid.1 hnot).trans (h'.others id hid.2 ?_)
  rintro ⟨guard, patterns, condition, span, hvisit, hnone, hmem⟩
  exact hnot ⟨guard, patterns, condition, span, hvisit, fun htyped =>
    hnone (h.patterns guard htyped), hmem⟩

theorem mono (h : Within all ids state after) (hsub : ids ⊆ ids') : Within all ids' state after :=
  ⟨fun id hid => h.others id fun hmem => hid (hsub hmem), h.patterns, h.silent⟩

/-- Types that are known stay, so if there is nothing wrong in the end there never was. -/
theorem clean (h : Within all ids state after) (hsound : Sound pool all guards state)
    (hids : state.table.Untouched ids) (hclean : after.Clean pool) : state.Clean pool := by
  refine ⟨h.silent hclean.silent, fun id ty hty => hclean.types id ty ?_⟩
  have hnot : id ∉ ids := by
    intro hid
    rw [(hids id hid).1] at hty
    cases hty
  have hdone : ¬ state.table.Awaits all id := by
    intro hawaits
    rw [(hsound.untouched hawaits).1] at hty
    cases hty
  rw [(h.others id hnot hdone).type, hty]

end Within

/-- A change to expressions in conditions that have begun, which takes no type away. -/
theorem Sound.change (h : Sound pool all guards state) (hout : Visit.Outside all guards ids)
    (hpatterns : after.table.patternTypes = state.table.patternTypes)
    (hsame : ∀ id ∉ ids, state.table.SameAt after.table id)
    (htypes : ∀ (id : ExprId) ty, state.table.exprTypes[id]? = some ty →
      after.table.exprTypes[id]? = some ty)
    (hoffered : after.queue.IsSilent → state.queue.IsSilent) : Sound pool all guards after := by
  have hbefore : after.Clean pool → state.Clean pool := fun hclean =>
    ⟨hoffered hclean.silent, fun id ty hty => hclean.types id ty (htypes id ty hty)⟩
  refine ⟨fun guard hguard => hpatterns ▸ h.begun guard hguard,
    fun guard patterns condition span hvisit hnone id hid => ?_,
    fun guard patterns condition span hvisit htyped hguard hclean => ?_⟩
  · rw [hpatterns] at hnone
    have hnot : id ∉ ids := fun hmem => h.not_awaits hout hmem
      ⟨guard, patterns, condition, span, hvisit, hnone, hid⟩
    obtain ⟨htype, hconversion⟩ := h.fresh guard patterns condition span hvisit hnone id hid
    exact ⟨(hsame id hnot).type.trans htype, (hsame id hnot).conversion.trans hconversion⟩
  · rw [hpatterns] at htyped
    refine (h.settled guard patterns condition span hvisit htyped hguard (hbefore hclean)).same ?_
    exact fun id hid => hsame id fun hmem =>
      hout guard patterns condition span hvisit hguard id hmem hid

/-- What can be resolved: expressions of which nothing is known, each once. -/
structure Ready (pool : Pool) (all : List Visit) (guards : List PatternId) (ids : List ExprId)
    (state : Resolver) : Prop where
  sound : Sound pool all guards state
  outside : Visit.Outside all guards ids
  nodup : ids.Nodup
  untouched : state.table.Untouched ids

namespace Ready

theorem left (h : Ready pool all guards (ids ++ ids') state) : Ready pool all guards ids state :=
  ⟨h.sound, fun guard patterns condition span hvisit hguard id hid =>
    h.outside guard patterns condition span hvisit hguard id (List.mem_append_left _ hid),
    (List.nodup_append.mp h.nodup).1, fun id hid => h.untouched id (List.mem_append_left _ hid)⟩

theorem right (h : Ready pool all guards (ids ++ ids') state) (hmid : Sound pool all guards mid)
    (hwithin : Within all ids state mid) : Ready pool all guards ids' mid := by
  have hout : Visit.Outside all guards ids' :=
    fun guard patterns condition span hvisit hguard id hid =>
      h.outside guard patterns condition span hvisit hguard id (List.mem_append_right _ hid)
  refine ⟨hmid, hout, (List.nodup_append.mp h.nodup).2.1, fun id hid => ?_⟩
  have hnot : id ∉ ids := fun hmem => (List.nodup_append.mp h.nodup).2.2 id hmem id hid rfl
  have hsame := hwithin.others id hnot (h.sound.not_awaits hout hid)
  obtain ⟨htype, hconversion⟩ := h.untouched id (List.mem_append_right _ hid)
  exact ⟨hsame.type.trans htype, hsame.conversion.trans hconversion⟩

end Ready

/-- An expression gets a type, and at most conversions of its operands are noted. -/
structure Gets (expr : Expr) (ty : Ty) (state after : Resolver) : Prop where
  type : after.table.exprTypes[expr.id]? = some ty
  types : ∀ id ≠ expr.id, after.table.exprTypes[id]? = state.table.exprTypes[id]?
  conversions : ∀ id ∉ expr.operands.map Expr.id,
    after.table.conversions[id]? = state.table.conversions[id]?
  patterns : after.table.patternTypes = state.table.patternTypes
  silent : after.queue.IsSilent → state.queue.IsSilent

theorem Notes.setExprType {expr : Expr} {ty : Ty}
    (h : Notes (expr.operands.map Expr.id) state after) :
    Gets expr ty state { after with table := after.table.setExprType expr.id ty } := by
  refine ⟨Std.ExtTreeMap.getElem?_insert_self, fun id hne => ?_, h.conversions, h.patterns,
    h.silent⟩
  refine Std.ExtTreeMap.getElem?_insert.trans ?_
  rw [if_neg fun heq => hne (Nat.compare_eq_eq.mp heq).symm, h.exprs]

namespace Gets

variable {expr : Expr} {ty : Ty}

theorem sameAt (h : Gets expr ty state after) {id : ExprId} (hne : id ≠ expr.id)
    (hid : id ∉ expr.operands.map Expr.id) : state.table.SameAt after.table id :=
  ⟨h.types id hne, h.conversions id hid⟩

theorem others (h : Gets expr ty state after) {id : ExprId} (hid : id ∉ expr.ownIds) :
    state.table.SameAt after.table id := by
  rw [Expr.ownIds_eq, List.mem_cons, not_or] at hid
  exact h.sameAt hid.1 fun hmem => hid.2 ((Expr.ids_sublist _).subset hmem)

theorem kept (h : Gets expr ty state after) (hnone : state.table.exprTypes[expr.id]? = none)
    {id : ExprId} {known : Ty} (hknown : state.table.exprTypes[id]? = some known) :
    after.table.exprTypes[id]? = some known := by
  rw [h.types id, hknown]
  rintro rfl
  rw [hnone] at hknown
  cases hknown

theorem clean (h : Gets expr ty state after) (hnone : state.table.exprTypes[expr.id]? = none)
    (hclean : after.Clean pool) : state.Clean pool :=
  ⟨h.silent hclean.silent, fun id known hknown => hclean.types id known (h.kept hnone hknown)⟩

/-- The demands of the expression are fulfilled if they are met. -/
theorem fulfils (h : Gets expr ty state after)
    (hself : expr.id ∉ expr.operands.flatMap Expr.ownIds) (hclean : state.Clean pool)
    (htyped : ∀ operand ∈ expr.operands, operand.id ∈ state.table.exprTypes)
    (hmet : (∀ demand ∈ expr.demands state.table.exprType, pool.isError demand.source = false) →
      ∀ demand ∈ expr.demands state.table.exprType, after.table.Met demand) :
    after.table.Fulfils (expr.demands after.table.exprType) := by
  have htypes : ∀ operand ∈ expr.operands,
      after.table.exprTypes[operand.id]? = state.table.exprTypes[operand.id]? := by
    refine fun operand hoperand => h.types operand.id fun heq => hself ?_
    rw [← heq]
    exact (Expr.ids_sublist _).subset (List.mem_map_of_mem hoperand)
  have hsource : ∀ demand ∈ expr.demands state.table.exprType,
      state.table.exprTypes[demand.operand]? = some demand.source ∧
        after.table.exprTypes[demand.operand]? = some demand.source := by
    intro demand hdemand
    obtain ⟨operand, hoperand, rfl⟩ := List.mem_map.mp hdemand
    have htype := Resolution.getElem?_of_typed (htyped operand hoperand)
    exact ⟨htype, (htypes operand hoperand).trans htype⟩
  have hsame : ∀ operand ∈ expr.operands,
      after.table.exprType operand.id = state.table.exprType operand.id :=
    fun operand hoperand => congrArg (·.getD Ty.error) (htypes operand hoperand)
  rw [Expr.demands_congr hsame]
  exact fun demand hdemand => ⟨(hsource demand hdemand).2,
    hmet (fun other hother => hclean.types _ _ (hsource other hother).1) demand hdemand⟩

end Gets

/-- Some expressions were resolved, and nothing was noted for them yet but their types. -/
structure Worked (pool : Pool) (all : List Visit) (guards : List PatternId) (ids : List ExprId)
    (exprs : List Expr) (state after : Resolver) : Prop where
  sound : Sound pool all guards after
  within : Within all ids state after
  typed : ∀ expr ∈ exprs, expr.id ∈ after.table.exprTypes
  plain : ∀ expr ∈ exprs, after.table.conversions[expr.id]? = none
  fulfils : after.Clean pool → ∀ expr ∈ exprs, ∀ sub ∈ expr.own,
    after.table.Fulfils (sub.demands after.table.exprType)

namespace Worked

theorem nothing (h : Sound pool all guards state) : Worked pool all guards [] [] state state :=
  ⟨h, .refl _ _, nofun, nofun, fun _ => nofun⟩

theorem append {exprs exprs' : List Expr} (hready : Ready pool all guards (ids ++ ids') state)
    (hids : ∀ expr ∈ exprs, expr.ownIds ⊆ ids) (h : Worked pool all guards ids exprs state mid)
    (h' : Worked pool all guards ids' exprs' mid after) :
    Worked pool all guards (ids ++ ids') (exprs ++ exprs') state after := by
  have hright := hready.right h.sound h.within
  have hsame : ∀ id ∈ ids, mid.table.SameAt after.table id := fun id hid =>
    h'.within.others id (fun hmem => (List.nodup_append.mp hready.nodup).2.2 id hid id hmem rfl)
      (h.sound.not_awaits hready.left.outside hid)
  have hself : ∀ expr ∈ exprs, mid.table.SameAt after.table expr.id := fun expr hexpr =>
    hsame _ (hids expr hexpr (List.mem_map_of_mem expr.self_mem_own))
  refine ⟨h'.sound, h.within.trans h'.within, fun expr hexpr => ?_, fun expr hexpr => ?_,
    fun hclean expr hexpr sub hsub => ?_⟩
  · rcases List.mem_append.mp hexpr with hexpr | hexpr
    · rw [Std.ExtTreeMap.mem_iff_isSome_getElem?, (hself expr hexpr).type,
        ← Std.ExtTreeMap.mem_iff_isSome_getElem?]
      exact h.typed expr hexpr
    · exact h'.typed expr hexpr
  · rcases List.mem_append.mp hexpr with hexpr | hexpr
    · exact (hself expr hexpr).conversion.trans (h.plain expr hexpr)
    · exact h'.plain expr hexpr
  · rcases List.mem_append.mp hexpr with hexpr | hexpr
    · have hmid := h'.within.clean h.sound hright.untouched hclean
      exact Resolution.SameAt.demands (h.fulfils hmid expr hexpr sub hsub) fun operand hoperand =>
        hsame _ (hids expr hexpr (Expr.operand_id_mem_ownIds hsub hoperand))
    · exact h'.fulfils hclean expr hexpr sub hsub

theorem gets {expr : Expr} {ty : Ty} (hready : Ready pool all guards expr.ownIds state)
    (h : Worked pool all guards (expr.operands.flatMap Expr.ownIds) expr.operands state mid)
    (hgets : Gets expr ty mid after)
    (hmet : after.queue.IsSilent → (∀ demand ∈ expr.demands mid.table.exprType,
      pool.isError demand.source = false) →
      ∀ demand ∈ expr.demands mid.table.exprType, after.table.Met demand) :
    Worked pool all guards expr.ownIds [expr] state after := by
  have hnodup := hready.nodup
  rw [Expr.ownIds_eq, List.nodup_cons] at hnodup
  -- Nothing was known of the expression itself.
  have hself := h.within.others expr.id hnodup.1
    (hready.sound.not_awaits hready.outside expr.id_mem_ownIds)
  obtain ⟨hnoType, hnoConversion⟩ := hready.untouched expr.id expr.id_mem_ownIds
  have hnone : mid.table.exprTypes[expr.id]? = none := hself.type.trans hnoType
  refine ⟨h.sound.change hready.outside hgets.patterns (fun _ => hgets.others)
    (fun _ _ => hgets.kept hnone) hgets.silent, ⟨fun id hid hnot => ?_, fun id hid => ?_,
      fun hafter => h.within.silent (hgets.silent hafter)⟩, ?_, ?_, ?_⟩
  · refine (h.within.others id (fun hmem => hid ?_) hnot).trans (hgets.others hid)
    rw [Expr.ownIds_eq]
    exact List.mem_cons_of_mem _ hmem
  · exact hgets.patterns ▸ h.within.patterns id hid
  · intro other hother
    rw [List.mem_singleton.mp hother, Std.ExtTreeMap.mem_iff_isSome_getElem?, hgets.type]
    rfl
  · intro other hother
    rw [List.mem_singleton.mp hother]
    refine (hgets.conversions expr.id fun hmem => ?_).trans (hself.conversion.trans hnoConversion)
    exact hnodup.1 ((Expr.ids_sublist _).subset hmem)
  · intro hclean other hother sub hsub
    rw [List.mem_singleton.mp hother, Expr.own_eq, List.mem_cons, List.mem_flatMap] at hsub
    have hmid := hgets.clean hnone hclean
    rcases hsub with rfl | ⟨operand, hoperand, hsub⟩
    · exact hgets.fulfils hnodup.1 hmid h.typed (hmet hclean.silent)
    · refine Resolution.SameAt.demands (h.fulfils hmid operand hoperand sub hsub)
        fun part hpart => ?_
      have hinner := Expr.operand_id_mem hsub hpart
      refine hgets.sameAt (fun heq => hnodup.1 ?_)
        (Expr.notMem_ids hnodup.2 operand hoperand _ hinner)
      refine List.mem_flatMap.mpr ⟨operand, hoperand, ?_⟩
      rw [← heq, Expr.ownIds_eq]
      exact List.mem_cons_of_mem _ hinner

/-- An expression is resolved once its operands are and the types that it demands are noted. -/
theorem finish {expr : Expr} (hready : Ready pool all guards expr.ownIds state)
    (h : Worked pool all guards (expr.operands.flatMap Expr.ownIds) expr.operands state mid)
    {find : ResolveM Ty} (hfind : Meets pool (expr.demands mid.table.exprType) find) :
    Ensures (do
      let ty ← find
      exprHas expr.id ty) mid (fun _ => True) fun ty after =>
      Worked pool all guards expr.ownIds [expr] state after ∧
        after.table.exprTypes[expr.id]? = some ty := by
  have hnodup := hready.nodup
  rw [Expr.ownIds_eq, List.nodup_cons] at hnodup
  have hids : (expr.demands mid.table.exprType).map (·.operand) = expr.operands.map Expr.id := by
    rw [Expr.demands, List.map_map]
    rfl
  refine (hfind.ensures mid ?_ ?_).seq ?_
  · intro demand hdemand
    obtain ⟨operand, hoperand, rfl⟩ := List.mem_map.mp hdemand
    exact h.plain operand hoperand
  · rw [hids]
    exact List.Nodup.sublist (Expr.ids_sublist _) hnodup.2
  · rintro ty noted ⟨hnotes, hmet⟩
    rw [hids] at hnotes
    exact Ensures.modify_bind (Ensures.pure
      ⟨h.gets hready hnotes.setExprType hmet, Std.ExtTreeMap.getElem?_insert_self⟩)

end Worked

/-! ## Notes on conditions -/

namespace Notes

variable {operands : List ExprId}

theorem sameAt (h : Notes operands state after) {id : ExprId} (hid : id ∉ operands) :
    state.table.SameAt after.table id := ⟨by rw [h.exprs], h.conversions id hid⟩

theorem within (h : Notes operands state after) : Within all operands state after :=
  ⟨fun _ hid _ => h.sameAt hid, fun _ hid => h.patterns ▸ hid, h.silent⟩

theorem clean (h : Notes operands state after) (hclean : after.Clean pool) : state.Clean pool :=
  ⟨h.silent hclean.silent, fun id ty hty => hclean.types id ty (h.exprs ▸ hty)⟩

theorem sound (h : Notes operands state after) (hsound : Sound pool all guards state)
    (hout : Visit.Outside all guards operands) : Sound pool all guards after :=
  hsound.change hout h.patterns (fun _ hid => h.sameAt hid) (fun _ _ hty => h.exprs ▸ hty) h.silent

end Notes

/-- A condition was resolved, and it was converted to a truth value. -/
structure Answered (pool : Pool) (all : List Visit) (guards : List PatternId) (condition : Expr)
    (state after : Resolver) : Prop where
  sound : Sound pool all guards after
  within : Within all condition.ownIds state after
  settles : after.Clean pool → after.table.Settles condition

theorem Answered.notes {condition : Expr} (h : Answered pool all guards condition state mid)
    (hnotes : Notes [] mid after) : Answered pool all guards condition state after := by
  refine ⟨hnotes.sound h.sound (Visit.outside_nil _ _), ?_, fun hclean => ?_⟩
  · exact (h.within.trans hnotes.within).mono (List.append_nil _ ▸ List.Subset.refl _)
  · exact (h.settles (hnotes.clean hclean)).same fun _ _ => hnotes.sameAt List.not_mem_nil

/-- A condition is converted to a truth value after it has been resolved. -/
theorem Worked.answered {condition : Expr} {ty : Ty}
    (hready : Ready pool all guards condition.ownIds state)
    (h : Worked pool all guards condition.ownIds [condition] state mid)
    (hty : mid.table.exprTypes[condition.id]? = some ty) (hnotes : Notes [condition.id] mid after)
    (hmet : after.queue.IsSilent → pool.isError ty = false →
      after.table.Met ⟨condition.id, ty, some Ty.boolean⟩) :
    Answered pool all guards condition state after := by
  have hself : [condition.id] ⊆ condition.ownIds :=
    List.cons_subset.mpr ⟨condition.id_mem_ownIds, List.nil_subset _⟩
  have hout : Visit.Outside all guards [condition.id] :=
    fun guard patterns condition' span hvisit hguard id hid =>
      hready.outside guard patterns condition' span hvisit hguard id (hself hid)
  refine ⟨hnotes.sound h.sound hout, ?_, fun hclean => ⟨fun sub hsub => ?_, ?_⟩⟩
  · exact (h.within.trans hnotes.within).mono (List.append_subset.mpr ⟨List.Subset.refl _, hself⟩)
  · have hnodup := hready.nodup
    rw [Expr.ownIds_eq, List.nodup_cons] at hnodup
    refine Resolution.SameAt.demands (h.fulfils (hnotes.clean hclean) condition
      (List.mem_singleton_self _) sub hsub) fun operand hoperand => hnotes.sameAt fun hmem => ?_
    -- The condition is no operand of anything in it.
    refine hnodup.1 ?_
    rw [← List.mem_singleton.mp hmem]
    exact Expr.operand_id_mem hsub hoperand
  · have hafter : after.table.exprTypes[condition.id]? = some ty := hnotes.exprs ▸ hty
    have hsource : after.table.exprType condition.id = ty := by
      rw [Resolution.exprType, hafter, Option.getD_some]
    intro demand hdemand
    rw [List.mem_singleton.mp hdemand, Expr.guardDemand, hsource]
    exact ⟨hafter, hmet hclean.silent (hclean.types _ _ hafter)⟩

end Resolver

end GuardedMatch
