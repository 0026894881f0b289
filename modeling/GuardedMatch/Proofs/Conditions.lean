import GuardedMatch.Proofs.References
import GuardedMatch.Proofs.Requiring

/-!
# Expressions in conditions

Every expression in a tree is part of one condition: that of a guarded pattern that is met, or else
the one at the root.  If each expression is referred to once, then it is part of no other.

* `Expr.mem_own_or_inCondition`: every expression that is met is part of a condition.
* `Arena.Grounded.tidy`: conditions of different guarded patterns have no expression in common.
* `Arena.Grounded.outside`: the condition at the root has none in common with the others.
-/

namespace GuardedMatch

/-! ## Trees -/

/-- An expression is part of the condition of a guarded pattern that is met. -/
def Visit.InCondition (visits : List Visit) (expr : Expr) : Prop :=
  ∃ guard patterns condition span, .pattern (.guarded guard patterns condition span) ∈ visits ∧
    expr ∈ condition.own

theorem Visit.InCondition.mono {visits visits' : List Visit} {expr : Expr}
    (h : InCondition visits expr) (hsub : visits ⊆ visits') : InCondition visits' expr := by
  obtain ⟨guard, patterns, condition, span, hvisit, hmem⟩ := h
  exact ⟨guard, patterns, condition, span, hsub hvisit, hmem⟩

mutual

theorem Pattern.inCondition_of_visit {part : Expr} : ∀ pattern : Pattern,
    .expr part ∈ pattern.visits → Visit.InCondition pattern.visits part
  | .type id written binds span, h => by simp [Pattern.visits] at h
  | .record id written components span, h => by
    have hbelow : .expr part ∈ Pattern.visitsAll components := by simpa [Pattern.visits] using h
    exact (Pattern.inCondition_of_visitAll components hbelow).mono (List.subset_cons_self ..)
  | .guarded id patterns condition span, h => by
    rw [Pattern.visits, List.mem_cons, List.mem_append] at h
    rcases h with h | h | h
    · cases h
    · exact (Pattern.inCondition_of_visitAll patterns h).mono
        Visit.left_subset
    · rcases Expr.mem_own_or_inCondition condition h with hown | hinner
      · exact ⟨id, patterns, condition, span, Pattern.self_mem_visits _, hown⟩
      · exact hinner.mono Visit.right_subset
  | .any id span, h => by simp [Pattern.visits] at h
  | .missing id, h => by simp [Pattern.visits] at h

theorem Pattern.inCondition_of_visitAll {part : Expr} : ∀ patterns : List Pattern,
    .expr part ∈ Pattern.visitsAll patterns → Visit.InCondition (Pattern.visitsAll patterns) part
  | [], h => by simp [Pattern.visitsAll] at h
  | pattern :: patterns, h => by
    rw [Pattern.visitsAll, List.mem_append] at h
    rcases h with h | h
    · exact (pattern.inCondition_of_visit h).mono (List.subset_append_left ..)
    · exact (Pattern.inCondition_of_visitAll patterns h).mono (List.subset_append_right ..)

/-- **Every expression that is met is part of a condition.** -/
theorem Expr.mem_own_or_inCondition {part : Expr} : ∀ expr : Expr, .expr part ∈ expr.visits →
    part ∈ expr.own ∨ Visit.InCondition expr.visits part
  | .bool .., h | .int .., h | .ident .., h | .missing _, h => by
    simp only [Expr.visits, List.mem_singleton, Visit.expr.injEq] at h
    rw [h]
    exact .inl (Expr.self_mem_own _)
  | .field id receiver name span, h => by
    rw [Expr.visits, List.mem_cons, Visit.expr.injEq] at h
    rw [Expr.own, Expr.visits, List.mem_cons, or_assoc]
    exact h.imp_right fun h => (Expr.mem_own_or_inCondition receiver h).imp_right
      (·.mono (List.subset_cons_self ..))
  | .unary id op operand span, h => by
    rw [Expr.visits, List.mem_cons, Visit.expr.injEq] at h
    rw [Expr.own, Expr.visits, List.mem_cons, or_assoc]
    exact h.imp_right fun h => (Expr.mem_own_or_inCondition operand h).imp_right
      (·.mono (List.subset_cons_self ..))
  | .binary id op left right span, h => by
    rw [Expr.visits, List.mem_cons, List.mem_append, Visit.expr.injEq] at h
    rw [Expr.own, Expr.visits, List.mem_cons, List.mem_append]
    rcases h with h | h | h
    · exact .inl (.inl h)
    · exact (Expr.mem_own_or_inCondition left h).imp (fun h => .inr (.inl h))
        (·.mono Visit.left_subset)
    · exact (Expr.mem_own_or_inCondition right h).imp (fun h => .inr (.inr h))
        (·.mono Visit.right_subset)
  | .instanceOf id tested pattern span, h => by
    rw [Expr.visits, List.mem_cons, List.mem_append, Visit.expr.injEq] at h
    rw [Expr.own, Expr.visits, List.mem_cons]
    rcases h with h | h | h
    · exact .inl (.inl h)
    · exact (Expr.mem_own_or_inCondition tested h).imp .inr
        (·.mono Visit.left_subset)
    · exact .inr ((pattern.inCondition_of_visit h).mono
        Visit.right_subset)
  | .call id callee args written span, h => by
    rw [Expr.visits, List.mem_cons, Visit.expr.injEq] at h
    rw [Expr.own, Expr.visits, List.mem_cons, or_assoc]
    exact h.imp_right fun h => (Expr.mem_ownAll_or_inCondition args h).imp_right
      (·.mono (List.subset_cons_self ..))

theorem Expr.mem_ownAll_or_inCondition {part : Expr} : ∀ exprs : List Expr,
    .expr part ∈ Expr.visitsAll exprs →
    part ∈ Expr.ownAll exprs ∨ Visit.InCondition (Expr.visitsAll exprs) part
  | [], h => by simp [Expr.visitsAll] at h
  | expr :: exprs, h => by
    rw [Expr.visitsAll, List.mem_append] at h
    rw [Expr.ownAll, Expr.visitsAll, List.mem_append]
    rcases h with h | h
    · exact (Expr.mem_own_or_inCondition expr h).imp .inl (·.mono (List.subset_append_left ..))
    · exact (Expr.mem_ownAll_or_inCondition exprs h).imp .inr
        (·.mono (List.subset_append_right ..))

end

/-! ## References to expressions -/

/-- The number of an expression. -/
def Node.expr? : Node → Option ExprId
  | pattern _ => none
  | expr id => some id

namespace Arena

/-- The expressions that a node refers to. -/
def exprRefs (arena : Arena) (node : Node) : List ExprId := (arena.refs node).filterMap Node.expr?

/-- All references to expressions. -/
def exprReferences (arena : Arena) : List ExprId := arena.nodes.flatMap arena.exprRefs

variable {arena : Arena} {id : ExprId} {node other : Node}

theorem mem_exprRefs : id ∈ arena.exprRefs node ↔ arena.Refers node (.expr id) := by
  rw [exprRefs, List.mem_filterMap]
  constructor
  · rintro ⟨other, hother, heq⟩
    cases other with
    | pattern other => cases heq
    | expr other => exact Option.some.inj heq ▸ hother
  · exact fun h => ⟨_, h, rfl⟩

theorem eq_of_refers_expr (h : arena.exprReferences.Nodup) (hnode : arena.Refers node (.expr id))
    (hother : arena.Refers other (.expr id)) : node = other :=
  eq_of_mem_flatMap h (mem_nodes_of_refers hnode) (mem_nodes_of_refers hother)
    (mem_exprRefs.mpr hnode) (mem_exprRefs.mpr hother)

theorem nodup_exprRefs (h : arena.exprReferences.Nodup) (node : Node) :
    (arena.exprRefs node).Nodup := by
  by_cases hnode : node ∈ arena.nodes
  · exact (List.nodup_flatMap.1 h).1 node hnode
  · have hnone : arena.exprRefs node = [] := List.eq_nil_iff_forall_not_mem.2 fun _ hmem =>
      hnode (mem_nodes_of_refers (mem_exprRefs.mp hmem))
    rw [hnone]
    exact List.nodup_nil

/-- The operands of an expression. -/
def operandsOf (arena : Arena) (id : ExprId) : List ExprId := arena.exprRefs (.expr id)

theorem leftUnique_operandsOf (h : arena.exprReferences.Nodup) :
    Relator.LeftUnique fun id operand => operand ∈ arena.operandsOf id := fun _ _ _ hid hother =>
  Node.expr.inj (eq_of_refers_expr h (mem_exprRefs.mp hid) (mem_exprRefs.mp hother))

theorem refers_of_operands {operand : ExprId}
    (h : Relation.ReflTransGen (fun id operand => operand ∈ arena.operandsOf id) id operand) :
    Relation.ReflTransGen arena.Refers (.expr id) (.expr operand) :=
  h.lift Node.expr fun _ _ hmem => mem_exprRefs.mp hmem

namespace Grounded

theorem operands_eq (h : arena.Grounded (.expr id)) :
    (arena.forest.expr id).operands = (arena.operandsOf id).map arena.forest.expr := by
  have hlayer := h.layer _ .refl
  rw [Forest.visit, Arena.layer] at hlayer
  rw [operandsOf, exprRefs, refs]
  cases hnode : arena.exprs[id]? with
  | none =>
    rw [hnode] at hlayer
    rw [Visit.expr.inj hlayer]
    rfl
  | some found =>
    rw [hnode] at hlayer
    rw [Visit.expr.inj hlayer]
    cases found <;> simp [ExprNode.tree, Expr.operands, ExprNode.exprRefs, ExprNode.patternRefs,
      Node.expr?, List.filterMap_map, Function.comp_def]

theorem ownIds_eq (h : arena.Grounded (.expr id)) : (arena.forest.expr id).ownIds =
    id :: (arena.operandsOf id).flatMap fun operand => (arena.forest.expr operand).ownIds := by
  rw [Expr.ownIds_eq, id_expr_of_layer (h.layer _ .refl), h.operands_eq, List.flatMap_map]

/-- What a condition is made of unfolds along the operands. -/
theorem ownIds_unfolds (h : arena.Grounded (.expr id)) :
    Unfolds arena.operandsOf (fun id => (arena.forest.expr id).ownIds) id := by
  refine ⟨?_, fun other hpath => (h.of_reaches (refers_of_operands hpath)).ownIds_eq⟩
  exact Subrelation.accessible (fun hmem => mem_exprRefs.mp hmem)
    (InvImage.accessible Node.expr h.ends)

/-- A guarded pattern that is met refers to its condition. -/
theorem refers_condition (h : arena.Grounded node) {guard : PatternId} {patterns : List Pattern}
    {condition : Expr} {span : Span}
    (hvisit : .pattern (.guarded guard patterns condition span) ∈ arena.forest.visitsOf node) :
    Relation.ReflTransGen arena.Refers node (.pattern guard) ∧
      arena.Refers (.pattern guard) (.expr condition.id) ∧
      arena.forest.expr condition.id = condition := by
  have howns : arena.forest.pattern guard = .guarded guard patterns condition span :=
    h.owns _ hvisit
  have hpath := h.reaches_of_mem_nodesOf (List.mem_filterMap.mpr ⟨_, hvisit, rfl⟩)
  have hguard : arena.Grounded (.pattern guard) := h.of_reaches hpath
  have hlayer := hguard.layer _ .refl
  rw [Forest.visit, howns, Arena.layer] at hlayer
  cases hnode : arena.patterns[guard]? with
  | none =>
    rw [hnode] at hlayer
    cases hlayer
  | some found =>
    rw [hnode] at hlayer
    cases found with
    | guarded patterns' condition' span' =>
      have hrefers : arena.Refers (.pattern guard) (.expr condition') := by
        simp [Refers, refs, hnode, PatternNode.exprRefs]
      injection Visit.pattern.inj hlayer with _ _ hcondition
      have hid := id_expr_of_layer ((hguard.of_refers hrefers).layer _ .refl)
      rw [hcondition, hid]
      exact ⟨hpath, hrefers, rfl⟩
    | type | record | any => cases hlayer

section

variable (honce : arena.exprReferences.Nodup)
include honce

theorem nodup_ownIds (h : arena.Grounded (.expr id)) : (arena.forest.expr id).ownIds.Nodup :=
  h.ownIds_unfolds.nodup (leftUnique_operandsOf honce) fun _ => nodup_exprRefs honce _

/-- What is the condition of a guarded pattern is no operand. -/
theorem eq_of_operands {condition : ExprId} {guard : PatternId}
    (hrefers : arena.Refers (.pattern guard) (.expr condition))
    (hpath : Relation.ReflTransGen (fun id operand => operand ∈ arena.operandsOf id) id condition) :
    condition = id := by
  rcases Relation.ReflTransGen.cases_tail hpath with heq | ⟨last, -, hlast⟩
  · exact heq
  · cases eq_of_refers_expr honce hrefers (mem_exprRefs.mp hlast)

/-- An expression that shares something with a condition is part of the condition. -/
theorem reaches_of_mem_ownIds {condition part : ExprId} {guard : PatternId}
    (hcondition : arena.Grounded (.expr condition))
    (hrefers : arena.Refers (.pattern guard) (.expr condition)) (hid : arena.Grounded (.expr id))
    (hpart : part ∈ (arena.forest.expr condition).ownIds)
    (hpart' : part ∈ (arena.forest.expr id).ownIds) :
    Relation.ReflTransGen (fun id operand => operand ∈ arena.operandsOf id) condition id := by
  rcases total_of_leftUnique (leftUnique_operandsOf honce)
    (hcondition.ownIds_unfolds.reaches hpart) (hid.ownIds_unfolds.reaches hpart') with hpath | hpath
  · exact hpath
  · rw [eq_of_operands honce hrefers hpath]

/-- **Conditions have no expression in common if each expression is referred to once.** -/
theorem tidy (h : arena.Grounded node) : Visit.Tidy (arena.forest.visitsOf node) := by
  refine ⟨fun pattern other hpattern hother heq => ?_,
    fun guard patterns condition span hvisit => ?_,
    fun guard patterns condition span hvisit guard' patterns' condition' span' hvisit' part hpart
      hpart' => ?_⟩
  · have howns : arena.forest.pattern pattern.id = pattern := h.owns _ hpattern
    have howns' : arena.forest.pattern other.id = other := h.owns _ hother
    rw [← howns, heq, howns']
  · obtain ⟨hpath, hrefers, htree⟩ := h.refers_condition hvisit
    rw [← htree]
    exact nodup_ownIds honce ((h.of_reaches hpath).of_refers hrefers)
  · obtain ⟨hpath, hrefers, htree⟩ := h.refers_condition hvisit
    obtain ⟨hpath', hrefers', htree'⟩ := h.refers_condition hvisit'
    rw [← htree] at hpart
    rw [← htree'] at hpart'
    have hbelow := reaches_of_mem_ownIds honce ((h.of_reaches hpath).of_refers hrefers) hrefers
      ((h.of_reaches hpath').of_refers hrefers') hpart hpart'
    rw [eq_of_operands honce hrefers' hbelow] at hrefers'
    exact Node.pattern.inj (eq_of_refers_expr honce hrefers hrefers')

/-- An expression has nothing in common with the conditions that are met below it. -/
theorem outside (h : arena.Grounded (.expr id)) :
    Visit.Outside (arena.forest.expr id).visits [] (arena.forest.expr id).ownIds := by
  intro guard patterns condition span hvisit _ part hpart hpart'
  obtain ⟨hpath, hrefers, htree⟩ := h.refers_condition hvisit
  rw [← htree] at hpart'
  have hback := reaches_of_mem_ownIds honce ((h.of_reaches hpath).of_refers hrefers) hrefers h
    hpart' hpart
  -- The condition would lead back to the expression in which it is met.
  exact not_transGen_of_acc h.ends (.trans_right hpath (.head' hrefers (refers_of_operands hback)))

end

end Grounded

end Arena

end GuardedMatch
