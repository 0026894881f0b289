import GuardedMatch.Proofs.Hierarchy
import GuardedMatch.Proofs.References
import GuardedMatch.Proofs.Resolving

/-!
# What patterns are tested against

A pattern is tested against the type that the place where it stands gives to its values: a
component against the type of the component, a sub-pattern against what its guard is tested
against.  What stands outside of all patterns is told by a list of places.

A pattern that nothing is written on takes the type it is tested against, so if every pattern is
referred to once, the table says of it what its place says, however often and in whatever order
the patterns were resolved.

* `Forest.Expects`: a pattern is tested against a type.
* `Resolution.Asked.faithful`: the types in the table are those that patterns are tested against.
* `Arena.eq_of_expects_place`, `Arena.expects_part`: if every pattern is referred to once, a
  pattern is tested only against what its place or the pattern above it says.
-/

namespace GuardedMatch

/-- The type of a record pattern as written, and the types that its components are tested
against. -/
def Pool.recordParts (pool : Pool) (written : TypeRef) : Ty × List Ty :=
  match written.name with
  | none => (Ty.error, [])
  | some name =>
    let ty := (pool.lookup name).getD Ty.error
    if pool.isError ty || !pool.isRecord ty then (Ty.error, []) else (ty, pool.componentTypes ty)

/-- A pattern is tested against a type.  Nothing is said about what `instanceof` tests. -/
inductive Forest.Expects (forest : Forest) (pool : Pool) (places : List (PatternId × Ty)) :
    PatternId → Ty → Prop
  | place {id : PatternId} {ty : Ty} (hplace : (id, ty) ∈ places) :
      Expects forest pool places id ty
  | component {id : PatternId} {written : TypeRef} {components : List Pattern} {span : Span}
      {position : Nat} {pattern : Pattern}
      (hnode : forest.pattern id = .record id written components span)
      (hpattern : components[position]? = some pattern) :
      Expects forest pool places pattern.id ((pool.recordParts written).2.getD position Ty.error)
  | sub {id : PatternId} {patterns : List Pattern} {condition : Expr} {span : Span} {ty : Ty}
      {pattern : Pattern} (hnode : forest.pattern id = .guarded id patterns condition span)
      (hpattern : pattern ∈ patterns) (h : Expects forest pool places id ty) :
      Expects forest pool places pattern.id ty
  | tested {id : ExprId} {tested : Expr} {pattern : Pattern} {span : Span} {ty : Ty}
      (hnode : forest.expr id = .instanceOf id tested pattern span) :
      Expects forest pool places pattern.id ty

/-- What the table says about records is what is written, and what it says about patterns that
nothing is written on is what they are tested against. -/
structure Resolution.Faithful (forest : Forest) (pool : Pool) (places : List (PatternId × Ty))
    (table : Resolution) : Prop where
  any : ∀ {id : PatternId} {span : Span} {ty : Ty}, forest.pattern id = .any id span →
    table.patternTypes[id]? = some ty → forest.Expects pool places id ty
  record : ∀ {id : PatternId} {written : TypeRef} {components : List Pattern} {span : Span}
    {ty : Ty}, forest.pattern id = .record id written components span →
    table.patternTypes[id]? = some ty → ty = (pool.recordParts written).1

namespace Resolution.Faithful

variable {forest : Forest} {pool : Pool} {places : List (PatternId × Ty)}
  {table after : Resolution}

theorem congr (h : table.Faithful forest pool places)
    (heq : after.patternTypes = table.patternTypes) : after.Faithful forest pool places := by
  constructor
  · intro id span ty hnode hty
    exact h.any hnode (heq ▸ hty)
  · intro id written components span ty hnode hty
    exact h.record hnode (heq ▸ hty)

theorem setPatternType (h : table.Faithful forest pool places) {pattern : Pattern} {ty : Ty}
    (howns : forest.pattern pattern.id = pattern)
    (hany : ∀ span, pattern = .any pattern.id span → forest.Expects pool places pattern.id ty)
    (hrecord : ∀ written components span, pattern = .record pattern.id written components span →
      ty = (pool.recordParts written).1) :
    (table.setPatternType pattern.id ty).Faithful forest pool places := by
  constructor
  · intro id span ty' hnode hty
    rw [Resolution.setPatternType, Std.ExtTreeMap.getElem?_insert] at hty
    split at hty
    next heq =>
      obtain rfl : pattern.id = id := by simpa using heq
      cases hty
      exact hany span (howns.symm.trans hnode)
    next => exact h.any hnode hty
  · intro id written components span ty' hnode hty
    rw [Resolution.setPatternType, Std.ExtTreeMap.getElem?_insert] at hty
    split at hty
    next heq =>
      obtain rfl : pattern.id = id := by simpa using heq
      cases hty
      exact hrecord written components span (howns.symm.trans hnode)
    next => exact h.record hnode hty

end Resolution.Faithful

/-! ## Resolving keeps the table faithful -/

namespace Resolver

/-- An action that keeps a faithful table faithful. -/
structure Keeps (forest : Forest) (pool : Pool) (places : List (PatternId × Ty)) {α : Type}
    (action : ResolveM α) : Prop where
  ensures : ∀ state, state.table.Faithful forest pool places →
    Ensures action state (fun _ => True) fun _ after => after.table.Faithful forest pool places

namespace Keeps

variable {forest : Forest} {pool : Pool} {places : List (PatternId × Ty)} {α β : Type}

theorem pure (answer : α) : Keeps forest pool places (Pure.pure answer : ResolveM α) :=
  ⟨fun _ h => Ensures.pure h⟩

theorem bind {action : ResolveM α} {next : α → ResolveM β} (h : Keeps forest pool places action)
    (hnext : ∀ answer, Keeps forest pool places (next answer)) :
    Keeps forest pool places (action >>= next) :=
  ⟨fun state hstate => (h.ensures state hstate).seq fun answer after hafter =>
    (hnext answer).ensures after hafter⟩

theorem of_makes {action : ResolveM α} (h : Makes (Change.Spares (·.patternTypes)) action) :
    Keeps forest pool places action :=
  ⟨fun state hstate => (h.keeps state).mono fun _ _ hsame => hstate.congr hsame⟩

theorem extend {locals : Array LocalDecl} (scope : Scope) (bindings : Bindings) :
    Keeps forest pool places (Resolver.extend locals scope bindings) := by
  refine ⟨fun state hstate => (extend_ensures scope bindings state).imp (fun _ _ => trivial) ?_⟩
  rintro _ after ⟨rfl, _⟩
  exact hstate

theorem tagCondition {locals : Array LocalDecl} (owner : PatternId) (condition : Expr) :
    Keeps forest pool places (Resolver.tagCondition locals owner condition) := by
  refine ⟨fun state hstate => (tagCondition_ensures locals owner condition state).imp
    (fun _ _ => trivial) ?_⟩
  rintro _ _ rfl
  exact hstate.congr
    (tagged_keeps (·.patternTypes) (fun _ _ => rfl) (fun _ _ _ => rfl) owner condition state)

theorem patternHas (pattern : Pattern) {ty : Ty} (howns : forest.pattern pattern.id = pattern)
    (hany : ∀ span, pattern = .any pattern.id span → forest.Expects pool places pattern.id ty)
    (hrecord : ∀ written components span, pattern = .record pattern.id written components span →
      ty = (pool.recordParts written).1) :
    Keeps forest pool places (Resolver.patternHas pattern.id ty) :=
  ⟨fun _ hstate => Ensures.modify_bind (Ensures.pure (hstate.setPatternType howns hany hrecord))⟩

theorem exprHas (id : ExprId) (ty : Ty) :
    Keeps forest pool places (Resolver.exprHas id ty) :=
  ⟨fun _ hstate => Ensures.modify_bind (Ensures.pure (hstate.congr rfl))⟩

end Keeps

/-- The answer for a record pattern depends on what is written alone. -/
theorem recordPattern_parts {pool : Pool} (written : TypeRef) (arity : Nat) (span : Span)
    (expected : Ty) (state : Resolver) :
    Ensures (recordPattern pool written arity span expected) state (fun _ => True)
      fun answer _ => answer = pool.recordParts written := by
  rw [recordPattern.eq_def, Pool.recordParts]
  cases written.name with
  | none => exact Ensures.modify_bind (Ensures.pure rfl)
  | some name =>
    have hnamed : Ensures (namedType pool name written.span) state (fun _ => True)
        fun ty _ => (pool.lookup name).getD Ty.error = ty := by
      rw [namedType.eq_def]
      cases pool.lookup name with
      | some ty => exact Ensures.pure rfl
      | none => exact Ensures.modify_bind (Ensures.pure rfl)
    refine hnamed.seq fun ty after hty => ?_
    dsimp only
    rw [hty]
    by_cases herror : pool.isError ty = true
    · rw [if_pos herror, herror, Bool.true_or, if_pos rfl]
      exact Ensures.pure rfl
    rw [if_neg herror]
    by_cases hrecord : pool.isRecord ty = true
    · rw [Bool.not_eq_true] at herror
      simp only [herror, hrecord, Bool.not_true, Bool.or_false, Bool.false_eq_true, if_false]
      refine Ensures.skip fun _ after => ?_
      split
      next => exact Ensures.modify_bind (Ensures.pure rfl)
      next => exact Ensures.pure rfl
    · rw [Bool.not_eq_true] at hrecord
      simp only [hrecord, Bool.not_false, Bool.or_true, if_true]
      exact Ensures.modify_bind (Ensures.pure rfl)

end Resolver

section

variable {forest : Forest} {pool : Pool} {places : List (PatternId × Ty)}

open Resolver in
mutual

/-- **Resolving a pattern against what it is tested against keeps the table faithful.** -/
theorem Pattern.resolve_keeps (locals : Array LocalDecl) : ∀ (pattern : Pattern) (expected : Ty)
    (scope : Scope), (∀ visit ∈ pattern.visits, forest.Owns visit) →
      forest.Expects pool places pattern.id expected →
      Keeps forest pool places (pattern.resolve pool locals expected scope)
  | .type id written binds span, expected, scope, howns, _ => by
    rw [Pattern.resolve]
    refine .bind (.of_makes (.typePattern Change.Spares.report pool written span expected
      fun _ _ _ _ => rfl)) fun ty => ?_
    exact .patternHas (.type id written binds span) (howns _ (Pattern.self_mem_visits _))
      (fun _ h => by cases h) fun _ _ _ h => by cases h
  | .record id written components span, expected, scope, howns, _ => by
    have hnode : forest.pattern id = .record id written components span :=
      howns _ (Pattern.self_mem_visits _)
    rw [Pattern.resolve]
    refine ⟨fun state hstate => Ensures.bind ?_⟩
    have hkeeps : Keeps forest pool places
        (recordPattern pool written components.length span expected) :=
      .of_makes (.recordPattern Change.Spares.report ..)
    refine ((recordPattern_parts written components.length span expected state).and
      (hkeeps.ensures state hstate)).mono ?_
    rintro ⟨ty, types⟩ middle ⟨hparts, hmiddle⟩
    have hcomponents : Keeps forest pool places
        (Pattern.resolveComponents pool locals components types scope) := by
      refine Pattern.resolveComponents_keeps locals components types scope
        (fun visit hvisit => howns visit (List.mem_cons_of_mem _ hvisit)) ?_
      intro position pattern hpattern
      have hexpects : forest.Expects pool places pattern.id _ := .component hnode hpattern
      rwa [← hparts] at hexpects
    refine (hcomponents.bind fun _ => ?_).ensures middle hmiddle
    refine .patternHas (.record id written components span) hnode (fun _ h => by cases h) ?_
    intro written' components' span' h
    cases h
    rw [← hparts]
  | .guarded id patterns condition span, expected, scope, howns, hexpects => by
    have hnode : forest.pattern id = .guarded id patterns condition span :=
      howns _ (Pattern.self_mem_visits _)
    have hpatterns : Keeps forest pool places
        (Pattern.resolveAll pool locals patterns expected scope) := by
      refine Pattern.resolveAll_keeps locals patterns expected scope
        (fun visit hvisit => howns visit ?_) fun pattern hpattern => .sub hnode hpattern hexpects
      exact Visit.left_subset hvisit
    have hcondition : ∀ inner, Keeps forest pool places (condition.resolve pool locals inner) := by
      refine fun inner => condition.resolve_keeps locals inner fun visit hvisit => howns visit ?_
      exact Visit.right_subset hvisit
    rw [Pattern.resolve]
    refine ⟨fun state hstate => Ensures.get_bind ?_⟩
    split
    next ty _ => exact Ensures.pure hstate
    next =>
      refine Keeps.ensures (.bind hpatterns fun types => .bind ?_ fun ty =>
        .bind (.extend ..) fun inner => .bind (hcondition inner) fun conditionTy =>
        .bind (.of_makes (.guard Change.Spares.report (fun _ _ _ => rfl) ..)) fun _ =>
        .bind (.tagCondition ..) fun _ => .pure _) state hstate
      exact .patternHas (.guarded id patterns condition span) hnode (fun _ h => by cases h)
        fun _ _ _ h => by cases h
  | .any id span, expected, scope, howns, hexpects => by
    rw [Pattern.resolve]
    exact .patternHas (.any id span) (howns _ (Pattern.self_mem_visits _)) (fun _ _ => hexpects)
      fun _ _ _ h => by cases h
  | .missing id, expected, scope, _, _ => by
    rw [Pattern.resolve]
    exact ⟨fun _ _ => Ensures.throw trivial⟩

theorem Pattern.resolveAll_keeps (locals : Array LocalDecl) : ∀ (patterns : List Pattern)
    (expected : Ty) (scope : Scope), (∀ visit ∈ Pattern.visitsAll patterns, forest.Owns visit) →
      (∀ pattern ∈ patterns, forest.Expects pool places pattern.id expected) →
      Keeps forest pool places (Pattern.resolveAll pool locals patterns expected scope)
  | [], expected, scope, _, _ => by
    rw [Pattern.resolveAll]
    exact .pure _
  | pattern :: patterns, expected, scope, howns, hexpects => by
    rw [Pattern.resolveAll]
    refine .bind (pattern.resolve_keeps locals expected scope
      (fun visit hvisit => howns visit (List.mem_append_left _ hvisit))
      (hexpects pattern (by simp))) fun _ => ?_
    exact .bind (Pattern.resolveAll_keeps locals patterns expected scope
      (fun visit hvisit => howns visit (List.mem_append_right _ hvisit))
      fun pattern hpattern => hexpects pattern (by simp [hpattern])) fun _ => .pure _

theorem Pattern.resolveComponents_keeps (locals : Array LocalDecl) : ∀ (patterns : List Pattern)
    (types : List Ty) (scope : Scope), (∀ visit ∈ Pattern.visitsAll patterns, forest.Owns visit) →
      (∀ (position : Nat) pattern, patterns[position]? = some pattern →
        forest.Expects pool places pattern.id (types.getD position Ty.error)) →
      Keeps forest pool places (Pattern.resolveComponents pool locals patterns types scope)
  | [], types, scope, _, _ => by
    rw [Pattern.resolveComponents]
    exact .pure _
  | pattern :: patterns, types, scope, howns, hexpects => by
    have hhead : types.headD Ty.error = types.getD 0 Ty.error := by cases types <;> rfl
    have htail : ∀ position, types.tail.getD position Ty.error =
        types.getD (position + 1) Ty.error := by
      intro position
      cases types <;> rfl
    rw [Pattern.resolveComponents, hhead]
    refine .bind (pattern.resolve_keeps locals _ scope
      (fun visit hvisit => howns visit (List.mem_append_left _ hvisit))
      (hexpects 0 pattern rfl)) fun _ => ?_
    refine Pattern.resolveComponents_keeps locals patterns types.tail scope
      (fun visit hvisit => howns visit (List.mem_append_right _ hvisit)) ?_
    intro position pattern' hpattern'
    rw [htail]
    exact hexpects (position + 1) pattern' hpattern'

/-- **Resolving an expression keeps the table faithful.** -/
theorem Expr.resolve_keeps (locals : Array LocalDecl) : ∀ (expr : Expr) (scope : Scope),
    (∀ visit ∈ expr.visits, forest.Owns visit) →
      Keeps forest pool places (expr.resolve pool locals scope)
  | .bool id value span, scope, _ => by
    rw [Expr.resolve]
    exact .exprHas ..
  | .int id value span, scope, _ => by
    rw [Expr.resolve]
    exact .exprHas ..
  | .ident id name span, scope, _ => by
    rw [Expr.resolve]
    exact .bind (.of_makes (.ident id name span scope (fun _ => rfl) fun _ _ _ => rfl)) fun _ =>
      .exprHas ..
  | .field id receiver name span, scope, howns => by
    rw [Expr.resolve]
    refine .bind (receiver.resolve_keeps locals scope fun visit hvisit => howns visit ?_) fun _ =>
      .bind (.of_makes (.field Change.Spares.report ..)) fun _ => .exprHas ..
    exact List.mem_cons_of_mem _ hvisit
  | .unary id op operand span, scope, howns => by
    rw [Expr.resolve]
    refine .bind (operand.resolve_keeps locals scope fun visit hvisit => howns visit ?_) fun _ =>
      .bind (.of_makes (.unary Change.Spares.report (fun _ _ _ => rfl) ..)) fun _ => .exprHas ..
    exact List.mem_cons_of_mem _ hvisit
  | .binary id op left right span, scope, howns => by
    have hleft := left.resolve_keeps locals scope fun visit hvisit =>
      howns visit (Visit.left_subset hvisit)
    have hright := fun inner => right.resolve_keeps locals inner fun visit hvisit =>
      howns visit (Visit.right_subset hvisit)
    rw [Expr.resolve]
    refine .bind hleft fun leftTy => ?_
    split
    · exact .bind (.extend ..) fun inner => .bind (hright inner) fun rightTy =>
        .bind (.of_makes (.logical Change.Spares.report (fun _ _ _ => rfl) ..)) fun _ => .exprHas ..
    · exact .bind (hright scope) fun rightTy =>
        .bind (.of_makes (.binary Change.Spares.report (fun _ _ _ => rfl) ..)) fun _ => .exprHas ..
  | .instanceOf id tested pattern span, scope, howns => by
    have hnode : forest.expr id = .instanceOf id tested pattern span :=
      howns _ (Expr.self_mem_visits _)
    rw [Expr.resolve]
    refine .bind (tested.resolve_keeps locals scope fun visit hvisit => howns visit ?_) fun ty =>
      .bind (pattern.resolve_keeps locals ty scope (fun visit hvisit => howns visit ?_)
        (.tested hnode)) fun _ => .exprHas ..
    · exact Visit.left_subset hvisit
    · exact Visit.right_subset hvisit
  | .call id callee args written span, scope, howns => by
    rw [Expr.resolve]
    refine .bind (Expr.resolveAll_keeps locals args scope fun visit hvisit => howns visit ?_)
      fun _ => .bind (.of_makes (.result Change.Spares.report ..)) fun _ => .exprHas ..
    exact List.mem_cons_of_mem _ hvisit
  | .missing id, scope, _ => by
    rw [Expr.resolve]
    exact ⟨fun _ _ => Ensures.throw trivial⟩

theorem Expr.resolveAll_keeps (locals : Array LocalDecl) : ∀ (exprs : List Expr) (scope : Scope),
    (∀ visit ∈ Expr.visitsAll exprs, forest.Owns visit) →
      Keeps forest pool places (Expr.resolveAll pool locals exprs scope)
  | [], scope, _ => by
    rw [Expr.resolveAll]
    exact .pure _
  | expr :: exprs, scope, howns => by
    rw [Expr.resolveAll]
    refine .bind (expr.resolve_keeps locals scope fun visit hvisit => howns visit ?_) fun _ =>
      Expr.resolveAll_keeps locals exprs scope fun visit hvisit => howns visit ?_
    · exact List.mem_append_left _ hvisit
    · exact List.mem_append_right _ hvisit

end

end

/-! ## Tables made at places -/

/-- A table that resolutions have made one after the other, patterns only at places. -/
inductive Resolution.Asked (forest : Forest) (pool : Pool) (places : List (PatternId × Ty)) :
    Resolution → Prop
  | empty : Asked forest pool places Resolution.empty
  | pattern {table : Resolution} {id : PatternId} {expected : Ty} {scope : Scope}
      {resolved : Resolved} (h : Asked forest pool places table)
      (hplace : (id, expected) ∈ places)
      (hrun : forest.resolvePattern pool table id expected scope = .ok resolved) :
      Asked forest pool places resolved.table
  | expr {table : Resolution} {id : ExprId} {scope : Scope} {resolved : Resolved}
      (h : Asked forest pool places table)
      (hrun : forest.resolveExpr pool table id scope = .ok resolved) :
      Asked forest pool places resolved.table
  | guard {table : Resolution} {id : ExprId} {scope : Scope} {resolved : Resolved}
      (h : Asked forest pool places table)
      (hrun : forest.resolveGuard pool table id scope = .ok resolved) :
      Asked forest pool places resolved.table

theorem Resolver.Keeps.of_run {forest : Forest} {pool : Pool} {places : List (PatternId × Ty)}
    {table : Resolution} {action : ResolveM Ty} {resolved : Resolved}
    (h : Keeps forest pool places action) (htable : table.Faithful forest pool places)
    (hrun : table.run action = .ok resolved) : resolved.table.Faithful forest pool places := by
  obtain ⟨after, hafter, heq, _⟩ := Resolution.exists_of_run hrun
  rw [heq]
  exact (h.ensures ⟨table, .new .unlimited⟩ htable).of_ok hafter

/-- **The table says of patterns what they are tested against.** -/
theorem Resolution.Asked.faithful {arena : Arena} (hacyclic : arena.Acyclic) {pool : Pool}
    {places : List (PatternId × Ty)} {table : Resolution}
    (h : Asked arena.forest pool places table) : table.Faithful arena.forest pool places := by
  induction h with
  | empty => constructor <;> intros <;> simp_all [Resolution.empty]
  | @pattern _ id expected scope _ _ hplace hrun ih =>
    refine Resolver.Keeps.of_run (Pattern.resolve_keeps _ _ expected scope
      (hacyclic.closed (.pattern id)) ?_) ih hrun
    rw [hacyclic.id_pattern]
    exact .place hplace
  | @expr _ id scope _ _ hrun ih =>
    exact Resolver.Keeps.of_run (Expr.resolve_keeps _ _ scope (hacyclic.closed (.expr id))) ih hrun
  | @guard _ id scope _ _ hrun ih =>
    refine Resolver.Keeps.of_run ?_ ih hrun
    exact .bind (Expr.resolve_keeps _ _ scope (hacyclic.closed (.expr id))) fun _ =>
      .bind (.of_makes (.guard Resolver.Change.Spares.report (fun _ _ _ => rfl) ..)) fun _ =>
        .pure _

/-! ## Patterns that are referred to once -/

/-- The patterns right below a pattern that are part of it: those in its condition are not. -/
def Pattern.parts : Pattern → List Pattern
  | .record _ _ components _ => components
  | .guarded _ patterns _ _ => patterns
  | .type .. | .any .. | .missing _ => []

def Node.pattern? : Node → Option PatternId
  | pattern id => some id
  | expr _ => none

namespace Arena

/-- The patterns that a node refers to. -/
def patternRefs (arena : Arena) (node : Node) : List PatternId :=
  (arena.refs node).filterMap Node.pattern?

/-- All references to patterns: those that nodes make, and those from outside. -/
def patternReferences (arena : Arena) (roots : List PatternId) : List PatternId :=
  arena.nodes.flatMap arena.patternRefs ++ roots

variable {arena : Arena} {pool : Pool} {places : List (PatternId × Ty)}

theorem mem_nodes_of_patternRefs {node : Node} {id : PatternId} (h : id ∈ arena.patternRefs node) :
    node ∈ arena.nodes := by
  obtain ⟨other, hother, _⟩ := List.mem_filterMap.1 h
  exact mem_nodes_of_refers hother

theorem Acyclic.patternRefs_pattern (h : arena.Acyclic) (id : PatternId) :
    arena.patternRefs (.pattern id) = (arena.forest.pattern id).parts.map Pattern.id := by
  rw [patternRefs, refs]
  cases hnode : arena.patterns[id]? with
  | none =>
    rw [pattern_of_none hnode]
    rfl
  | some node =>
    rw [h.pattern_eq hnode]
    cases node <;>
      simp [PatternNode.patternRefs, PatternNode.exprRefs, PatternNode.tree, Pattern.parts,
        List.filterMap_append, List.filterMap_map, Function.comp_def, Node.pattern?, h.id_pattern]

theorem Acyclic.mem_patternRefs_expr (h : arena.Acyclic) {id : ExprId} {tested : Expr}
    {pattern : Pattern} {span : Span}
    (htree : arena.forest.expr id = .instanceOf id tested pattern span) :
    pattern.id ∈ arena.patternRefs (.expr id) := by
  rw [patternRefs, refs]
  cases hnode : arena.exprs[id]? with
  | none =>
    rw [expr_of_none hnode] at htree
    cases htree
  | some node =>
    rw [h.expr_eq hnode] at htree
    cases node <;> cases htree
    simp [ExprNode.patternRefs, ExprNode.exprRefs, Node.pattern?, h.id_pattern]

/-- Where a pattern that is tested against a type stands: at a place, below another pattern, or
in an expression. -/
theorem Acyclic.place_or_mem_patternRefs (h : arena.Acyclic) {id : PatternId} {ty : Ty}
    (hexpects : arena.forest.Expects pool places id ty) :
    (id, ty) ∈ places ∨ ∃ node, id ∈ arena.patternRefs node := by
  cases hexpects with
  | place hplace => exact Or.inl hplace
  | @component owner _ _ _ position pattern hnode hpattern =>
    refine Or.inr ⟨.pattern owner, ?_⟩
    rw [h.patternRefs_pattern, hnode]
    exact List.mem_map_of_mem (List.mem_of_getElem? hpattern)
  | @sub owner _ _ _ _ _ hnode hpattern _ =>
    refine Or.inr ⟨.pattern owner, ?_⟩
    rw [h.patternRefs_pattern, hnode]
    exact List.mem_map_of_mem hpattern
  | @tested owner _ _ _ _ hnode => exact Or.inr ⟨.expr owner, h.mem_patternRefs_expr hnode⟩

section

variable {ty : Ty} {owner : PatternId} {pattern : Pattern}

variable (hacyclic : arena.Acyclic)
  (honce : (arena.patternReferences (places.map Prod.fst)).Nodup)

include hacyclic honce

theorem eq_of_expects_place {id : PatternId} {expected : Ty} (hplace : (id, expected) ∈ places)
    (h : arena.forest.Expects pool places id ty) : ty = expected := by
  obtain ⟨_, hplaces, hdisjoint⟩ := List.nodup_append.1 honce
  rcases hacyclic.place_or_mem_patternRefs h with hplace' | ⟨node, hnode⟩
  · exact congrArg Prod.snd (List.inj_on_of_nodup_map hplaces hplace' hplace rfl)
  · have hmem : id ∈ arena.nodes.flatMap arena.patternRefs :=
      List.mem_flatMap.2 ⟨node, mem_nodes_of_patternRefs hnode, hnode⟩
    exact absurd rfl (hdisjoint id hmem id (List.mem_map_of_mem hplace))

/-- A part of a pattern stands nowhere else. -/
theorem not_place_of_part (hpattern : pattern ∈ (arena.forest.pattern owner).parts) :
    (pattern.id, ty) ∉ places := by
  intro hplace
  have hmem : pattern.id ∈ arena.patternRefs (.pattern owner) := by
    rw [hacyclic.patternRefs_pattern]
    exact List.mem_map_of_mem hpattern
  have hmem' : pattern.id ∈ arena.nodes.flatMap arena.patternRefs :=
    List.mem_flatMap.2 ⟨_, mem_nodes_of_patternRefs hmem, hmem⟩
  exact (List.nodup_append.1 honce).2.2 _ hmem' _ (List.mem_map_of_mem hplace) rfl

/-- A part of a pattern is referred to by that pattern alone. -/
theorem eq_of_part {node : Node} (hpattern : pattern ∈ (arena.forest.pattern owner).parts)
    (hnode : pattern.id ∈ arena.patternRefs node) : node = .pattern owner := by
  have hmem : pattern.id ∈ arena.patternRefs (.pattern owner) := by
    rw [hacyclic.patternRefs_pattern]
    exact List.mem_map_of_mem hpattern
  exact eq_of_mem_flatMap (List.nodup_append.1 honce).1 (mem_nodes_of_patternRefs hnode)
    (mem_nodes_of_patternRefs hmem) hnode hmem

/-- What a part of a pattern is tested against is told by that pattern. -/
theorem expects_part (hpattern : pattern ∈ (arena.forest.pattern owner).parts)
    (h : arena.forest.Expects pool places pattern.id ty) :
    (∃ (written : TypeRef) (components : List Pattern) (span : Span) (position : Nat),
      arena.forest.pattern owner = .record owner written components span ∧
      (components.map Pattern.id)[position]? = some pattern.id ∧
      ty = (pool.recordParts written).2.getD position Ty.error) ∨
    (∃ (patterns : List Pattern) (condition : Expr) (span : Span),
      arena.forest.pattern owner = .guarded owner patterns condition span) ∧
      arena.forest.Expects pool places owner ty := by
  generalize hid : pattern.id = id at h
  cases h with
  | place hplace => exact absurd (hid ▸ hplace) (not_place_of_part hacyclic honce hpattern)
  | @component owner' written components span position pattern' hnode hpattern' =>
    have hmem : pattern.id ∈ arena.patternRefs (.pattern owner') := by
      rw [hacyclic.patternRefs_pattern, hnode, hid]
      exact List.mem_map_of_mem (List.mem_of_getElem? hpattern')
    cases eq_of_part hacyclic honce hpattern hmem
    refine Or.inl ⟨written, components, span, position, hnode, ?_, rfl⟩
    rw [List.getElem?_map, hpattern', Option.map_some]
  | @sub owner' patterns condition span _ pattern' hnode hpattern' hexpects =>
    have hmem : pattern.id ∈ arena.patternRefs (.pattern owner') := by
      rw [hacyclic.patternRefs_pattern, hnode, hid]
      exact List.mem_map_of_mem hpattern'
    cases eq_of_part hacyclic honce hpattern hmem
    exact Or.inr ⟨⟨patterns, condition, span, hnode⟩, hexpects⟩
  | @tested owner' _ _ _ _ hnode =>
    cases eq_of_part hacyclic honce hpattern (hid ▸ hacyclic.mem_patternRefs_expr hnode)

theorem eq_of_expects_component {written : TypeRef} {components : List Pattern} {span : Span}
    (hnode : arena.forest.pattern owner = .record owner written components span) {position : Nat}
    (hpattern : components[position]? = some pattern)
    (h : arena.forest.Expects pool places pattern.id ty) :
    ty = (pool.recordParts written).2.getD position Ty.error := by
  have hpart : pattern ∈ (arena.forest.pattern owner).parts := by
    rw [hnode]
    exact List.mem_of_getElem? hpattern
  rcases expects_part hacyclic honce hpart h with
    ⟨written', components', span', position', hnode', hpattern', hty⟩ | ⟨⟨_, _, _, hnode'⟩, _⟩
  · cases hnode.symm.trans hnode'
    -- The components are told apart by their numbers.
    have hnodup : (components.map Pattern.id).Nodup := by
      rw [← show (Pattern.record owner written components span).parts = components from rfl,
        ← hnode, ← hacyclic.patternRefs_pattern]
      by_cases hmem : Node.pattern owner ∈ arena.nodes
      · exact (List.nodup_flatMap.1 (List.nodup_append.1 honce).1).1 _ hmem
      · have hnil : arena.patternRefs (.pattern owner) = [] :=
          List.eq_nil_iff_forall_not_mem.2 fun _ hid => hmem (mem_nodes_of_patternRefs hid)
        rw [hnil]
        exact List.nodup_nil
    have hid : (components.map Pattern.id)[position]? = some pattern.id := by
      rw [List.getElem?_map, hpattern, Option.map_some]
    have hlt := (List.getElem?_eq_some_iff.1 hid).1
    rw [(List.getElem?_inj hlt hnodup).1 (hid.trans hpattern'.symm), hty]
  · cases hnode.symm.trans hnode'

theorem expects_of_sub {patterns : List Pattern} {condition : Expr} {span : Span}
    (hnode : arena.forest.pattern owner = .guarded owner patterns condition span)
    (hpattern : pattern ∈ patterns) (h : arena.forest.Expects pool places pattern.id ty) :
    arena.forest.Expects pool places owner ty := by
  have hpart : pattern ∈ (arena.forest.pattern owner).parts := by
    rw [hnode]
    exact hpattern
  rcases expects_part hacyclic honce hpart h with ⟨_, _, _, _, hnode', _⟩ | ⟨_, hexpects⟩
  · cases hnode.symm.trans hnode'
  · exact hexpects

end

end Arena

end GuardedMatch
