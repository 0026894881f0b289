import GuardedMatch.Proofs.Following

/-!
# What resolution does to its state

A resolution changes its state in small steps: it offers a diagnostic, or notes one fact about
something that it visits.  Whatever every step keeps is kept by a whole resolution, so invariants
of the table are proved for steps.

* `Resolver.Course.steps`: the course of a resolution is made of steps.
* `Pattern.resolve_only`, `Expr.resolve_only`: so is a resolution, which stops only where a
  reference leads nowhere.
-/

namespace GuardedMatch

variable {pool : Pool} {forest : Forest}

namespace Resolver

/-- What a resolution changes at a time, where it meets the given visits. -/
inductive Step (pool : Pool) (visits : List Visit) (reads : List Read) :
    Resolver → Resolver → Prop
  | offer (state : Resolver) {diagnostic : Diagnostic}
      (hcode : diagnostic.code ≠ .unassignedLocal) :
      Step pool visits reads state
        { state with queue := (state.queue.add diagnostic).2 }
  | patternType (state : Resolver) {pattern : Pattern} {ty : Ty}
      (hvisit : .pattern pattern ∈ visits) (hsized : state.queue.IsSilent → pattern.Sized pool ty) :
      Step pool visits reads state { state with table := state.table.setPatternType pattern.id ty }
  | exprType (state : Resolver) {expr : Expr} {ty : Ty} (hvisit : .expr expr ∈ visits)
      (happlied : state.queue.IsSilent → expr.Applied pool) :
      Step pool visits reads state { state with table := state.table.setExprType expr.id ty }
  | identLocal (state : Resolver) {read : Read} {target : LocalId} (hread : read ∈ reads)
      (htarget : target ∈ read.visible) :
      Step pool visits reads state { state with table := state.table.setIdentLocal read.id target }
  /-- What is noted beside the types and what names mean. -/
  | other (state : Resolver) {table : Resolution}
      (hpatterns : table.patternTypes = state.table.patternTypes)
      (hexprs : table.exprTypes = state.table.exprTypes)
      (hlocals : table.identLocals = state.table.identLocals) :
      Step pool visits reads state { state with table := table }

/-- Any number of changes. -/
def Steps (pool : Pool) (visits : List Visit) (reads : List Read) : Resolver → Resolver → Prop :=
  Relation.ReflTransGen (Step pool visits reads)

section

variable {pool : Pool} {visits : List Visit} {reads : List Read} {state after : Resolver}

theorem Step.mono {visits' : List Visit} {reads' : List Read} (hsub : visits ⊆ visits')
    (hreads : reads ⊆ reads') (h : Step pool visits reads state after) :
    Step pool visits' reads' state after := by
  cases h with
  | offer hcode => exact .offer _ hcode
  | patternType hvisit hsized => exact .patternType _ (hsub hvisit) hsized
  | exprType hvisit happlied => exact .exprType _ (hsub hvisit) happlied
  | identLocal hread htarget => exact .identLocal _ (hreads hread) htarget
  | other hpatterns hexprs hlocals => exact .other _ hpatterns hexprs hlocals

/-- Reports go to the queue, whose settings stay. -/
theorem Steps.config_eq (h : Steps pool visits reads state after) :
    after.queue.config = state.queue.config := by
  induction h with
  | refl => rfl
  | tail _ hstep ih =>
    cases hstep with
    | offer => exact (Queue.config_add ..).trans ih
    | patternType | exprType | identLocal | other => exact ih

theorem Steps.mono {visits' : List Visit} {reads' : List Read} (hsub : visits ⊆ visits')
    (hreads : reads ⊆ reads') (h : Steps pool visits reads state after) :
    Steps pool visits' reads' state after :=
  Relation.ReflTransGen.mono (fun _ _ => Step.mono hsub hreads) _ _ h

end

/-! ## Courses -/

namespace Course

variable {pool : Pool} {locals : Array LocalDecl} {outer : Scope} {visits : List Visit}
  {reads : List Read} {state after : Resolver}

/-- Noting the condition of a guarded pattern changes no types. -/
theorem steps_tagged (owner : PatternId) (condition : Expr) (state : Resolver) :
    Steps pool visits reads state (tagged owner condition state) := by
  have hnotes : ∀ queue, Step pool visits reads ⟨state.table, queue⟩
      ⟨(tagged owner condition state).table, queue⟩ := fun queue =>
    .other ⟨state.table, queue⟩
      (tagged_keeps (·.patternTypes) (fun _ _ => rfl) (fun _ _ _ => rfl) owner condition state)
      (tagged_keeps (·.exprTypes) (fun _ _ => rfl) (fun _ _ _ => rfl) owner condition state)
      (tagged_keeps (·.identLocals) (fun _ _ => rfl) (fun _ _ _ => rfl) owner condition state)
  rw [tagged]
  split
  next =>
    have hoffer : Step pool visits reads state { state with
        queue := (state.queue.add (Diagnostic.guardAlwaysFalse condition.span)).2 } :=
      .offer state (of_decide_eq_false rfl)
    exact (Relation.ReflTransGen.single hoffer).tail (hnotes _)
  next => exact .single (hnotes _)

/-- **The course of a resolution is made of steps.** -/
theorem steps (h : Course pool locals outer visits reads state after) :
    Steps pool visits reads state after := by
  induction h with
  | refl | skip => exact .refl
  | @change state change hchange =>
    cases change with
    | report => exact .single (.offer state (ErrorCode.ne_of_isMistake hchange).2)
    | conversion => exact .single (.other state rfl rfl rfl)
    | patternType | exprType | localType | identLocal => exact hchange.elim
  | binding state => exact .single (.other state rfl rfl rfl)
  | pattern state _ ty hsized =>
    exact .single (.patternType state (List.mem_singleton_self _) hsized)
  | expr state expr reads ty happlied =>
    exact .single (.exprType state (List.mem_singleton_self _) happlied)
  | @ident state id name span inner target hinnermost ty =>
    have hvisible : target ∈ outer.locals ++ inner := by
      obtain ⟨outside, inside, hnames, -⟩ := hinnermost
      have hmem := congrArg (fun names => target ∈ names.map Prod.snd) hnames
      simpa [Scope.names, Scope.locals, declared, Function.comp_def] using hmem
    have hmeans : Step pool [.expr (.ident id name span)] [⟨id, outer.locals ++ inner⟩] state
        ((Change.identLocal id target).apply state) :=
      .identLocal state (List.mem_singleton_self _) hvisible
    exact (Relation.ReflTransGen.single hmeans).tail
      (.exprType _ (List.mem_singleton_self (Visit.expr (.ident id name span))) fun _ => trivial)
  | trans _ _ ih ih' =>
    exact (ih.mono (List.subset_append_left ..) (List.subset_append_left ..)).trans
      (ih'.mono (List.subset_append_right ..) (List.subset_append_right ..))
  | perm _ hperm ih => exact ih.mono hperm.subset (List.Subset.refl _)
  | @enter id patterns condition span ty reads reads' state mid last _ _ _ ih ih' =>
    have hself : Step pool (Pattern.guarded id patterns condition span).visits (reads ++ reads') mid
        ((Change.patternType id ty).apply mid) :=
      .patternType mid (Pattern.self_mem_visits _) fun _ => trivial
    exact (((ih.mono Visit.left_subset (List.subset_append_left ..)).tail hself).trans
      (ih'.mono Visit.right_subset (List.subset_append_right ..))).trans
      (steps_tagged id condition last)

end Course

/-! ## Actions that make steps -/

/-- An action that makes steps, and stops only if a visit leads nowhere. -/
structure Only (pool : Pool) (count : Nat) (visits : List Visit) (reads : List Read) {α : Type}
    (action : ResolveM α) : Prop where
  ensures : ∀ state, Ensures action state (fun _ => ∃ visit ∈ visits, visit.Lost count)
    fun _ after => Steps pool visits reads state after

namespace Only

variable {pool : Pool} {count : Nat} {visits : List Visit} {reads : List Read} {α β : Type}
variable {action : ResolveM α}

theorem mono {visits' : List Visit} {reads' : List Read} (h : Only pool count visits reads action)
    (hsub : visits ⊆ visits') (hreads : reads ⊆ reads') :
    Only pool count visits' reads' action :=
  ⟨fun state => (h.ensures state).imp
    (fun _ ⟨visit, hvisit, hlost⟩ => ⟨visit, hsub hvisit, hlost⟩) fun _ _ => Steps.mono hsub hreads⟩

theorem pure (answer : α) : Only pool count visits reads (Pure.pure answer : ResolveM α) :=
  ⟨fun _ => Ensures.pure .refl⟩

theorem bind {next : α → ResolveM β} (h : Only pool count visits reads action)
    (hnext : ∀ answer, Only pool count visits reads (next answer)) :
    Only pool count visits reads (action >>= next) :=
  ⟨fun state => Ensures.bind <| (h.ensures state).mono fun answer after hsteps =>
    ((hnext answer).ensures after).mono fun _ _ hsteps' => hsteps.trans hsteps'⟩

theorem of_follows {locals : Array LocalDecl} {outer : Scope}
    (h : Follows pool locals outer visits reads action) :
    Only pool locals.size visits reads action :=
  ⟨fun state => (h.ensures state).mono fun _ _ hcourse => hcourse.steps⟩

end Only

end Resolver

section

variable (pool : Pool) (locals : Array LocalDecl)

open Resolver

/-- **Resolving a pattern makes steps on what it visits, and stops only if something is lost.** -/
theorem Pattern.resolve_only (pattern : Pattern) (expected : Ty) (scope : Scope) :
    Only pool locals.size pattern.visits (pattern.reads scope.locals)
      (pattern.resolve pool locals expected scope) :=
  .of_follows (pattern.resolve_follows pool expected (.refl locals scope))

/-- **Resolving an expression makes steps on what it visits, and stops only if something is
lost.** -/
theorem Expr.resolve_only (expr : Expr) (scope : Scope) :
    Only pool locals.size expr.visits (expr.reads scope.locals)
      (expr.resolve pool locals scope) :=
  .of_follows (expr.resolve_follows pool (.refl locals scope))

theorem Expr.resolveGuard_only (condition : Expr) (scope : Scope) :
    Only pool locals.size condition.visits (condition.reads scope.locals)
      (condition.resolveGuard pool locals scope) :=
  .of_follows (condition.resolveGuard_follows pool locals scope)

end

/-! ## Tables -/

/-- A table that resolutions have made one after the other, the patterns that were resolved, and
all that was offered. -/
inductive Resolution.Produced (forest : Forest) (pool : Pool) :
    List PatternId → List Diagnostic → Resolution → Prop
  | empty : Produced forest pool [] [] Resolution.empty
  | pattern {log : List PatternId} {offered : List Diagnostic} {table : Resolution}
      {id : PatternId} {expected : Ty} {scope : Scope} {resolved : Resolved}
      (h : Produced forest pool log offered table)
      (hrun : forest.resolvePattern pool table id expected scope = .ok resolved) :
      Produced forest pool (id :: log) (offered ++ resolved.offered) resolved.table
  | expr {log : List PatternId} {offered : List Diagnostic} {table : Resolution}
      {id : ExprId} {scope : Scope} {resolved : Resolved}
      (h : Produced forest pool log offered table)
      (hrun : forest.resolveExpr pool table id scope = .ok resolved) :
      Produced forest pool log (offered ++ resolved.offered) resolved.table
  | guard {log : List PatternId} {offered : List Diagnostic} {table : Resolution}
      {id : ExprId} {scope : Scope} {resolved : Resolved}
      (h : Produced forest pool log offered table)
      (hrun : forest.resolveGuard pool table id scope = .ok resolved) :
      Produced forest pool log (offered ++ resolved.offered) resolved.table

namespace Resolution

variable {table : Resolution}

/-- A resolution that ends well has ended in a state. -/
theorem exists_of_run {action : ResolveM Ty} {resolved : Resolved}
    (h : table.run action = .ok resolved) :
    ∃ after, EStateM.run action ⟨table, .new .unlimited⟩ = .ok resolved.ty after ∧
      resolved.table = after.table ∧ resolved.offered = after.queue.diagnostics := by
  rw [run] at h
  split at h
  next ty after hrun =>
    cases h
    exact ⟨after, hrun, rfl, rfl⟩
  next => cases h

theorem steps_of_run {pool : Pool} {count : Nat} {visits : List Visit} {reads : List Read}
    {action : ResolveM Ty} {resolved : Resolved}
    (honly : Resolver.Only pool count visits reads action) (h : table.run action = .ok resolved) :
    ∃ after, Resolver.Steps pool visits reads ⟨table, .new .unlimited⟩ after ∧
      resolved.table = after.table ∧ resolved.offered = after.queue.diagnostics := by
  obtain ⟨after, hrun, htable, hoffered⟩ := exists_of_run h
  exact ⟨after, (honly.ensures _).of_ok hrun, htable, hoffered⟩

/-- What every step keeps, as long as it only meets trees of the forest, holds of every table
that resolutions make. -/
theorem Produced.induction {forest : Forest} (hforest : forest.Closed) {pool : Pool}
    {motive : List Diagnostic → Resolution → Prop} (hempty : motive [] Resolution.empty)
    (hsteps : ∀ {visits reads offered table after}, (∀ visit ∈ visits, forest.Owns visit) →
      motive offered table → Resolver.Steps pool visits reads ⟨table, .new .unlimited⟩ after →
      motive (offered ++ after.queue.diagnostics) after.table)
    {log : List PatternId} {offered : List Diagnostic}
    (h : Produced forest pool log offered table) : motive offered table := by
  induction h with
  | empty => exact hempty
  | @pattern _ _ _ id expected scope _ _ hrun ih =>
    obtain ⟨after, hsteps', htable, hoffered⟩ :=
      steps_of_run (Pattern.resolve_only pool _ (forest.pattern id) expected scope) hrun
    rw [htable, hoffered]
    exact hsteps (hforest (.pattern id)) ih hsteps'
  | @expr _ _ _ id scope _ _ hrun ih =>
    obtain ⟨after, hsteps', htable, hoffered⟩ :=
      steps_of_run (Expr.resolve_only pool _ (forest.expr id) scope) hrun
    rw [htable, hoffered]
    exact hsteps (hforest (.expr id)) ih hsteps'
  | @guard _ _ _ id scope _ _ hrun ih =>
    obtain ⟨after, hsteps', htable, hoffered⟩ :=
      steps_of_run (Expr.resolveGuard_only pool _ (forest.expr id) scope) hrun
    rw [htable, hoffered]
    exact hsteps (hforest (.expr id)) ih hsteps'

/-- No type contradicts the number of components of a record pattern. -/
def Sized (forest : Forest) (pool : Pool) (table : Resolution) : Prop :=
  ∀ (id : PatternId) ty, table.patternTypes[id]? = some ty → (forest.pattern id).Sized pool ty

end Resolution

theorem Resolver.Steps.sized {visits : List Visit} {reads : List Read} {state after : Resolver}
    (howns : ∀ visit ∈ visits, forest.Owns visit) (h : Steps pool visits reads state after)
    (hstate : state.queue.IsSilent → state.table.Sized forest pool) :
    after.queue.IsSilent → after.table.Sized forest pool := by
  induction h with
  | refl => exact hstate
  | tail _ hstep ih =>
    cases hstep with
    | offer => simp
    | @patternType pattern ty hvisit hsized =>
      intro hnone id ty' hty'
      rw [Resolution.setPatternType, Std.ExtTreeMap.getElem?_insert] at hty'
      split at hty'
      next heq =>
        obtain rfl : pattern.id = id := by simpa using heq
        cases hty'
        have hown : forest.pattern pattern.id = pattern := howns _ hvisit
        rw [hown]
        exact hsized hnone
      next => exact ih hnone id ty' hty'
    | exprType | identLocal => exact ih
    | other hpatterns =>
      intro hnone id ty hty
      exact ih hnone id ty (hpatterns ▸ hty)

/-- **A table made without a diagnostic gives record patterns types of their size.** -/
theorem Resolution.Produced.sized (hforest : forest.Closed) {log : List PatternId}
    {table : Resolution} (h : Produced forest pool log [] table) :
    table.Sized forest pool := by
  refine Produced.induction (motive := fun offered table => offered = [] →
    table.Sized forest pool) hforest ?_ ?_ h rfl
  · intro _ id ty hty
    simp [Resolution.empty] at hty
  · intro visits reads offered table after howns ih hsteps hnone
    rw [List.append_eq_nil_iff] at hnone
    refine hsteps.sized howns (fun _ => ih hnone.1) ?_
    exact (Queue.isSilent_iff hsteps.config_eq).2 hnone.2

/-! ## Operands -/

namespace Resolution

/-- Every expression that has a type is applied as it should be. -/
def Applied (forest : Forest) (pool : Pool) (table : Resolution) : Prop :=
  ∀ id, id ∈ table.exprTypes → (forest.expr id).Applied pool

end Resolution

theorem Resolver.Steps.applied {visits : List Visit} {reads : List Read} {state after : Resolver}
    (howns : ∀ visit ∈ visits, forest.Owns visit) (h : Steps pool visits reads state after)
    (hstate : state.queue.IsSilent → state.table.Applied forest pool) :
    after.queue.IsSilent → after.table.Applied forest pool := by
  induction h with
  | refl => exact hstate
  | tail _ hstep ih =>
    cases hstep with
    | offer => simp
    | @exprType expr ty hvisit happlied =>
      intro hnone id hid
      rcases Std.ExtTreeMap.mem_insert.mp hid with heq | hmem
      · obtain rfl := Nat.compare_eq_eq.mp heq
        have hown : forest.expr expr.id = expr := howns _ hvisit
        rw [hown]
        exact happlied hnone
      · exact ih hnone id hmem
    | patternType | identLocal => exact ih
    | other _ hexprs =>
      intro hnone id hid
      exact ih hnone id (hexprs ▸ hid)

/-- **In a table made without a diagnostic every expression is applied as it should be.** -/
theorem Resolution.Produced.applied (hforest : forest.Closed) {log : List PatternId}
    {table : Resolution} (h : Produced forest pool log [] table) :
    table.Applied forest pool := by
  refine Produced.induction (motive := fun offered table => offered = [] →
    table.Applied forest pool) hforest ?_ ?_ h rfl
  · intro _ id hid
    simp [Resolution.empty] at hid
  · intro visits reads offered table after howns ih hsteps hnone
    rw [List.append_eq_nil_iff] at hnone
    refine hsteps.applied howns (fun _ => ih hnone.1) ?_
    exact (Queue.isSilent_iff hsteps.config_eq).2 hnone.2

end GuardedMatch
