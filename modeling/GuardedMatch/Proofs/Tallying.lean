import GuardedMatch.Proofs.Matching
import GuardedMatch.Proofs.Snapshots
import GuardedMatch.Proofs.Typing

/-!
# Conditions that are never true

A guarded pattern whose condition is known to be false is reported once, however often it is met,
since a guarded pattern that has a type is not entered again.  So over any number of resolutions
with one table the reports are those of the different guarded patterns that can be reached.

* `Resolver.Course.tallies`: a resolution reports the guarded patterns that it meets and that had
  no type, if their conditions are never true.
* `Forest.resolveRequests`: resolutions one after the other.
-/

namespace GuardedMatch

/-- A guarded pattern with this condition is met, and the condition is never true. -/
def Visit.Vain (visits : List Visit) (id : PatternId) (condition : Expr) : Prop :=
  ∃ patterns span, .pattern (.guarded id patterns condition span) ∈ visits ∧
    condition.truth = some false

theorem Visit.vain_append {visits visits' : List Visit} {id : PatternId} {condition : Expr} :
    Visit.Vain (visits ++ visits') id condition ↔
      Visit.Vain visits id condition ∨ Visit.Vain visits' id condition := by
  simp only [Visit.Vain, List.mem_append, or_and_right, exists_or]

theorem Visit.vain_guarded {visits : List Visit} {id other : PatternId} {patterns : List Pattern}
    {condition condition' : Expr} {span : Span} :
    Visit.Vain (.pattern (.guarded id patterns condition span) :: visits) other condition' ↔
      (other = id ∧ condition' = condition ∧ condition.truth = some false) ∨
        Visit.Vain visits other condition' := by
  constructor
  · rintro ⟨patterns', span', hvisit, htruth⟩
    rcases List.mem_cons.mp hvisit with heq | hvisit
    · injection Visit.pattern.inj heq with hid _ hcondition
      exact .inl ⟨hid, hcondition, hcondition ▸ htruth⟩
    · exact .inr ⟨patterns', span', hvisit, htruth⟩
  · rintro (⟨rfl, rfl, htruth⟩ | ⟨patterns', span', hvisit, htruth⟩)
    · exact ⟨patterns, span, List.mem_cons_self, htruth⟩
    · exact ⟨patterns', span', List.mem_cons_of_mem _ hvisit, htruth⟩

/-- The report of a condition that is never true. -/
def Diagnostic.isVain (diagnostic : Diagnostic) : Bool := diagnostic.code == .guardAlwaysFalse

/-! ## Guarded patterns that have types -/

namespace Resolution

/-- The guarded patterns among the visits have types. -/
def Guarded (table : Resolution) (visits : List Visit) : Prop :=
  ∀ id patterns condition span, .pattern (.guarded id patterns condition span) ∈ visits →
    id ∈ table.patternTypes

/-- Below a guarded pattern among the visits that has a type, all guarded patterns have types. -/
def Entered (table : Resolution) (visits : List Visit) : Prop :=
  ∀ id patterns condition span, .pattern (.guarded id patterns condition span) ∈ visits →
    id ∈ table.patternTypes → table.Guarded (Pattern.guarded id patterns condition span).visits

variable {table after : Resolution} {visits first : List Visit}

theorem Guarded.mono (h : table.Guarded visits) (hkept : ∀ id, id ∈ table.patternTypes →
    id ∈ after.patternTypes) : after.Guarded visits :=
  fun id patterns condition span hvisit => hkept id (h id patterns condition span hvisit)

theorem Entered.mono (h : table.Entered visits) (hsub : first ⊆ visits) : table.Entered first :=
  fun id patterns condition span hvisit => h id patterns condition span (hsub hvisit)

end Resolution

namespace Resolver

/-- All guarded patterns among the visits have types in the end.  Those of them that had no type and
whose conditions are never true are told, each once. -/
structure Tallies (visits : List Visit) (state after : Resolver) : Prop where
  kept : ∀ id, id ∈ state.table.patternTypes → id ∈ after.table.patternTypes
  guarded : after.table.Guarded visits
  told : ∃ reports, after.queue = state.queue.addAll reports ∧
    ∃ vain : List (PatternId × Expr), (vain.map Prod.fst).Nodup ∧
      (∀ id condition, (id, condition) ∈ vain ↔
        id ∉ state.table.patternTypes ∧ Visit.Vain visits id condition) ∧
      (reports.filter Diagnostic.isVain).Perm
        (vain.map fun guard => Diagnostic.guardAlwaysFalse guard.2.span)

namespace Tallies

variable {forest : Forest} {visits visits' first rest : List Visit} {state mid after : Resolver}

/-- Nothing is told where all guarded patterns have types. -/
theorem quiet (h : state.table.Guarded visits)
    (hkept : ∀ id, id ∈ state.table.patternTypes → id ∈ after.table.patternTypes)
    (reports : List Diagnostic) (hqueue : after.queue = state.queue.addAll reports)
    (hvain : reports.filter Diagnostic.isVain = []) : Tallies visits state after := by
  refine ⟨hkept, h.mono hkept, reports, hqueue, [], .nil, fun id condition => ⟨nofun, ?_⟩, ?_⟩
  · rintro ⟨hnone, patterns, span, hvisit, -⟩
    exact absurd (h id patterns condition span hvisit) hnone
  · rw [hvain, List.map_nil]

theorem perm (h : Tallies visits state after) (hperm : visits.Perm visits') :
    Tallies visits' state after := by
  obtain ⟨reports, hqueue, vain, hnodup, hvain, htold⟩ := h.told
  refine ⟨h.kept, fun id patterns condition span hvisit => h.guarded id patterns condition span
    (hperm.symm.subset hvisit), reports, hqueue, vain, hnodup, fun id condition => ?_, htold⟩
  simp only [hvain, Visit.Vain, hperm.mem_iff]

/-- What is met first has its type when it is met again. -/
theorem trans (h : Tallies first state mid) (h' : Tallies rest mid after)
    (hpatterns : ∀ id, id ∈ mid.table.patternTypes → id ∈ state.table.patternTypes ∨
      ∃ pattern, .pattern pattern ∈ first ∧ pattern.id = id)
    (hfirst : ∀ visit ∈ first, forest.Owns visit) (hrest : ∀ visit ∈ rest, forest.Owns visit) :
    Tallies (first ++ rest) state after := by
  obtain ⟨reports, hqueue, vain, hnodup, hvain, hperm⟩ := h.told
  obtain ⟨reports', hqueue', vain', hnodup', hvain', hperm'⟩ := h'.told
  refine ⟨fun id hid => h'.kept id (h.kept id hid), ?_, reports ++ reports',
    by rw [hqueue', hqueue, Queue.addAll_append], vain ++ vain', ?_, ?_, ?_⟩
  · intro id patterns condition span hvisit
    rcases List.mem_append.mp hvisit with hvisit | hvisit
    · exact h'.kept id (h.guarded id patterns condition span hvisit)
    · exact h'.guarded id patterns condition span hvisit
  · rw [List.map_append, List.nodup_append]
    refine ⟨hnodup, hnodup', ?_⟩
    rintro id hid _ hid' rfl
    obtain ⟨⟨_, condition⟩, hmem, rfl⟩ := List.mem_map.mp hid
    obtain ⟨⟨_, condition'⟩, hmem', heq⟩ := List.mem_map.mp hid'
    obtain ⟨-, patterns, span, hvisit, -⟩ := (hvain _ _).mp hmem
    obtain rfl : _ = _ := heq
    exact ((hvain' _ _).mp hmem').1 (h.guarded _ _ _ _ hvisit)
  · intro id condition
    rw [List.mem_append, hvain, hvain', Visit.vain_append]
    constructor
    · rintro (⟨hnone, hmet⟩ | ⟨hnone, hmet⟩)
      · exact ⟨hnone, .inl hmet⟩
      · exact ⟨fun hid => hnone (h.kept id hid), .inr hmet⟩
    · rintro ⟨hnone, hmet | hmet⟩
      · exact .inl ⟨hnone, hmet⟩
      · -- A guarded pattern that has got its type on the way was met there.
        by_cases hid : id ∈ mid.table.patternTypes
        · obtain ⟨patterns, span, hvisit, htruth⟩ := hmet
          obtain ⟨pattern, hpattern, rfl⟩ := (hpatterns id hid).resolve_left hnone
          have hown : forest.pattern pattern.id = pattern := hfirst _ hpattern
          have hown' : forest.pattern pattern.id = .guarded pattern.id patterns condition span :=
            hrest _ hvisit
          rw [hown.symm.trans hown'] at hpattern
          exact .inl ⟨hnone, patterns, span, hpattern, htruth⟩
        · exact .inr ⟨hid, hmet⟩
  · rw [List.map_append, List.filter_append]
    exact hperm.append hperm'

/-- Of a guarded pattern without a type it is told after its condition. -/
theorem condition {id : PatternId} {patterns : List Pattern} {condition : Expr} {span : Span}
    {ty : Ty} {last : Resolver} (hid : id ∉ mid.table.patternTypes)
    (habsent : ∀ pattern, .pattern pattern ∈ condition.visits → pattern.id ≠ id)
    (h : Tallies condition.visits ((Change.patternType id ty).apply mid) last) :
    Tallies (.pattern (.guarded id patterns condition span) :: condition.visits) mid
      (tagged id condition last) := by
  obtain ⟨reports, hqueue, vain, hnodup, hvain, hperm⟩ := h.told
  have htypes := tagged_keeps (·.patternTypes) (fun _ _ => rfl) (fun _ _ _ => rfl) id condition last
  have hset : ∀ other, other ∈ ((Change.patternType id ty).apply mid).table.patternTypes ↔
      other = id ∨ other ∈ mid.table.patternTypes := fun other => by
    rw [Change.apply, Resolution.setPatternType, Std.ExtTreeMap.mem_insert, Nat.compare_eq_eq,
      eq_comm]
  refine ⟨fun other hother => ?_, ?_, reports ++ (if condition.truth = some false then
    [.guardAlwaysFalse condition.span] else []), ?_, vain ++ (if condition.truth = some false then
    [(id, condition)] else []), ?_, fun other condition' => ?_, ?_⟩
  · rw [htypes]
    exact h.kept other ((hset other).mpr (.inr hother))
  · intro other patterns' condition' span' hvisit
    rw [htypes]
    rcases List.mem_cons.mp hvisit with heq | hvisit
    · obtain rfl : other = id := congrArg Pattern.id (Visit.pattern.inj heq)
      exact h.kept other ((hset other).mpr (.inl rfl))
    · exact h.guarded other patterns' condition' span' hvisit
  · rw [tagged, Queue.addAll_append, hqueue]
    split <;> rfl
  · have hnot : id ∉ vain.map Prod.fst := fun hmem => by
      obtain ⟨⟨_, condition'⟩, hguard, rfl⟩ := List.mem_map.mp hmem
      exact ((hvain _ _).mp hguard).1 ((hset _).mpr (.inl rfl))
    split
    next =>
      rw [List.map_append, List.nodup_append]
      refine ⟨hnodup, List.nodup_singleton _, ?_⟩
      rintro other hmem _ hself rfl
      obtain rfl : other = id := List.mem_singleton.mp hself
      exact hnot hmem
    next => rwa [List.append_nil]
  · have hown : (other, condition') ∈ (if condition.truth = some false then [(id, condition)]
        else []) ↔ other = id ∧ condition' = condition ∧ condition.truth = some false := by
      split <;> simp_all
    have hbelow : Visit.Vain condition.visits other condition' → other ≠ id := by
      rintro ⟨patterns', span', hvisit, -⟩
      exact habsent _ hvisit
    rw [List.mem_append, hown, hvain, Visit.vain_guarded, hset]
    constructor
    · rintro (⟨hnone, hmet⟩ | hself)
      · exact ⟨fun hother => hnone (.inr hother), .inr hmet⟩
      · exact ⟨hself.1 ▸ hid, .inl hself⟩
    · rintro ⟨hnone, hself | hmet⟩
      · exact .inr hself
      · exact .inl ⟨not_or.mpr ⟨hbelow hmet, hnone⟩, hmet⟩
  · rw [List.filter_append, List.map_append]
    refine hperm.append ?_
    split <;> exact .of_eq rfl

end Tallies

namespace Course

variable {forest : Forest} {pool : Pool} {locals : Array LocalDecl} {outer : Scope}
  {visits visits' : List Visit} {reads : List Read} {state after : Resolver}

/-- What gets a type along the way is entered to the end. -/
theorem entered (hcourse : Course pool locals outer visits reads state after)
    (htallies : Tallies visits state after) (howns : ∀ visit ∈ visits, forest.Owns visit)
    (h : state.table.Entered visits') (howns' : ∀ visit ∈ visits', forest.Owns visit) :
    after.table.Entered visits' := by
  intro id patterns condition span hvisit hid
  rcases hcourse.touches.mem_patternTypes hid with hstate | ⟨other, hother, heq⟩
  · exact (h id patterns condition span hvisit hstate).mono htallies.kept
  · have hown : forest.pattern other.id = other := howns _ hother
    have hown' : forest.pattern id = .guarded id patterns condition span := howns' _ hvisit
    obtain rfl : other = .guarded id patterns condition span := by rw [← hown, heq, hown']
    exact fun other others condition' span' hvisit' => htallies.guarded other others condition'
      span' (hcourse.whole id patterns condition span hother hvisit')

/-- **A resolution tells of the guarded patterns that it meets and that had no type**, if their
conditions are never true. -/
theorem tallies (h : Course pool locals outer visits reads state after)
    (howns : ∀ visit ∈ visits, forest.Owns visit) (hentered : state.table.Entered visits) :
    Tallies visits state after := by
  induction h with
  | refl => exact .quiet nofun (fun _ h => h) [] rfl rfl
  | @change state change hchange =>
    cases change with
    | report diagnostic =>
      refine .quiet nofun (fun _ h => h) [diagnostic] rfl ?_
      have hcode := (ErrorCode.ne_of_isMistake hchange).1
      simp [Diagnostic.isVain, hcode]
    | conversion => exact .quiet nofun (fun _ h => h) [] rfl rfl
    | patternType | exprType | localType | identLocal => exact hchange.elim
  | binding | expr | ident => exact .quiet (by simp [Resolution.Guarded]) (fun _ h => h) [] rfl rfl
  | pattern state hunguarded ty =>
    refine .quiet (fun id patterns condition span hvisit => ?_)
      (fun id hid => Std.ExtTreeMap.mem_insert.mpr (.inr hid)) [] rfl rfl
    exact absurd (Visit.pattern.inj (List.mem_singleton.mp hvisit)).symm
      (hunguarded id patterns condition span)
  | trans hcourse _ ih ih' =>
    obtain ⟨hfirst, hrest⟩ := List.forall_mem_append.mp howns
    have hmid := ih hfirst (hentered.mono (List.subset_append_left ..))
    have hready := hcourse.entered hmid hfirst (hentered.mono (List.subset_append_right ..)) hrest
    exact hmid.trans (ih' hrest hready) (fun _ => hcourse.touches.mem_patternTypes) hfirst hrest
  | perm _ hperm ih =>
    exact (ih (fun visit hvisit => howns visit (hperm.subset hvisit))
      (hentered.mono hperm.subset)).perm hperm
  | @skip state id patterns condition span reads hid =>
    exact .quiet (hentered id patterns condition span (Pattern.self_mem_visits _) hid)
      (fun _ h => h) [] rfl rfl
  | @enter id patterns condition span ty _ _ state mid last hid hcourse _ ih ih' =>
    rw [Pattern.visits, List.forall_mem_cons, List.forall_mem_append] at howns
    obtain ⟨hself, hpatterns, hcondition⟩ := howns
    -- Wherever its number is met below, it is the guarded pattern itself, which is not there.
    have habsent : ∀ visits : List Visit, (∀ visit ∈ visits, forest.Owns visit) →
        .pattern (.guarded id patterns condition span) ∉ visits →
        ∀ pattern, .pattern pattern ∈ visits → pattern.id ≠ id := by
      intro visits hvisits hnot pattern hpattern heq
      have hown : forest.pattern pattern.id = pattern := hvisits _ hpattern
      have hown' : forest.pattern id = .guarded id patterns condition span := hself
      rw [heq, hown'] at hown
      exact hnot (hown ▸ hpattern)
    have hbelow := habsent _ hcondition Expr.guarded_not_mem_visits
    have hmid := ih hpatterns (hentered.mono Visit.left_subset)
    have hnew : id ∉ mid.table.patternTypes := fun hmem => by
      rcases hcourse.touches.mem_patternTypes hmem with hstate | ⟨other, hother, heq⟩
      · exact hid hstate
      · exact habsent _ hpatterns Pattern.guarded_not_mem_visitsAll other hother heq
    have hready : (mid.table.setPatternType id ty).Entered condition.visits := by
      have hmid' := hcourse.entered hmid hpatterns (hentered.mono Visit.right_subset) hcondition
      intro other others condition' span' hvisit hother
      rcases Std.ExtTreeMap.mem_insert.mp hother with heq | hmem
      · exact absurd (Nat.compare_eq_eq.mp heq).symm (hbelow _ hvisit)
      · exact (hmid' other others condition' span' hvisit hmem).mono
          fun _ h => Std.ExtTreeMap.mem_insert.mpr (.inr h)
    exact (hmid.trans (.condition hnew hbelow (ih' hcondition hready))
      (fun _ => hcourse.touches.mem_patternTypes) hpatterns
      (List.forall_mem_cons.mpr ⟨hself, hcondition⟩)).perm List.perm_middle

end Course

end Resolver

/-! ## Arenas -/

/-- The guarded patterns that are met in a tree are those that can be reached. -/
theorem Arena.Acyclic.guarded_visit_iff {arena : Arena} (h : arena.Acyclic) {node : Node}
    {id : PatternId} {condition : Expr} :
    (∃ patterns span, .pattern (.guarded id patterns condition span) ∈ arena.forest.visitsOf node) ↔
      Relation.ReflTransGen arena.Refers node (.pattern id) ∧ ∃ patterns conditionId span,
        arena.patterns[id]? = some (.guarded patterns conditionId span) ∧
          arena.forest.expr conditionId = condition := by
  constructor
  · rintro ⟨patterns, span, hvisit⟩
    refine ⟨(h.grounded node).reaches_of_mem_nodesOf (List.mem_filterMap.mpr ⟨_, hvisit, rfl⟩), ?_⟩
    rcases h.exists_patternNode hvisit with ⟨-, hmissing⟩ | ⟨found, hfound, htree⟩
    · cases hmissing
    · cases found with
      | guarded patterns' conditionId span' =>
        injection htree with _ _ hcondition
        exact ⟨patterns', conditionId, span', hfound, hcondition.symm⟩
      | type | record | any => cases htree
  · rintro ⟨hpath, patterns, conditionId, span, hnode, rfl⟩
    have hvisit := h.visit_mem hpath
    rw [Forest.visit, h.pattern_eq hnode] at hvisit
    exact ⟨_, _, hvisit⟩

/-- The conditions that are never true, in terms of the arena. -/
theorem Arena.Acyclic.vain_iff {arena : Arena} (h : arena.Acyclic) {roots : List Node}
    {id : PatternId} {condition : Expr} :
    Visit.Vain (roots.flatMap arena.forest.visitsOf) id condition ↔
      (∃ root ∈ roots, Relation.ReflTransGen arena.Refers root (.pattern id)) ∧
      (∃ patterns conditionId span,
        arena.patterns[id]? = some (.guarded patterns conditionId span) ∧
        arena.forest.expr conditionId = condition) ∧ condition.fold = some (.bool false) := by
  rw [Visit.Vain, ← Expr.truth_eq_some]
  constructor
  · rintro ⟨patterns, span, hvisit, htruth⟩
    obtain ⟨root, hroot, hvisit⟩ := List.mem_flatMap.mp hvisit
    obtain ⟨hpath, hnode⟩ := h.guarded_visit_iff.mp ⟨patterns, span, hvisit⟩
    exact ⟨⟨root, hroot, hpath⟩, hnode, htruth⟩
  · rintro ⟨⟨root, hroot, hpath⟩, hnode, htruth⟩
    obtain ⟨patterns, span, hvisit⟩ := h.guarded_visit_iff.mpr ⟨hpath, hnode⟩
    exact ⟨patterns, span, List.mem_flatMap.mpr ⟨root, hroot, hvisit⟩, htruth⟩

/-! ## Resolutions one after the other -/

/-- A pattern or an expression that is to be resolved. -/
inductive Request
  | pattern (id : PatternId) (expected : Ty) (scope : Scope)
  | expr (id : ExprId) (scope : Scope)

namespace Request

def node : Request → Node
  | pattern id _ _ => .pattern id
  | expr id _ => .expr id

def scope : Request → Scope
  | pattern _ _ scope | expr _ scope => scope

def resolve (forest : Forest) (pool : Pool) : Request → ResolveM Ty
  | pattern id expected scope => (forest.pattern id).resolve pool forest.locals expected scope
  | expr id scope => (forest.expr id).resolve pool forest.locals scope

/-- What is read on the way, and what is visible there. -/
def reads (forest : Forest) : Request → List Read
  | pattern id _ scope => (forest.pattern id).reads scope.locals
  | expr id scope => (forest.expr id).reads scope.locals

end Request

/-- Resolve one after the other, with one table and one queue. -/
def Forest.resolveRequests (forest : Forest) (pool : Pool) (requests : List Request) :
    ResolveM Unit :=
  requests.forM fun request => discard (request.resolve forest pool)

namespace Resolution

variable {arena : Arena}

/-- All guarded patterns of the forest that have a type were entered to the end. -/
def EnteredIn (forest : Forest) (table : Resolution) : Prop :=
  ∀ visits : List Visit, (∀ visit ∈ visits, forest.Owns visit) → table.Entered visits

theorem exists_resolve (hrange : arena.InRange) (hacyclic : arena.Acyclic) (pool : Pool)
    {request : Request} (hnode : request.node ∈ arena.nodes) (state : Resolver) :
    ∃ ty after, EStateM.run (request.resolve arena.forest pool) state = .ok ty after ∧
      Resolver.Course pool arena.forest.locals request.scope (arena.forest.visitsOf request.node)
        (request.reads arena.forest) state after := by
  have hlost := hacyclic.not_lost hrange hnode
  have hfollows : Resolver.Follows pool arena.forest.locals request.scope
      (arena.forest.visitsOf request.node) (request.reads arena.forest)
      (request.resolve arena.forest pool) := by
    cases request with
    | pattern id expected scope =>
      exact (arena.forest.pattern id).resolve_follows pool expected (.refl _ scope)
    | expr id scope => exact (arena.forest.expr id).resolve_follows pool (.refl _ scope)
  exact (hfollows.ensures state).exists_ok
    fun _ ⟨visit, hvisit, hvisitLost⟩ => hlost visit hvisit hvisitLost

/-- **Resolutions one after the other tell of the guarded patterns that they meet.** -/
theorem exists_resolveRequests_tallies (hrange : arena.InRange) (hacyclic : arena.Acyclic)
    (pool : Pool) {requests : List Request}
    (hrequests : ∀ request ∈ requests, request.node ∈ arena.nodes) {state : Resolver}
    (hentered : state.table.EnteredIn arena.forest) :
    ∃ after, EStateM.run (arena.forest.resolveRequests pool requests) state = .ok () after ∧
      Resolver.Tallies ((requests.map Request.node).flatMap arena.forest.visitsOf) state after := by
  induction requests generalizing state with
  | nil => exact ⟨state, rfl, .quiet nofun (fun _ h => h) [] rfl rfl⟩
  | cons request requests ih =>
    obtain ⟨hnode, hrequests⟩ := List.forall_mem_cons.mp hrequests
    obtain ⟨ty, mid, hrun, hcourse⟩ := exists_resolve hrange hacyclic pool hnode state
    have hclosed := hacyclic.closed request.node
    have htallies := hcourse.tallies hclosed (hentered _ hclosed)
    have hentered' : mid.table.EnteredIn arena.forest := fun visits hvisits =>
      hcourse.entered htallies hclosed (hentered visits hvisits) hvisits
    obtain ⟨after, hafter, htallies'⟩ := ih hrequests hentered'
    refine ⟨after, ?_, ?_⟩
    · have hdiscard : EStateM.run (discard (request.resolve arena.forest pool)) state =
          .ok () mid := run_bind hrun
      exact (run_bind hdiscard).trans hafter
    · rw [List.map_cons, List.flatMap_cons]
      refine htallies.trans htallies' (fun _ => hcourse.touches.mem_patternTypes) hclosed
        fun visit hvisit => ?_
      obtain ⟨other, -, hvisit⟩ := List.mem_flatMap.mp hvisit
      exact hacyclic.closed other visit hvisit

/-- **A condition that is never true is reported once.**  Whatever patterns and expressions are
resolved with a table that is empty at first, the reports of such conditions are those of the
different guarded patterns that can be reached from them, and each is about the span of the
condition. -/
theorem exists_resolveRequests_once (hrange : arena.InRange) (hacyclic : arena.Acyclic)
    (pool : Pool) {requests : List Request}
    (hrequests : ∀ request ∈ requests, request.node ∈ arena.nodes) :
    ∃ after, EStateM.run (arena.forest.resolveRequests pool requests) ⟨.empty, .new .unlimited⟩ =
        .ok () after ∧
      ∃ guards : List (PatternId × ExprId), (guards.map Prod.fst).Nodup ∧
        (∀ id condition, (id, condition) ∈ guards ↔
          (∃ request ∈ requests, Relation.ReflTransGen arena.Refers request.node (.pattern id)) ∧
          (∃ patterns span, arena.patterns[id]? = some (.guarded patterns condition span)) ∧
          (arena.forest.expr condition).fold = some (.bool false)) ∧
        (after.queue.diagnostics.filter Diagnostic.isVain).Perm
          (guards.map fun guard => .guardAlwaysFalse (arena.forest.expr guard.2).span) := by
  have hempty : Resolution.empty.EnteredIn arena.forest := fun _ _ id _ _ _ _ hid => by
    simp [Resolution.empty] at hid
  have hentered : (⟨.empty, .new .unlimited⟩ : Resolver).table.EnteredIn arena.forest := hempty
  obtain ⟨after, hrun, htallies⟩ :=
    exists_resolveRequests_tallies hrange hacyclic pool hrequests hentered
  obtain ⟨reports, hqueue, vain, hnodup, hvain, hperm⟩ := htallies.told
  have hreports : after.queue.diagnostics = reports := by
    rw [hqueue, Queue.diagnostics_addAll rfl]
    rfl
  rw [← hreports] at hperm
  have hguard : ∀ id condition, (id, condition) ∈ vain ↔
      (∃ request ∈ requests, Relation.ReflTransGen arena.Refers request.node (.pattern id)) ∧
      (∃ patterns conditionId span,
        arena.patterns[id]? = some (.guarded patterns conditionId span) ∧
        arena.forest.expr conditionId = condition) ∧ condition.fold = some (.bool false) := by
    intro id condition
    rw [hvain, and_iff_right (by simp [Resolution.empty]), hacyclic.vain_iff]
    simp only [List.mem_map, exists_exists_and_eq_and]
  have hown : ∀ guard ∈ vain, arena.forest.expr guard.2.id = guard.2 := by
    rintro ⟨id, condition⟩ hmem
    obtain ⟨-, ⟨-, conditionId, -, -, rfl⟩, -⟩ := (hguard id condition).mp hmem
    rw [hacyclic.id_expr]
  refine ⟨after, hrun, vain.map fun guard => (guard.1, guard.2.id), ?_, ?_, ?_⟩
  · rw [List.map_map]
    exact hnodup
  · intro id condition
    rw [List.mem_map]
    constructor
    · rintro ⟨⟨_, tree⟩, hmem, heq⟩
      obtain ⟨rfl, rfl⟩ := Prod.mk.inj heq
      obtain ⟨hpath, ⟨patterns, conditionId, span, hnode, rfl⟩, hfold⟩ := (hguard _ tree).mp hmem
      rw [hacyclic.id_expr]
      exact ⟨hpath, ⟨patterns, span, hnode⟩, hfold⟩
    · rintro ⟨hpath, ⟨patterns, span, hnode⟩, hfold⟩
      refine ⟨(id, arena.forest.expr condition), (hguard _ _).mpr
        ⟨hpath, ⟨patterns, condition, span, hnode, rfl⟩, hfold⟩, ?_⟩
      rw [hacyclic.id_expr]
  · rw [List.map_map]
    refine hperm.trans (.of_eq (List.map_congr_left fun guard hmem => ?_))
    rw [Function.comp_apply, hown guard hmem]

/-- The pattern `(_ && false)` stands in two boxes, and the test for one of them is the condition of
the other: `Box((_ && false)) && true instanceof Box((_ && false))`.  Apart from them stands
`(_ && !true)`. -/
def neverBoxed : Arena where
  patterns := #[.any Span.none, .guarded [0] 0 Span.none,
    .record ⟨some "Box", Span.none⟩ [1] Span.none, .record ⟨some "Box", Span.none⟩ [1] Span.none,
    .guarded [2] 2 Span.none, .any Span.none, .guarded [5] 3 Span.none]
  exprs := #[.bool false ⟨4, 9⟩, .bool true Span.none, .instanceOf 1 3 Span.none,
    .unary .not 1 ⟨20, 25⟩]
  locals := #[]

/-- The condition on the boxes is resolved between them. -/
def neverBoxedTwice : List Request := [.pattern 4 Ty.object .empty, .expr 2 .empty,
  .pattern 6 Ty.object .empty, .pattern 4 Ty.object .empty]

/-- The pattern in the boxes is met five times, and reported once. -/
theorem exists_resolveRequests_neverBoxed_once :
    ∃ after, EStateM.run (neverBoxed.forest.resolveRequests Pool.shapes neverBoxedTwice)
        ⟨.empty, .new .unlimited⟩ = .ok () after ∧
      ∃ guards : List (PatternId × ExprId), (guards.map Prod.fst).Nodup ∧ guards.length = 2 ∧
        [Diagnostic.guardAlwaysFalse ⟨4, 9⟩, Diagnostic.guardAlwaysFalse ⟨20, 25⟩].Perm
          (guards.map fun guard => .guardAlwaysFalse (neverBoxed.forest.expr guard.2).span) := by
  have hacyclic : neverBoxed.Acyclic :=
    Arena.acyclic_of_rank (Node.rank (10 * ·) (15 * · + 5)) (by decide)
  obtain ⟨after, hrun, guards, hnodup, -, hperm⟩ := exists_resolveRequests_once
    (Arena.inRange_of_nodes (by decide)) hacyclic Pool.shapes
    (by decide : ∀ request ∈ neverBoxedTwice, request.node ∈ neverBoxed.nodes)
  have hreports : (match EStateM.run
        (neverBoxed.forest.resolveRequests Pool.shapes neverBoxedTwice)
        ⟨.empty, .new .unlimited⟩ with
      | .ok _ after => after.queue.diagnostics.filter Diagnostic.isVain
      | .error _ _ => []) =
      [Diagnostic.guardAlwaysFalse ⟨4, 9⟩, Diagnostic.guardAlwaysFalse ⟨20, 25⟩] := by
    decide +kernel
  rw [hrun] at hreports
  dsimp only at hreports
  rw [hreports] at hperm
  exact ⟨after, hrun, guards, hnodup, by simpa using hperm.length_eq.symm, hperm⟩

end Resolution

end GuardedMatch
