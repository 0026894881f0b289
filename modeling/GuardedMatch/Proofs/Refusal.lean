import GuardedMatch.Proofs.Checking
import GuardedMatch.Proofs.Slots

/-!
# When a unit is compiled

A unit is refused before anything is done: for a pattern that it names and that does not exist, for
a guard on nothing, or because it was called off.  If it is not refused, all its passes end,
provided that references can be followed, there are slots for the locals it stores and no type
contains itself.  In particular, planning never comes across a pattern that was not analysed.

* `CompilationUnit.exists_passed`: the passes end.
* `CompilationUnit.compile_outcome`: when a unit is refused, and for what.
-/

namespace GuardedMatch

/-! ## Names mean declared locals -/

mutual

/-- What a name in a pattern can see was visible from the start or is bound in the pattern. -/
theorem Pattern.visible_subset : ∀ (pattern : Pattern) (visible : List LocalId),
    ∀ read ∈ pattern.reads visible, ∀ id ∈ read.visible,
      id ∈ visible ∨ .binding id ∈ pattern.visits
  | .record _ _ components _, visible, read, hread, id, hid => by
    refine (Pattern.visible_subset_all components visible read hread id hid).imp_right ?_
    exact List.mem_cons_of_mem _
  | .guarded _ patterns condition _, visible, read, hread, id, hid => by
    rw [Pattern.reads, List.mem_append] at hread
    rw [Pattern.visits, List.mem_cons, List.mem_append]
    rcases hread with hread | hread
    · have := Pattern.visible_subset_all patterns visible read hread id hid
      tauto
    · have hcondition := condition.visible_subset _ read hread id hid
      rw [List.mem_append] at hcondition
      have hbound : id ∈ Pattern.bindingsAll patterns → .binding id ∈ Pattern.visitsAll patterns :=
        Pattern.binding_mem_visitsAll patterns
      tauto
  | .type .., _, _, hread, _, _ | .any .., _, _, hread, _, _ | .missing _, _, _, hread, _, _ => by
    cases hread

theorem Pattern.visible_subset_all : ∀ (patterns : List Pattern) (visible : List LocalId),
    ∀ read ∈ Pattern.readsAll patterns visible, ∀ id ∈ read.visible,
      id ∈ visible ∨ .binding id ∈ Pattern.visitsAll patterns
  | [], _, _, hread, _, _ => by cases hread
  | pattern :: patterns, visible, read, hread, id, hid => by
    rw [Pattern.readsAll, List.mem_append] at hread
    rw [Pattern.visitsAll, List.mem_append]
    rcases hread with hread | hread
    · have := pattern.visible_subset visible read hread id hid
      tauto
    · have := Pattern.visible_subset_all patterns visible read hread id hid
      tauto

theorem Expr.visible_subset : ∀ (expr : Expr) (visible : List LocalId),
    ∀ read ∈ expr.reads visible, ∀ id ∈ read.visible, id ∈ visible ∨ .binding id ∈ expr.visits
  | .ident .., visible, read, hread, id, hid => by
    obtain rfl := List.mem_singleton.mp hread
    exact .inl hid
  | .field _ receiver _ _, visible, read, hread, id, hid
  | .unary _ _ receiver _, visible, read, hread, id, hid =>
    (receiver.visible_subset visible read hread id hid).imp_right (List.mem_cons_of_mem _)
  | .binary own op left right span, visible, read, hread, id, hid => by
    rw [Expr.reads, List.mem_append] at hread
    rw [Expr.visits, List.mem_cons, List.mem_append]
    rcases hread with hread | hread
    · have := left.visible_subset visible read hread id hid
      tauto
    · have hright := right.visible_subset _ read hread id hid
      have hbound : id ∈ left.bindings (op == .and) → .binding id ∈ left.visits :=
        left.binding_mem_visits
      split at hright
      · rw [List.mem_append] at hright
        tauto
      · tauto
  | .instanceOf _ tested pattern _, visible, read, hread, id, hid => by
    rw [Expr.reads, List.mem_append] at hread
    rw [Expr.visits, List.mem_cons, List.mem_append]
    rcases hread with hread | hread
    · have := tested.visible_subset visible read hread id hid
      tauto
    · have := pattern.visible_subset visible read hread id hid
      tauto
  | .call _ _ args _ _, visible, read, hread, id, hid => by
    refine (Expr.visible_subset_all args visible read hread id hid).imp_right ?_
    exact List.mem_cons_of_mem _
  | .bool .., _, _, hread, _, _ | .int .., _, _, hread, _, _ | .missing _, _, _, hread, _, _ => by
    cases hread

theorem Expr.visible_subset_all : ∀ (exprs : List Expr) (visible : List LocalId),
    ∀ read ∈ Expr.readsAll exprs visible, ∀ id ∈ read.visible,
      id ∈ visible ∨ .binding id ∈ Expr.visitsAll exprs
  | [], _, _, hread, _, _ => by cases hread
  | expr :: exprs, visible, read, hread, id, hid => by
    rw [Expr.readsAll, List.mem_append] at hread
    rw [Expr.visitsAll, List.mem_append]
    rcases hread with hread | hread
    · have := expr.visible_subset visible read hread id hid
      tauto
    · have := Expr.visible_subset_all exprs visible read hread id hid
      tauto

end

namespace CompilationUnit

variable {unit : CompilationUnit} {pool : Pool}

/-- Every reference in the arena, from a scope and to a selector can be followed.  The patterns that
a unit names need not exist. -/
structure Grounded (unit : CompilationUnit) : Prop where
  arena : unit.arena.InRange
  sites : ∀ site ∈ unit.sites, site.selector < unit.arena.exprs.size ∧
    ∀ id ∈ site.scope.locals, id < unit.arena.locals.size
  switches : ∀ switch ∈ unit.switches, switch.selector < unit.arena.exprs.size ∧
    ∀ id ∈ switch.scope.locals, id < unit.arena.locals.size

/-- All patterns that a unit names exist. -/
def Known (unit : CompilationUnit) : Prop := ∀ id ∈ unit.patterns, id < unit.arena.patterns.size

theorem Grounded.inRange (h : unit.Grounded) (hknown : unit.Known) : unit.InRange := by
  refine ⟨h.arena, fun node hnode => ?_⟩
  have hpattern : ∀ id ∈ unit.patterns, .pattern id ∈ unit.arena.nodes :=
    fun id hid => by simp [Arena.nodes, hknown id hid]
  simp only [roots, entries, List.map_append, List.mem_append, List.map_flatMap,
    List.mem_flatMap] at hnode
  rcases hnode with ⟨site, hsite, hnode⟩ | ⟨switch, hswitch, hnode⟩
  · simp only [List.map_cons, List.map_nil, List.mem_cons, List.not_mem_nil, or_false] at hnode
    rcases hnode with rfl | rfl
    · simp [Arena.nodes, (h.sites site hsite).1]
    · exact hpattern _ (List.mem_append_left _ (List.mem_map_of_mem hsite))
  · simp only [List.map_cons, List.map_map, List.mem_cons, List.mem_map] at hnode
    rcases hnode with rfl | ⟨id, hid, rfl⟩
    · simp [Arena.nodes, (h.switches switch hswitch).1]
    · exact hpattern id (List.mem_append_right _ (List.mem_flatMap.mpr ⟨switch, hswitch, hid⟩))

/-- The locals in the scope of a root are declared. -/
theorem Grounded.scope (h : unit.Grounded) {entry : Node × Scope} (hentry : entry ∈ unit.entries) :
    ∀ id ∈ entry.2.locals, id < unit.arena.locals.size := by
  rw [entries, List.mem_append, List.mem_flatMap, List.mem_flatMap] at hentry
  rcases hentry with ⟨site, hsite, hentry⟩ | ⟨switch, hswitch, hentry⟩
  · have hscope := (h.sites site hsite).2
    simp only [List.mem_cons, List.not_mem_nil, or_false] at hentry
    rcases hentry with rfl | rfl <;> exact hscope
  · have hscope := (h.switches switch hswitch).2
    rw [List.mem_cons, List.mem_map] at hentry
    rcases hentry with rfl | ⟨id, -, rfl⟩ <;> exact hscope

/-! ## The passes end -/

/-- After a resolution, no name strays. -/
theorem not_strays (h : unit.Grounded) (hknown : unit.Known) (hacyclic : unit.arena.Acyclic)
    {types : List Ty × List Ty} {resolved : Resolver}
    (hrun : EStateM.run (unit.resolveAll pool unit.arena.forest)
      ⟨Resolution.empty, .new .unlimited⟩ = .ok types resolved) :
    ¬ resolved.table.Strays unit.arena.forest.locals.size := by
  rintro ⟨id, target, htarget, hout⟩
  rw [(Arena.isForest_forest unit.arena).locals] at hout
  have hsteps := ((unit.resolve_only pool unit.arena.forest).ensures _).of_ok hrun
  rcases hsteps.identLocals htarget with hempty | ⟨read, hread, -, hvisible⟩
  · simp [Resolution.empty] at hempty
  obtain ⟨⟨node, scope⟩, hentry, hread⟩ := List.mem_flatMap.mp hread
  have hseen : target ∈ scope.locals ∨ .binding target ∈ unit.arena.forest.visitsOf node := by
    cases node with
    | pattern id => exact Pattern.visible_subset _ _ read hread target hvisible
    | expr id => exact Expr.visible_subset _ _ read hread target hvisible
  rcases hseen with hscope | hbound
  · exact absurd (h.scope hentry target hscope) hout.not_gt
  · have hnode := (h.inRange hknown).roots node (List.mem_map_of_mem hentry)
    have hlost := hacyclic.not_lost h.arena hnode _ hbound
    rw [(Arena.isForest_forest unit.arena).locals] at hlost
    exact hlost hout

/-- The analysis of a unit ends, if every guard is on some pattern. -/
theorem exists_covered (h : unit.Grounded) (hknown : unit.Known) (hacyclic : unit.arena.Acyclic)
    (hguards : unit.emptyGuard? = none) {types : List Ty × List Ty} {resolved : Resolver}
    (hrun : EStateM.run (unit.resolveAll pool unit.arena.forest)
      ⟨Resolution.empty, .new .unlimited⟩ = .ok types resolved) :
    ∃ analysed, EStateM.run (unit.analyseAll resolved.table unit.arena.forest)
      ⟨FlowRecord.empty, .new .unlimited⟩ = .ok () analysed ∧
      analysed.record.Covered (unit.visits unit.arena.forest) := by
  have hwalks := (unit.analyse_walks_anyhow resolved.table unit.arena.forest).ensures
    ⟨FlowRecord.empty, .new .unlimited⟩
  obtain ⟨⟨⟩, analysed, hanalysed, hcovers, -⟩ := hwalks.exists_ok (by
    rintro _ (⟨visit, hvisit, hblocks⟩ | ⟨-, hstrays⟩)
    · obtain ⟨node, hnode, hmem⟩ := exists_node (h.inRange hknown) hvisit
      exact hacyclic.not_blocks h.arena (emptyGuard_eq_none_iff.mp hguards) hnode visit hmem
        hblocks
    · exact not_strays h hknown hacyclic hrun hstrays)
  exact ⟨analysed, hanalysed, hcovers.covered⟩

theorem check_succeeds (h : unit.Grounded) (hknown : unit.Known) (hacyclic : unit.arena.Acyclic)
    (hpool : ∀ ty, ¬ Relation.TransGen pool.Contains ty ty) (table : Resolution) (types : List Ty) :
    Succeeds (unit.findings pool table unit.arena.forest types) := by
  have hleads : ∀ switch ∈ unit.switches, ∀ id ∈ switch.cases,
      (unit.arena.forest.pattern id).Each (Visit.Leads unit.arena.forest.locals.size) := by
    intro switch hswitch id hid
    have hmem : id ∈ unit.patterns :=
      List.mem_append_right _ (List.mem_flatMap.mpr ⟨switch, hswitch, hid⟩)
    have hnode : .pattern id ∈ unit.arena.nodes := by simp [Arena.nodes, hknown id hmem]
    exact hacyclic.not_lost h.arena hnode
  rw [findings]
  exact .mapM fun root hroot =>
    Forest.findings_succeeds hpool (hleads root.1 (List.of_mem_zip hroot).1) ..

/-- **The passes over a unit end.** -/
theorem exists_passed (h : unit.Grounded) (hacyclic : unit.arena.Acyclic)
    (hstored : (unit.storedLocals unit.arena.forest).dedup.length < 65536)
    (hpool : ∀ ty, ¬ Relation.TransGen pool.Contains ty ty) (hknown : unit.Known)
    (hguards : unit.emptyGuard? = none) (localTable : Bool) :
    ∃ passed, unit.passesApart pool localTable = .ok passed := by
  obtain ⟨⟨siteTypes, switchTypes⟩, resolved, hresolved⟩ :=
    exists_resolved (h.inRange hknown) hacyclic pool (.new .unlimited)
  obtain ⟨analysed, hanalysed, hcovered⟩ := exists_covered h hknown hacyclic hguards hresolved
  obtain ⟨checks, hchecks⟩ := check_succeeds h hknown hacyclic hpool resolved.table switchTypes
  have hpatterns : ∀ id ∈ unit.patterns,
      analysed.record.Covered (unit.arena.forest.pattern id).visits := by
    intro id hid
    refine hcovered.sub ?_
    rw [patterns, List.mem_append, List.mem_map, List.mem_flatMap] at hid
    rcases hid with ⟨site, hsite, rfl⟩ | ⟨switch, hswitch, hid⟩
    · exact visitsOf_subset (mem_entries_of_site hsite).2
    · exact visitsOf_subset ((mem_entries_of_switch hswitch).2 id hid)
  let facts : Facts := ⟨pool, resolved.table, analysed.record⟩
  obtain ⟨emitted, planner, hplan⟩ : ∃ emitted planner,
      EStateM.run (unit.plan facts unit.arena.forest false siteTypes switchTypes)
        (Planner.new localTable) = .ok emitted planner :=
    exists_planned siteTypes switchTypes localTable hpatterns (Nat.le_of_lt_succ hstored)
  rw [passesApart, hresolved]
  dsimp only
  rw [hanalysed]
  dsimp only
  rw [hchecks]
  dsimp only
  rw [hplan]
  exact ⟨_, rfl⟩

/-! ## Refusals -/

/-- The first pattern that a unit names and that does not exist. -/
def IsFirstUnknown (unit : CompilationUnit) (id : PatternId) : Prop :=
  ∃ before after, unit.patterns = before ++ id :: after ∧ unit.arena.patterns.size ≤ id ∧
    ∀ other ∈ before, other < unit.arena.patterns.size

def IsEmptyGuard (unit : CompilationUnit) (id : PatternId) : Prop :=
  ∃ condition span, unit.arena.patterns[id]? = some (.guarded [] condition span)

/-- What there is to say against compiling a unit, in order of precedence. -/
def Refuses (unit : CompilationUnit) (cancelled : Bool) : CompileError → Prop
  | .unknownPattern id => unit.IsFirstUnknown id
  | .emptyGuard id =>
    unit.Known ∧ unit.IsEmptyGuard id ∧ ∀ other < id, ¬ unit.IsEmptyGuard other
  | .cancelled => unit.Known ∧ (∀ id, ¬ unit.IsEmptyGuard id) ∧ cancelled = true ∧
    (unit.sites ≠ [] ∨ unit.switches ≠ [])
  | .notAnalysed _ => False

theorem unknownPattern_eq_some_iff {id : PatternId} :
    unit.unknownPattern? = some id ↔ unit.IsFirstUnknown id := by
  rw [unknownPattern?, List.find?_eq_some_iff_append, IsFirstUnknown]
  constructor
  · rintro ⟨hid, before, after, heq, hbefore⟩
    exact ⟨before, after, heq, by simpa using hid, fun other hother => by
      simpa using hbefore other hother⟩
  · rintro ⟨before, after, heq, hid, hbefore⟩
    exact ⟨by simpa using hid, before, after, heq, fun other hother => by
      simpa using hbefore other hother⟩

theorem unknownPattern_eq_none_iff : unit.unknownPattern? = none ↔ unit.Known := by
  simp [unknownPattern?, Known]

theorem isEmptyGuard_iff {id : PatternId} : unit.IsEmptyGuard id ↔
    ∃ node, unit.arena.patterns[id]? = some node ∧ node.isEmptyGuard = true := by
  constructor
  · rintro ⟨condition, span, hnode⟩
    exact ⟨_, hnode, rfl⟩
  · rintro ⟨node, hnode, hempty⟩
    cases node with
    | guarded patterns condition span =>
      cases patterns with
      | nil => exact ⟨condition, span, hnode⟩
      | cons => cases hempty
    | type | record | any => cases hempty

theorem emptyGuard_eq_some_iff {id : PatternId} : unit.emptyGuard? = some id ↔
    unit.IsEmptyGuard id ∧ ∀ other < id, ¬ unit.IsEmptyGuard other := by
  simp only [emptyGuard?, isEmptyGuard_iff, Array.findIdx?_eq_some_iff_getElem]
  constructor
  · rintro ⟨hlt, hempty, hbefore⟩
    refine ⟨⟨_, Array.getElem?_eq_getElem hlt, hempty⟩, ?_⟩
    rintro other hother ⟨node, hnode, hguard⟩
    obtain ⟨hlt', rfl⟩ := Array.getElem?_eq_some_iff.mp hnode
    exact hbefore other hother hguard
  · rintro ⟨⟨node, hnode, hempty⟩, hbefore⟩
    obtain ⟨hlt, rfl⟩ := Array.getElem?_eq_some_iff.mp hnode
    refine ⟨hlt, hempty, fun other hother hguard => ?_⟩
    exact hbefore other hother ⟨_, Array.getElem?_eq_getElem (by omega), hguard⟩

theorem emptyGuard_eq_none_iff_forall :
    unit.emptyGuard? = none ↔ ∀ id, ¬ unit.IsEmptyGuard id := by
  rw [emptyGuard_eq_none_iff]
  simp only [isEmptyGuard_iff]
  constructor
  · rintro hall id ⟨node, hnode, hempty⟩
    have hfalse := hall node (Array.mem_of_getElem? hnode)
    rw [hempty] at hfalse
    cases hfalse
  · intro hnone node hnode
    obtain ⟨id, hid⟩ := Array.getElem?_of_mem hnode
    by_contra hempty
    exact hnone id ⟨node, hid, by simpa using hempty⟩

theorem isIdle_eq_false_iff : unit.isIdle = false ↔ unit.sites ≠ [] ∨ unit.switches ≠ [] := by
  rw [isIdle, Bool.and_eq_false_iff, List.isEmpty_eq_false_iff, List.isEmpty_eq_false_iff]

/-- A unit is refused for what there is to say against it. -/
theorem refusal_eq_some_iff {cancelled : Bool} {reason : CompileError} :
    unit.refusal? cancelled = some reason ↔ unit.Refuses cancelled reason := by
  rw [refusal?, invalid?]
  cases hunknown : unit.unknownPattern? with
  | some found =>
    have hknown : ¬ unit.Known := by simp [← unknownPattern_eq_none_iff, hunknown]
    cases reason <;>
      simp [Refuses, hknown, ← unknownPattern_eq_some_iff, hunknown]
  | none =>
    have hknown : unit.Known := unknownPattern_eq_none_iff.mp hunknown
    cases hguard : unit.emptyGuard? with
    | some found =>
      have hsome : ¬ ∀ id, ¬ unit.IsEmptyGuard id := by
        simp [← emptyGuard_eq_none_iff_forall, hguard]
      cases reason <;> simp only [Refuses, hknown, hsome, ← unknownPattern_eq_some_iff, hunknown,
        ← emptyGuard_eq_some_iff, hguard] <;> simp
    | none =>
      have hnone : ∀ id, ¬ unit.IsEmptyGuard id := emptyGuard_eq_none_iff_forall.mp hguard
      cases reason <;> simp only [Refuses, hknown, hnone, ← unknownPattern_eq_some_iff, hunknown,
        ← isIdle_eq_false_iff] <;> simp

/-- **A unit is compiled unless it is refused**: a failure is a refusal, for a reason that there is
against the unit, and there is no other outcome than these.  No pass runs into a fault, and planning
finds every pattern analysed. -/
theorem compile_outcome (hgrounded : unit.Grounded) (hacyclic : unit.arena.Acyclic)
    (hstored : (unit.storedLocals unit.arena.forest).dedup.length < 65536)
    (hpool : ∀ ty, ¬ Relation.TransGen pool.Contains ty ty) (config : Config) (cancelled : Bool) :
    (∀ failure, unit.compile pool config cancelled = .error failure ↔
      ∃ reason, failure = .refused reason ∧ unit.Refuses cancelled reason) ∧
    ((∃ compiled, unit.compile pool config cancelled = .ok compiled) ↔
      ∀ reason, ¬ unit.Refuses cancelled reason) := by
  simp only [← refusal_eq_some_iff]
  rw [compile_eq]
  cases hrefusal : unit.refusal? cancelled with
  | some reason => simp [eq_comm]
  | none =>
    have hnone : ∀ reason, ¬ unit.Refuses cancelled reason := by
      simp [← refusal_eq_some_iff, hrefusal]
    have hknown : unit.unknownPattern? = none := by
      cases hunknown : unit.unknownPattern? with
      | none => rfl
      | some id => exact (hnone (.unknownPattern id) (unknownPattern_eq_some_iff.mp hunknown)).elim
    rw [unknownPattern_eq_none_iff] at hknown
    have hguards : unit.emptyGuard? = none := by
      cases hguard : unit.emptyGuard? with
      | none => rfl
      | some id =>
        exact (hnone (.emptyGuard id) ⟨hknown, emptyGuard_eq_some_iff.mp hguard⟩).elim
    obtain ⟨⟨compiled, offered⟩, hpassed⟩ :=
      exists_passed hgrounded hacyclic hstored hpool hknown hguards config.localTable
    simp [hpassed, Except.map]

theorem grounded_innerBoxes : innerBoxes.Grounded where
  arena := Arena.inRange_of_nodes (by decide)
  sites := by decide
  switches := by decide

theorem compile_outcome_innerBoxes :
    innerBoxes.Grounded ∧ innerBoxes.arena.Acyclic ∧
    (innerBoxes.storedLocals innerBoxes.arena.forest).dedup.length < 65536 ∧
    (∀ ty, ¬ Relation.TransGen Pool.shapes.Contains ty ty) ∧
    (∀ config, ∃ compiled, innerBoxes.compile Pool.shapes config false = .ok compiled) ∧
    ∀ config, innerBoxes.compile Pool.shapes config true = .error (.refused .cancelled) := by
  have hstored : (innerBoxes.storedLocals innerBoxes.arena.forest).dedup.length < 65536 := by
    decide +kernel
  have hrefusal : innerBoxes.refusal? false = none ∧
      innerBoxes.refusal? true = some .cancelled := by decide +kernel
  have houtcome := compile_outcome grounded_innerBoxes acyclic_innerBox hstored
    Pool.regular_shapes.acyclic
  refine ⟨grounded_innerBoxes, acyclic_innerBox, hstored, Pool.regular_shapes.acyclic, ?_, ?_⟩
  · refine fun config => (houtcome config false).2.mpr fun reason hreason => ?_
    rw [← refusal_eq_some_iff, hrefusal.1] at hreason
    cases hreason
  · exact fun config => ((houtcome config true).1 _).mpr
      ⟨.cancelled, rfl, refusal_eq_some_iff.mp hrefusal.2⟩

end CompilationUnit

end GuardedMatch
