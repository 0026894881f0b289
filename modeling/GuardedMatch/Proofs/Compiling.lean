import Mathlib.Data.List.Flatten
import GuardedMatch.Proofs.Analysing
import GuardedMatch.Proofs.Data
import GuardedMatch.Proofs.Matrix
import GuardedMatch.Proofs.Resolving
import GuardedMatch.Session

/-!
# Units

A unit is resolved and analysed one root after another: first the sites, then the switches, and of
each the selector first.  Every identifier that is met is read in the scope of its root.

* `CompilationUnit.resolve_only`: resolving a unit makes steps on what its roots visit.
* `CompilationUnit.analyse_walks`: analysing a unit goes through all that its roots lead to, and
  reports nothing if identifiers mean visible locals.
* `CompilationUnit.reads_assigned`: if nothing is referred to twice, they do, so no read of an
  unassigned local is ever reported.
-/

namespace GuardedMatch

/-! ## Trees of references in range -/

namespace Arena

variable {arena : Arena}

theorem exists_pattern {id : PatternId} (h : .pattern id ∈ arena.nodes) :
    ∃ node, arena.patterns[id]? = some node :=
  ⟨_, Array.getElem?_eq_getElem (by simpa [nodes] using h)⟩

theorem exists_expr {id : ExprId} (h : .expr id ∈ arena.nodes) :
    ∃ node, arena.exprs[id]? = some node :=
  ⟨_, Array.getElem?_eq_getElem (by simpa [nodes] using h)⟩

/-- What holds of all nodes and of all declared locals holds of what a tree visits. -/
theorem Acyclic.forall_visits (h : arena.Acyclic) (hrange : arena.InRange)
    {property : Visit → Prop} (hnodes : ∀ node ∈ arena.nodes, property (arena.forest.visit node))
    (hlocals : ∀ id < arena.locals.size, property (.binding id)) {node : Node}
    (hnode : node ∈ arena.nodes) : ∀ visit ∈ arena.forest.visitsOf node, property visit := by
  induction node using h.wellFounded.induction with
  | _ node ih =>
    intro visit hvisit
    rw [h.visitsOf_eq, List.mem_cons, List.mem_append, List.mem_map, List.mem_flatMap] at hvisit
    rcases hvisit with rfl | ⟨binding, hbinding, rfl⟩ | ⟨other, hother, hvisit⟩
    · exact hnodes node hnode
    · exact hlocals binding (hrange.locals node binding hbinding)
    · exact ih other hother (hrange.nodes node other hother) visit hvisit

/-- No visit leads nowhere. -/
theorem Acyclic.not_lost (h : arena.Acyclic) (hrange : arena.InRange) {node : Node}
    (hnode : node ∈ arena.nodes) :
    ∀ visit ∈ arena.forest.visitsOf node, ¬ visit.Lost arena.forest.locals.size := by
  rw [(isForest_forest arena).locals]
  refine h.forall_visits hrange (fun node hnode => ?_) (fun id hid => hid.not_ge) hnode
  cases node with
  | pattern id =>
    obtain ⟨found, hfound⟩ := exists_pattern hnode
    rw [Forest.visit, h.pattern_eq hfound]
    cases found <;> exact fun hlost => hlost
  | expr id =>
    obtain ⟨found, hfound⟩ := exists_expr hnode
    rw [Forest.visit, h.expr_eq hfound]
    cases found <;> exact fun hlost => hlost

/-- Where every guard is on some pattern, no visit stops an analysis. -/
theorem Acyclic.not_blocks (h : arena.Acyclic) (hrange : arena.InRange)
    (hguards : ∀ node ∈ arena.patterns, node.isEmptyGuard = false) {node : Node}
    (hnode : node ∈ arena.nodes) : ∀ visit ∈ arena.forest.visitsOf node, ¬ visit.Blocks := by
  refine h.forall_visits hrange (fun node hnode => ?_) (fun _ _ hblocks => hblocks) hnode
  cases node with
  | pattern id =>
    obtain ⟨found, hfound⟩ := exists_pattern hnode
    have hguard := hguards found (Array.mem_of_getElem? hfound)
    rw [Forest.visit, h.pattern_eq hfound]
    rcases found with _ | _ | ⟨_ | ⟨first, rest⟩, condition, span⟩ | _
    · exact fun hblocks => hblocks
    · exact fun hblocks => hblocks
    · cases hguard
    · exact fun hblocks => hblocks
    · exact fun hblocks => hblocks
  | expr id =>
    obtain ⟨found, hfound⟩ := exists_expr hnode
    rw [Forest.visit, h.expr_eq hfound]
    cases found <;> exact fun hblocks => hblocks

end Arena

/-! ## What names mean after a resolution -/

namespace Resolver.Steps

variable {pool : Pool} {visits : List Visit} {reads : List Read} {state after : Resolver}

/-- A local that a name has come to mean was visible to it. -/
theorem identLocals (h : Steps pool visits reads state after) {id : ExprId} {target : LocalId}
    (htarget : after.table.identLocals[id]? = some target) :
    state.table.identLocals[id]? = some target ∨
      ∃ read ∈ reads, read.id = id ∧ target ∈ read.visible := by
  induction h with
  | refl => exact .inl htarget
  | tail _ hstep ih =>
    cases hstep with
    | offer | patternType | exprType => exact ih htarget
    | other _ _ hlocals => exact ih (hlocals ▸ htarget)
    | @identLocal read found hread hfound =>
      rw [Resolution.setIdentLocal, Std.ExtTreeMap.getElem?_insert] at htarget
      split at htarget
      next heq =>
        cases htarget
        exact .inr ⟨read, hread, Nat.compare_eq_eq.mp heq, hfound⟩
      next => exact ih htarget

/-- If each identifier is read in one place, it means a local that is visible there. -/
theorem sees {queue : Queue} (h : Steps pool visits reads ⟨Resolution.empty, queue⟩ after)
    (hnodup : (reads.map Read.node).Nodup) : after.table.Sees reads := by
  intro read hread target htarget
  rcases h.identLocals htarget with hempty | ⟨found, hfound, heq, hvisible⟩
  · simp [Resolution.empty] at hempty
  · have hsame : found = read :=
      List.inj_on_of_nodup_map hnodup hfound hread (congrArg Node.expr heq)
    exact hsame ▸ hvisible

/-- Resolution reports no unassigned locals. -/
theorem code_ne (h : Steps pool visits reads ⟨Resolution.empty, .new .unlimited⟩ after) :
    ∀ diagnostic ∈ after.queue.diagnostics, diagnostic.code ≠ .unassignedLocal := by
  induction h with
  | refl => exact nofun
  | tail _ hstep ih =>
    cases hstep with
    | patternType | exprType | identLocal | other => exact ih
    | offer hcode =>
      intro diagnostic hmem
      rcases Queue.mem_add hmem with hmem | rfl | hmarker
      · exact ih diagnostic hmem
      · exact hcode
      · rw [hmarker]
        nofun

end Resolver.Steps

/-! ## Loops -/

namespace Resolver.Only

variable {pool : Pool} {count : Nat} {visits : List Visit} {reads : List Read} {α β : Type}

theorem discard {action : ResolveM α} (h : Only pool count visits reads action) :
    Only pool count visits reads (Functor.discard action) :=
  ⟨fun state => Ensures.discards (h.ensures state)⟩

theorem mapM {step : α → ResolveM β} : ∀ (items : List α),
    (∀ item ∈ items, Only pool count visits reads (step item)) →
    Only pool count visits reads (items.mapM step)
  | [], _ => pure _
  | item :: items, h => by
    rw [List.forall_mem_cons] at h
    rw [List.mapM_cons]
    exact bind h.1 fun _ => bind (mapM items h.2) fun _ => pure _

theorem forM {step : α → ResolveM PUnit} : ∀ (items : List α),
    (∀ item ∈ items, Only pool count visits reads (step item)) →
    Only pool count visits reads (items.forM step)
  | [], _ => pure _
  | item :: items, h => by
    rw [List.forall_mem_cons] at h
    exact bind h.1 fun _ => forM items h.2

end Resolver.Only

/-! ## The roots of a unit -/

/-- The identifiers in the tree of a node that is resolved where the given locals are visible. -/
def Forest.readsOf (forest : Forest) (visible : List LocalId) : Node → List Read
  | .pattern id => (forest.pattern id).reads visible
  | .expr id => (forest.expr id).reads visible

theorem Forest.node_readsOf_sublist (forest : Forest) (visible : List LocalId) (node : Node) :
    ((forest.readsOf visible node).map Read.node).Sublist (forest.nodesOf node) := by
  cases node with
  | pattern id => exact (forest.pattern id).node_reads_sublist visible
  | expr id => exact (forest.expr id).node_reads_sublist visible

namespace CompilationUnit

/-- What a unit starts from, in order, and the scope in which each is resolved. -/
def entries (unit : CompilationUnit) : List (Node × Scope) :=
  unit.sites.flatMap (fun site =>
      [(.expr site.selector, site.scope), (.pattern site.pattern, site.scope)]) ++
    unit.switches.flatMap fun switch =>
      (.expr switch.selector, switch.scope) ::
        switch.cases.map fun id => (.pattern id, switch.scope)

def roots (unit : CompilationUnit) : List Node := unit.entries.map Prod.fst

/-- Every reference in the arena or from outside can be followed. -/
structure InRange (unit : CompilationUnit) : Prop where
  arena : unit.arena.InRange
  roots : ∀ node ∈ unit.roots, node ∈ unit.arena.nodes

variable (unit : CompilationUnit) (forest : Forest)

/-- All that is visited from the roots. -/
def visits : List Visit := unit.roots.flatMap forest.visitsOf

/-- All identifiers, each with the locals that are visible to it. -/
def reads : List Read := unit.entries.flatMap fun entry => forest.readsOf entry.2.locals entry.1

theorem visits_eq : unit.visits forest =
    unit.sites.flatMap (fun site => (forest.expr site.selector).visits ++
      (forest.pattern site.pattern).visits) ++
    unit.switches.flatMap fun switch => (forest.expr switch.selector).visits ++
      switch.cases.flatMap fun id => (forest.pattern id).visits := by
  simp [visits, roots, entries, List.flatMap_map, List.map_flatMap, List.flatMap_append,
    List.flatMap_assoc, Forest.visitsOf]

variable {unit forest} {pool : Pool} {table : Resolution} {id : Nat} {scope : Scope}

theorem visitsOf_subset {entry : Node × Scope} (h : entry ∈ unit.entries) :
    forest.visitsOf entry.1 ⊆ unit.visits forest :=
  fun _ hvisit => List.mem_flatMap.mpr ⟨entry.1, List.mem_map_of_mem h, hvisit⟩

theorem readsOf_subset {entry : Node × Scope} (h : entry ∈ unit.entries) :
    forest.readsOf entry.2.locals entry.1 ⊆ unit.reads forest :=
  fun _ hread => List.mem_flatMap.mpr ⟨entry, h, hread⟩

theorem mem_entries_of_site {site : Site} (h : site ∈ unit.sites) :
    (.expr site.selector, site.scope) ∈ unit.entries ∧
      (.pattern site.pattern, site.scope) ∈ unit.entries := by
  simp only [entries, List.mem_append, List.mem_flatMap]
  exact ⟨.inl ⟨site, h, by simp⟩, .inl ⟨site, h, by simp⟩⟩

theorem mem_entries_of_switch {switch : Switch} (h : switch ∈ unit.switches) :
    (.expr switch.selector, switch.scope) ∈ unit.entries ∧
      ∀ id ∈ switch.cases, (.pattern id, switch.scope) ∈ unit.entries := by
  simp only [entries, List.mem_append, List.mem_flatMap]
  exact ⟨.inr ⟨switch, h, by simp⟩, fun id hid => .inr ⟨switch, h, by simp [hid]⟩⟩

/-! ## Resolving a unit -/

theorem expr_only (h : (.expr id, scope) ∈ unit.entries) :
    Resolver.Only pool forest.locals.size (unit.visits forest) (unit.reads forest)
      ((forest.expr id).resolve pool forest.locals scope) :=
  ((forest.expr id).resolve_only pool forest.locals scope).mono (visitsOf_subset h)
    (readsOf_subset h)

theorem pattern_only (h : (.pattern id, scope) ∈ unit.entries) (expected : Ty) :
    Resolver.Only pool forest.locals.size (unit.visits forest) (unit.reads forest)
      ((forest.pattern id).resolve pool forest.locals expected scope) :=
  ((forest.pattern id).resolve_only pool forest.locals expected scope).mono (visitsOf_subset h)
    (readsOf_subset h)

theorem resolve_only (pool : Pool) (forest : Forest) (unit : CompilationUnit) :
    Resolver.Only pool forest.locals.size (unit.visits forest) (unit.reads forest)
      (unit.resolveAll pool forest) := by
  rw [resolveAll]
  refine .bind (.mapM _ fun site hsite => ?_) fun siteTypes =>
    .bind (.mapM _ fun switch hswitch => ?_) fun switchTypes => .pure _
  · obtain ⟨hselector, hpattern⟩ := mem_entries_of_site hsite
    exact .bind (expr_only hselector) fun ty => .bind (pattern_only hpattern ty) fun _ => .pure _
  · obtain ⟨hselector, hcases⟩ := mem_entries_of_switch hswitch
    exact .bind (expr_only hselector) fun ty =>
      .bind (.forM _ fun id hid => .discard (pattern_only (hcases id hid) ty)) fun _ => .pure _

/-- Where nothing is referred to twice, each identifier of a unit is read in one place. -/
theorem nodup_reads (hacyclic : unit.arena.Acyclic)
    (honce : (unit.arena.references unit.roots).Nodup) :
    ((unit.reads unit.arena.forest).map Read.node).Nodup := by
  refine (hacyclic.nodup_roots honce).sublist ?_
  rw [reads, roots, List.flatMap_map, List.map_flatMap]
  exact List.Sublist.flatMap_right _ fun entry _ => Forest.node_readsOf_sublist ..

/-! ## Analysing a unit -/

section

variable {safe : Prop} (hsees : safe → table.Sees (unit.reads forest))

include hsees

theorem expr_walks (h : (.expr id, scope) ∈ unit.entries) :
    Analyser.Walks table forest.locals safe (forest.expr id).visits
      ((forest.expr id).analyse table forest.locals (Flow.initial scope.locals))
      fun after => ∀ target ∈ scope.locals, after.isAssigned target = true := by
  have hinitial : ∀ target ∈ scope.locals, (Flow.initial scope.locals).isAssigned target = true :=
    fun _ => Flow.isAssigned_initial.mpr
  have hwalks := (forest.expr id).analyse_walks table forest.locals scope.locals
    (fun hsafe read hread => hsees hsafe read (readsOf_subset h hread)) fun _ => hinitial
  exact hwalks.weaken fun after hafter target htarget =>
    hafter.isAssigned (hinitial target htarget)

theorem pattern_walks (h : (.pattern id, scope) ∈ unit.entries) {flow : Flow}
    (hflow : ∀ target ∈ scope.locals, flow.isAssigned target = true) :
    Analyser.Walks table forest.locals safe (forest.pattern id).visits
      ((forest.pattern id).analyse table forest.locals flow)
      (flow.Carries fun _ => (forest.pattern id).bindings) :=
  (forest.pattern id).analyse_walks table forest.locals scope.locals
    (fun hsafe read hread => hsees hsafe read (readsOf_subset h hread)) fun _ => hflow

/-- An analysis of a unit goes through all that its roots lead to, and is safe if identifiers mean
visible locals. -/
theorem analyse_walks :
    Analyser.Walks table forest.locals safe (unit.visits forest) (unit.analyseAll table forest)
      fun _ => True := by
  rw [visits_eq, analyseAll]
  refine .bind (.forM _ fun site hsite => ?_) fun _ _ => .forM _ fun switch hswitch => ?_
  · obtain ⟨hselector, hpattern⟩ := mem_entries_of_site hsite
    exact .bind (expr_walks hsees hselector) fun entry hentry =>
      .discard (pattern_walks hsees hpattern hentry)
  · obtain ⟨hselector, hcases⟩ := mem_entries_of_switch hswitch
    exact .bind (expr_walks hsees hselector) fun entry hentry =>
      .forM _ fun id hid => .discard (pattern_walks hsees (hcases id hid) hentry)

end

theorem analyse_walks_anyhow (table : Resolution) (forest : Forest) (unit : CompilationUnit) :
    Analyser.Walks table forest.locals False (unit.visits forest) (unit.analyseAll table forest)
      fun _ => True :=
  analyse_walks False.elim

end CompilationUnit

/-! ## What is reported -/

/-- A note on a case that is dominated, or on one that is missing for a type. -/
def Diagnostic.IsOnCases (pool : Pool) (types : List Ty) (note : Diagnostic) : Prop :=
  (∃ span earlier, note = Diagnostic.dominatedCase span earlier) ∨
    ∃ span, ∃ ty ∈ types, note = Diagnostic.notExhaustive span (pool.display ty)

/-- The check of a switch reports dominated cases and missing ones. -/
theorem Forest.isOnCases_of_findings {forest : Forest} {pool : Pool} {table : Resolution}
    {cases : List PatternId} {selector : Ty} {span : Span} {report : SwitchReport}
    {offered : List Diagnostic}
    (h : forest.findings pool table cases selector span = .ok (report, offered)) :
    ∀ note ∈ offered, note.IsOnCases pool [selector] := by
  rw [findings] at h
  obtain ⟨dominated, _, h⟩ := ok_of_bind h
  obtain ⟨notes, hnotes, h⟩ := ok_of_bind h
  obtain ⟨exhaustive, _, h⟩ := ok_of_bind h
  have hdominated : ∀ note ∈ notes, note.IsOnCases pool [selector] := by
    intro note hnote
    obtain ⟨one, _, hone⟩ := (mem_of_mapM_ok hnotes).2 note hnote
    rw [DominatedCase.diagnostic] at hone
    obtain ⟨_, _, hone⟩ := ok_of_bind hone
    obtain ⟨_, _, hone⟩ := ok_of_bind hone
    cases hone
    exact .inl ⟨_, _, rfl⟩
  cases h
  refine List.forall_mem_append.mpr ⟨hdominated, ?_⟩
  cases exhaustive with
  | true => exact List.forall_mem_nil _
  | false =>
    refine List.forall_mem_singleton.mpr ?_
    exact .inr ⟨span, selector, List.mem_singleton_self _, rfl⟩

namespace CompilationUnit

variable {unit : CompilationUnit} {pool : Pool}

theorem check_isOnCases {table : Resolution} {forest : Forest} {types : List Ty}
    {checks : List (SwitchReport × List Diagnostic)}
    (h : unit.findings pool table forest types = .ok checks) :
    ∀ note ∈ checks.flatMap (·.2), note.IsOnCases pool types := by
  intro note hnote
  obtain ⟨⟨report, offered⟩, hcheck, hoffered⟩ := List.mem_flatMap.mp hnote
  obtain ⟨⟨switch, ty⟩, hroot, hrun⟩ := (mem_of_mapM_ok h).2 _ hcheck
  refine (Forest.isOnCases_of_findings hrun note hoffered).imp_right ?_
  rintro ⟨span, other, hother, rfl⟩
  obtain rfl := List.mem_singleton.mp hother
  exact ⟨span, other, (List.of_mem_zip hroot).2, rfl⟩

theorem check_code_ne {table : Resolution} {forest : Forest} {types : List Ty}
    {checks : List (SwitchReport × List Diagnostic)}
    (h : unit.findings pool table forest types = .ok checks) :
    ∀ diagnostic ∈ checks.flatMap (·.2), diagnostic.code ≠ .unassignedLocal := by
  intro diagnostic hdiagnostic hcode
  rcases check_isOnCases h diagnostic hdiagnostic with ⟨_, _, rfl⟩ | ⟨_, _, _, rfl⟩
  · cases hcode
  · cases hcode

theorem emptyGuard_eq_none_iff :
    unit.emptyGuard? = none ↔ ∀ node ∈ unit.arena.patterns, node.isEmptyGuard = false := by
  rw [emptyGuard?, Array.findIdx?_eq_none_iff]

/-- What is offered comes from the three passes that offer something, and the code comes from
planning. -/
theorem exists_of_passes {localTable : Bool} {compiled : Compiled} {offered : List Diagnostic}
    (h : unit.passesApart pool localTable = .ok (compiled, offered)) :
    ∃ types resolved analysed checks planner,
      EStateM.run (unit.resolveAll pool unit.arena.forest) ⟨Resolution.empty, .new .unlimited⟩ =
        .ok types resolved ∧
      EStateM.run (unit.analyseAll resolved.table unit.arena.forest)
        ⟨FlowRecord.empty, .new .unlimited⟩ = .ok () analysed ∧
      unit.findings pool resolved.table unit.arena.forest types.2 = .ok checks ∧
      EStateM.run (unit.plan ⟨pool, resolved.table, analysed.record⟩ unit.arena.forest false types.1
        types.2) (Planner.new localTable) = .ok compiled.emitted planner ∧
      offered = resolved.queue.diagnostics ++ analysed.queue.diagnostics ++ checks.flatMap (·.2) ∧
      compiled.code = planner.stream.finish := by
  rw [passesApart] at h
  split at h
  next => cases h
  next siteTypes switchTypes resolved hresolved =>
  split at h
  next => cases h
  next analysed hanalysed =>
  split at h
  next => cases h
  next checks hchecks =>
  dsimp only at h
  split at h
  next => cases h
  next emitted planner hplan =>
    cases h
    exact ⟨_, resolved, analysed, checks, planner, hresolved, hanalysed, hchecks, hplan, rfl, rfl⟩

/-- The passes over a unit that is compiled, the code they make and what is listed of their
reports. -/
theorem passes_of_compile {config : Config} {cancelled : Bool} {compiled : Compiled}
    (h : unit.compile pool config cancelled = .ok compiled) :
    ∃ passed offered, unit.passesApart pool config.localTable = .ok (passed, offered) ∧
      compiled.code = passed.code ∧
      compiled.diagnostics = ((Queue.new config.diagnostics).addAll offered).flush.1 := by
  rw [compile_eq] at h
  split at h
  next => cases h
  next =>
    cases hpasses : unit.passesApart pool config.localTable with
    | error failure =>
      rw [hpasses] at h
      cases h
    | ok passed =>
      rw [hpasses] at h
      cases h
      exact ⟨passed.1, passed.2, rfl, rfl, rfl⟩

/-! ## Scopes and flows agree -/

/-- What is visited from the roots is met in the tree of a node of the arena. -/
theorem exists_node (hrange : unit.InRange) {visit : Visit}
    (h : visit ∈ unit.visits unit.arena.forest) :
    ∃ node ∈ unit.arena.nodes, visit ∈ unit.arena.forest.visitsOf node := by
  obtain ⟨node, hnode, hvisit⟩ := List.mem_flatMap.mp h
  exact ⟨node, hrange.roots node hnode, hvisit⟩

theorem exists_resolved (hrange : unit.InRange) (hacyclic : unit.arena.Acyclic) (pool : Pool)
    (queue : Queue) : ∃ types resolved,
      EStateM.run (unit.resolveAll pool unit.arena.forest) ⟨Resolution.empty, queue⟩ =
        .ok types resolved := by
  have hensures := (unit.resolve_only pool unit.arena.forest).ensures ⟨Resolution.empty, queue⟩
  obtain ⟨types, resolved, hrun, -⟩ := hensures.exists_ok (by
    rintro _ ⟨visit, hvisit, hlost⟩
    obtain ⟨node, hnode, hmem⟩ := exists_node hrange hvisit
    exact hacyclic.not_lost hrange.arena hnode visit hmem hlost)
  exact ⟨types, resolved, hrun⟩

section

variable {types : List Ty × List Ty} {resolved : Resolver}

/-- Where nothing is referred to twice, identifiers mean locals that are visible to them. -/
theorem sees_reads (hacyclic : unit.arena.Acyclic)
    (honce : (unit.arena.references unit.roots).Nodup) {queue : Queue}
    (hrun : EStateM.run (unit.resolveAll pool unit.arena.forest) ⟨Resolution.empty, queue⟩ =
      .ok types resolved) :
    resolved.table.Sees (unit.reads unit.arena.forest) :=
  (((unit.resolve_only pool unit.arena.forest).ensures _).of_ok hrun).sees
    (nodup_reads hacyclic honce)

theorem exists_analysed (hrange : unit.InRange) (hacyclic : unit.arena.Acyclic)
    (hguards : unit.emptyGuard? = none)
    (hsees : resolved.table.Sees (unit.reads unit.arena.forest)) (queue : Queue) :
    ∃ analysed, EStateM.run (unit.analyseAll resolved.table unit.arena.forest)
      ⟨FlowRecord.empty, queue⟩ = .ok () analysed ∧ analysed.queue = queue := by
  have hquiet := (analyse_walks fun _ => hsees).quiet ⟨FlowRecord.empty, queue⟩
  obtain ⟨⟨⟩, analysed, hrun, hqueue⟩ := hquiet.exists_ok (by
    rintro _ ⟨visit, hvisit, hblocks⟩
    obtain ⟨node, hnode, hmem⟩ := exists_node hrange hvisit
    exact hacyclic.not_blocks hrange.arena (emptyGuard_eq_none_iff.mp hguards) hnode visit hmem
      hblocks)
  exact ⟨analysed, hrun, hqueue⟩

end

theorem passes_code_ne (hacyclic : unit.arena.Acyclic)
    (honce : (unit.arena.references unit.roots).Nodup) {localTable : Bool} {compiled : Compiled}
    {offered : List Diagnostic} (h : unit.passesApart pool localTable = .ok (compiled, offered)) :
    ∀ diagnostic ∈ offered, diagnostic.code ≠ .unassignedLocal := by
  obtain ⟨types, resolved, analysed, checks, -, hresolved, hanalysed, hchecks, -, rfl, -⟩ :=
    exists_of_passes h
  have hsteps := ((unit.resolve_only pool unit.arena.forest).ensures _).of_ok hresolved
  have hquiet := ((analyse_walks fun _ => sees_reads hacyclic honce hresolved).quiet _).of_ok
    hanalysed
  rw [hquiet, show (Queue.new .unlimited).diagnostics = [] from rfl, List.append_nil,
    List.forall_mem_append]
  exact ⟨hsteps.code_ne, check_code_ne hchecks⟩

/-- Where every reference can be followed, there is no cycle and nothing is referred to twice,
every identifier that means a local is read where the local is assigned: whatever the queue, the
analysis ends without a report.  So no unit is ever said to read an unassigned local. -/
theorem reads_assigned (hrange : unit.InRange) (hacyclic : unit.arena.Acyclic)
    (honce : (unit.arena.references unit.roots).Nodup) (pool : Pool) :
    (unit.emptyGuard? = none → ∀ queue, ∃ types resolved analysed,
      EStateM.run (unit.resolve pool unit.arena.forest false) ⟨Resolution.empty, queue⟩ =
        .ok types resolved ∧
      EStateM.run (unit.analyse resolved.table unit.arena.forest false)
        ⟨FlowRecord.empty, resolved.queue⟩ = .ok () analysed ∧
      analysed.queue = resolved.queue) ∧
    ∀ config cancelled compiled, unit.compile pool config cancelled = .ok compiled →
      ∀ diagnostic ∈ compiled.diagnostics, diagnostic.code ≠ .unassignedLocal := by
  constructor
  · intro hguards queue
    obtain ⟨types, resolved, hresolved⟩ := exists_resolved hrange hacyclic pool queue
    obtain ⟨analysed, hanalysed, hqueue⟩ := exists_analysed hrange hacyclic hguards
      (sees_reads hacyclic honce hresolved) resolved.queue
    refine ⟨types, resolved, analysed, ?_, ?_, hqueue⟩
    · rw [resolve_false, run_adaptExcept, hresolved]
    · rw [analyse_false, run_adaptExcept, hanalysed]
  · intro config cancelled compiled hcompile diagnostic hdiagnostic
    obtain ⟨passed, offered, hpasses, -, hlisted⟩ := passes_of_compile hcompile
    rw [hlisted, Queue.mem_flush] at hdiagnostic
    rcases Queue.mem_addAll hdiagnostic with hnew | hoffered | hcode
    · cases hnew
    · exact passes_code_ne hacyclic honce hpasses diagnostic hoffered
    · rw [hcode]
      nofun

/-- One site, which looks into a box in a box:
`shape instanceof (Box(Object content) && content instanceof Box(var inner) && test(inner))`. -/
def innerBox : CompilationUnit where
  name := "InnerBox"
  arena :=
    { patterns := #[.type ⟨some "Object", Span.none⟩ (some 1) Span.none,
        .record ⟨some "Box", Span.none⟩ [0] Span.none, .type ⟨none, Span.none⟩ (some 2) Span.none,
        .record ⟨some "Box", Span.none⟩ [2] Span.none, .guarded [1] 4 Span.none]
      exprs := #[.ident "content" Span.none, .instanceOf 0 3 Span.none, .ident "inner" Span.none,
        .call "test" [2] ⟨some "boolean", Span.none⟩ Span.none, .binary .and 1 3 Span.none,
        .ident "shape" Span.none]
      locals := #[⟨"shape", Span.none⟩, ⟨"content", Span.none⟩, ⟨"inner", Span.none⟩] }
  sites := [⟨4, 5, ⟨[⟨"shape", 0, ⟨32⟩⟩]⟩⟩]
  switches := []

theorem inRange_innerBox : innerBox.InRange := ⟨Arena.inRange_of_nodes (by decide), by decide⟩

theorem acyclic_innerBox : innerBox.arena.Acyclic :=
  Arena.acyclic_of_rank (Node.rank (fun id => id + 5 * (id / 4)) fun id => id + 4) (by decide)

theorem reads_assigned_innerBox :
    (innerBox.arena.references innerBox.roots).Nodup ∧
    (∃ types resolved analysed,
      EStateM.run (innerBox.resolve Pool.shapes innerBox.arena.forest false)
        ⟨Resolution.empty, .new .default⟩ = .ok types resolved ∧
      EStateM.run (innerBox.analyse resolved.table innerBox.arena.forest false)
        ⟨FlowRecord.empty, resolved.queue⟩ = .ok () analysed ∧
      analysed.queue = resolved.queue) ∧
    ∀ config cancelled compiled, innerBox.compile Pool.shapes config cancelled = .ok compiled →
      ∀ diagnostic ∈ compiled.diagnostics, diagnostic.code ≠ .unassignedLocal := by
  have honce : (innerBox.arena.references innerBox.roots).Nodup := by decide
  have hassigned := reads_assigned inRange_innerBox acyclic_innerBox honce Pool.shapes
  exact ⟨honce, hassigned.1 (emptyGuard_eq_none_iff.mpr (by decide)) _, hassigned.2⟩

end CompilationUnit

end GuardedMatch
