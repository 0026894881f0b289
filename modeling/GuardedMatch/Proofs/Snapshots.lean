import GuardedMatch.Proofs.Gaining

/-!
# Snapshots of an analysis

Each pattern that an analysis comes across gets a snapshot of two states.  They are recorded at
different moments: around a pattern, or for a guarded one after its first sub-pattern and after its
condition.  Between the two moments any number of other states is recorded, and the flow may be
split, merged again and become unreachable.  Still the first state is recorded earlier, and what is
assigned in it is assigned in the second.

* `Pattern.analyse_keeps`: what is noted about each pattern on the way.
* `snapshots_ordered`: every pattern that can be reached from an analysed one has such a snapshot,
  and states that were recorded before are still there.
-/

namespace GuardedMatch

/-- If the second state can be reached, it has all members of the first. -/
theorem FlowState.AssignedIn.contains {suspend resume : FlowState} (h : suspend.AssignedIn resume)
    (hreachable : resume.reachable = true) {bound : LocalId}
    (hbound : suspend.assigned.contains bound = true) : resume.assigned.contains bound = true := by
  have hassigned : suspend.isAssigned bound = true := by simp [FlowState.isAssigned, hbound]
  simpa [FlowState.isAssigned, hreachable] using h bound hassigned

section

variable (table : Resolution) (locals : Array LocalDecl)

open Analyser

/-- **The snapshot of each pattern in a pattern keeps what is assigned.** -/
theorem Pattern.analyse_keeps (pattern : Pattern) (flow : Flow) :
    Records FlowState.AssignedIn pattern.visits (pattern.analyse table locals flow) fun _ => True :=
  ((pattern.analyse_passes table locals (fun _ _ => trivial) flow fun _ _ => trivial).mono
    (fun _ h => h) fun _ _ hpasses => hpasses.kept).imp fun _ _ => trivial

end

/-- What can be reached from a node is met in its tree. -/
theorem Arena.Acyclic.visit_mem {arena : Arena} (h : arena.Acyclic) {node other : Node}
    (hpath : Relation.ReflTransGen arena.Refers node other) :
    arena.forest.visit other ∈ arena.forest.visitsOf node := by
  have hmem : other ∈ arena.forest.nodesOf node := (h.grounded node).unfolds.mem_of_reaches hpath
  rw [Forest.nodesOf, List.mem_filterMap] at hmem
  obtain ⟨visit, hvisit, hnode⟩ := hmem
  have hown := h.closed node visit hvisit
  cases visit with
  | pattern pattern =>
    obtain rfl := Option.some.inj hnode
    have hself : arena.forest.pattern pattern.id = pattern := hown
    rwa [Forest.visit, hself]
  | expr expr =>
    obtain rfl := Option.some.inj hnode
    have hself : arena.forest.expr expr.id = expr := hown
    rwa [Forest.visit, hself]
  | binding bound => cases hnode

/-- A pattern that can be reached from a node is met in the tree of the node. -/
theorem Arena.Acyclic.exists_visit {arena : Arena} (h : arena.Acyclic) {node : Node}
    {id : PatternId} (hpath : Relation.ReflTransGen arena.Refers node (.pattern id)) :
    ∃ pattern, .pattern pattern ∈ arena.forest.visitsOf node ∧ pattern.id = id :=
  ⟨_, h.visit_mem hpath, h.id_pattern id⟩

/-- **Snapshots are complete, ordered and stable.**  An analysis of a pattern only adds states.
After it every pattern that can be reached from this one, through whatever is between them, has a
snapshot.  The first state of the snapshot is recorded earlier than the second, and if the second
can be reached, it has all members of the first. -/
theorem snapshots_ordered {arena : Arena} (hacyclic : arena.Acyclic) (hrange : arena.InRange)
    (hguards : ∀ node ∈ arena.patterns, node.isEmptyGuard = false) (table : Resolution)
    (record : FlowRecord) (flow : Flow) {id : PatternId} (hid : .pattern id ∈ arena.nodes) :
    (¬ table.Strays arena.locals.size →
      ∃ analysed, arena.forest.analysePattern table record id flow = .ok analysed) ∧
    ∀ analysed, arena.forest.analysePattern table record id flow = .ok analysed →
      (∀ (index : StateIndex) state, record.states[index]? = some state →
        analysed.record.states[index]? = some state) ∧
      ∀ other, Relation.ReflTransGen arena.Refers (.pattern id) (.pattern other) →
        ∃ snapshot suspend resume, analysed.record.snapshots[other]? = some snapshot ∧
          snapshot.suspend < snapshot.resume ∧
          snapshot.resume < analysed.record.states.size ∧
          analysed.record.states[snapshot.suspend]? = some suspend ∧
          analysed.record.states[snapshot.resume]? = some resume ∧
          (resume.reachable = true → ∀ bound, suspend.assigned.contains bound = true →
            resume.assigned.contains bound = true) := by
  refine ⟨fun hstrays => hacyclic.exists_analysedPattern hrange hguards hstrays record flow hid,
    fun analysed hrun => ?_⟩
  obtain ⟨after, hend, hrecord⟩ := FlowRecord.exists_of_run hrun
  have hnotes : FlowRecord.Notes FlowState.AssignedIn (arena.forest.pattern id).visits record
      analysed.record := by
    rw [hrecord]
    exact ((((arena.forest.pattern id).analyse_keeps table _ flow).ensures _).of_ok hend).1
  refine ⟨hnotes.states, fun other hpath => ?_⟩
  obtain ⟨pattern, hpattern, rfl⟩ := hacyclic.exists_visit hpath
  obtain ⟨snapshot, suspend, resume, hsnapshot, hlt, hsuspend, hresume, hkeeps⟩ :=
    hnotes.visited pattern hpattern
  refine ⟨snapshot, suspend, resume, hsnapshot, hlt, ?_, hsuspend, hresume, ?_⟩
  · exact (Array.getElem?_eq_some_iff.mp hresume).1
  · intro hreachable bound hbound
    exact hkeeps.contains hreachable hbound

/-- The box in the box is only met below a negation in the condition, and has its snapshot.  A local
that was assigned from the start is a member of both states. -/
theorem snapshots_ordered_boxNotDenied :
    boxNotDenied.Acyclic ∧ boxNotDenied.InRange ∧
    (∀ node ∈ boxNotDenied.patterns, node.isEmptyGuard = false) ∧
    Relation.ReflTransGen boxNotDenied.Refers (.pattern 4) (.pattern 3) ∧
    ∃ analysed snapshot suspend resume, boxNotDenied.forest.analysePattern .empty .empty 4
        (.plain (.reached (.ofList [7]))) = .ok analysed ∧
      analysed.record.snapshots[3]? = some snapshot ∧ snapshot.suspend < snapshot.resume ∧
      snapshot.resume < analysed.record.states.size ∧
      analysed.record.states[snapshot.suspend]? = some suspend ∧
      analysed.record.states[snapshot.resume]? = some resume ∧
      suspend.assigned.contains 7 = true ∧ resume.reachable = true ∧
      ∀ bound, suspend.assigned.contains bound = true → resume.assigned.contains bound = true := by
  have hguards : ∀ node ∈ boxNotDenied.patterns, node.isEmptyGuard = false := by decide
  have hpath : Relation.ReflTransGen boxNotDenied.Refers (.pattern 4) (.pattern 3) := by
    have hcondition : Node.expr 5 ∈ boxNotDenied.refs (.pattern 4) := by decide
    have houter : Node.expr 4 ∈ boxNotDenied.refs (.expr 5) := by decide
    have hright : Node.expr 2 ∈ boxNotDenied.refs (.expr 4) := by decide
    have hinner : Node.expr 1 ∈ boxNotDenied.refs (.expr 2) := by decide
    have htested : Node.pattern 3 ∈ boxNotDenied.refs (.expr 1) := by decide
    exact .head hcondition (.head houter (.head hright (.head hinner (.single htested))))
  obtain ⟨hends, hafter⟩ := snapshots_ordered acyclic_boxNotDenied inRange_boxNotDenied hguards
    .empty .empty (.plain (.reached (.ofList [7]))) (show .pattern 4 ∈ boxNotDenied.nodes by decide)
  obtain ⟨analysed, hrun⟩ := hends (Resolution.not_strays_empty _)
  obtain ⟨snapshot, suspend, resume, hsnapshot, hlt, hsize, hsuspend, hresume, hsub⟩ :=
    (hafter analysed hrun).2 3 hpath
  have hstates : (boxNotDenied.forest.analysePattern .empty .empty 4
      (.plain (.reached (.ofList [7])))).toOption.any (fun analysed =>
        analysed.record.snapshots[3]?.any fun snapshot =>
          (analysed.record.states[snapshot.suspend]?.any fun state => state.assigned.contains 7) &&
          analysed.record.states[snapshot.resume]?.any fun state => state.reachable) = true := by
    decide +kernel
  rw [hrun, Except.toOption, Option.any_some, hsnapshot, Option.any_some, hsuspend, hresume,
    Option.any_some, Option.any_some, Bool.and_eq_true] at hstates
  exact ⟨acyclic_boxNotDenied, inRange_boxNotDenied, hguards, hpath, analysed, snapshot, suspend,
    resume, hrun, hsnapshot, hlt, hsize, hsuspend, hresume, hstates.1, hstates.2, hsub hstates.2⟩

end GuardedMatch
