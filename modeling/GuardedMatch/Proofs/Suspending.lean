import GuardedMatch.Proofs.Expecting
import GuardedMatch.Proofs.History
import GuardedMatch.Proofs.Slots
import GuardedMatch.Proofs.Tracking
import GuardedMatch.Proofs.Unbroken

/-!
# Suspending and resuming

A guarded pattern is suspended and resumed down through first sub-patterns: along its spine.  The
states recorded on the way grow from the one before the pattern to the one after it, if no pattern
of the spine is met a second time while the pattern is analysed.  So, whatever has been done with a
stream, exactly those locals are live after a suspension that are assigned before the pattern, and
exactly those after a resumption that are assigned after it.

* `Arena.straight_of_unbroken`: where each pattern is referred to once, the spine is met once.
* `Pattern.analyse_chained`: the states recorded along a spine.
* `Pattern.suspend_shows`, `Pattern.resume_shows`: what is live when a pattern has been suspended or
  resumed.
* `live_follows_states`: what is live after a guarded pattern has been generated, and after any
  suspensions and resumptions of it.
-/

namespace GuardedMatch

variable {record : FlowRecord}

/-! ## The spine of a pattern -/

/-- A pattern and, down through the first sub-patterns of guards, those that are suspended and
resumed with it. -/
def Pattern.spine : Pattern → List Pattern
  | .guarded id (first :: rest) condition span =>
    .guarded id (first :: rest) condition span :: first.spine
  | pattern => [pattern]

/-- The patterns of the spine are not met a second time. -/
def Pattern.Straight : Pattern → Prop
  | .guarded id (first :: rest) condition span =>
    first.Straight ∧ Visit.Apart (first.spine.map .pattern) (Pattern.visitsAll rest ++
      condition.visits ++ [.pattern (.guarded id (first :: rest) condition span)])
  | _ => True

theorem Pattern.spine_subset (pattern : Pattern) : pattern.spine.map .pattern ⊆ pattern.visits := by
  fun_induction Pattern.spine pattern with
  | case1 id first rest condition span ih =>
    rw [List.map_cons, List.cons_subset]
    refine ⟨Pattern.self_mem_visits _, fun visit hvisit => ?_⟩
    simp [Pattern.visits, Pattern.visitsAll, ih hvisit]
  | case2 pattern => simpa using Pattern.self_mem_visits pattern

/-- What holds of a pattern, and of the first sub-pattern of a guard with the guard, holds along the
spine. -/
theorem Pattern.forall_spine {holds : Pattern → Prop} (pattern : Pattern) (hroot : holds pattern)
    (hstep : ∀ id first rest condition span,
      .guarded id (first :: rest) condition span ∈ pattern.spine →
      holds (.guarded id (first :: rest) condition span) → holds first) :
    ∀ other ∈ pattern.spine, holds other := by
  fun_induction Pattern.spine pattern with
  | case1 id first rest condition span ih =>
    have hfirst := hstep id first rest condition span List.mem_cons_self hroot
    refine List.forall_mem_cons.mpr ⟨hroot, ih hfirst fun id first rest condition span hmem => ?_⟩
    exact hstep id first rest condition span (List.mem_cons_of_mem _ hmem)
  | case2 pattern => simpa using hroot

namespace Arena

variable {node : Node} {id : PatternId}

variable {arena : Arena}

/-- A tree without gaps is not met below its root. -/
theorem visit_notMem_of_refers {other : Node} (h : Unbroken (arena.forest.visitsOf node))
    (hother : arena.Refers node other) :
    arena.forest.visit node ∉ arena.forest.visitsOf other := by
  intro hvisit
  have hbelow : (arena.forest.visit node).below = arena.forest.visitsOf node := by
    cases node <;> rfl
  have hsub : ((arena.forest.visit node).below).Sublist (arena.forest.visitsOf other) := by
    cases other with
    | pattern id => exact Pattern.below_sublist _ hvisit
    | expr id => exact Expr.below_sublist _ hvisit
  have hlt := (visitsOf_of_refers h hother).2
  rw [hbelow] at hsub
  exact hsub.length_le.not_gt hlt

theorem id_of_unbroken (h : Unbroken (arena.forest.visitsOf (.pattern id))) :
    (arena.forest.pattern id).id = id := id_pattern_of_layer (arena.lawful_forest _ h)

/-- A pattern that is met in a tree without gaps has a tree without gaps. -/
theorem unbroken_of_mem (h : Unbroken (arena.forest.visitsOf node)) {pattern : Pattern}
    (hvisit : .pattern pattern ∈ arena.forest.visitsOf node) :
    arena.forest.pattern pattern.id = pattern ∧
      Unbroken (arena.forest.visitsOf (.pattern pattern.id)) := by
  have howns : arena.forest.pattern pattern.id = pattern := owns_of_unbroken h _ hvisit
  have hsub : (Visit.pattern pattern).below ⊆ arena.forest.visitsOf node := by
    cases node with
    | pattern id => exact (Pattern.below_sublist _ hvisit).subset
    | expr id => exact (Expr.below_sublist _ hvisit).subset
  refine ⟨howns, h.sub ?_⟩
  rw [Forest.visitsOf, howns]
  exact hsub

theorem mem_patternRefs :
    id ∈ arena.patternRefs node ↔ arena.Refers node (.pattern id) := by
  rw [patternRefs, List.mem_filterMap]
  constructor
  · rintro ⟨other, hother, heq⟩
    cases other with
    | pattern other => exact Option.some.inj heq ▸ hother
    | expr other => cases heq
  · exact fun h => ⟨_, h, rfl⟩

/-- What is met in a tree without gaps is its root, or some node of the tree refers to it. -/
theorem refers_of_unbroken (h : Unbroken (arena.forest.visitsOf node)) {pattern : Pattern}
    (hvisit : .pattern pattern ∈ arena.forest.visitsOf node) :
    .pattern pattern = arena.forest.visit node ∨
      ∃ other, arena.forest.visit other ∈ arena.forest.visitsOf node ∧
        arena.Refers other (.pattern pattern.id) := by
  -- The induction is on the number of visits: what a node refers to has fewer.
  induction hlength : (arena.forest.visitsOf node).length using Nat.strong_induction_on
    generalizing node with
  | _ length ih =>
    have hvisits := visitsOf_eq_of_layer (arena.lawful_forest node h)
    rw [hvisits, List.mem_cons, List.mem_append, List.mem_map, List.mem_flatMap] at hvisit
    rcases hvisit with heq | ⟨binding, -, hbinding⟩ | ⟨next, hnext, hvisit⟩
    · exact Or.inl heq
    · cases hbinding
    obtain ⟨hsub, hlt⟩ := visitsOf_of_refers h hnext
    rcases ih _ (hlength ▸ hlt) (h.sub hsub) hvisit rfl with heq | ⟨other, hother, hrefs⟩
    · refine Or.inr ⟨node, visit_mem_visitsOf arena.forest node, ?_⟩
      cases next with
      | expr id => cases heq
      | pattern id =>
        rw [Visit.pattern.inj heq, id_of_unbroken (h.sub hsub)]
        exact hnext
    · exact Or.inr ⟨other, hsub hother, hrefs⟩

/-- What a guard refers to: its first sub-pattern, and the others with the condition. -/
theorem refs_of_guarded {own : PatternId} {first : Pattern} {rest : List Pattern} {condition : Expr}
    {span : Span} (h : Unbroken (arena.forest.visitsOf (.pattern id)))
    (hguarded : arena.forest.pattern id = .guarded own (first :: rest) condition span) :
    own = id ∧ ∃ head others, first = arena.forest.pattern head ∧
      arena.Refers (.pattern id) (.pattern head) ∧
      arena.refs (.pattern id) = .pattern head :: others ∧
      Pattern.visitsAll rest ++ condition.visits = others.flatMap arena.forest.visitsOf := by
  have hself := visit_mem_visitsOf arena.forest (.pattern id)
  obtain ⟨found, hfound, htree⟩ := exists_patternNode_of_unbroken h hself
  rw [id_of_unbroken h] at hfound htree
  rw [hguarded] at htree
  cases found with
  | type | record | any => cases htree
  | guarded patterns index span =>
    cases patterns with
    | nil => cases htree
    | cons head tail =>
      simp only [PatternNode.tree, List.map_cons, Pattern.guarded.injEq, List.cons.injEq] at htree
      obtain ⟨rfl, ⟨rfl, rfl⟩, rfl, rfl⟩ := htree
      have hrefs : arena.refs (.pattern own) =
          .pattern head :: (tail.map .pattern ++ [.expr index]) := by
        rw [refs, hfound]
        rfl
      refine ⟨rfl, head, _, rfl, ?_, hrefs, ?_⟩
      · rw [Refers, hrefs]
        exact List.mem_cons_self
      · simp [Pattern.visitsAll_eq, List.flatMap_map, Forest.visitsOf]

section

variable {id : PatternId}

variable (honce : (arena.patternReferences []).Nodup)

include honce in
theorem eq_of_refers_pattern {node other : Node} (h : arena.Refers node (.pattern id))
    (h' : arena.Refers other (.pattern id)) :
    node = other :=
  eq_of_mem_flatMap (List.nodup_append.1 honce).1 (mem_nodes_of_refers h) (mem_nodes_of_refers h')
    (mem_patternRefs.mpr h) (mem_patternRefs.mpr h')

include honce in
/-- No reference to a pattern is repeated in a node. -/
theorem notMem_of_refs {node : Node} {others : List Node}
    (h : arena.refs node = .pattern id :: others) : .pattern id ∉ others := by
  intro hmem
  have hnode : node ∈ arena.nodes := mem_nodes_of_refers (h ▸ List.mem_cons_self :
    .pattern id ∈ arena.refs node)
  have hnodup := (List.nodup_flatMap.1 (List.nodup_append.1 honce).1).1 node hnode
  have hhead : (Node.pattern id).pattern? = some id := rfl
  rw [patternRefs, h, List.filterMap_cons_some hhead, List.nodup_cons] at hnodup
  exact hnodup.1 (List.mem_filterMap.mpr ⟨_, hmem, rfl⟩)

include honce in
/-- Below the other references of a guard, its spine is not met. -/
theorem spine_apart {own : PatternId} {first : Pattern} {rest : List Pattern} {condition : Expr}
    {span : Span} (h : Unbroken (arena.forest.visitsOf (.pattern id)))
    (hguarded : arena.forest.pattern id = .guarded own (first :: rest) condition span) :
    Visit.Apart (first.spine.map .pattern) (Pattern.visitsAll rest ++ condition.visits) := by
  obtain ⟨rfl, head, others, rfl, hhead, hrefs, hothers⟩ := refs_of_guarded h hguarded
  have hrefers : ∀ other ∈ others, arena.Refers (.pattern own) other := by
    intro other hother
    rw [Refers, hrefs]
    exact List.mem_cons_of_mem _ hother
  have hbelow := (visitsOf_of_refers h hhead).1
  -- Whatever is met below another reference is that reference, or is referred to from there.
  have hmet : ∀ {pattern : Pattern} {other : Node}, other ∈ others →
      .pattern pattern ∈ arena.forest.visitsOf other → other = .pattern pattern.id ∨
        ∃ node, arena.forest.visit node ∈ arena.forest.visitsOf other ∧
          arena.Refers node (.pattern pattern.id) := by
    intro pattern other hother hpattern
    have hunbroken := h.sub (visitsOf_of_refers h (hrefers other hother)).1
    refine (refers_of_unbroken hunbroken hpattern).imp_left fun heq => ?_
    cases other with
    | expr other => cases heq
    | pattern other => rw [Visit.pattern.inj heq, id_of_unbroken hunbroken]
  have hspine : ∀ part ∈ (arena.forest.pattern head).spine, ∀ other ∈ others, ∀ pattern,
      .pattern pattern ∈ arena.forest.visitsOf other → part.id ≠ pattern.id := by
    refine Pattern.forall_spine _ ?_ ?_
    · intro other hother pattern hpattern heq
      rw [id_of_unbroken (h.sub hbelow)] at heq
      rcases hmet hother hpattern with rfl | ⟨node, hnode, hrefer⟩
      · exact notMem_of_refs honce hrefs (heq ▸ hother)
      · obtain rfl := eq_of_refers_pattern honce hhead (heq ▸ hrefer)
        exact visit_notMem_of_refers h (hrefers other hother) hnode
    · intro id first rest condition span hpart hholds other hother pattern hpattern heq
      have hvisit : .pattern (.guarded id (first :: rest) condition span) ∈
          arena.forest.visitsOf (.pattern head) :=
        Pattern.spine_subset _ (List.mem_map_of_mem hpart)
      obtain ⟨howns, hunbroken⟩ := unbroken_of_mem (h.sub hbelow) hvisit
      rw [Pattern.id] at howns hunbroken
      obtain ⟨-, next, _, hnext, hfirst, -⟩ := refs_of_guarded hunbroken howns
      have hid := id_of_unbroken (hunbroken.sub (visitsOf_of_refers hunbroken hfirst).1)
      rw [hnext, hid] at heq
      -- The one that refers to the next part is the part before it.
      rcases hmet hother hpattern with rfl | ⟨node, hnode, hrefer⟩
      · obtain ⟨⟩ := eq_of_refers_pattern honce hfirst (heq ▸ hrefers _ hother)
        exact visit_notMem_of_refers h hhead (by rwa [Forest.visit, howns])
      · obtain rfl := eq_of_refers_pattern honce hfirst (heq ▸ hrefer)
        rw [Forest.visit, howns] at hnode
        exact hholds other hother _ hnode rfl
  intro pattern other hpattern hother
  rw [hothers] at hother
  obtain ⟨node, hnode, hother⟩ := List.mem_flatMap.mp hother
  obtain ⟨part, hpart, heq⟩ := List.mem_map.mp hpattern
  exact Visit.pattern.inj heq ▸ hspine part hpart node hnode other hother

include honce in
/-- **Where each pattern is referred to once, a spine is met once.** -/
theorem straight_of_unbroken (h : Unbroken (arena.forest.visitsOf (.pattern id))) :
    (arena.forest.pattern id).Straight := by
  -- The induction is on the number of visits, since the first sub-pattern has fewer.
  induction hlength : (arena.forest.visitsOf (.pattern id)).length using Nat.strong_induction_on
    generalizing id with
  | _ length ih =>
    rw [Pattern.Straight.eq_def]
    split
    next own first rest condition span hguarded =>
      have hapart := spine_apart honce h hguarded
      obtain ⟨rfl, head, others, rfl, hhead, -⟩ := refs_of_guarded h hguarded
      obtain ⟨hsub, hlt⟩ := visitsOf_of_refers h hhead
      refine ⟨ih _ (hlength ▸ hlt) (h.sub hsub) rfl, hapart.append ?_⟩
      intro part other hpart hother heq
      obtain rfl : other = .guarded own (arena.forest.pattern head :: rest) condition span := by
        simpa using hother
      have hvisit := Pattern.spine_subset _ hpart
      obtain ⟨howns, -⟩ := unbroken_of_mem (h.sub hsub) hvisit
      rw [heq, Pattern.id] at howns
      exact visit_notMem_of_refers h hhead (by rwa [Forest.visit, howns])
    next => trivial

end

end Arena

/-! ## States along a spine -/

/-- All that is assigned in one state is assigned in the other. -/
def FlowState.Below (state other : FlowState) : Prop :=
  ∀ id, state.isAssigned id = true → other.isAssigned id = true

namespace FlowState.Below

variable {state mid other : FlowState}

theorem trans (h : state.Below mid) (h' : mid.Below other) : state.Below other :=
  fun id hid => h' id (h id hid)

theorem reachable (h : state.Below other) (hother : other.reachable = true) :
    state.reachable = true := by
  by_contra hstate
  obtain ⟨id, hid⟩ := Infinite.exists_notMem_finset other.assigned.toList.toFinset
  rw [List.mem_toFinset, LocalSet.mem_toList] at hid
  have hassigned := h id (by simp [FlowState.isAssigned, hstate])
  rw [FlowState.isAssigned, hother] at hassigned
  exact hid hassigned

theorem contains (h : state.Below other) (hother : other.reachable = true) {id : LocalId}
    (hid : state.assigned.contains id = true) : other.assigned.contains id = true := by
  have hassigned := h id (by rw [FlowState.isAssigned, hid, Bool.or_true])
  rwa [FlowState.isAssigned, hother] at hassigned

end FlowState.Below

/-- The states recorded along a spine lead from one state to another, and nothing gets lost on the
way. -/
def Pattern.Chained (record : FlowRecord) : Pattern → FlowState → FlowState → Prop
  | .guarded id (first :: _) _ _, before, after =>
    ∃ mid, first.Chained record before mid ∧ record.Has id mid after ∧ mid.Below after
  | pattern, before, after => record.Has pattern.id before after ∧ before.Below after

/-- The second state recorded for the pattern itself is the one after it. -/
theorem Pattern.Chained.has (pattern : Pattern) {before after : FlowState}
    (h : pattern.Chained record before after) : ∃ suspend, record.Has pattern.id suspend after := by
  rw [Pattern.Chained.eq_def] at h
  split at h
  next =>
    obtain ⟨mid, -, hhas, -⟩ := h
    exact ⟨mid, hhas⟩
  next => exact ⟨before, h.1⟩

theorem FlowRecord.Has.resume_unique {id : PatternId} {suspend resume suspend' resume' : FlowState}
    (h : record.Has id suspend resume) (h' : record.Has id suspend' resume') :
    resume = resume' := by
  obtain ⟨snapshot, hsnapshot, -, hresume⟩ := h
  obtain ⟨snapshot', hsnapshot', -, hresume'⟩ := h'
  obtain rfl := Option.some.inj (hsnapshot.symm.trans hsnapshot')
  exact Option.some.inj (hresume.symm.trans hresume')

theorem Pattern.Chained.below (pattern : Pattern) {before after : FlowState}
    (h : pattern.Chained record before after) : before.Below after := by
  fun_induction Pattern.Chained record pattern before after with
  | case1 id first rest condition span before after ih =>
    obtain ⟨mid, hfirst, -, hbelow⟩ := h
    exact (ih mid hfirst).trans hbelow
  | case2 => exact h.2

namespace Analyser

/-- **The states around an analysis are recorded for a pattern**, whatever was recorded for it on
the way. -/
theorem snapshot_has {inner : FlowM Flow} {visits : List Visit} (pattern : Pattern)
    (hpattern : ∀ id, pattern ≠ .missing id) (flow : Flow) (hinner : Covers visits inner)
    (hbelow : Answers inner fun after => flow.joined.Below after.joined) (state : Analyser) :
    Ensures (do
      let before ← recordState flow
      let flow ← inner
      let after ← recordState flow
      setSnapshot pattern.id before after
      return flow) state (fun _ => True) fun after final =>
        FlowRecord.Covers (visits ++ [.pattern pattern]) state.record final.record ∧
        ∀ record, FlowRecord.Kept [.pattern pattern] final.record record →
          record.Has pattern.id flow.joined after.joined ∧ flow.joined.Below after.joined := by
  refine Ensures.bind (Ensures.get_bind (Ensures.modify_bind (Ensures.pure ?_)))
  refine ((hinner.ensures _).and (hbelow _)).seq fun last mid hmid => ?_
  refine Ensures.bind (Ensures.get_bind (Ensures.modify_bind (Ensures.pure ?_)))
  refine Ensures.modify_bind (Ensures.pure ⟨?_, fun record hkept => ?_⟩)
  · have hpushed := FlowRecord.Covers.push mid.record last
    exact ((FlowRecord.Covers.push state.record flow).trans hmid.1).trans
      (hpushed.trans (.setSnapshot hpattern ..))
  · refine ⟨⟨⟨state.record.states.size, mid.record.states.size⟩, ?_, ?_, ?_⟩, hmid.2⟩
    · rw [hkept.snapshots pattern (List.mem_singleton_self _)]
      exact Std.ExtTreeMap.getElem?_insert_self
    · refine hkept.states _ _ ?_
      exact (FlowRecord.Covers.push mid.record last).states _ _
        (hmid.1.states _ _ Array.getElem?_push_size)
    · exact hkept.states _ _ Array.getElem?_push_size

end Analyser

section

variable (table : Resolution) (locals : Array LocalDecl)

open Analyser

/-- The states around a pattern that is not guarded. -/
theorem Pattern.analyse_has (pattern : Pattern)
    (hplain : ∀ own first rest condition span,
      pattern = .guarded own (first :: rest) condition span → False) (flow : Flow)
    (state : Analyser) :
    Ensures (pattern.analyse table locals flow) state (fun _ => True) fun after final =>
      ∀ record, FlowRecord.Kept [.pattern pattern] final.record record →
        record.Has pattern.id flow.joined after.joined ∧ flow.joined.Below after.joined := by
  have hpure : ∀ after : Flow, Covers [] (pure after : FlowM Flow) := fun _ => .pure _
  cases pattern with
  | type id ty binds span =>
    have hbelow : ∀ after : Flow, flow.joined.Below after.joined →
        Answers (pure after : FlowM Flow) fun after => flow.joined.Below after.joined :=
      fun _ h => .pure h
    cases binds with
    | none =>
      rw [Pattern.analyse]
      exact (snapshot_has (.type id ty none span) (fun _ h => by cases h) flow (hpure flow)
        (hbelow flow fun _ h => h) state).mono fun _ _ h => h.2
    | some binding =>
      rw [Pattern.analyse]
      exact (snapshot_has (.type id ty (some binding) span) (fun _ h => by cases h) flow
        (hpure (flow.assign binding)) (hbelow _ fun _ h => Flow.isAssigned_assign.mpr (Or.inr h))
        state).mono fun _ _ h => h.2
  | record id ty components span =>
    rw [Pattern.analyse]
    refine (snapshot_has (.record id ty components span) (fun _ h => by cases h) flow
      (Pattern.analyseAll_walks_anyhow table locals components flow).covers
      ((Pattern.analyseAll_carries table locals components flow).mono fun _ hafter _ h =>
        hafter.isAssigned h) state).mono fun _ _ h => h.2
  | guarded id patterns condition span =>
    cases patterns with
    | nil =>
      rw [Pattern.analyse]
      exact Ensures.throw trivial
    | cons first rest => exact (hplain id first rest condition span rfl).elim
  | any id span =>
    rw [Pattern.analyse]
    exact (snapshot_has (.any id span) (fun _ h => by cases h) flow (hpure flow)
      (.pure fun _ h => h) state).mono fun _ _ h => h.2
  | missing id =>
    rw [Pattern.analyse]
    exact Ensures.throw trivial

/-- **The states recorded along a spine lead from the state before the pattern to the one after
it.** -/
theorem Pattern.analyse_chained (pattern : Pattern) (hstraight : pattern.Straight) (flow : Flow)
    (state : Analyser) :
    Ensures (pattern.analyse table locals flow) state (fun _ => True) fun after final =>
      ∀ record, FlowRecord.Kept (pattern.spine.map .pattern) final.record record →
        pattern.Chained record flow.joined after.joined := by
  fun_induction Pattern.spine pattern generalizing state with
  | case1 id first rest condition span ih =>
    rw [Pattern.Straight] at hstraight
    rw [Pattern.analyse]
    refine (ih hstraight.1 state).seq fun one mid hfirst => ?_
    have hinner : Walks table locals False (Pattern.visitsAll rest ++ (condition.visits ++ [])) (do
        let flow ← Pattern.analyseAll table locals rest one
        let flow ← condition.analyse table locals flow
        return flow.assumeTrue) fun after => one.joined.Below after.joined :=
      .bind (Pattern.analyseAll_walks_anyhow table locals rest one) fun _ hall =>
        .bind (condition.analyse_walks_anyhow table locals _) fun _ hlast =>
          .pure fun other hother => hlast true other (.inl (hall.isAssigned hother))
    have hrest := snapshot_has (.guarded id (first :: rest) condition span)
      (fun _ h => by cases h) one hinner.covers hinner.answers mid
    simp only [bind_assoc, pure_bind] at hrest
    refine hrest.mono fun after final hfinal record hkept => ?_
    rw [List.map_cons] at hkept
    rw [List.append_nil] at hfinal
    have hspine := (hfinal.1.kept_apart hstraight.2).trans
      (hkept.mono fun _ h => List.mem_cons_of_mem _ h)
    have hself : FlowRecord.Kept [.pattern (.guarded id (first :: rest) condition span)]
        final.record record := by
      refine hkept.mono fun pattern hpattern => ?_
      rw [List.mem_singleton.mp hpattern]
      exact List.mem_cons_self
    obtain ⟨hhas, hle⟩ := hfinal.2 record hself
    rw [Pattern.Chained]
    exact ⟨one.joined, hfirst record hspine, hhas, hle⟩
  | case2 pattern hplain =>
    refine (pattern.analyse_has table locals hplain flow state).mono fun after final h record => ?_
    rw [Pattern.Chained.eq_2 record pattern _ _ hplain]
    exact h record

end

/-! ## What is live -/

/-- The table is in order, and what is live is what has a slot and is assigned in a state. -/
structure Stream.Shows (state : FlowState) (stream : Stream) : Prop where
  sound : stream.Sound true
  live : ∀ id, stream.isLive id = true ↔
    stream.isDeclared id = true ∧ state.assigned.contains id = true

namespace Stream

variable {stream : Stream} {states : Array FlowState} {index : StateIndex} {state : FlowState}

theorem isDeclared_of_sameCode {after : Stream} (h : SameCode stream after) (id : LocalId) :
    after.isDeclared id = stream.isDeclared id := by
  rw [isDeclared, h.slots, isDeclared]

/-- **Bringing the ranges into line with a state that can be reached.** -/
theorem Sound.align (h : stream.Sound true) (hstate : states[index]? = some state)
    (hreachable : state.reachable = true) :
    ((stream.closeUnassigned states index).openAssigned states index).Shows state := by
  have hclosed := h.closeUnassigned states index
  refine ⟨hclosed.openAssigned states index, fun id => ?_⟩
  rw [isLive_openAssigned_iff hclosed.tracking_eq hstate hreachable,
    isLive_closeUnassigned_iff hstate hreachable,
    isDeclared_of_sameCode (SameCode.openAssigned ..)]
  refine ⟨fun hlive => hlive.elim (fun hopen => ?_) fun hopen => hopen, Or.inr⟩
  exact ⟨(isDeclared_of_sameCode (SameCode.closeUnassigned ..) id).trans (h.declared id hopen.1),
    hopen.2⟩

namespace Shows

theorem emit (h : stream.Shows state) (instr : Instr) : (stream.emit instr).Shows state :=
  ⟨h.sound.emit instr, h.live⟩

theorem place (h : stream.Shows state) (label : Label) : (stream.place label).Shows state :=
  ⟨h.sound.place label, h.live⟩

end Shows

end Stream

section

variable {facts : Facts} {before after : FlowState} {planner : Planner}

/-- **A suspension leaves live what was live and is assigned before the pattern.** -/
theorem Pattern.suspend_live (pattern : Pattern) (h : pattern.Chained facts.record before after)
    (hreachable : after.reachable = true) (hsound : planner.stream.Sound true) :
    Ensures (pattern.suspend facts) planner (fun _ => False) fun _ last =>
      last.stream.Sound true ∧ planner.stream.SameCode last.stream ∧ ∀ id,
        last.stream.isLive id = true ↔
          planner.stream.isLive id = true ∧ before.assigned.contains id = true := by
  fun_induction Pattern.suspend facts pattern generalizing after planner with
  | case1 own first rest condition span ih =>
    rw [Pattern.Chained] at h
    obtain ⟨mid, hfirst, hhas, hbelow⟩ := h
    have hmid := hbelow.reachable hreachable
    refine hhas.align fun snapshot hsuspend _ => Ensures.modify_bind ?_
    refine (ih hfirst hmid (hsound.closeUnassigned ..)).mono fun _ last hlast => ?_
    refine ⟨hlast.1, (Stream.SameCode.closeUnassigned ..).trans hlast.2.1, fun id => ?_⟩
    rw [hlast.2.2, Stream.isLive_closeUnassigned_iff hsuspend hmid]
    refine ⟨fun hlive => ⟨hlive.1.1, hlive.2⟩, fun hlive => ⟨⟨hlive.1, ?_⟩, hlive.2⟩⟩
    exact (Pattern.Chained.below first hfirst).contains hmid hlive.2
  | case2 pattern hplain =>
    rw [Pattern.Chained.eq_2 _ pattern _ _ hplain] at h
    refine h.1.align fun snapshot hsuspend _ => Ensures.modifies ⟨hsound.closeUnassigned .., ?_, ?_⟩
    · exact .closeUnassigned ..
    · exact fun id => Stream.isLive_closeUnassigned_iff hsuspend (h.2.reachable hreachable)

/-- **A resumption adds what has a slot and is assigned after the pattern.** -/
theorem Pattern.resume_live (pattern : Pattern) (h : pattern.Chained facts.record before after)
    (hreachable : after.reachable = true) (hsound : planner.stream.Sound true) :
    Ensures (pattern.resume facts) planner (fun _ => False) fun _ last =>
      last.stream.Sound true ∧ planner.stream.SameCode last.stream ∧ ∀ id,
        last.stream.isLive id = true ↔ planner.stream.isLive id = true ∨
          planner.stream.isDeclared id = true ∧ after.assigned.contains id = true := by
  fun_induction Pattern.resume facts pattern generalizing after planner with
  | case1 own first rest condition span ih =>
    rw [Pattern.Chained] at h
    obtain ⟨mid, hfirst, hhas, hbelow⟩ := h
    have hmid := hbelow.reachable hreachable
    refine hhas.align fun snapshot _ hresume => Ensures.modify_bind ?_
    refine (ih hfirst hmid (hsound.openAssigned ..)).mono fun _ last hlast => ?_
    refine ⟨hlast.1, (Stream.SameCode.openAssigned ..).trans hlast.2.1, fun id => ?_⟩
    rw [hlast.2.2, Stream.isLive_openAssigned_iff hsound.tracking_eq hresume hreachable,
      Stream.isDeclared_of_sameCode (.openAssigned ..)]
    refine ⟨fun hlive => hlive.elim (fun hopen => hopen) fun hopen => Or.inr ⟨hopen.1, ?_⟩, Or.inl⟩
    exact hbelow.contains hreachable hopen.2
  | case2 pattern hplain =>
    rw [Pattern.Chained.eq_2 _ pattern _ _ hplain] at h
    refine h.1.align fun snapshot _ hresume => Ensures.modifies ⟨hsound.openAssigned .., ?_, ?_⟩
    · exact .openAssigned ..
    · exact fun id => Stream.isLive_openAssigned_iff hsound.tracking_eq hresume hreachable

variable {state : FlowState} {pattern : Pattern}

theorem Pattern.suspend_shows (h : pattern.Chained facts.record before after)
    (hreachable : after.reachable = true) (hshows : planner.stream.Shows state)
    (hstate : ∀ id, before.assigned.contains id = true → state.assigned.contains id = true) :
    Ensures (pattern.suspend facts) planner (fun _ => False) fun _ last =>
      last.stream.Shows before := by
  refine (pattern.suspend_live h hreachable hshows.sound).mono fun _ last hlast => ?_
  refine ⟨hlast.1, fun id => ?_⟩
  rw [hlast.2.2, hshows.live, Stream.isDeclared_of_sameCode hlast.2.1]
  exact ⟨fun hid => ⟨hid.1.1, hid.2⟩, fun hid => ⟨⟨hid.1, hstate id hid.2⟩, hid.2⟩⟩

theorem Pattern.resume_shows (h : pattern.Chained facts.record before after)
    (hreachable : after.reachable = true) (hshows : planner.stream.Shows state)
    (hstate : ∀ id, state.assigned.contains id = true → after.assigned.contains id = true) :
    Ensures (pattern.resume facts) planner (fun _ => False) fun _ last =>
      last.stream.Shows after := by
  refine (pattern.resume_live h hreachable hshows.sound).mono fun _ last hlast => ?_
  refine ⟨hlast.1, fun id => ?_⟩
  rw [hlast.2.2, hshows.live, Stream.isDeclared_of_sameCode hlast.2.1]
  exact ⟨fun hid => hid.elim (fun hid => ⟨hid.1, hstate id hid.2⟩) fun hid => hid, Or.inr⟩

/-! ## Calls -/

end

/-- A call from outside about a pattern that has been generated. -/
inductive Call
  | suspend
  | resume

def Pattern.call (facts : Facts) (pattern : Pattern) : Call → PlanM Unit
  | .suspend => pattern.suspend facts
  | .resume => pattern.resume facts

namespace Call

/-- The state that a call goes back or on to. -/
def state (before after : FlowState) : Call → FlowState
  | suspend => before
  | resume => after

/-- The state that the last of some calls goes to.  Without a call it is the one after the
pattern. -/
def lastState (before after : FlowState) (calls : List Call) : FlowState :=
  (calls.getLast?.map (Call.state before after)).getD after

end Call

section

variable {planner : Planner} {state : FlowState}

variable {facts : Facts} {before after : FlowState} {pattern : Pattern}

open Planner

theorem Pattern.call_shows (h : pattern.Chained facts.record before after)
    (hreachable : after.reachable = true)
    (hshows : planner.stream.Shows before ∨ planner.stream.Shows after) (call : Call) :
    Ensures (pattern.call facts call) planner (fun _ => False) fun _ last =>
      last.stream.Shows (call.state before after) := by
  have hbelow : ∀ id, before.assigned.contains id = true → after.assigned.contains id = true :=
    fun id => (Pattern.Chained.below pattern h).contains hreachable
  cases call with
  | suspend =>
    rcases hshows with hshows | hshows
    · exact Pattern.suspend_shows h hreachable hshows fun _ hid => hid
    · exact Pattern.suspend_shows h hreachable hshows hbelow
  | resume =>
    rcases hshows with hshows | hshows
    · exact Pattern.resume_shows h hreachable hshows hbelow
    · exact Pattern.resume_shows h hreachable hshows fun _ hid => hid

/-- **After any calls, the last of them says what is live.** -/
theorem Pattern.calls_show (h : pattern.Chained facts.record before after)
    (hreachable : after.reachable = true) (calls : List Call)
    (hstate : state = before ∨ state = after) (hshows : planner.stream.Shows state) :
    Ensures (calls.forM (pattern.call facts)) planner (fun _ => False) fun _ last =>
      last.stream.Shows ((calls.getLast?.map (Call.state before after)).getD state) := by
  induction calls generalizing planner state with
  | nil => exact Ensures.pure hshows
  | cons call calls ih =>
    have hstart : planner.stream.Shows before ∨ planner.stream.Shows after := by
      rcases hstate with rfl | rfl
      · exact Or.inl hshows
      · exact Or.inr hshows
    have hnext : call.state before after = before ∨ call.state before after = after := by
      cases call with
      | suspend => exact Or.inl rfl
      | resume => exact Or.inr rfl
    refine (Pattern.call_shows h hreachable hstart call).seq fun _ mid hmid => ?_
    refine (ih hnext hmid).mono fun _ last hlast => ?_
    rw [List.getLast?_cons]
    cases hcalls : calls.getLast? with
    | none => rwa [hcalls] at hlast
    | some other => rwa [hcalls] at hlast

/-! ## Guarded patterns -/

theorem Planner.jump_shows (h : planner.stream.Shows state) (target : Option Label) :
    Ensures (jump target) planner (fun _ => True) fun _ last => last.stream.Shows state := by
  cases target with
  | none => exact Ensures.pure h
  | some label => exact Ensures.modifies (h.emit _)

theorem Planner.place_shows (h : planner.stream.Shows state) (label : Label) :
    Ensures (place label) planner (fun _ => True) fun _ last => last.stream.Shows state := by
  refine (require_ensures fun _ _ => trivial).seq fun _ same hsame => ?_
  rw [hsame]
  exact Ensures.modifies (h.place label)

/-- The end of the code of a guard: both ways out start with the ranges in line. -/
theorem Pattern.leave_shows (h : pattern.Chained facts.record before after)
    (hreachable : after.reachable = true) (hsound : planner.stream.Sound true) {index : StateIndex}
    (hindex : facts.record.states[index]? = some after) (own : PatternId)
    (thenLabel elseLabel : Label) (whenFalse : Option Label) :
    Ensures (do
      change (·.closeUnassigned facts.record.states index)
      change (·.openAssigned facts.record.states index)
      emit (.goto thenLabel)
      place elseLabel
      pattern.suspend facts
      jump whenFalse
      place thenLabel
      pattern.resume facts
      setPhase own .emitted) planner (fun _ => True) fun _ last => last.stream.Shows after := by
  have haligned := (hsound.align hindex hreachable).emit (.goto thenLabel)
  refine Ensures.modify_bind (Ensures.modify_bind (Ensures.bind
    (Ensures.modifies ((place_shows haligned elseLabel).seq fun _ failed hfailed =>
      Ensures.bind ?_))))
  refine (Pattern.call_shows h hreachable (Or.inr hfailed) .suspend).imp (fun _ _ => trivial)
    fun _ left hleft => ?_
  refine (jump_shows hleft whenFalse).seq fun _ gone hgone => ?_
  refine (place_shows hgone thenLabel).seq fun _ passed hpassed => Ensures.bind ?_
  refine (Pattern.call_shows h hreachable (Or.inl hpassed) .resume).imp (fun _ _ => trivial)
    fun _ on hon => ?_
  exact Ensures.modifies hon

/-- **After a guarded pattern has been planned, what is live is what is assigned after it.** -/
theorem Pattern.plan_shows {own : PatternId} {patterns : List Pattern} {condition : Expr}
    {span : Span}
    (h : (Pattern.guarded own patterns condition span).Chained facts.record before after)
    {suspend : FlowState} (hhas : facts.record.Has own suspend after)
    (hreachable : after.reachable = true) (hsound : planner.stream.Sound true) (value : ValueId)
    (static : Ty) (whenFalse : Option Label) (enclosing : Enclosing) :
    Ensures ((Pattern.guarded own patterns condition span).plan facts value static
      ⟨none, whenFalse⟩ enclosing) planner (fun _ => True) fun _ last =>
        last.stream.Shows after := by
  have hkeeps : ∀ {ids : List LocalId} {action : PlanM Unit},
      Assembled .all ids action → Keeps (Stream.Sound true) action :=
    fun haction => haction.keeps (Stream.stable_sound true)
  rw [Pattern.plan]
  refine hhas.align fun snapshot _ hresume => newLabel_bind (newLabel_bind ?_)
  refine Ensures.modify_bind (Ensures.modify_bind ?_)
  have hstart : planner.stream.newLabel.2.newLabel.2.Sound true := hsound.newLabel.newLabel
  refine ((hkeeps (Pattern.planAll_assembled patterns (.everything facts _) value
    static _)).ensures _ hstart).seq fun _ tested htested => ?_
  -- Whatever the condition is, the ranges are brought into line after it.
  have hafter : ∀ {ids : List LocalId} {action : PlanM Unit}, Assembled .all ids action →
      Ensures (action >>= fun _ => _) tested (fun _ => True) _ := fun haction =>
    ((hkeeps haction).ensures tested htested).seq fun _ checked hchecked =>
      Pattern.leave_shows h hreachable hchecked hresume own planner.stream.labels.size
        planner.stream.newLabel.2.labels.size whenFalse
  dsimp only
  split
  next => exact hafter (.pure _)
  next => exact hafter (.emit rfl)
  next => exact hafter (condition.plan_assembled (.everything facts _) _ _)

theorem Pattern.generate_shows {own : PatternId} {patterns : List Pattern} {condition : Expr}
    {span : Span}
    (h : (Pattern.guarded own patterns condition span).Chained facts.record before after)
    {suspend : FlowState} (hhas : facts.record.Has own suspend after)
    (hreachable : after.reachable = true) (hsound : planner.stream.Sound true) (value : ValueId)
    (static : Ty) (whenFalse : Option Label) :
    Ensures ((Pattern.guarded own patterns condition span).generate facts value static
      ⟨none, whenFalse⟩) planner (fun _ => True) fun _ last => last.stream.Shows after := by
  have hrecorded := hhas
  obtain ⟨found, hfound, -⟩ := hrecorded
  rw [Pattern.generate]
  refine Ensures.bind ?_
  rw [Planner.snapshot, Pattern.id, hfound]
  refine Ensures.pure (Ensures.modify_bind (Ensures.bind ?_))
  have hcleared : ({ planner with emitted := Emitted.empty } : Planner).stream.Sound true := hsound
  refine (Pattern.plan_shows h hhas hreachable hcleared value static whenFalse _).mono ?_
  exact fun _ _ hlast => Ensures.get_bind (Ensures.modify_bind (Ensures.pure hlast))

end

/-- Labels of which the false target is one are where a test with no true target leads. -/
theorem Targets.Within.of_none {whenFalse : Option Label} {bound : Label}
    (h : ∀ label ∈ whenFalse, label < bound) : Within ⟨none, whenFalse⟩ none bound := by
  intro outcome label hexit
  rw [exits_none] at hexit
  cases outcome with
  | true => cases hexit
  | false => exact h label hexit.symm

/-- Generation stops only for want of slots, if the labels exist. -/
theorem Pattern.generate_stops {facts : Facts} {pattern : Pattern}
    (h : facts.record.Covered pattern.visits) (value : ValueId) (static : Ty) (targets : Targets)
    (planner : Planner) :
    Ensures (pattern.generate facts value static targets) planner
      (fun failure => targets.Within none planner.stream.labels.size →
        Planner.OutOfSlots
          (fun bound => bound ∈ planner.stream.slots ∨ bound ∈ pattern.storedLocals) failure)
      fun _ _ => True := by
  have hstores := (pattern.generate_stores h value static targets).ensures planner
  cases hrun : EStateM.run (pattern.generate facts value static targets) planner with
  | ok emitted after =>
    rw [Ensures, hrun]
    trivial
  | error failure after =>
    rw [Ensures, hrun]
    intro hin
    exact hstores.of_error hrun ((pattern.generate_emits value static hin).of_error hrun)

/-- What was recorded for an analysed pattern and is kept covers it. -/
theorem FlowRecord.Kept.covered {visits : List Visit} {after : FlowRecord}
    (h : Kept visits record after) (hcovered : record.Covered visits) : after.Covered visits := by
  refine ⟨fun pattern hpattern => ⟨?_, (hcovered.patterns pattern hpattern).2⟩, hcovered.exprs⟩
  have hmem := (hcovered.patterns pattern hpattern).1
  rw [← Std.ExtTreeMap.isSome_getElem?_iff_mem] at hmem ⊢
  rwa [h.snapshots pattern hpattern]

/-- **What is live follows the states that were recorded.**  Let each pattern of an arena be
referred to once, and let a guarded pattern be analysed where it is reached with some locals
assigned, so that the state after it can be reached.  Generated into any stream that keeps ranges,
with success by falling through, it leaves live just the locals that have a slot and are assigned in
that state.  However often it is suspended and resumed then, these are live if it was resumed last,
and if it was suspended last then just those with a slot that were assigned before the pattern.  If
the label for failure exists, generation stops only for want of slots; the calls never stop. -/
theorem live_follows_states {arena : Arena} (honce : (arena.patternReferences []).Nodup)
    {id own : PatternId} {patterns : List Pattern} {condition : Expr} {span : Span}
    (hguarded : arena.forest.pattern id = .guarded own patterns condition span)
    {table : Resolution} {record : FlowRecord} {entry : LocalSet} {analysed : Analysed}
    (hanalysed : arena.forest.analysePattern table record id (.plain (.reached entry)) =
      .ok analysed) (facts : Facts)
    (hkept : FlowRecord.Kept (arena.forest.pattern id).visits analysed.record facts.record)
    {suspend resume : FlowState} (hhas : facts.record.Has id suspend resume)
    (hreachable : resume.reachable = true) (planner : Planner)
    (hbuilt : Stream.Built true planner.stream) (value : ValueId) (static : Ty)
    (whenFalse : Option Label) :
    Ensures ((arena.forest.pattern id).generate facts value static ⟨none, whenFalse⟩) planner
      (fun failure => (∀ label ∈ whenFalse, label < planner.stream.labels.size) →
        Planner.OutOfSlots (fun bound => bound ∈ planner.stream.slots ∨
          bound ∈ (arena.forest.pattern id).storedLocals) failure)
      fun _ after =>
        (∀ bound, after.stream.isLive bound = true ↔
          after.stream.isDeclared bound = true ∧ resume.assigned.contains bound = true) ∧
        ∀ calls, ∃ last,
          EStateM.run (calls.forM ((arena.forest.pattern id).call facts)) after = .ok () last ∧
          ∀ bound, last.stream.isLive bound = true ↔ last.stream.isDeclared bound = true ∧
            (Call.lastState (.reached entry) resume calls).assigned.contains bound = true := by
  have hcovered := (FlowRecord.covers_of_run ((arena.forest.pattern id).analyse_walks_anyhow table
    arena.forest.locals (.plain (.reached entry))).covers hanalysed).covered
  have hunbroken : Unbroken (arena.forest.visitsOf (.pattern id)) := hcovered.unbroken
  have hready := hkept.covered hcovered
  obtain ⟨final, hrun, hrecord⟩ := FlowRecord.exists_of_run hanalysed
  -- The states along the spine are still there.
  have hchained : (arena.forest.pattern id).Chained facts.record (.reached entry)
      analysed.flow.joined := by
    refine ((Pattern.analyse_chained table arena.forest.locals _
      (Arena.straight_of_unbroken honce hunbroken) _ _).of_ok hrun) facts.record ?_
    rw [← hrecord]
    exact hkept.mono fun pattern hpattern => Pattern.spine_subset _ hpattern
  have hid := Arena.id_of_unbroken hunbroken
  obtain ⟨_, hafter⟩ := Pattern.Chained.has _ hchained
  rw [hid] at hafter
  obtain rfl := hhas.resume_unique hafter
  have hsound := hbuilt.sound
  have hshows : Ensures ((arena.forest.pattern id).generate facts value static ⟨none, whenFalse⟩)
      planner (fun _ => True) fun _ after => after.stream.Shows analysed.flow.joined := by
    rw [hguarded] at hchained hid ⊢
    exact Pattern.generate_shows hchained (hid ▸ hhas) hreachable hsound value static whenFalse
  refine ((Pattern.generate_stops hready value static ⟨none, whenFalse⟩ planner).and hshows).imp
    (fun failure hbad hlabel => hbad (Targets.Within.of_none hlabel)) fun _ after hafter => ?_
  refine ⟨hafter.2.live, fun calls => ?_⟩
  obtain ⟨_, last, hlast, hshown⟩ :=
    (Pattern.calls_show hchained hreachable calls (Or.inr rfl) hafter.2).exists_ok fun _ h => h
  exact ⟨last, hlast, hshown.live⟩

/-! ## A guard in a guard -/

/-- A string under two guards: `(Object x && x instanceof String s) && flag`. -/
def stringUnderFlag : Arena where
  patterns := #[.type ⟨some "Object", Span.none⟩ (some 1) Span.none,
    .type ⟨some "String", Span.none⟩ (some 2) Span.none, .guarded [0] 1 Span.none,
    .guarded [2] 2 Span.none]
  exprs := #[.ident "x" Span.none, .instanceOf 0 1 Span.none, .ident "flag" Span.none]
  locals := #[⟨"flag", Span.none⟩, ⟨"x", Span.none⟩, ⟨"s", Span.none⟩]

/-- Whether the state recorded after a pattern can be reached and has the locals assigned. -/
def FlowRecord.resumes (record : FlowRecord) (id : PatternId) (locals : List LocalId) : Bool :=
  (record.snapshots[id]?).any fun snapshot =>
    (record.states[snapshot.suspend]?).isSome && (record.states[snapshot.resume]?).any fun state =>
      state.reachable && decide (state.assigned.toList = locals)

theorem FlowRecord.exists_has {id : PatternId} {locals : List LocalId}
    (h : record.resumes id locals = true) : ∃ suspend resume, record.Has id suspend resume ∧
      resume.reachable = true ∧ resume.assigned.toList = locals := by
  rw [resumes, Option.any_eq_true] at h
  obtain ⟨snapshot, hsnapshot, h⟩ := h
  rw [Bool.and_eq_true, Option.isSome_iff_exists, Option.any_eq_true] at h
  obtain ⟨⟨suspend, hsuspend⟩, resume, hresume, h⟩ := h
  rw [Bool.and_eq_true, decide_eq_true_eq] at h
  exact ⟨suspend, resume, ⟨snapshot, hsnapshot, hsuspend, hresume⟩, h⟩

theorem pattern_stringUnderFlag : stringUnderFlag.forest.pattern 3 =
    .guarded 3 [.guarded 2 [.type 0 ⟨some "Object", Span.none⟩ (some 1) Span.none]
      (.instanceOf 1 (.ident 0 "x" Span.none)
        (.type 1 ⟨some "String", Span.none⟩ (some 2) Span.none) Span.none) Span.none]
      (.ident 2 "flag" Span.none) Span.none := by
  with_unfolding_all rfl

/-- It stores two locals, and there are slots for them. -/
theorem not_outOfSlots_stringUnderFlag (failure : Failure) :
    ¬ ((∀ label ∈ some 0, label < (Stream.new true).newLabel.2.labels.size) →
      Planner.OutOfSlots (fun bound => bound ∈ (Stream.new true).newLabel.2.slots ∨
        bound ∈ (stringUnderFlag.forest.pattern 3).storedLocals) failure) := by
  intro hbad
  obtain ⟨-, ids, hnodup, hlength, hids⟩ := hbad (by decide)
  have hsub : ids ⊆ [1, 2] := by
    intro id hid
    rcases hids id hid with hslot | hstored
    · simp [Stream.new, Stream.newLabel] at hslot
    · rwa [pattern_stringUnderFlag] at hstored
  have hle := (List.subperm_of_subset hnodup hsub).length_le
  rw [Stream.slotLimit] at hlength
  simp only [List.length_cons, List.length_nil] at hle
  omega

/-- When it has been generated or resumed, `x` and `s` are to be live; when it has been suspended,
`flag` only, which has no slot. -/
theorem live_follows_stringUnderFlag : ∃ analysed emitted after resume,
    stringUnderFlag.forest.analysePattern Resolution.empty FlowRecord.empty 3
      (.plain (.reached (.ofList [0]))) = .ok analysed ∧
    EStateM.run ((stringUnderFlag.forest.pattern 3).generate
      ⟨Pool.builtin, Resolution.empty, analysed.record⟩ 0 Ty.object ⟨none, some 0⟩)
      ⟨(Stream.new true).newLabel.2, ∅, Emitted.empty⟩ = .ok emitted after ∧
    resume.assigned.toList = [0, 1, 2] ∧
    (∀ bound, after.stream.isLive bound = true ↔
      after.stream.isDeclared bound = true ∧ resume.assigned.contains bound = true) ∧
    ∀ calls, ∃ last, EStateM.run (calls.forM ((stringUnderFlag.forest.pattern 3).call
        ⟨Pool.builtin, Resolution.empty, analysed.record⟩)) after = .ok () last ∧
      ∀ bound, last.stream.isLive bound = true ↔ last.stream.isDeclared bound = true ∧
        (Call.lastState (.reached (.ofList [0])) resume calls).assigned.contains bound = true := by
  have hok : (stringUnderFlag.forest.analysePattern Resolution.empty FlowRecord.empty 3
      (.plain (.reached (.ofList [0])))).toOption.any
        (fun analysed => analysed.record.resumes 3 [0, 1, 2]) = true := by
    decide +kernel
  cases hanalysed : stringUnderFlag.forest.analysePattern Resolution.empty FlowRecord.empty 3
      (.plain (.reached (.ofList [0]))) with
  | error fault => simp [hanalysed, Except.toOption] at hok
  | ok analysed =>
    rw [hanalysed, Except.toOption, Option.any_some] at hok
    obtain ⟨suspend, resume, hhas, hreachable, hlocals⟩ := FlowRecord.exists_has hok
    obtain ⟨emitted, after, hrun, hlive, hcalls⟩ := (live_follows_states (by decide)
      pattern_stringUnderFlag hanalysed ⟨Pool.builtin, Resolution.empty, analysed.record⟩
      (.refl _ _) hhas hreachable ⟨(Stream.new true).newLabel.2, ∅, Emitted.empty⟩ (.newLabel .new)
      0 Ty.object (some 0)).exists_ok not_outOfSlots_stringUnderFlag
    exact ⟨analysed, emitted, after, resume, rfl, hrun, hlocals, hlive, hcalls⟩

end GuardedMatch
