import GuardedMatch.Proofs.Compiling
import GuardedMatch.Proofs.Recording

/-!
# Resolving once more

Resolving a pattern a second time finds nothing new.  A guarded pattern has its type by then and is
not entered again.  The patterns around it are resolved as before, and they are given the types that
they have.  They repeat their reports, and these a queue without duplicates drops.

This is so where nothing is met twice.  Otherwise what is met later may change what was noted
before.

* `Resolver.Repeats`: an action that finds nothing new, if the table still says what it has left.
* `Pattern.resolve_repeats`: resolving a pattern is such an action.
* `Queue.addAll_of_subset`: a queue drops what it was offered before.
-/

namespace GuardedMatch

/-! ## Queues -/

namespace Queue

variable {queue : Queue}

theorem isDuplicate_accept (queue : Queue) (other diagnostic : Diagnostic) :
    (queue.isDuplicate diagnostic = true ∨ other = diagnostic) →
      (queue.accept other).isDuplicate diagnostic = true := by
  obtain ⟨-, -, markers, hwaiting, -⟩ := queue.accept_spec other
  simp only [isDuplicate, ← Array.any_toList, hwaiting, List.any_append, List.any_cons]
  rintro (h | rfl)
  · rw [h]
    rfl
  · simp

/-- What a queue drops it drops ever after. -/
theorem drops_add {diagnostic : Diagnostic} (h : queue.drops diagnostic = true)
    (other : Diagnostic) : (queue.add other).2.drops diagnostic = true := by
  rcases add_cases queue other with hadd | hadd
  · rwa [hadd]
  · obtain ⟨hconfig, hcount, -⟩ := queue.accept_spec other
    rw [hadd]
    simp only [drops, limitReached, hconfig, hcount, Bool.or_eq_true, Bool.and_eq_true,
      decide_eq_true_eq] at h ⊢
    refine h.imp (Or.imp_left fun hlimit => ⟨hlimit.1, Nat.le_succ_of_le hlimit.2⟩) ?_
    exact And.imp_right fun hduplicate => queue.isDuplicate_accept other _ (.inl hduplicate)

/-- A queue without duplicates drops what it was just offered. -/
theorem drops_add_self (hconfig : queue.config.deduplicate = true) (diagnostic : Diagnostic) :
    (queue.add diagnostic).2.drops diagnostic = true := by
  rw [add_eq]
  split
  next h => exact h
  next =>
    have hduplicate := queue.isDuplicate_accept diagnostic diagnostic (.inr rfl)
    simp [drops, (queue.accept_spec diagnostic).1, hconfig, hduplicate]

theorem drops_of_mem (hconfig : queue.config.deduplicate = true) {diagnostic : Diagnostic}
    {offered : List Diagnostic} (h : diagnostic ∈ offered) :
    (queue.addAll offered).drops diagnostic = true := by
  induction offered generalizing queue with
  | nil => cases h
  | cons first rest ih =>
    rcases List.mem_cons.mp h with rfl | h
    · exact List.foldlRecOn (motive := fun queue : Queue => queue.drops diagnostic = true) rest _
        (drops_add_self hconfig diagnostic) fun _ hqueue other _ => drops_add hqueue other
    · exact ih ((config_add queue first).symm ▸ hconfig) h

/-- **A queue without duplicates drops what it was offered before.** -/
theorem addAll_of_subset (hconfig : queue.config.deduplicate = true)
    {offered again : List Diagnostic} (h : again ⊆ offered) :
    (queue.addAll offered).addAll again = queue.addAll offered := by
  refine List.foldlRecOn (motive := (· = queue.addAll offered)) again _ rfl ?_
  rintro _ rfl diagnostic hdiagnostic
  rw [add_eq, if_pos (drops_of_mem hconfig (h hdiagnostic))]

end Queue

/-! ## Visits without repetition -/

namespace Visit

variable {first rest : List Visit}

/-- No pattern and no local is met on both sides. -/
structure Separate (first rest : List Visit) : Prop where
  patterns : Apart first rest
  locals : ∀ id, .binding id ∈ first → .binding id ∉ rest

/-- No node and no local is met twice. -/
structure Unrepeated (visits : List Visit) : Prop where
  nodes : Distinct visits
  locals : (visits.filterMap binding?).Nodup

theorem Unrepeated.append (h : Unrepeated (first ++ rest)) :
    Unrepeated first ∧ Unrepeated rest ∧ Separate first rest := by
  have hlocals := h.locals
  rw [List.filterMap_append, List.nodup_append] at hlocals
  obtain ⟨hfirst, hrest, hapart⟩ := h.nodes.append
  refine ⟨⟨hfirst, hlocals.1⟩, ⟨hrest, hlocals.2.1⟩, hapart, fun id hid hid' => ?_⟩
  exact hlocals.2.2 id (List.mem_filterMap.mpr ⟨_, hid, rfl⟩) id
    (List.mem_filterMap.mpr ⟨_, hid', rfl⟩) rfl

theorem Separate.symm (h : Separate first rest) : Separate rest first :=
  ⟨h.patterns.symm, fun id hid hid' => h.locals id hid' hid⟩

theorem Separate.left {part : List Visit} (h : Separate first rest) (hsub : part ⊆ first) :
    Separate part rest :=
  ⟨h.patterns.left hsub, fun id hid => h.locals id (hsub hid)⟩

theorem Unrepeated.cons {visit : Visit} {visits : List Visit} (h : Unrepeated (visit :: visits)) :
    Unrepeated visits ∧ Separate visits [visit] := by
  have hparts : Unrepeated ([visit] ++ visits) := h
  exact ⟨hparts.append.2.1, hparts.append.2.2.symm⟩

end Visit

/-! ## Tables that agree -/

/-- The tables say the same about the types of the patterns and locals among the visits. -/
structure Resolution.Agrees (visits : List Visit) (table other : Resolution) : Prop where
  patterns : ∀ pattern, .pattern pattern ∈ visits →
    other.patternTypes[pattern.id]? = table.patternTypes[pattern.id]?
  locals : ∀ id : LocalId, .binding id ∈ visits → other.localTypes[id]? = table.localTypes[id]?

namespace Resolution.Agrees

variable {visits first rest : List Visit} {table mid after : Resolution}

theorem refl (visits : List Visit) (table : Resolution) : Agrees visits table table :=
  ⟨fun _ _ => rfl, fun _ _ => rfl⟩

theorem trans (h : Agrees visits table mid) (h' : Agrees visits mid after) :
    Agrees visits table after :=
  ⟨fun pattern hpattern => (h'.patterns pattern hpattern).trans (h.patterns pattern hpattern),
    fun id hid => (h'.locals id hid).trans (h.locals id hid)⟩

theorem mono (h : Agrees visits table after) (hsub : first ⊆ visits) : Agrees first table after :=
  ⟨fun pattern hpattern => h.patterns pattern (hsub hpattern), fun id hid => h.locals id (hsub hid)⟩

end Resolution.Agrees

namespace Resolver

variable {visits first rest : List Visit} {α β : Type}

/-- What is met elsewhere changes nothing here. -/
theorem Touches.agrees {state after : Resolver} (h : Touches rest state after)
    (hseparate : Visit.Separate first rest) : Resolution.Agrees first state.table after.table :=
  ⟨fun pattern hpattern => h.patterns pattern.id fun other hother heq =>
    hseparate.patterns pattern other hpattern hother heq.symm,
    fun id hid => h.locals id (hseparate.locals id hid)⟩

/-! ## Actions that find nothing new -/

/-- The action answers, leaves the table and makes reports. -/
def Answers (action : ResolveM α) (state : Resolver) (answer : α) (reports : List Diagnostic) :
    Prop :=
  EStateM.run action state = .ok answer ⟨state.table, state.queue.addAll reports⟩

namespace Answers

variable {state : Resolver} {answer : α} {reports reports' : List Diagnostic}

theorem bind {action : ResolveM α} {next : α → ResolveM β} {result : β}
    (h : Answers action state answer reports)
    (hnext : ∀ mid : Resolver, mid.table = state.table →
      Answers (next answer) mid result reports') :
    Answers (action >>= next) state result (reports ++ reports') := by
  rw [Answers, run_bind h, Queue.addAll_append]
  exact hnext ⟨state.table, state.queue.addAll reports⟩ rfl

end Answers

def Change.IsReport (change : Change) : Prop := ∃ diagnostic, change = report diagnostic

theorem Change.IsReport.report (diagnostic : Diagnostic) (_ : diagnostic.code.isMistake = true) :
    (Change.report diagnostic).IsReport := ⟨diagnostic, rfl⟩

/-- An action that only reports does the same whatever is in the table. -/
theorem Makes.exists_answers {action : ResolveM α} (h : Makes Change.IsReport action) :
    ∃ answer reports, ∀ state, Answers action state answer reports := by
  obtain ⟨answer, changes, hchanges, hrun⟩ := h.exists_changes
  have hreports : ∃ reports, ∀ state : Resolver,
      changes.foldl Change.apply state = ⟨state.table, state.queue.addAll reports⟩ := by
    clear hrun
    induction changes with
    | nil => exact ⟨[], fun _ => rfl⟩
    | cons change changes ih =>
      obtain ⟨⟨diagnostic, rfl⟩, hrest⟩ := List.forall_mem_cons.1 hchanges
      obtain ⟨reports, hreports⟩ := ih hrest
      exact ⟨diagnostic :: reports, fun state => hreports _⟩
  obtain ⟨reports, hreports⟩ := hreports
  exact ⟨answer, reports, fun state => (hrun state).trans (by rw [hreports])⟩

/-- An action that finds nothing new when it is done again: if the table says what it said about the
visits when the action was done, the action gives the same answer, leaves the table alone and
reports only what it has reported. -/
structure Repeats (visits : List Visit) (action : ResolveM α) : Prop where
  touches : ∀ state, Ensures action state (fun _ => True) fun _ after => Touches visits state after
  again : ∀ state, Ensures action state (fun _ => True) fun answer after =>
    ∃ made, after.queue = state.queue.addAll made ∧ ∃ reports ⊆ made, ∀ later : Resolver,
      Resolution.Agrees visits after.table later.table → Answers action later answer reports

namespace Repeats

variable {action : ResolveM α} {next : α → ResolveM β}

theorem mono (h : Repeats first action) (hsub : first ⊆ visits) :
    Repeats visits action where
  touches state := (h.touches state).mono fun _ _ htouches => htouches.mono hsub
  again state := (h.again state).mono fun _ _ ⟨made, hmade, reports, hreports, hlater⟩ =>
    ⟨made, hmade, reports, hreports, fun later hagrees => hlater later (hagrees.mono hsub)⟩

theorem of_makes (h : Makes Change.IsReport action) : Repeats [] action := by
  obtain ⟨answer, reports, haction⟩ := h.exists_answers
  refine ⟨fun state => ?_, fun state => ?_⟩ <;> rw [Ensures, haction state]
  · exact ⟨fun _ _ => rfl, fun _ _ => rfl, fun _ _ => rfl, reports, rfl⟩
  · exact ⟨reports, rfl, reports, List.Subset.refl _, fun later _ => haction later⟩

/-- What is met in the one is not met in the other, so each leaves what the other has found out. -/
theorem bind (h : Repeats first action) (hnext : ∀ answer, Repeats rest (next answer))
    (hseparate : Visit.Separate first rest) :
    Repeats (first ++ rest) (action >>= next) where
  touches state := (h.touches state).seq fun answer mid hmid =>
    ((hnext answer).touches mid).mono fun _ _ hafter =>
      (hmid.mono (List.subset_append_left ..)).trans (hafter.mono (List.subset_append_right ..))
  again state := by
    refine (h.again state).seq ?_
    rintro answer mid ⟨made, hmade, reports, hreports, hlater⟩
    refine (((hnext answer).again mid).and ((hnext answer).touches mid)).mono ?_
    rintro result after ⟨⟨made', hmade', reports', hreports', hlater'⟩, htouches⟩
    refine ⟨made ++ made', by rw [hmade', hmade, Queue.addAll_append], reports ++ reports', ?_,
      fun later hsame => ?_⟩
    · exact List.append_subset.mpr ⟨List.subset_append_of_subset_left _ hreports,
        List.subset_append_of_subset_right _ hreports'⟩
    · have hfirst := (htouches.agrees hseparate).trans
        (hsame.mono (List.subset_append_left first rest))
      refine (hlater later hfirst).bind fun mid' hmid' => hlater' mid' ?_
      exact hmid' ▸ hsame.mono (List.subset_append_right first rest)

theorem after (h : Repeats [] action) (hnext : ∀ answer, Repeats visits (next answer)) :
    Repeats visits (action >>= next) :=
  bind h hnext ⟨nofun, nofun⟩

theorem before (h : Repeats visits action) (hnext : ∀ answer, Repeats [] (next answer)) :
    Repeats visits (action >>= next) :=
  (bind h hnext ⟨fun _ _ _ => nofun, fun _ _ => nofun⟩).mono (by simp)

theorem pure (answer : α) : Repeats [] (Pure.pure answer : ResolveM α) :=
  of_makes (.pure answer)

theorem insert_eq_self {γ : Type} {map : IdMap γ} {id : Nat} {value : γ}
    (h : map[id]? = some value) : map.insert id value = map := by
  refine Std.ExtTreeMap.ext_getElem? fun other => ?_
  rw [Std.ExtTreeMap.getElem?_insert]
  split
  next heq => rw [← Nat.compare_eq_eq.mp heq, h]
  next => rfl

theorem setLocalType (id : LocalId) (ty : Ty) :
    Repeats [.binding id] (update (·.setLocalType id ty)) where
  touches state := Ensures.modifies (.localType (List.mem_singleton_self _) ty state)
  again state := Ensures.modifies ⟨[], rfl, [], List.nil_subset _, fun later hagrees => by
    have hknown : later.table.localTypes[id]? = some ty :=
      (hagrees.locals id (List.mem_singleton_self _)).trans Std.ExtTreeMap.getElem?_insert_self
    have hsame : later.table.setLocalType id ty = later.table := by
      rw [Resolution.setLocalType, insert_eq_self hknown]
    have hrun : EStateM.run (update (·.setLocalType id ty)) later =
        .ok () ⟨later.table.setLocalType id ty, later.queue⟩ := rfl
    rw [Answers, hrun, hsame]
    rfl⟩

theorem patternHas (pattern : Pattern) (ty : Ty) :
    Repeats [.pattern pattern] (Resolver.patternHas pattern.id ty) where
  touches state := Ensures.modify_bind (Ensures.pure
    (.patternType (List.mem_singleton_self _) ty state))
  again state := Ensures.modify_bind (Ensures.pure ⟨[], rfl, [], List.nil_subset _,
    fun later hagrees => by
      have hknown : later.table.patternTypes[pattern.id]? = some ty :=
        (hagrees.patterns pattern (List.mem_singleton_self _)).trans
          Std.ExtTreeMap.getElem?_insert_self
      have hsame : later.table.setPatternType pattern.id ty = later.table := by
        rw [Resolution.setPatternType, insert_eq_self hknown]
      have hrun : EStateM.run (Resolver.patternHas pattern.id ty) later =
          .ok ty ⟨later.table.setPatternType pattern.id ty, later.queue⟩ := rfl
      rw [Answers, hrun, hsame]
      rfl⟩)

theorem typePattern (pool : Pool) (written : TypeRef) (binds : Option LocalId) (span : Span)
    (expected : Ty) : Repeats (binds.toList.map .binding)
      (Resolver.typePattern pool written binds span expected) := by
  have hnamed := fun name : String =>
    of_makes (.namedType Change.IsReport.report pool name written.span)
  have hcompatible := fun ty =>
    of_makes (.expectCompatible Change.IsReport.report pool span expected ty)
  rw [Resolver.typePattern]
  cases binds with
  | none =>
    cases written.name with
    | none => exact after (pure _) fun _ => after (hcompatible _) fun _ => pure _
    | some name => exact after (hnamed name) fun _ => after (hcompatible _) fun _ => pure _
  | some id =>
    have hstore := fun ty => before (setLocalType id ty) fun _ => pure ty
    cases written.name with
    | none => exact after (pure _) fun _ => after (hcompatible _) fun _ => hstore _
    | some name => exact after (hnamed name) fun _ => after (hcompatible _) fun _ => hstore _

end Repeats

end Resolver

/-! ## Trees -/

open Resolver in
/-- A guarded pattern that has a type is not entered. -/
theorem Pattern.answers_guarded {pool : Pool} {locals : Array LocalDecl} {id : PatternId}
    {patterns : List Pattern} {condition : Expr} {span : Span} {ty expected : Ty} {scope : Scope}
    {state : Resolver} (h : state.table.patternTypes[id]? = some ty) :
    Answers ((Pattern.guarded id patterns condition span).resolve pool locals expected scope) state
      ty [] := by
  rw [Answers, Pattern.resolve]
  have hget : ∀ next : Resolver → ResolveM Ty,
      EStateM.run (get >>= next) state = EStateM.run (next state) state := fun _ => rfl
  rw [hget, h]
  rfl

open Resolver in
/-- A guarded pattern has the type that it answers, however its condition is resolved. -/
theorem Pattern.resolve_typed {pool : Pool} {locals : Array LocalDecl} {id : PatternId}
    {patterns : List Pattern} {condition : Expr} {span : Span}
    (h : Visit.Separate [.pattern (.guarded id patterns condition span)] condition.visits)
    (expected : Ty) (scope : Scope) (state : Resolver) :
    Ensures ((Pattern.guarded id patterns condition span).resolve pool locals expected scope) state
      (fun _ => True) fun answer after => after.table.patternTypes[id]? = some answer := by
  rw [Pattern.resolve]
  refine Ensures.get_bind ?_
  split
  next ty hty => exact Ensures.pure hty
  next =>
    refine Ensures.skip fun types mid => ?_
    refine Ensures.bind (Ensures.modify_bind (Ensures.pure ?_))
    refine Ensures.bind ((extend_ensures scope _ _).imp (fun _ _ => trivial) ?_)
    rintro inner _ ⟨rfl, -⟩
    have hcondition := (condition.resolve_follows pool (.refl locals inner)).ensures
    refine Ensures.bind ((hcondition _).imp (fun _ _ => trivial) fun conditionTy last hlast => ?_)
    have hguard : Follows pool locals inner [] [] (guard pool condition conditionTy) :=
      .quiet (.guard Change.Common.report Change.Common.conversion ..)
    refine Ensures.bind ((hguard.ensures last).imp (fun _ _ => trivial) fun _ last' hlast' => ?_)
    refine Ensures.bind ((tagCondition_ensures locals id condition last').imp
      (fun _ _ => trivial) ?_)
    rintro _ _ rfl
    have htouches := (hlast.touches.trans (hlast'.touches.mono (List.nil_subset _))).trans
      (.tagged _ id condition last')
    exact Ensures.pure (((htouches.agrees h).patterns _ (List.mem_singleton_self _)).trans
      Std.ExtTreeMap.getElem?_insert_self)

open Resolver in
mutual

/-- **Resolving a pattern again finds nothing new**, if nothing is met twice in it. -/
theorem Pattern.resolve_repeats (pool : Pool) (locals : Array LocalDecl) : ∀ (pattern : Pattern),
    Visit.Unrepeated pattern.visits → ∀ (expected : Ty) (scope : Scope),
      Repeats pattern.visits (pattern.resolve pool locals expected scope)
  | .type id written binds span, hunrepeated, expected, scope => by
    rw [Pattern.resolve]
    refine .mono (.bind (.typePattern ..) (fun ty => .patternHas (.type id written binds span) ty)
      hunrepeated.cons.2) ?_
    simp [Pattern.visits]
  | .record id written components span, hunrepeated, expected, scope => by
    obtain ⟨hcomponents, hself⟩ := hunrepeated.cons
    rw [Pattern.resolve]
    refine .mono (.after (.of_makes (.recordPattern Change.IsReport.report ..)) fun answer => .bind
      (Pattern.resolveComponents_repeats pool locals components hcomponents answer.2 scope)
      (fun _ => .patternHas (.record id written components span) answer.1) hself) ?_
    simp [Pattern.visits]
  | .guarded id patterns condition span, hunrepeated, expected, scope => by
    obtain ⟨-, hself⟩ := hunrepeated.cons
    have hfollows := (Pattern.guarded id patterns condition span).resolve_follows pool expected
      (.refl locals scope)
    refine ⟨fun state => (hfollows.ensures state).imp (fun _ _ => trivial)
      fun _ _ hcourse => hcourse.touches, fun state => ?_⟩
    have hcondition := (hself.left (List.subset_append_right ..)).symm
    refine ((Pattern.resolve_typed hcondition expected scope state).and
      (hfollows.ensures state)).mono ?_
    rintro answer after ⟨htyped, hcourse⟩
    obtain ⟨made, hmade⟩ := hcourse.touches.reports
    refine ⟨made, hmade, [], List.nil_subset _, fun later hagrees => Pattern.answers_guarded ?_⟩
    rw [← htyped]
    exact hagrees.patterns (.guarded id patterns condition span) (Pattern.self_mem_visits _)
  | .any id span, _, expected, scope => by
    rw [Pattern.resolve]
    exact .patternHas (.any id span) expected
  | .missing id, _, expected, scope => by
    rw [Pattern.resolve]
    exact ⟨fun _ => Ensures.throw trivial, fun _ => Ensures.throw trivial⟩

theorem Pattern.resolveComponents_repeats (pool : Pool) (locals : Array LocalDecl) :
    ∀ (patterns : List Pattern), Visit.Unrepeated (Pattern.visitsAll patterns) →
      ∀ (types : List Ty) (scope : Scope), Repeats (Pattern.visitsAll patterns)
        (Pattern.resolveComponents pool locals patterns types scope)
  | [], _, types, scope => by
    rw [Pattern.resolveComponents]
    exact .pure _
  | pattern :: patterns, hunrepeated, types, scope => by
    obtain ⟨hfirst, hrest, hseparate⟩ := hunrepeated.append
    rw [Pattern.resolveComponents, Pattern.visitsAll]
    exact .bind (pattern.resolve_repeats pool locals hfirst _ scope) (fun _ =>
      Pattern.resolveComponents_repeats pool locals patterns hrest types.tail scope) hseparate

end

/-! ## Tables -/

namespace Arena

variable {arena : Arena}

/-- The locals met in a tree are those that its nodes bind. -/
theorem Acyclic.filterMap_binding? (h : arena.Acyclic) (node : Node) :
    (arena.forest.visitsOf node).filterMap Visit.binding? =
      (arena.forest.nodesOf node).flatMap arena.bindings := by
  induction node using h.wellFounded.induction with
  | _ node ih =>
    have hself : (arena.forest.visit node).binding? = none := by cases node <;> rfl
    rw [h.visitsOf_eq, (h.grounded node).nodesOf_eq, List.filterMap_cons_none hself,
      List.filterMap_append, List.filterMap_map, List.filterMap_flatMap, List.flatMap_cons,
      List.flatMap_assoc]
    refine congrArg₂ (· ++ ·) List.filterMap_some (List.flatMap_congr fun other hother => ?_)
    exact ih other hother

/-- Where every node and every local is referred to once, a tree meets nothing twice. -/
theorem Acyclic.unrepeated (h : arena.Acyclic) (hnodes : (arena.references []).Nodup)
    (hlocals : (arena.nodes.flatMap arena.bindings).Nodup) (node : Node) :
    Visit.Unrepeated (arena.forest.visitsOf node) := by
  have hdistinct := (h.grounded node).nodup_nodesOf hnodes
  refine ⟨hdistinct, ?_⟩
  rw [h.filterMap_binding?, List.nodup_flatMap]
  refine ⟨fun other _ => ?_, hdistinct.imp fun {other another} hne => ?_⟩
  · by_cases hother : other ∈ arena.nodes
    · exact (List.nodup_flatMap.mp hlocals).1 other hother
    · rw [List.eq_nil_iff_forall_not_mem.mpr fun id hid => hother (mem_nodes_of_binds hid)]
      exact List.nodup_nil
  · refine List.disjoint_left.mpr fun id hid hid' => hne ?_
    exact eq_of_mem_flatMap hlocals (mem_nodes_of_binds hid) (mem_nodes_of_binds hid') hid hid'

end Arena

namespace Resolution

/-- **Resolving a pattern once more gives the same type and leaves the table and the queue alone**,
where every pattern, expression and local is referred to from one place. -/
theorem exists_resolvePattern_again {arena : Arena} (hrange : arena.InRange)
    (hacyclic : arena.Acyclic) (hnodes : (arena.references []).Nodup)
    (hlocals : (arena.nodes.flatMap arena.bindings).Nodup) (pool : Pool) (table : Resolution)
    {id : PatternId} (hid : .pattern id ∈ arena.nodes) (expected : Ty) (scope : Scope)
    {queue : Queue} (hqueue : queue.config.deduplicate = true) :
    ∃ first second, arena.forest.resolvePattern pool table id expected scope = .ok first ∧
      arena.forest.resolvePattern pool first.table id expected scope = .ok second ∧
      second.ty = first.ty ∧ second.table = first.table ∧
      (queue.addAll first.offered).addAll second.offered = queue.addAll first.offered := by
  have hends := ((arena.forest.pattern id).resolve_only pool arena.forest.locals expected
    scope).ensures ⟨table, .new .unlimited⟩
  have hrepeats := (arena.forest.pattern id).resolve_repeats pool arena.forest.locals
    (hacyclic.unrepeated hnodes hlocals (.pattern id)) expected scope
  obtain ⟨ty, after, hrun, -⟩ := hends.exists_ok fun _ ⟨visit, hvisit, hlost⟩ =>
    hacyclic.not_lost hrange hid visit hvisit hlost
  obtain ⟨made, hmade, reports, hreports, hlater⟩ :=
    (hrepeats.again ⟨table, .new .unlimited⟩).of_ok hrun
  have hagain := hlater ⟨after.table, .new .unlimited⟩ (.refl _ _)
  have hlisted : ∀ offered, ((Queue.new .unlimited).addAll offered).diagnostics = offered :=
    Queue.diagnostics_addAll rfl
  refine ⟨⟨ty, after.table, made⟩, ⟨ty, after.table, reports⟩, ?_, ?_, rfl, rfl,
    Queue.addAll_of_subset hqueue hreports⟩
  · rw [Forest.resolvePattern, run, hrun]
    dsimp only
    rw [hmade, hlisted]
  · rw [Forest.resolvePattern, run, hagain]
    dsimp only
    rw [hlisted]

/-- A record with too many components, one of which has an unknown type while the other is guarded:
`Box(Nowhere lost, (Object other && other instanceof Dot()))`. -/
def crowdedBox : Arena where
  patterns := #[.type ⟨some "Nowhere", Span.none⟩ (some 0) Span.none,
    .type ⟨some "Object", Span.none⟩ (some 1) Span.none,
    .record ⟨some "Dot", Span.none⟩ [] Span.none, .guarded [1] 1 Span.none,
    .record ⟨some "Box", Span.none⟩ [0, 3] Span.none]
  exprs := #[.ident "other" Span.none, .instanceOf 0 2 Span.none]
  locals := #[⟨"lost", Span.none⟩, ⟨"other", Span.none⟩]

/-- The two reports on the box are offered twice and accepted once. -/
theorem exists_resolvePattern_crowdedBox_again : (crowdedBox.references []).Nodup ∧
    (crowdedBox.nodes.flatMap crowdedBox.bindings).Nodup ∧
    ∃ first second,
      crowdedBox.forest.resolvePattern Pool.shapes .empty 4 Ty.object .empty = .ok first ∧
      first.offered.map (·.code) = [.componentCount, .unknownType] ∧
      crowdedBox.forest.resolvePattern Pool.shapes first.table 4 Ty.object .empty = .ok second ∧
      second.ty = first.ty ∧ second.table = first.table ∧
      ((Queue.new .default).addAll first.offered).addAll second.offered =
        (Queue.new .default).addAll first.offered := by
  have hnodes : (crowdedBox.references []).Nodup := by decide
  have hlocals : (crowdedBox.nodes.flatMap crowdedBox.bindings).Nodup := by decide
  have hacyclic : crowdedBox.Acyclic := Arena.acyclic_of_rank
    (Node.rank (fun id => id + 3 * (id / 3)) fun id => id + 3) (by decide)
  obtain ⟨first, second, hfirst, hsecond, hty, htable, hqueue⟩ := exists_resolvePattern_again
    (Arena.inRange_of_nodes (by decide)) hacyclic hnodes hlocals Pool.shapes .empty
    (by decide : Node.pattern 4 ∈ crowdedBox.nodes) Ty.object .empty
    (rfl : (Queue.new .default).config.deduplicate = true)
  have hreports : (crowdedBox.forest.resolvePattern Pool.shapes .empty 4 Ty.object
      .empty).toOption.map (fun resolved => resolved.offered.map (·.code)) =
      some [.componentCount, .unknownType] := by
    decide +kernel
  rw [hfirst] at hreports
  exact ⟨hnodes, hlocals, first, second, hfirst, Option.some.inj hreports, hsecond, hty, htable,
    hqueue⟩

end Resolution

end GuardedMatch
