import GuardedMatch.Proofs.Changing

/-!
# The course of a resolution

Whatever a resolution resolves, the course that it takes is put together from a few kinds of pieces:
a pattern or an expression gets its type, a name gets its meaning, and a guarded pattern is passed
over if it has a type, or else entered.  What holds of a resolution is shown for these pieces,
whatever the tree.

* `Resolver.Course`: what a resolution does to its state.
* `Pattern.resolve_follows`, `Expr.resolve_follows`: a resolution takes such a course, and stops
  only where a reference leads nowhere.
-/

namespace GuardedMatch

variable {locals : Array LocalDecl} {outer : Scope}

/-! ## Courses -/

/-- With a guarded pattern everything below it is among the visits. -/
def Visit.Whole (visits : List Visit) : Prop :=
  ∀ id patterns condition span, .pattern (.guarded id patterns condition span) ∈ visits →
    (Pattern.guarded id patterns condition span).visits ⊆ visits

/-- A pattern that is not guarded. -/
def Pattern.Unguarded (pattern : Pattern) : Prop :=
  ∀ id patterns condition span, pattern ≠ .guarded id patterns condition span

namespace Resolver

/-- What is not among the visits is left alone, and nothing that was reported is taken back. -/
structure Touches (visits : List Visit) (state after : Resolver) : Prop where
  patterns : ∀ id, (∀ pattern, .pattern pattern ∈ visits → pattern.id ≠ id) →
    after.table.patternTypes[id]? = state.table.patternTypes[id]?
  locals : ∀ id : LocalId, .binding id ∉ visits →
    after.table.localTypes[id]? = state.table.localTypes[id]?
  idents : ∀ id, (∀ expr, .expr expr ∈ visits → expr.id ≠ id) →
    after.table.identLocals[id]? = state.table.identLocals[id]?
  reports : ∃ more, after.queue = state.queue.addAll more

theorem getElem?_insert_of_ne {γ : Type} {map : IdMap γ} {id other : Nat} {value : γ}
    (h : id ≠ other) : (map.insert id value)[other]? = map[other]? :=
  Std.ExtTreeMap.getElem?_insert.trans (if_neg fun heq => h (Nat.compare_eq_eq.mp heq))

namespace Touches

variable {visits first : List Visit} {state mid after : Resolver}

theorem refl (visits : List Visit) (state : Resolver) : Touches visits state state :=
  ⟨fun _ _ => rfl, fun _ _ => rfl, fun _ _ => rfl, [], rfl⟩

theorem trans (h : Touches visits state mid) (h' : Touches visits mid after) :
    Touches visits state after := by
  obtain ⟨more, hmore⟩ := h.reports
  obtain ⟨more', hmore'⟩ := h'.reports
  exact ⟨fun id hid => (h'.patterns id hid).trans (h.patterns id hid),
    fun id hid => (h'.locals id hid).trans (h.locals id hid),
    fun id hid => (h'.idents id hid).trans (h.idents id hid),
    more ++ more', by rw [hmore', hmore, Queue.addAll_append]⟩

theorem mono (h : Touches first state after) (hsub : first ⊆ visits) : Touches visits state after :=
  ⟨fun id hid => h.patterns id fun pattern hpattern => hid pattern (hsub hpattern),
    fun id hid => h.locals id fun hlocal => hid (hsub hlocal),
    fun id hid => h.idents id fun expr hexpr => hid expr (hsub hexpr), h.reports⟩

theorem patternType {pattern : Pattern} (h : .pattern pattern ∈ visits) (ty : Ty)
    (state : Resolver) : Touches visits state ((Change.patternType pattern.id ty).apply state) :=
  ⟨fun _ hid => getElem?_insert_of_ne (hid pattern h), fun _ _ => rfl, fun _ _ => rfl, [], rfl⟩

theorem localType {id : LocalId} (h : .binding id ∈ visits) (ty : Ty) (state : Resolver) :
    Touches visits state ((Change.localType id ty).apply state) :=
  ⟨fun _ _ => rfl, fun _ hid => getElem?_insert_of_ne fun heq => hid (heq ▸ h), fun _ _ => rfl, [],
    rfl⟩

theorem tagged (visits : List Visit) (owner : PatternId) (condition : Expr) (state : Resolver) :
    Touches visits state (tagged owner condition state) := by
  refine ⟨fun id _ => tagged_keeps (·.patternTypes[id]?) (fun _ _ => rfl) (fun _ _ _ => rfl) _ _ _,
    fun id _ => tagged_keeps (·.localTypes[id]?) (fun _ _ => rfl) (fun _ _ _ => rfl) _ _ _,
    fun id _ => tagged_keeps (·.identLocals[id]?) (fun _ _ => rfl) (fun _ _ _ => rfl) _ _ _, ?_⟩
  rw [Resolver.tagged]
  split
  next => exact ⟨[_], rfl⟩
  next => exact ⟨[], rfl⟩

/-- Only the patterns that are met get types. -/
theorem mem_patternTypes (h : Touches visits state after) {id : PatternId}
    (hid : id ∈ after.table.patternTypes) :
    id ∈ state.table.patternTypes ∨ ∃ pattern, .pattern pattern ∈ visits ∧ pattern.id = id := by
  by_cases hmet : ∃ pattern, .pattern pattern ∈ visits ∧ pattern.id = id
  · exact .inr hmet
  · have hsame := h.patterns id fun pattern hpattern heq => hmet ⟨pattern, hpattern, heq⟩
    rw [Std.ExtTreeMap.mem_iff_isSome_getElem?, hsame] at hid
    exact .inl (Std.ExtTreeMap.mem_iff_isSome_getElem?.mpr hid)

end Touches

/-- What a resolution does to its state, where it meets the given visits, and where the given reads
stand inside an outer scope. -/
inductive Course (pool : Pool) (locals : Array LocalDecl) (outer : Scope) :
    List Visit → List Read → Resolver → Resolver → Prop
  | refl (state : Resolver) : Course pool locals outer [] [] state state
  | change (state : Resolver) {change : Change} (h : change.Common) :
      Course pool locals outer [] [] state (change.apply state)
  | binding (state : Resolver) (id : LocalId) (ty : Ty) :
      Course pool locals outer [.binding id] [] state ((Change.localType id ty).apply state)
  | pattern (state : Resolver) {pattern : Pattern} (h : pattern.Unguarded) (ty : Ty)
      (hsized : state.queue.IsSilent → pattern.Sized pool ty) :
      Course pool locals outer [.pattern pattern] [] state
        ((Change.patternType pattern.id ty).apply state)
  | expr (state : Resolver) (expr : Expr) (reads : List Read) (ty : Ty)
      (happlied : state.queue.IsSilent → expr.Applied pool) :
      Course pool locals outer [.expr expr] reads state ((Change.exprType expr.id ty).apply state)
  /-- A name means the innermost local of the name. -/
  | ident (state : Resolver) (id : ExprId) {name : String} (span : Span) {inner : List LocalId}
      {target : LocalId} (h : Innermost (outer.names ++ inner.map (declared locals)) name target)
      (ty : Ty) :
      Course pool locals outer [.expr (.ident id name span)] [⟨id, outer.locals ++ inner⟩] state
        ((Change.exprType id ty).apply ((Change.identLocal id target).apply state))
  | trans {first rest : List Visit} {reads reads' : List Read} {state mid after : Resolver}
      (h : Course pool locals outer first reads state mid)
      (h' : Course pool locals outer rest reads' mid after) :
      Course pool locals outer (first ++ rest) (reads ++ reads') state after
  | perm {visits visits' : List Visit} {reads : List Read} {state after : Resolver}
      (h : Course pool locals outer visits reads state after) (hperm : visits.Perm visits') :
      Course pool locals outer visits' reads state after
  /-- A guarded pattern that has a type is not entered. -/
  | skip (state : Resolver) {id : PatternId} (patterns : List Pattern) (condition : Expr)
      (span : Span) (reads : List Read) (h : id ∈ state.table.patternTypes) :
      Course pool locals outer (Pattern.guarded id patterns condition span).visits reads state state
  /-- Any other guarded pattern gets its type between its sub-patterns and its condition. -/
  | enter {id : PatternId} {patterns : List Pattern} {condition : Expr} (span : Span) (ty : Ty)
      {reads reads' : List Read} {state mid last : Resolver} (hid : id ∉ state.table.patternTypes)
      (hpatterns : Course pool locals outer (Pattern.visitsAll patterns) reads state mid)
      (hcondition : Course pool locals outer condition.visits reads'
        ((Change.patternType id ty).apply mid) last) :
      Course pool locals outer (Pattern.guarded id patterns condition span).visits (reads ++ reads')
        state (tagged id condition last)

namespace Course

variable {pool : Pool} {locals : Array LocalDecl} {outer : Scope} {visits : List Visit}
  {reads : List Read} {state after : Resolver}

theorem whole (h : Course pool locals outer visits reads state after) : Visit.Whole visits := by
  induction h with
  | refl | change => exact nofun
  | binding | expr | ident => simp [Visit.Whole]
  | pattern _ hunguarded =>
    intro id patterns condition span hvisit
    exact absurd (Visit.pattern.inj (List.mem_singleton.mp hvisit)).symm
      (hunguarded id patterns condition span)
  | trans _ _ ih ih' =>
    intro id patterns condition span hvisit
    rcases List.mem_append.mp hvisit with hfirst | hrest
    · exact List.subset_append_of_subset_left _ (ih id patterns condition span hfirst)
    · exact List.subset_append_of_subset_right _ (ih' id patterns condition span hrest)
  | perm _ hperm ih =>
    intro id patterns condition span hvisit
    exact List.Subset.trans (ih id patterns condition span (hperm.symm.subset hvisit)) hperm.subset
  | skip _ patterns' condition' span' _ _ | @enter _ patterns' condition' span' =>
    exact fun id patterns condition span hvisit => (Pattern.below_sublist _ hvisit).subset

/-- What is not met is left alone, and nothing that was reported is taken back. -/
theorem touches (h : Course pool locals outer visits reads state after) :
    Touches visits state after := by
  induction h with
  | refl state => exact .refl _ state
  | @change state change hchange =>
    cases change with
    | report diagnostic =>
      exact ⟨fun _ _ => rfl, fun _ _ => rfl, fun _ _ => rfl, [diagnostic], rfl⟩
    | conversion =>
      exact ⟨fun _ _ => rfl, fun _ _ => rfl, fun _ _ => rfl, [], rfl⟩
    | patternType | exprType | localType | identLocal => exact hchange.elim
  | binding state id ty => exact .localType (List.mem_singleton_self _) ty state
  | pattern state _ ty => exact .patternType (List.mem_singleton_self _) ty state
  | expr state => exact ⟨fun _ _ => rfl, fun _ _ => rfl, fun _ _ => rfl, [], rfl⟩
  | @ident state id name span _ target _ ty =>
    refine ⟨fun _ _ => rfl, fun _ _ => rfl, fun other hother => ?_, [], rfl⟩
    exact getElem?_insert_of_ne (hother _ (List.mem_singleton_self _))
  | trans _ _ ih ih' =>
    exact (ih.mono (List.subset_append_left ..)).trans (ih'.mono (List.subset_append_right ..))
  | perm _ hperm ih => exact ih.mono hperm.subset
  | skip state => exact .refl _ state
  | @enter id patterns condition span ty _ _ state mid last _ _ _ ih ih' =>
    have hset := Touches.patternType
      (Pattern.self_mem_visits (.guarded id patterns condition span)) ty mid
    exact (((ih.mono Visit.left_subset).trans hset).trans (ih'.mono Visit.right_subset)).trans
      (.tagged _ id condition last)

theorem isSilent (h : Course pool locals outer visits reads state after)
    (hafter : after.queue.IsSilent) : state.queue.IsSilent := by
  obtain ⟨more, hmore⟩ := h.touches.reports
  rw [hmore] at hafter
  exact hafter.of_addAll.1

end Course

/-- The action takes such a course, and stops only if a visit leads nowhere. -/
structure Follows (pool : Pool) (locals : Array LocalDecl) (outer : Scope) (visits : List Visit)
    (reads : List Read) {α : Type} (action : ResolveM α) : Prop where
  ensures : ∀ state,
    Ensures action state (fun _ => ∃ visit ∈ visits, visit.Lost locals.size) fun _ after =>
      Course pool locals outer visits reads state after

namespace Follows

variable {pool : Pool} {locals : Array LocalDecl} {outer : Scope}
  {visits visits' first rest : List Visit} {reads reads' : List Read} {α β : Type}
variable {action : ResolveM α} {next : α → ResolveM β}

theorem throw (visit : Visit) (hlost : visit.Lost locals.size) (fault : Fault) :
    Follows pool locals outer [visit] reads (MonadExcept.throw fault : ResolveM α) :=
  ⟨fun _ => Ensures.throw ⟨visit, List.mem_singleton_self _, hlost⟩⟩

theorem perm (h : Follows pool locals outer visits reads action) (hperm : visits.Perm visits') :
    Follows pool locals outer visits' reads action :=
  ⟨fun state => (h.ensures state).imp (fun _ => Visit.lost_mono hperm.subset)
    fun _ _ hcourse => hcourse.perm hperm⟩

theorem bind (h : Follows pool locals outer first reads action)
    (hnext : ∀ answer, Follows pool locals outer rest reads' (next answer)) :
    Follows pool locals outer (first ++ rest) (reads ++ reads') (action >>= next) :=
  ⟨fun state => Ensures.bind ((h.ensures state).imp
    (fun _ => Visit.lost_mono (List.subset_append_left ..)) fun answer mid hmid =>
    ((hnext answer).ensures mid).imp (fun _ => Visit.lost_mono (List.subset_append_right ..))
      fun _ _ hafter => hmid.trans hafter)⟩

/-- Common changes belong to no visit. -/
theorem quiet (h : Makes Change.Common action) :
    Follows pool locals outer [] [] action := by
  refine ⟨fun state => (h.ensures state).imp (fun _ => False.elim) ?_⟩
  rintro _ _ ⟨changes, hchanges, rfl⟩
  refine List.foldlRecOn (motive := Course pool locals outer [] [] state) changes Change.apply
    (.refl state) ?_
  exact fun mid hmid change hchange => hmid.trans (.change mid (hchanges change hchange))

theorem after (h : Makes Change.Common action)
    (hnext : ∀ answer, Follows pool locals outer visits reads (next answer)) :
    Follows pool locals outer visits reads (action >>= next) := bind (quiet h) hnext

theorem before (h : Follows pool locals outer visits reads action)
    (hnext : ∀ answer, Makes Change.Common (next answer)) :
    Follows pool locals outer visits reads (action >>= next) := by
  have hquiet : ∀ answer, Follows pool locals outer [] [] (next answer) := fun answer =>
    quiet (hnext answer)
  have hboth := bind h hquiet
  rwa [List.append_nil, List.append_nil] at hboth

/-- A node gets its type last. -/
theorem last {visit : Visit} (h : Follows pool locals outer visits reads action)
    (hnext : ∀ answer, Follows pool locals outer [visit] [] (next answer)) :
    Follows pool locals outer (visit :: visits) reads (action >>= next) := by
  have hboth := (bind h hnext).perm (List.perm_append_singleton ..)
  rwa [List.append_nil] at hboth

theorem typePattern (pool : Pool) (written : TypeRef) (binds : Option LocalId) (span : Span)
    (expected : Ty) : Follows pool locals outer (binds.toList.map .binding) []
      (Resolver.typePattern pool written binds span expected) := by
  have hstore : ∀ id ty, Follows pool locals outer [.binding id] [] (do
      update (·.setLocalType id ty)
      return ty) := fun id ty =>
    ⟨fun state => Ensures.modify_bind (Ensures.pure (.binding state id ty))⟩
  cases binds with
  | none => exact quiet (.typePattern Change.Common.report pool written span expected nofun)
  | some id =>
    have hcompatible := fun ty => Makes.expectCompatible Change.Common.report pool span expected ty
    rw [Resolver.typePattern]
    cases written.name with
    | none => exact after (.pure _) fun _ => after (hcompatible _) fun _ => hstore id _
    | some name =>
      exact after (.namedType Change.Common.report ..) fun _ => after (hcompatible _) fun _ =>
        hstore id _

theorem patternHas (pattern : Pattern) (h : pattern.Unguarded) {ty : Ty}
    (hsized : pattern.Sized pool ty) :
    Follows pool locals outer [.pattern pattern] [] (Resolver.patternHas pattern.id ty) :=
  ⟨fun state => Ensures.modify_bind (Ensures.pure (.pattern state h ty fun _ => hsized))⟩

theorem exprHas (expr : Expr) (happlied : expr.Applied pool) (reads : List Read) (ty : Ty) :
    Follows pool locals outer [.expr expr] reads (Resolver.exprHas expr.id ty) :=
  ⟨fun state => Ensures.modify_bind (Ensures.pure (.expr state expr reads ty fun _ => happlied))⟩

/-- What has been met may bind locals that become visible. -/
theorem extend {scope : Scope} {inner : List LocalId} {bindings : Bindings}
    {next : α → Scope → ResolveM β} (h : Follows pool locals outer first reads action)
    (hscope : scope.Extends locals outer inner) (hmet : ∀ id ∈ bindings, .binding id ∈ first)
    (hnext : ∀ answer scope', scope'.Extends locals outer (inner ++ bindings) →
      scope'.locals = scope.locals ++ bindings →
      Follows pool locals outer rest reads' (next answer scope')) :
    Follows pool locals outer (first ++ rest) (reads ++ reads') (do
      let answer ← action
      let scope' ← Resolver.extend locals scope bindings
      next answer scope') := by
  refine ⟨fun state => Ensures.bind ((h.ensures state).imp
    (fun _ => Visit.lost_mono (List.subset_append_left ..)) fun answer mid hmid => ?_)⟩
  refine Ensures.bind ((hscope.extend bindings mid).imp ?_ ?_)
  · rintro _ ⟨id, hid, hlost⟩
    exact ⟨.binding id, List.mem_append_left _ (hmet id hid), hlost⟩
  · rintro scope' _ ⟨rfl, hscope'⟩
    refine ((hnext answer scope' hscope' ?_).ensures _).imp
      (fun _ => Visit.lost_mono (List.subset_append_right ..)) fun _ _ hafter => hmid.trans hafter
    rw [hscope'.visible, hscope.visible, List.append_assoc]

/-- Something is found out about an operand, and it is reported if the operand is a condition. -/
theorem ofOperand (expr : Expr) {operand : Expr} {resolve : ResolveM Ty} {find : Ty → ResolveM Ty}
    (h : Follows pool locals outer visits reads resolve)
    (hboolean : ∀ state, Ensures resolve state (fun _ => True) fun ty _ =>
      operand.IsCondition → ty = Ty.boolean)
    (hfind : ∀ ty, Makes Change.Common (find ty))
    (hreported : ∀ ty state, Ensures (find ty) state (fun _ => True) fun _ after =>
      after.queue.IsSilent → pool.OpaqueBoolean → ty ≠ Ty.boolean)
    (happlied : (pool.OpaqueBoolean → ¬ operand.IsCondition) → expr.Applied pool) :
    Follows pool locals outer (.expr expr :: visits) reads (do
      let ty ← resolve
      let found ← find ty
      Resolver.exprHas expr.id found) := by
  refine ⟨fun state => Ensures.bind (((h.ensures state).and (hboolean state)).imp
    (fun _ => Visit.lost_mono (List.subset_cons_self ..)) ?_)⟩
  rintro ty mid ⟨hmid, hty⟩
  have hquiet : Follows pool locals outer [] [] (find ty) := .quiet (hfind ty)
  refine Ensures.bind (((hquiet.ensures mid).and (hreported ty mid)).imp
    (fun _ => Visit.lost_mono (List.nil_subset _)) ?_)
  rintro found after ⟨hafter, hne⟩
  refine Ensures.modify_bind (Ensures.pure ?_)
  have hcourse := (hmid.trans hafter).trans (.expr after expr [] found fun hnone =>
    happlied fun hopaque hcondition => hne hnone hopaque (hty hcondition))
  rw [List.append_nil, List.append_nil, List.append_nil] at hcourse
  exact hcourse.perm (List.perm_append_singleton ..)

end Follows

end Resolver

/-! ## Trees -/

open Resolver in
mutual

/-- **Resolving a pattern takes its course through what it visits.** -/
theorem Pattern.resolve_follows (pool : Pool) :
    ∀ (pattern : Pattern) (expected : Ty) {scope : Scope} {inner : List LocalId},
      scope.Extends locals outer inner →
      Follows pool locals outer pattern.visits (pattern.reads scope.locals)
        (pattern.resolve pool locals expected scope)
  | .type id written binds span, expected, scope, inner, _ => by
    rw [Pattern.resolve]
    exact .last (.typePattern ..) fun ty =>
      .patternHas (.type id written binds span) nofun trivial
  | .record id written components span, expected, scope, inner, hscope => by
    have hquiet : Follows pool locals outer [] []
        (recordPattern pool written components.length span expected) :=
      .quiet (.recordPattern Change.Common.report ..)
    rw [Pattern.resolve]
    refine ⟨fun state => Ensures.bind (((hquiet.ensures state).and
      (recordPattern_sized written components.length span expected state)).imp
        (fun _ => Visit.lost_mono (List.nil_subset _)) ?_)⟩
    rintro ⟨ty, types⟩ mid ⟨hmid, hsized⟩
    refine Ensures.bind (((Pattern.resolveComponents_follows pool components types hscope).ensures
      mid).imp (fun _ => Visit.lost_mono (List.subset_cons_self ..)) fun _ after hafter => ?_)
    refine Ensures.modify_bind (Ensures.pure ?_)
    have hself : Course pool locals outer [.pattern (.record id written components span)] [] after
        ((Change.patternType id ty).apply after) := by
      refine .pattern after (fun _ _ _ _ heq => ?_) ty fun hnone => hsized (hafter.isSilent hnone)
      cases heq
    have hcourse := (hmid.trans hafter).trans hself
    rw [List.nil_append, List.nil_append, List.append_nil] at hcourse
    exact hcourse.perm (List.perm_append_singleton ..)
  | .guarded id patterns condition span, expected, scope, inner, hscope => by
    refine ⟨fun state => ?_⟩
    rw [Pattern.resolve, Pattern.reads]
    refine Ensures.get_bind ?_
    split
    next ty hty =>
      exact Ensures.pure (.skip state patterns condition span _
        (Std.ExtTreeMap.mem_iff_isSome_getElem?.mpr (by rw [hty]; rfl)))
    next hnone =>
      have hnew : id ∉ state.table.patternTypes := by
        rw [Std.ExtTreeMap.mem_iff_isSome_getElem?, hnone]
        nofun
      refine Ensures.bind (((Pattern.resolveAll_follows pool patterns expected hscope).ensures
        state).imp (fun _ => Visit.lost_mono Visit.left_subset) fun types mid hmid => ?_)
      refine Ensures.bind (Ensures.modify_bind (Ensures.pure ?_))
      refine Ensures.bind ((hscope.extend (Pattern.bindingsAll patterns) _).imp ?_ ?_)
      · rintro _ ⟨bound, hbound, hlost⟩
        exact ⟨.binding bound, Visit.left_subset (Pattern.binding_mem_visitsAll patterns hbound),
          hlost⟩
      rintro scope' _ ⟨rfl, hscope'⟩
      have hlocals : scope'.locals = scope.locals ++ Pattern.bindingsAll patterns := by
        rw [hscope'.visible, hscope.visible, List.append_assoc]
      rw [← hlocals]
      refine Ensures.bind (((condition.resolve_follows pool hscope').ensures _).imp
        (fun _ => Visit.lost_mono Visit.right_subset) fun conditionTy last hlast => ?_)
      have hguard : Follows pool locals outer [] [] (guard pool condition conditionTy) :=
        .quiet (.guard Change.Common.report Change.Common.conversion ..)
      refine Ensures.bind ((hguard.ensures last).imp
        (fun _ => Visit.lost_mono (List.nil_subset _)) fun _ last' hlast' => ?_)
      have hboth := hlast.trans hlast'
      rw [List.append_nil, List.append_nil] at hboth
      refine Ensures.bind ((tagCondition_ensures locals id condition last').imp ?_ ?_)
      · rintro _ ⟨bound, hbound, hlost⟩
        exact ⟨.binding bound, Visit.right_subset (condition.mem_allLocals.mp hbound), hlost⟩
      rintro _ _ rfl
      exact Ensures.pure (.enter span _ hnew hmid hboth)
  | .any id span, expected, scope, inner, _ => by
    rw [Pattern.resolve]
    exact .patternHas (.any id span) nofun trivial
  | .missing id, expected, scope, inner, _ => by
    rw [Pattern.resolve]
    exact .throw (.pattern (.missing id)) trivial _

theorem Pattern.resolveAll_follows (pool : Pool) :
    ∀ (patterns : List Pattern) (expected : Ty) {scope : Scope} {inner : List LocalId},
      scope.Extends locals outer inner →
      Follows pool locals outer (Pattern.visitsAll patterns)
        (Pattern.readsAll patterns scope.locals)
        (Pattern.resolveAll pool locals patterns expected scope)
  | [], expected, scope, inner, _ => by
    rw [Pattern.resolveAll]
    exact .quiet (.pure _)
  | pattern :: patterns, expected, scope, inner, hscope => by
    rw [Pattern.resolveAll]
    exact .bind (pattern.resolve_follows pool expected hscope) fun _ =>
      .before (Pattern.resolveAll_follows pool patterns expected hscope) fun _ => .pure _

theorem Pattern.resolveComponents_follows (pool : Pool) :
    ∀ (patterns : List Pattern) (types : List Ty) {scope : Scope}
      {inner : List LocalId}, scope.Extends locals outer inner →
      Follows pool locals outer (Pattern.visitsAll patterns)
        (Pattern.readsAll patterns scope.locals)
        (Pattern.resolveComponents pool locals patterns types scope)
  | [], types, scope, inner, _ => by
    rw [Pattern.resolveComponents]
    exact .quiet (.pure _)
  | pattern :: patterns, types, scope, inner, hscope => by
    rw [Pattern.resolveComponents]
    exact .bind (pattern.resolve_follows pool _ hscope) fun _ =>
      Pattern.resolveComponents_follows pool patterns types.tail hscope

/-- **Resolving an expression takes its course through what it visits.** -/
theorem Expr.resolve_follows (pool : Pool) :
    ∀ (expr : Expr) {scope : Scope} {inner : List LocalId}, scope.Extends locals outer inner →
      Follows pool locals outer expr.visits (expr.reads scope.locals)
        (expr.resolve pool locals scope)
  | .bool id value span, scope, inner, _ => by
    rw [Expr.resolve]
    exact .exprHas (.bool id value span) trivial [] _
  | .int id value span, scope, inner, _ => by
    rw [Expr.resolve]
    exact .exprHas (.int id value span) trivial [] _
  | .ident id name span, scope, inner, hscope => by
    rw [Expr.resolve, Expr.reads, Resolver.ident.eq_def, hscope.visible]
    split
    next entry hentry =>
      have hmeans := Scope.innermost_of_lookup hentry
      rw [hscope.names] at hmeans
      exact ⟨fun state => Ensures.bind (Ensures.modify_bind (Ensures.pure
        (Ensures.modify_bind (Ensures.pure (.ident state id span hmeans entry.ty)))))⟩
    next => exact .after (.bind (.offer Change.Common.report rfl) fun _ => .pure _) fun ty =>
      .exprHas (.ident id name span) trivial _ ty
  | .field id receiver name span, scope, inner, hscope => by
    rw [Expr.resolve]
    exact .ofOperand (.field id receiver name span) (receiver.resolve_follows pool hscope)
      (receiver.resolve_boolean scope) (fun ty => .field Change.Common.report pool span ty name)
      (field_reported span name) fun h => h
  | .unary id .neg operand span, scope, inner, hscope => by
    rw [Expr.resolve]
    exact .ofOperand (.unary id .neg operand span) (operand.resolve_follows pool hscope)
      (operand.resolve_boolean scope)
      (fun ty => .unary Change.Common.report Change.Common.conversion pool span .neg operand.id ty)
      (neg_reported span operand.id) fun h => h
  | .unary id .not operand span, scope, inner, hscope => by
    rw [Expr.resolve]
    exact .last (operand.resolve_follows pool hscope) fun _ =>
      .after (.unary Change.Common.report Change.Common.conversion ..) fun _ =>
        .exprHas (.unary id .not operand span) trivial [] _
  | .binary id op left right span, scope, inner, hscope => by
    rw [Expr.resolve, Expr.reads]
    cases hlogical : op.isLogical with
    | true =>
      simp only [if_true]
      refine .perm (.extend (left.resolve_follows pool hscope) hscope
        (fun _ => left.binding_mem_visits) fun leftTy scope' hscope' hlocals => ?_)
        List.perm_middle
      rw [← hlocals]
      exact .last (right.resolve_follows pool hscope') fun _ =>
        .after (.logical Change.Common.report Change.Common.conversion ..) fun _ =>
          .exprHas (.binary id op left right span) trivial [] _
    | false =>
      simp only [Bool.false_eq_true, if_false]
      exact .perm (.bind (left.resolve_follows pool hscope) fun leftTy =>
        .last (right.resolve_follows pool hscope) fun _ =>
          .after (.binary Change.Common.report Change.Common.conversion ..) fun _ =>
            .exprHas (.binary id op left right span) trivial [] _) List.perm_middle
  | .instanceOf id tested pattern span, scope, inner, hscope => by
    rw [Expr.resolve]
    exact .perm (.bind (tested.resolve_follows pool hscope) fun testedTy => .last
      (pattern.resolve_follows pool testedTy hscope) fun _ =>
      .exprHas (.instanceOf id tested pattern span) trivial [] _) List.perm_middle
  | .call id callee args written span, scope, inner, hscope => by
    rw [Expr.resolve]
    exact .last (Expr.resolveAll_follows pool args hscope) fun _ =>
      .after (.result Change.Common.report ..) fun _ =>
        .exprHas (.call id callee args written span) trivial [] _
  | .missing id, scope, inner, _ => by
    rw [Expr.resolve]
    exact .throw (.expr (.missing id)) trivial _

theorem Expr.resolveAll_follows (pool : Pool) :
    ∀ (exprs : List Expr) {scope : Scope} {inner : List LocalId},
      scope.Extends locals outer inner →
      Follows pool locals outer (Expr.visitsAll exprs) (Expr.readsAll exprs scope.locals)
        (Expr.resolveAll pool locals exprs scope)
  | [], scope, inner, _ => by
    rw [Expr.resolveAll]
    exact .quiet (.pure _)
  | expr :: exprs, scope, inner, hscope => by
    rw [Expr.resolveAll]
    exact .bind (expr.resolve_follows pool hscope) fun _ =>
      Expr.resolveAll_follows pool exprs hscope

end

open Resolver in
theorem Expr.resolveGuard_follows (pool : Pool) (locals : Array LocalDecl) (condition : Expr)
    (scope : Scope) : Follows pool locals scope condition.visits (condition.reads scope.locals)
      (condition.resolveGuard pool locals scope) := by
  rw [Expr.resolveGuard]
  exact .before (condition.resolve_follows pool (.refl locals scope)) fun _ =>
    .bind (.guard Change.Common.report Change.Common.conversion ..) fun _ => .pure _

end GuardedMatch
