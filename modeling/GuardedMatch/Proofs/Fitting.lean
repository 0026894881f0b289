import GuardedMatch.Proofs.Conditions

/-!
# Conversions that fit

After a condition has been resolved without anything to report, each expression below it is
converted to the type that is required of it where it stands.  A condition that has begun may be
left for others that are met in it, so we keep a list of those that have begun, and show that
whatever is done with stays as it is.

* `Expr.allDemands`: what is demanded of a condition and of all expressions below it.
* `Pattern.resolve_tends`, `Expr.resolve_works`: resolution fulfils the demands in all conditions
  that it is done with.
* `conversions_fit`: so in the end all demands are fulfilled.
-/

namespace GuardedMatch

variable {pool : Pool} {allowed : Pool → Ty → Prop} {all : List Visit}

namespace Resolver

variable {pool : Pool} {allowed : Pool → Ty → Prop} {all : List Visit} {guards : List PatternId}
  {ids : List ExprId} {state mid after : Resolver} {α β : Type}

/-! ## Quiet actions -/

/-- An action that changes nothing that is known of patterns and expressions. -/
structure Quiet (action : ResolveM α) : Prop where
  ensures : ∀ state, Ensures action state (fun _ => True) fun _ after => Notes [] state after

namespace Quiet

theorem of_makes {action : ResolveM α}
    (h : Makes (Change.Spares fun table => (table.exprTypes, table.conversions,
      table.patternTypes)) action) : Quiet action := by
  refine ⟨fun state => ((h.keeps state).and (h.reports state)).mono ?_⟩
  rintro _ after ⟨hsame, more, hmore⟩
  obtain ⟨hexprs, hrest⟩ := Prod.mk.inj hsame
  obtain ⟨hconversions, hpatterns⟩ := Prod.mk.inj hrest
  refine ⟨hexprs, hpatterns, fun id _ => by rw [hconversions], fun hnone => ?_⟩
  rw [hmore] at hnone
  exact hnone.of_addAll.1

theorem pure (answer : α) : Quiet (Pure.pure answer : ResolveM α) :=
  ⟨fun _ => Ensures.pure (.refl _ _)⟩

theorem bind {action : ResolveM α} {next : α → ResolveM β} (h : Quiet action)
    (hnext : ∀ answer, Quiet (next answer)) : Quiet (action >>= next) :=
  ⟨fun state => (h.ensures state).seq fun answer mid hmid =>
    ((hnext answer).ensures mid).mono fun _ _ hafter => hmid.trans hafter⟩

theorem extend (locals : Array LocalDecl) (scope : Scope) (bindings : Bindings) :
    Quiet (Resolver.extend locals scope bindings) := by
  refine ⟨fun state => (extend_ensures scope bindings state).imp (fun _ _ => trivial) ?_⟩
  rintro _ after ⟨rfl, -⟩
  exact .refl _ _

theorem tagCondition (locals : Array LocalDecl) (owner : PatternId) (condition : Expr) :
    Quiet (Resolver.tagCondition locals owner condition) := by
  refine ⟨fun state => (tagCondition_ensures locals owner condition state).imp
    (fun _ _ => trivial) ?_⟩
  rintro _ _ rfl
  have hsame := tagged_keeps (fun table => (table.exprTypes, table.conversions,
    table.patternTypes)) (fun _ _ => rfl) (fun _ _ _ => rfl) owner condition state
  obtain ⟨hexprs, hrest⟩ := Prod.mk.inj hsame
  obtain ⟨hconversions, hpatterns⟩ := Prod.mk.inj hrest
  refine ⟨hexprs, hpatterns, fun id _ => by rw [hconversions], fun hnone => ?_⟩
  rw [tagged] at hnone
  split at hnone
  next => simp at hnone
  next => exact hnone

end Quiet

/-- Operands that may keep their types do not have to be converted. -/
theorem Meets.quiet {action : ResolveM α} (h : Quiet action) {demands : List Demand}
    (hown : ∀ demand ∈ demands, demand.required = some demand.source) :
    Meets pool demands action := by
  refine ⟨fun state hnone _ => (h.ensures state).mono fun _ after hafter => ?_⟩
  refine ⟨hafter.mono (List.nil_subset _), fun _ _ demand hdemand => ?_⟩
  refine ⟨demand.source, hown demand hdemand, ?_⟩
  rw [hafter.conversions _ List.not_mem_nil, hnone demand hdemand]
  rfl

/-! ## Patterns -/

/-- An action that resolves only what is in conditions that have not begun, and gets done with each
of them. -/
structure Tends (pool : Pool) (all : List Visit) (guards : List PatternId) (action : ResolveM α) :
    Prop where
  ensures : ∀ state, Sound pool all guards state → Ensures action state (fun _ => True)
    fun _ after => Sound pool all guards after ∧ Within all [] state after

namespace Tends

theorem quiet {action : ResolveM α} (h : Quiet action) : Tends pool all guards action :=
  ⟨fun state hstate => (h.ensures state).mono fun _ _ hafter =>
    ⟨hafter.sound hstate (Visit.outside_nil _ _), hafter.within⟩⟩

theorem bind {action : ResolveM α} {next : α → ResolveM β} (h : Tends pool all guards action)
    (hnext : ∀ answer, Tends pool all guards (next answer)) :
    Tends pool all guards (action >>= next) := by
  refine ⟨fun state hstate => (h.ensures state hstate).seq ?_⟩
  rintro answer mid ⟨hmid, hwithin⟩
  refine ((hnext answer).ensures mid hmid).mono ?_
  rintro _ after ⟨hafter, hwithin'⟩
  exact ⟨hafter, hwithin.trans hwithin'⟩

end Tends

theorem Sound.setPatternType {guards' : List PatternId} (h : Sound pool all guards state)
    (id : PatternId) (ty : Ty) (hbegun : ∀ guard ∈ guards', guard = id ∨ guard ∈ guards)
    (hothers : ∀ guard patterns condition span,
      .pattern (.guarded guard patterns condition span) ∈ all → guard ∉ guards' →
      guard ≠ id ∧ guard ∉ guards) :
    Sound pool all guards' { state with table := state.table.setPatternType id ty } := by
  refine ⟨fun guard hguard => ?_, ?_, ?_⟩
  · rcases hbegun guard hguard with rfl | hguard
    · exact Std.ExtTreeMap.mem_insert_self
    · exact Std.ExtTreeMap.mem_insert.mpr (.inr (h.begun guard hguard))
  · intro guard patterns condition span hvisit hfresh
    exact h.fresh guard patterns condition span hvisit fun hmem =>
      hfresh (Std.ExtTreeMap.mem_insert.mpr (.inr hmem))
  · intro guard patterns condition span hvisit htyped hguard hclean
    obtain ⟨hne, hguard⟩ := hothers guard patterns condition span hvisit hguard
    have hmem : guard ∈ state.table.patternTypes :=
      (Std.ExtTreeMap.mem_insert.mp htyped).resolve_left fun heq =>
        hne (Nat.compare_eq_eq.mp heq).symm
    exact (h.settled guard patterns condition span hvisit hmem hguard
      ⟨hclean.silent, hclean.types⟩).same fun _ _ => ⟨rfl, rfl⟩

theorem Within.setPatternType (state : Resolver) (id : PatternId) (ty : Ty) :
    Within all [] state { state with table := state.table.setPatternType id ty } :=
  ⟨fun _ _ _ => ⟨rfl, rfl⟩, fun _ h => Std.ExtTreeMap.mem_insert.mpr (.inr h), fun h => h⟩

theorem Tends.patternHas {id : PatternId} (ty : Ty)
    (hnone : ∀ patterns condition span, .pattern (.guarded id patterns condition span) ∉ all) :
    Tends pool all guards (Resolver.patternHas id ty) := by
  refine ⟨fun state h => Ensures.modify_bind (Ensures.pure ⟨?_, .setPatternType ..⟩)⟩
  refine h.setPatternType id ty (fun _ => .inr) ?_
  intro guard patterns condition span hvisit hguard
  refine ⟨?_, hguard⟩
  rintro rfl
  exact hnone patterns condition span hvisit

section

variable {id : PatternId} {patterns : List Pattern} {condition : Expr} {span : Span}

/-- The condition of a guarded pattern begins when the pattern gets its type. -/
theorem Sound.begin (h : Sound pool all guards state) (hall : Visit.Tidy all)
    (hvisit : .pattern (.guarded id patterns condition span) ∈ all)
    (hnone : id ∉ state.table.patternTypes) (ty : Ty) :
    Ready pool all (id :: guards) condition.ownIds
      { state with table := state.table.setPatternType id ty } := by
  refine ⟨h.setPatternType id ty (fun _ => List.mem_cons.mp) ?_, ?_,
    hall.nodup id patterns condition span hvisit,
    h.fresh id patterns condition span hvisit hnone⟩
  · intro guard _ _ _ _ hguard
    rwa [List.mem_cons, not_or] at hguard
  · intro guard patterns' condition' span' hvisit' hguard other hother hother'
    rw [List.mem_cons, not_or] at hguard
    exact hguard.1 (hall.apart id patterns condition span hvisit guard patterns' condition' span'
      hvisit' other hother hother').symm

/-- The condition of a guarded pattern is done with when it has been answered. -/
theorem Answered.done {ty : Ty} (h : Answered pool all (id :: guards) condition
      { state with table := state.table.setPatternType id ty } after) (hall : Visit.Tidy all)
    (hvisit : .pattern (.guarded id patterns condition span) ∈ all)
    (hnone : id ∉ state.table.patternTypes) :
    Sound pool all guards after ∧ Within all [] state after := by
  have hset : Within all [] state { state with table := state.table.setPatternType id ty } :=
    .setPatternType ..
  have hwithin := hset.trans h.within
  refine ⟨⟨fun guard hguard => h.sound.begun guard (List.mem_cons_of_mem _ hguard), h.sound.fresh,
    ?_⟩, ⟨fun other _ hnot => hwithin.others other ?_ hnot, hwithin.patterns, hwithin.silent⟩⟩
  · intro guard patterns' condition' span' hvisit' htyped hguard hclean
    by_cases heq : guard = id
    · have hsame := hall.same _ _ hvisit' hvisit heq
      cases hsame
      exact h.settles hclean
    · refine h.sound.settled guard patterns' condition' span' hvisit' htyped ?_ hclean
      exact fun hmem => (List.mem_cons.mp hmem).elim heq hguard
  · -- What is in the condition was waiting for it.
    exact fun hmem => hnot ⟨id, patterns, condition, span, hvisit, hnone, hmem⟩

end

/-! ## Expressions -/

/-- The operands of an expression that can be resolved can be resolved. -/
theorem Ready.operands {expr : Expr} (h : Ready pool all guards expr.ownIds state) :
    Ready pool all guards (expr.operands.flatMap Expr.ownIds) state := by
  rw [Expr.ownIds_eq] at h
  have hself : Ready pool all guards ([expr.id] ++ expr.operands.flatMap Expr.ownIds) state := h
  exact hself.right h.sound (.refl _ _)

/-- Conditions are resolved after some expressions. -/
theorem Worked.before {exprs : List Expr} (hready : Ready pool all guards ids state)
    (hids : ∀ expr ∈ exprs, expr.ownIds ⊆ ids) (h : Worked pool all guards ids exprs state mid)
    (hsound : Sound pool all guards after) (hwithin : Within all [] mid after) :
    Worked pool all guards ids exprs state after := by
  have hlater : Worked pool all guards [] [] mid after :=
    ⟨hsound, hwithin, nofun, nofun, fun _ => nofun⟩
  have hready' : Ready pool all guards (ids ++ []) state := by rwa [List.append_nil]
  have hboth := Worked.append hready' hids h hlater
  rwa [List.append_nil, List.append_nil] at hboth

/-- An action that resolves an expression. -/
structure Works (pool : Pool) (all : List Visit) (expr : Expr) (action : ResolveM Ty) : Prop where
  ensures : ∀ guards state, Ready pool all guards expr.ownIds state →
    Ensures action state (fun _ => True) fun ty after =>
      Worked pool all guards expr.ownIds [expr] state after ∧
        after.table.exprTypes[expr.id]? = some ty

namespace Works

theorem leaf (expr : Expr) (hoperands : expr.operands = []) {find : ResolveM Ty} (h : Quiet find) :
    Works pool all expr (do
      let ty ← find
      exprHas expr.id ty) := by
  refine ⟨fun guards state hready => ?_⟩
  have hnothing : Worked pool all guards (expr.operands.flatMap Expr.ownIds) expr.operands state
      state := by
    rw [hoperands]
    exact .nothing hready.sound
  refine hnothing.finish hready (.quiet h ?_)
  rw [Expr.demands, hoperands]
  exact fun _ hdemand => absurd hdemand List.not_mem_nil

theorem one (expr : Expr) {operand : Expr} (hoperands : expr.operands = [operand])
    {action : ResolveM Ty} (h : Works pool all operand action) {find : Ty → ResolveM Ty}
    (hfind : ∀ typeOf, Meets pool (expr.demands typeOf) (find (typeOf operand.id))) :
    Works pool all expr (do
      let operandTy ← action
      let ty ← find operandTy
      exprHas expr.id ty) := by
  refine ⟨fun guards state hready => ?_⟩
  have hids : expr.operands.flatMap Expr.ownIds = operand.ownIds := by simp [hoperands]
  refine (h.ensures guards state (hids ▸ hready.operands)).seq ?_
  rintro operandTy mid ⟨hmid, hty⟩
  have hfound := hfind mid.table.exprType
  rw [Resolution.exprType, hty, Option.getD_some] at hfound
  rw [← hids, ← hoperands] at hmid
  exact hmid.finish hready hfound

theorem two (expr : Expr) {left right : Expr} (hoperands : expr.operands = [left, right]) {γ : Type}
    {first : ResolveM Ty} {prepare : Ty → ResolveM γ} {second : γ → ResolveM Ty}
    {find : Ty → Ty → ResolveM Ty} (hfirst : Works pool all left first)
    (hprepare : ∀ leftTy, Quiet (prepare leftTy))
    (hsecond : ∀ inner, Works pool all right (second inner))
    (hfind : ∀ typeOf, Meets pool (expr.demands typeOf) (find (typeOf left.id) (typeOf right.id))) :
    Works pool all expr (do
      let leftTy ← first
      let inner ← prepare leftTy
      let rightTy ← second inner
      let ty ← find leftTy rightTy
      exprHas expr.id ty) := by
  refine ⟨fun guards state hready => ?_⟩
  have hids : expr.operands.flatMap Expr.ownIds = left.ownIds ++ right.ownIds := by simp [hoperands]
  have hpair := hready.operands
  rw [hids] at hpair
  have hleft : ∀ expr ∈ [left], expr.ownIds ⊆ left.ownIds := by simp
  refine (hfirst.ensures guards state hpair.left).seq ?_
  rintro leftTy begun ⟨hbegun, hleftTy⟩
  refine ((hprepare leftTy).ensures begun).seq fun inner mid hnotes => ?_
  have hmid := hbegun.before hpair.left hleft (hnotes.sound hbegun.sound (Visit.outside_nil _ _))
    hnotes.within
  rw [← hnotes.exprs] at hleftTy
  have hright := hpair.right hmid.sound hmid.within
  refine ((hsecond inner).ensures guards mid hright).seq ?_
  rintro rightTy last ⟨hlast, hrightTy⟩
  have hboth := Worked.append hpair hleft hmid hlast
  -- The type of the left operand has not changed meanwhile.
  have hsame : mid.table.SameAt last.table left.id := hlast.within.others left.id
    (fun hmem => (List.nodup_append.mp hpair.nodup).2.2 _ left.id_mem_ownIds _ hmem rfl)
    (hmid.sound.not_awaits hpair.left.outside left.id_mem_ownIds)
  have hfound := hfind last.table.exprType
  rw [hsame.exprType, Resolution.exprType, Resolution.exprType, hleftTy, hrightTy, Option.getD_some,
    Option.getD_some] at hfound
  rw [← hids, List.singleton_append, ← hoperands] at hboth
  exact hboth.finish hready hfound

end Works

/-- An expression is resolved as a condition. -/
theorem Works.answers (hpool : pool.Declared allowed) {condition : Expr} {action : ResolveM Ty}
    (h : Works pool all condition action) (hready : Ready pool all guards condition.ownIds state)
    {next : Ty → ResolveM α} (hnext : ∀ ty, Quiet (next ty)) :
    Ensures (do
      let ty ← action
      guard pool condition ty
      next ty) state (fun _ => True) fun _ after =>
      Answered pool all guards condition state after := by
  refine (h.ensures guards state hready).seq ?_
  rintro ty mid ⟨hmid, hty⟩
  have hplain : ∀ demand ∈ [Demand.mk condition.id ty (some Ty.boolean)],
      mid.table.conversions[demand.operand]? = none := by
    intro demand hdemand
    rw [List.mem_singleton.mp hdemand]
    exact hmid.plain condition (List.mem_singleton_self _)
  refine ((guard_meets hpool condition ty).ensures mid hplain
    (List.nodup_singleton _)).seq ?_
  rintro _ noted ⟨hnotes, hmet⟩
  have hanswered : Answered pool all guards condition state noted :=
    hmid.answered hready hty hnotes fun hoffered herror => hmet hoffered
      (by simpa using herror) _ (List.mem_singleton_self _)
  exact ((hnext ty).ensures noted).mono fun _ _ hafter => hanswered.notes hafter

end Resolver

/-! ## Trees -/

open Resolver in
mutual

/-- **Resolving a pattern fulfils the demands in the conditions that it meets.** -/
theorem Pattern.resolve_tends (hpool : pool.Declared allowed) (hall : Visit.Tidy all)
    (locals : Array LocalDecl) : ∀ (pattern : Pattern), pattern.visits ⊆ all →
      ∀ (guards : List PatternId) (expected : Ty) (scope : Scope),
        Tends pool all guards (pattern.resolve pool locals expected scope)
  | .type id written binds span, hsub, guards, expected, scope => by
    have hself : .pattern (.type id written binds span) ∈ all := hsub (Pattern.self_mem_visits _)
    rw [Pattern.resolve]
    refine .bind (.quiet (.of_makes (.typePattern Change.Spares.report pool written span expected
      fun _ _ _ _ => rfl))) fun ty =>
      .patternHas ty fun patterns condition span' hvisit => ?_
    cases hall.same _ _ hself hvisit rfl
  | .record id written components span, hsub, guards, expected, scope => by
    have hself : .pattern (.record id written components span) ∈ all :=
      hsub (Pattern.self_mem_visits _)
    rw [Pattern.visits] at hsub
    rw [Pattern.resolve]
    refine .bind (.quiet (.of_makes (.recordPattern Change.Spares.report ..))) fun answer =>
      .bind (Pattern.resolveComponents_tends hpool hall locals components
        (List.cons_subset.mp hsub).2 guards answer.2 scope) fun _ =>
      .patternHas answer.1 fun patterns condition span' hvisit => ?_
    cases hall.same _ _ hself hvisit rfl
  | .guarded id patterns condition span, hsub, guards, expected, scope => by
    have hself : .pattern (.guarded id patterns condition span) ∈ all :=
      hsub (Pattern.self_mem_visits _)
    rw [Pattern.visits, List.cons_subset, List.append_subset] at hsub
    have hpatterns := hsub.2.1
    refine ⟨fun state hstate => ?_⟩
    rw [Pattern.resolve]
    refine Ensures.get_bind ?_
    split
    next => exact Ensures.pure ⟨hstate, .refl _ _⟩
    next hnone =>
      have hfirst := (Pattern.resolveAll_tends hpool hall locals patterns hpatterns guards expected
        scope).ensures state hstate
      refine (hfirst.and ((Pattern.resolveAll_follows pool patterns expected
        (.refl locals scope)).ensures state)).seq ?_
      rintro types mid ⟨⟨hmid, hwithin⟩, hcourse⟩
      -- The pattern has no type yet, since it is not met below its sub-patterns.
      have hnew : id ∉ mid.table.patternTypes := by
        intro hmem
        rcases hcourse.touches.mem_patternTypes hmem with hold | ⟨other, hother, heq⟩
        · rw [Std.ExtTreeMap.mem_iff_isSome_getElem?, hnone] at hold
          cases hold
        · rw [hall.same _ _ (hpatterns hother) hself heq] at hother
          exact Pattern.guarded_not_mem_visitsAll hother
      refine Ensures.bind (Ensures.modify_bind (Ensures.pure ?_))
      have hready := hmid.begin hall hself hnew (types.headD expected)
      refine Ensures.bind ((extend_ensures scope _ _).imp (fun _ _ => trivial) ?_)
      rintro inner _ ⟨rfl, -⟩
      refine ((condition.resolve_works hpool hall locals hsub.2.2 inner).answers hpool hready
        fun _ => .bind (.tagCondition locals id condition) fun _ => .pure _).mono ?_
      intro _ after hafter
      obtain ⟨hsound, hlater⟩ := hafter.done hall hself hnew
      exact ⟨hsound, hwithin.trans hlater⟩
  | .any id span, hsub, guards, expected, scope => by
    have hself : .pattern (.any id span) ∈ all := hsub (Pattern.self_mem_visits _)
    rw [Pattern.resolve]
    refine .patternHas expected fun patterns condition span' hvisit => ?_
    cases hall.same _ _ hself hvisit rfl
  | .missing id, _, guards, expected, scope => by
    rw [Pattern.resolve]
    exact ⟨fun _ _ => Ensures.throw trivial⟩

theorem Pattern.resolveAll_tends (hpool : pool.Declared allowed) (hall : Visit.Tidy all)
    (locals : Array LocalDecl) : ∀ (patterns : List Pattern), Pattern.visitsAll patterns ⊆ all →
      ∀ (guards : List PatternId) (expected : Ty) (scope : Scope),
        Tends pool all guards (Pattern.resolveAll pool locals patterns expected scope)
  | [], _, guards, expected, scope => by
    rw [Pattern.resolveAll]
    exact .quiet (.pure _)
  | pattern :: patterns, hsub, guards, expected, scope => by
    rw [Pattern.visitsAll, List.append_subset] at hsub
    rw [Pattern.resolveAll]
    exact .bind (pattern.resolve_tends hpool hall locals hsub.1 guards expected scope) fun _ =>
      .bind (Pattern.resolveAll_tends hpool hall locals patterns hsub.2 guards expected scope)
        fun _ => .quiet (.pure _)

theorem Pattern.resolveComponents_tends (hpool : pool.Declared allowed) (hall : Visit.Tidy all)
    (locals : Array LocalDecl) : ∀ (patterns : List Pattern), Pattern.visitsAll patterns ⊆ all →
      ∀ (guards : List PatternId) (types : List Ty) (scope : Scope),
        Tends pool all guards (Pattern.resolveComponents pool locals patterns types scope)
  | [], _, guards, types, scope => by
    rw [Pattern.resolveComponents]
    exact .quiet (.pure _)
  | pattern :: patterns, hsub, guards, types, scope => by
    rw [Pattern.visitsAll, List.append_subset] at hsub
    rw [Pattern.resolveComponents]
    exact .bind (pattern.resolve_tends hpool hall locals hsub.1 guards _ scope) fun _ =>
      Pattern.resolveComponents_tends hpool hall locals patterns hsub.2 guards types.tail scope

/-- **Resolving an expression of which nothing is known fulfils the demands in it.** -/
theorem Expr.resolve_works (hpool : pool.Declared allowed) (hall : Visit.Tidy all)
    (locals : Array LocalDecl) : ∀ (expr : Expr), expr.visits ⊆ all → ∀ (scope : Scope),
      Works pool all expr (expr.resolve pool locals scope)
  | .bool id value span, _, scope => by
    rw [Expr.resolve]
    exact .leaf (.bool id value span) rfl (.pure Ty.boolean)
  | .int id value span, _, scope => by
    rw [Expr.resolve]
    exact .leaf (.int id value span) rfl (.pure (literalType value))
  | .ident id name span, _, scope => by
    rw [Expr.resolve]
    exact .leaf (.ident id name span) rfl (.of_makes (.ident id name span scope (fun _ => rfl)
      fun _ _ _ => rfl))
  | .field id receiver name span, hsub, scope => by
    rw [Expr.visits, List.cons_subset] at hsub
    rw [Expr.resolve]
    exact .one (.field id receiver name span) rfl
      (receiver.resolve_works hpool hall locals hsub.2 scope) fun typeOf =>
      .quiet (.of_makes (.field Change.Spares.report ..)) (Expr.required_eq_source rfl _)
  | .unary id op operand span, hsub, scope => by
    rw [Expr.visits, List.cons_subset] at hsub
    rw [Expr.resolve]
    exact .one (.unary id op operand span) rfl
      (operand.resolve_works hpool hall locals hsub.2 scope) fun typeOf =>
      unary_meets hpool span op operand.id (typeOf operand.id)
  | .binary id op left right span, hsub, scope => by
    rw [Expr.visits, List.cons_subset, List.append_subset] at hsub
    have hleft := left.resolve_works hpool hall locals hsub.2.1 scope
    have hright := right.resolve_works hpool hall locals hsub.2.2
    rw [Expr.resolve]
    cases hop : op.isLogical with
    | true =>
      exact .two (.binary id op left right span) rfl hleft (fun _ => .extend ..) hright
        fun typeOf => logical_meets hpool span hop left.id (typeOf left.id) right.id
          (typeOf right.id)
    | false =>
      exact .two (.binary id op left right span) rfl hleft (fun _ => .pure scope) hright
        fun typeOf => binary_meets hpool span hop left.id (typeOf left.id) right.id
          (typeOf right.id)
  | .instanceOf id tested pattern span, hsub, scope => by
    rw [Expr.visits, List.cons_subset, List.append_subset] at hsub
    rw [Expr.resolve]
    refine ⟨fun guards state hready => ?_⟩
    have htested : Ready pool all guards tested.ownIds state := by
      simpa [Expr.operands] using hready.operands
    refine ((tested.resolve_works hpool hall locals hsub.2.1 scope).ensures guards
      state htested).seq ?_
    rintro testedTy mid ⟨hmid, -⟩
    refine ((pattern.resolve_tends hpool hall locals hsub.2.2 guards testedTy
      scope).ensures mid hmid.sound).seq ?_
    rintro _ last ⟨hlast, hwithin⟩
    have hboth : Worked pool all guards ([tested].flatMap Expr.ownIds) [tested] state last := by
      simpa using hmid.before htested (by simp) hlast hwithin
    exact Worked.finish hready hboth (.quiet (.pure Ty.boolean)
      (Expr.required_eq_source rfl _))
  | .call id callee args written span, hsub, scope => by
    rw [Expr.visits, List.cons_subset] at hsub
    rw [Expr.resolve]
    refine ⟨fun guards state hready => ?_⟩
    refine (Expr.resolveAll_works hpool hall locals args hsub.2 scope guards state
      hready.operands).seq fun _ mid hmid => ?_
    exact hmid.finish hready (.quiet (.of_makes (.result Change.Spares.report ..))
      (Expr.required_eq_source rfl _))
  | .missing id, _, scope => by
    rw [Expr.resolve]
    exact ⟨fun _ _ _ => Ensures.throw trivial⟩

theorem Expr.resolveAll_works (hpool : pool.Declared allowed) (hall : Visit.Tidy all)
    (locals : Array LocalDecl) : ∀ (exprs : List Expr), Expr.visitsAll exprs ⊆ all →
      ∀ (scope : Scope) (guards : List PatternId) (state : Resolver),
      Ready pool all guards (exprs.flatMap Expr.ownIds) state →
      Ensures (Expr.resolveAll pool locals exprs scope) state (fun _ => True) fun _ after =>
        Worked pool all guards (exprs.flatMap Expr.ownIds) exprs state after
  | [], _, scope, guards, state, hready => by
    rw [Expr.resolveAll]
    exact Ensures.pure (.nothing hready.sound)
  | expr :: exprs, hsub, scope, guards, state, hready => by
    rw [Expr.visitsAll, List.append_subset] at hsub
    rw [List.flatMap_cons] at hready ⊢
    rw [Expr.resolveAll]
    refine ((expr.resolve_works hpool hall locals hsub.1 scope).ensures guards state
      hready.left).seq ?_
    rintro _ mid ⟨hmid, -⟩
    exact (Expr.resolveAll_works hpool hall locals exprs hsub.2 scope guards mid
      (hready.right hmid.sound hmid.within)).mono fun _ _ hafter =>
      .append hready (by simp) hmid hafter

end

/-! ## Contexts -/

/-- What is demanded where something is met. -/
def Visit.demands (typeOf : ExprId → Ty) : Visit → List Demand
  | .expr user => user.demands typeOf
  | .pattern (.guarded _ _ condition _) => [condition.guardDemand typeOf]
  | .pattern _ | .binding _ => []

namespace Expr

variable {condition : Expr}

/-- What is demanded of a condition and of all expressions below it. -/
def allDemands (typeOf : ExprId → Ty) (condition : Expr) : List Demand :=
  condition.guardDemand typeOf :: condition.visits.flatMap (Visit.demands typeOf)

theorem visits_of_operand {expr operand : Expr} (h : operand ∈ expr.operands) :
    operand.visits ⊆ expr.visits := by
  cases expr with
  | field | unary =>
    rw [List.mem_singleton.mp h, visits]
    exact List.subset_cons_self ..
  | instanceOf =>
    rw [List.mem_singleton.mp h, visits]
    exact Visit.left_subset
  | binary id op left right span =>
    rw [visits]
    rcases List.mem_pair.mp h with rfl | rfl
    · exact Visit.left_subset
    · exact Visit.right_subset
  | call id callee args written span =>
    rw [visits, visitsAll_eq]
    exact List.subset_cons_of_subset _ fun visit hvisit => List.mem_flatMap.mpr ⟨operand, h, hvisit⟩
  | bool | int | ident | missing => cases h

/-- What a condition is made of is met in it, and stands as an operand or is the condition. -/
theorem context_of_mem_own {part : Expr} (h : part ∈ condition.own) :
    .expr part ∈ condition.visits ∧
      (part = condition ∨ ∃ user, .expr user ∈ condition.visits ∧ part ∈ user.operands) := by
  induction hsize : sizeOf condition using Nat.strong_induction_on generalizing condition with
  | _ size ih =>
    rw [own_eq, List.mem_cons, List.mem_flatMap] at h
    rcases h with rfl | ⟨operand, hoperand, h⟩
    · exact ⟨part.self_mem_visits, .inl rfl⟩
    · have hsub := visits_of_operand hoperand
      obtain ⟨hvisit, hcontext⟩ := ih _ (hsize ▸ sizeOf_operand hoperand) h rfl
      refine ⟨hsub hvisit, .inr ?_⟩
      rcases hcontext with rfl | ⟨user, huser, hpart⟩
      · exact ⟨condition, condition.self_mem_visits, hoperand⟩
      · exact ⟨user, hsub huser, hpart⟩

/-- What is met in the condition of a guarded pattern is met where the pattern is. -/
theorem visits_of_guard {expr : Expr} {guard : PatternId} {patterns : List Pattern} {span : Span}
    (h : .pattern (.guarded guard patterns condition span) ∈ expr.visits) :
    condition.visits ⊆ expr.visits := by
  refine List.Subset.trans ?_ (expr.below_sublist h).subset
  rw [Visit.below, Pattern.visits]
  exact Visit.right_subset

/-- Something is demanded of every expression that is met. -/
theorem exists_demand (typeOf : ExprId → Ty) {part : Expr} (h : .expr part ∈ condition.visits) :
    ∃ demand ∈ condition.allDemands typeOf, demand.operand = part.id := by
  have hoperand : ∀ user, .expr user ∈ condition.visits → part ∈ user.operands →
      ∃ demand ∈ condition.allDemands typeOf, demand.operand = part.id := fun user huser hpart =>
    ⟨_, List.mem_cons_of_mem _ (List.mem_flatMap.mpr ⟨_, huser, List.mem_map_of_mem hpart⟩), rfl⟩
  rcases mem_own_or_inCondition condition h with hown | ⟨guard, patterns, inner, span, hvisit, hown⟩
  · rcases (context_of_mem_own hown).2 with rfl | ⟨user, huser, hpart⟩
    · exact ⟨_, List.mem_cons_self, rfl⟩
    · exact hoperand user huser hpart
  · rcases (context_of_mem_own hown).2 with rfl | ⟨user, huser, hpart⟩
    · exact ⟨_, List.mem_cons_of_mem _ (List.mem_flatMap.mpr ⟨_, hvisit, List.mem_cons_self⟩), rfl⟩
    · exact hoperand user (visits_of_guard hvisit huser) hpart

end Expr

/-- All demands are fulfilled if those in all conditions are. -/
theorem Resolution.Settles.allDemands {table : Resolution} {condition : Expr}
    (h : table.Settles condition)
    (hguards : ∀ guard patterns inner span,
      .pattern (.guarded guard patterns inner span) ∈ condition.visits → table.Settles inner) :
    table.Fulfils (condition.allDemands table.exprType) := by
  intro demand hdemand
  rcases List.mem_cons.mp hdemand with rfl | hdemand
  · exact h.truth _ List.mem_cons_self
  · obtain ⟨visit, hvisit, hdemand⟩ := List.mem_flatMap.mp hdemand
    cases visit with
    | expr expr =>
      rcases Expr.mem_own_or_inCondition condition hvisit with hown | hinner
      · exact h.inside expr hown demand hdemand
      · obtain ⟨guard, patterns, inner, span, hguard, hown⟩ := hinner
        exact (hguards guard patterns inner span hguard).inside expr hown demand hdemand
    | pattern pattern =>
      cases pattern with
      | guarded guard patterns inner span =>
        exact (hguards guard patterns inner span hvisit).truth demand hdemand
      | type | record | any | missing => cases hdemand
    | binding => cases hdemand

/-! ## Resolved conditions -/

theorem Resolver.Steps.mem_exprTypes {visits : List Visit} {reads : List Read}
    {state after : Resolver} (h : Steps pool visits reads state after) {id : ExprId}
    (hid : id ∈ after.table.exprTypes) :
    id ∈ state.table.exprTypes ∨ ∃ expr, .expr expr ∈ visits ∧ expr.id = id := by
  induction h with
  | refl => exact .inl hid
  | tail _ hstep ih =>
    cases hstep with
    | offer | patternType | identLocal => exact ih hid
    | @exprType expr _ hvisit =>
      rcases Std.ExtTreeMap.mem_insert.mp hid with heq | hmem
      · exact .inr ⟨expr, hvisit, Nat.compare_eq_eq.mp heq⟩
      · exact ih hmem
    | other _ hexprs => exact ih (hexprs ▸ hid)

/-- Nothing has begun in an empty table. -/
theorem Resolver.Sound.empty (pool : Pool) (all : List Visit) :
    Sound pool all [] ⟨.empty, .new .unlimited⟩ :=
  ⟨nofun, fun _ _ _ _ _ _ _ _ => ⟨rfl, rfl⟩,
    fun _ _ _ _ _ htyped => absurd htyped Std.ExtTreeMap.not_mem_empty⟩

/-- **After a condition has been resolved, each expression below it is converted to the type that
is required of it where it stands.**  This holds if each expression of the arena is referred to once
and all paths from the condition end, there is nothing to report, and no expression below has an
error for a type.  Then something is required of every expression that is met: of the condition at
the root and of those of guarded patterns that they are truth values, and of operands what their
operator requires.  The noted conversion takes the type of the expression to the required one, where
only boxes are unboxed and numbers are only widened to a higher rank, and there is none if the types
are the same. -/
theorem conversions_fit {pool : Pool} {allowed : Pool → Ty → Prop} (hpool : pool.Declared allowed)
    {arena : Arena} (honce : arena.exprReferences.Nodup) {id : ExprId}
    (hends : Acc (fun other node => arena.Refers node other) (.expr id)) {scope : Scope}
    {resolved : Resolved}
    (hresolved : arena.forest.resolveGuard pool .empty id scope = .ok resolved)
    (hoffered : resolved.offered = [])
    (htypes : ∀ expr ty, .expr expr ∈ (arena.forest.expr id).visits →
      resolved.table.exprTypes[expr.id]? = some ty → pool.isError ty = false) :
    (∀ expr, .expr expr ∈ (arena.forest.expr id).visits →
      ∃ demand ∈ (arena.forest.expr id).allDemands resolved.table.exprType,
        demand.operand = expr.id) ∧
    ∀ demand ∈ (arena.forest.expr id).allDemands resolved.table.exprType,
      resolved.table.exprTypes[demand.operand]? = some demand.source ∧
      ∃ ty, demand.required = some ty ∧
        Conversion.applied? resolved.table.conversions[demand.operand]? demand.source = some ty ∧
        (resolved.table.conversions[demand.operand]? = none ↔ demand.source = ty) := by
  refine ⟨fun expr hexpr => Expr.exists_demand _ hexpr, ?_⟩
  have hground := Arena.grounded_of_acc hends
  obtain ⟨after, hrun, htable, hafter⟩ := Resolution.exists_of_run hresolved
  rw [htable] at htypes ⊢
  have hready : Resolver.Ready pool (arena.forest.expr id).visits [] (arena.forest.expr id).ownIds
      ⟨.empty, .new .unlimited⟩ :=
    ⟨.empty pool _, hground.outside honce, hground.nodup_ownIds honce, fun _ _ => ⟨rfl, rfl⟩⟩
  have hanswered := (((arena.forest.expr id).resolve_works hpool (hground.tidy honce)
    arena.forest.locals (List.Subset.refl _) scope).answers hpool hready
    fun ty => .pure ty).of_ok hrun
  have hfills := ((Expr.resolveGuard_fills pool arena.forest.locals hground.owns scope).ensures
    ⟨.empty, .new .unlimited⟩ fun _ _ _ _ _ htyped =>
      absurd htyped Std.ExtTreeMap.not_mem_empty).of_ok hrun
  have hsteps := ((Expr.resolveGuard_only pool arena.forest.locals (arena.forest.expr id)
    scope).ensures ⟨.empty, .new .unlimited⟩).of_ok hrun
  have hclean : after.Clean pool := by
    refine ⟨(Queue.isSilent_iff hsteps.config_eq).2 (hafter.symm.trans hoffered),
      fun other ty hty => ?_⟩
    have hmem : other ∈ after.table.exprTypes :=
      Std.ExtTreeMap.mem_iff_isSome_getElem?.mpr (by rw [hty]; rfl)
    rcases hsteps.mem_exprTypes hmem with hnone | ⟨expr, hexpr, rfl⟩
    · exact absurd hnone Std.ExtTreeMap.not_mem_empty
    · exact htypes expr ty hexpr hty
  have hfulfils := (hanswered.settles hclean).allDemands fun guard patterns inner span hguard => by
    refine hanswered.sound.settled guard patterns inner span hguard ?_ List.not_mem_nil hclean
    -- If the guarded pattern had no type, then neither had its condition.
    by_contra hnone
    have htyped := hfills.typed inner (Expr.visits_of_guard hguard inner.self_mem_visits)
    rw [Std.ExtTreeMap.mem_iff_isSome_getElem?, (hanswered.sound.fresh guard patterns inner span
      hguard hnone inner.id inner.id_mem_ownIds).1] at htyped
    cases htyped
  intro demand hdemand
  obtain ⟨hsource, ty, hrequired, happlied⟩ := hfulfils demand hdemand
  exact ⟨hsource, ty, hrequired, happlied, Conversion.eq_none_iff happlied⟩

/-- `flag && -letter < count && value instanceof (Integer other && other == limit) &&
again instanceof (Integer other && other == limit)`, with the same pattern twice. -/
def sameGuardTwice : Arena where
  patterns := #[.type ⟨some "Integer", Span.none⟩ (some 0) Span.none, .guarded [0] 8 Span.none]
  exprs := #[.ident "flag" Span.none, .ident "letter" Span.none, .unary .neg 1 Span.none,
    .ident "count" Span.none, .binary .lt 2 3 Span.none, .binary .and 0 4 Span.none,
    .ident "other" Span.none, .ident "limit" Span.none, .binary .eq 6 7 Span.none,
    .ident "value" Span.none, .instanceOf 9 1 Span.none, .binary .and 5 10 Span.none,
    .ident "again" Span.none, .instanceOf 12 1 Span.none, .binary .and 11 13 Span.none]
  locals := #[⟨"other", Span.none⟩]

/-- The names in `sameGuardTwice`. -/
def namesOfMixedTypes : Scope :=
  ⟨[⟨"flag", 1, Ty.booleanBox⟩, ⟨"letter", 2, Ty.char⟩, ⟨"count", 3, Ty.integerBox⟩,
    ⟨"limit", 4, Ty.long⟩, ⟨"value", 5, Ty.object⟩, ⟨"again", 6, Ty.object⟩]⟩

/-- In the condition of the pattern that is met twice, the box is opened and its number widened. -/
theorem conversions_fit_sameGuardTwice : sameGuardTwice.exprReferences.Nodup ∧
    Acc (fun other node => sameGuardTwice.Refers node other) (.expr 14) ∧
    ∃ resolved, sameGuardTwice.forest.resolveGuard Pool.builtin .empty 14 namesOfMixedTypes =
        .ok resolved ∧ resolved.offered = [] ∧
      (∀ expr ty, .expr expr ∈ (sameGuardTwice.forest.expr 14).visits →
        resolved.table.exprTypes[expr.id]? = some ty → Pool.builtin.isError ty = false) ∧
      (List.range 15).filterMap (fun id => (resolved.table.conversions[id]?).map (id, ·)) =
        [(0, .unbox), (1, .widen Ty.int), (3, .unbox), (6, .unboxAndWiden Ty.long)] ∧
      resolved.table.exprTypes[(6 : ExprId)]? = some Ty.integerBox ∧
      Conversion.applied? resolved.table.conversions[(6 : ExprId)]? Ty.integerBox =
        some Ty.long := by
  have honce : sameGuardTwice.exprReferences.Nodup := by decide
  have hacyclic : sameGuardTwice.Acyclic :=
    Arena.acyclic_of_rank (Node.rank (17 * ·) (2 * ·)) (by decide)
  have hends := hacyclic.wellFounded.apply (.expr 14)
  have hruns : (do
      let resolved ← (sameGuardTwice.forest.resolveGuard Pool.builtin .empty 14
        namesOfMixedTypes).toOption
      return (resolved.offered, (sameGuardTwice.forest.expr 14).visits.all fun visit =>
          visit.expr?.all fun expr => (resolved.table.exprTypes[expr.id]?).all fun ty =>
            !Pool.builtin.isError ty,
        (List.range 15).filterMap fun id => (resolved.table.conversions[id]?).map (id, ·),
        decide (⟨6, Ty.integerBox, some Ty.long⟩ ∈
          (sameGuardTwice.forest.expr 14).allDemands resolved.table.exprType))) =
      some ([], true,
        [(0, .unbox), (1, .widen Ty.int), (3, .unbox), (6, .unboxAndWiden Ty.long)], true) := by
    decide +kernel
  cases hresolved : sameGuardTwice.forest.resolveGuard Pool.builtin .empty 14 namesOfMixedTypes with
  | error fault => simp [hresolved, Except.toOption] at hruns
  | ok resolved =>
    rw [hresolved, Except.toOption, Option.bind_eq_bind, Option.bind_some] at hruns
    obtain ⟨hoffered, hrest⟩ := Prod.mk.inj (Option.some.inj hruns)
    obtain ⟨hall, hrest⟩ := Prod.mk.inj hrest
    obtain ⟨hconversions, hdemand⟩ := Prod.mk.inj hrest
    have htypes : ∀ expr ty, .expr expr ∈ (sameGuardTwice.forest.expr 14).visits →
        resolved.table.exprTypes[expr.id]? = some ty → Pool.builtin.isError ty = false := by
      intro expr ty hexpr hty
      have hexpr' := List.all_eq_true.mp hall _ hexpr
      rw [Visit.expr?, Option.all_some, hty, Option.all_some] at hexpr'
      exact Bool.not_eq_true' _ ▸ hexpr'
    have hdeclared : Pool.builtin.Declared fun _ _ => True := .builtin
    obtain ⟨htype, ty, hrequired, happlied, -⟩ := (conversions_fit hdeclared honce hends hresolved
      hoffered htypes).2 _ (of_decide_eq_true hdemand)
    cases hrequired
    exact ⟨honce, hends, resolved, rfl, hoffered, htypes, hconversions, htype, happlied⟩

end GuardedMatch
