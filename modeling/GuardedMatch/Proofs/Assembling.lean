import GuardedMatch.Proofs.Analysing
import GuardedMatch.Proofs.Layout

/-!
# What planning is put together from

All code is planned by a few steps on the planner, one after the other.  So whatever each of these
steps keeps is kept by planning as a whole, and there is no need to go through the syntax for it
again.  Some things can be known about the steps beforehand: which locals are stored, from which of
the recorded states locals are opened, which labels are placed, and what is the reason if a step
fails.

What is stored can be read off a tree: all locals that patterns bind, but for those in operands that
are evaluated as a whole and those in conditions that are never tried, since a literal has settled
the outcome before them.

* `Planner.Assembled`: an action is put together from steps.
* `Pattern.plan_assembled`, `CompilationUnit.plan_assembled`: so is planning.
* `Planner.Assembled.keeps`: an invariant of the steps is one of the action.
-/

namespace GuardedMatch

/-! ## What is stored -/

mutual

/-- The locals that a test of a pattern stores. -/
def Pattern.storedLocals : Pattern → List LocalId
  | .type _ _ binds _ => binds.toList
  | .record _ _ components _ => Pattern.storedLocalsAll components
  | .guarded _ patterns condition _ => Pattern.storedLocalsAll patterns ++ condition.storedLocals
  | .any .. | .missing _ => []

def Pattern.storedLocalsAll : List Pattern → List LocalId
  | [] => []
  | pattern :: patterns => pattern.storedLocals ++ Pattern.storedLocalsAll patterns

/-- The locals that a test of a condition stores.  What stands behind `false &&` or `true ||` is
never tried. -/
def Expr.storedLocals : Expr → List LocalId
  | .unary _ .not operand _ => operand.storedLocals
  | .binary _ .and left right _ =>
    if left.skippable = some false then [] else left.storedLocals ++ right.storedLocals
  | .binary _ .or left right _ =>
    if left.skippable = some true then [] else left.storedLocals ++ right.storedLocals
  | .instanceOf _ _ pattern _ => pattern.storedLocals
  | _ => []

end

/-- A condition on literals stores nothing. -/
theorem Expr.storedLocals_eq_nil : ∀ (expr : Expr), expr.hasRuntimeOperands = false →
    expr.storedLocals = []
  | .unary id .not operand span, h => by
    rw [storedLocals]
    exact storedLocals_eq_nil operand h
  | .binary id op left right span, h => by
    rw [hasRuntimeOperands, Bool.or_eq_false_iff] at h
    have hleft := storedLocals_eq_nil left h.1
    have hright := storedLocals_eq_nil right h.2
    cases op with
    | and | or => simp [storedLocals, hleft, hright]
    | eq | notEq | lt | ltEq | gt | gtEq | add | sub | mul | div | rem =>
      rw [storedLocals.eq_def]
  | .bool .., _ | .int .., _ | .unary _ .neg _ _, _ | .missing _, _ => by rw [storedLocals.eq_def]
  | .ident .., h | .field .., h | .instanceOf .., h | .call .., h => by
    simp [hasRuntimeOperands] at h

theorem Expr.storedLocals_of_skippable {expr : Expr} {outcome : Bool}
    (h : expr.skippable = some outcome) : expr.storedLocals = [] :=
  expr.storedLocals_eq_nil (skippable_eq_some.mp h).1

theorem Expr.storedLocals_of_operand {expr : Expr} (h : expr.IsOperand) :
    expr.storedLocals = [] := by
  rw [storedLocals.eq_def]
  split <;> first | cases h | rfl

/-! ## Steps -/

namespace Planner

/-- What steps may do: which locals they store, from which states they open locals, which labels
they place, and how they fail beside the faults of the stream. -/
structure Terms where
  stores : LocalId → Prop
  opens : FlowState → Prop
  places : Label → Prop
  fails : Failure → Prop

/-- Steps may do anything. -/
def Terms.all : Terms := ⟨fun _ => True, fun _ => True, fun _ => True, fun _ => True⟩

/-- The action is put together from steps of planning.  They store the locals, in order. -/
inductive Assembled (terms : Terms) : List LocalId → {α : Type} → PlanM α → Prop
  | pure {α : Type} (answer : α) : Assembled terms [] (Pure.pure answer)
  | throw {ids : List LocalId} {α : Type} {failure : Failure} (h : terms.fails failure) :
      Assembled terms ids (MonadExcept.throw failure : PlanM α)
  | bind {ids ids' : List LocalId} {α β : Type} {action : PlanM α} {next : α → PlanM β}
      (h : Assembled terms ids action) (hnext : ∀ answer, Assembled terms ids' (next answer)) :
      Assembled terms (ids ++ ids') (action >>= next)
  | newLabel {ids : List LocalId} {α : Type} {next : Label → PlanM α}
      (hnext : ∀ label, terms.places label → Assembled terms ids (next label)) :
      Assembled terms ids (newLabel >>= next)
  | newValue : Assembled terms [] newValue
  | emit {instr : Instr} (hplaced : instr.placed? = none) : Assembled terms [] (emit instr)
  | place {label : Label} (h : terms.places label) : Assembled terms [] (place label)
  | storeLocal {id : LocalId} (h : terms.stores id) (value : ValueId) :
      Assembled terms [id] (store (some id) value)
  | closeRange (id : LocalId) : Assembled terms [] (change (·.closeRange id))
  | closeUnassigned (states : Array FlowState) (index : StateIndex) :
      Assembled terms [] (change (·.closeUnassigned states index))
  | openAssigned {states : Array FlowState} {index : StateIndex}
      (h : ∀ state ∈ states[index]?, terms.opens state) :
      Assembled terms [] (change (·.openAssigned states index))
  | setPhase (id : PatternId) (phase : Phase) : Assembled terms [] (setPhase id phase)
  | noteGuard (plan : GuardPlan) : Assembled terms [] (noteGuard plan)
  | noteElseTarget (id : PatternId) (label : Label) : Assembled terms [] (noteElseTarget id label)
  | clear : Assembled terms [] (modify fun planner => { planner with emitted := Emitted.empty })
  | handOut : Assembled terms [] (do
      let emitted := (← get).emitted
      modify fun planner => { planner with emitted := Emitted.empty }
      return emitted)

namespace Assembled

variable {terms : Terms} {ids : List LocalId} {α β : Type}

theorem first {action : PlanM α} {next : α → PlanM β} (h : Assembled terms [] action)
    (hnext : ∀ answer, Assembled terms ids (next answer)) :
    Assembled terms ids (action >>= next) := bind h hnext

theorem last {action : PlanM α} {next : α → PlanM β} (h : Assembled terms ids action)
    (hnext : ∀ answer, Assembled terms [] (next answer)) :
    Assembled terms ids (action >>= next) := by
  have hboth := bind h hnext
  rwa [List.append_nil] at hboth

theorem snapshot {facts : Facts} {id : PatternId} {next : Snapshot → PlanM α}
    (hfails : id ∈ facts.record.snapshots ∨ ∀ failure, terms.fails failure)
    (hnext : ∀ snapshot, facts.record.snapshots[id]? = some snapshot →
      Assembled terms ids (next snapshot)) :
    Assembled terms ids (Planner.snapshot facts id >>= next) := by
  rw [Planner.snapshot]
  split
  next snapshot hsnapshot => exact hnext snapshot hsnapshot
  next hnone =>
    refine throw (hfails.elim (fun hmem => ?_) fun hfails => hfails _)
    rw [Std.ExtTreeMap.mem_iff_isSome_getElem?, hnone] at hmem
    cases hmem

theorem jump (target : Option Label) : Assembled terms [] (jump target) := by
  cases target with
  | none => exact pure _
  | some label => exact emit rfl

theorem branch (value : ValueId) : ∀ targets : Targets, Assembled terms [] (branch value targets)
  | ⟨some _, some _⟩ => first (emit rfl) fun _ => emit rfl
  | ⟨some _, none⟩ | ⟨none, some _⟩ => emit rfl
  | ⟨none, none⟩ => pure _

theorem testType (facts : Facts) (pattern : PatternId) (value : ValueId) (static : Ty)
    (fail : Label) : Assembled terms [] (testType facts pattern value static fail) := by
  rw [Planner.testType]
  split
  next => exact emit rfl
  next => exact pure _

theorem store {binds : Option LocalId} (h : ∀ id ∈ binds, terms.stores id) (value : ValueId) :
    Assembled terms binds.toList (store binds value) := by
  cases binds with
  | none => exact pure _
  | some id => exact storeLocal (h id rfl) value

theorem withFailure (targets : Targets) (enclosing : Enclosing) {test : Label → PlanM Unit}
    (htest : ∀ fail, Assembled terms ids (test fail)) :
    Assembled terms ids (withFailure targets enclosing test) := by
  rw [Planner.withFailure]
  split
  next fail _ => exact last (htest fail) fun _ => jump _
  next =>
    exact newLabel fun fail hfail => last (htest fail) fun _ => first (jump _) fun _ => place hfail

theorem mapM {step : α → PlanM β} {stored : α → List LocalId} : ∀ {items : List α},
    (∀ item ∈ items, Assembled terms (stored item) (step item)) →
      Assembled terms (items.flatMap stored) (items.mapM step)
  | [], _ => pure _
  | item :: items, h => by
    rw [List.forall_mem_cons] at h
    rw [List.mapM_cons, List.flatMap_cons]
    exact bind h.1 fun _ => last (mapM h.2) fun _ => pure _

end Assembled

end Planner

/-! ## Planning -/

namespace FlowRecord.Covered

variable {record : FlowRecord} {visits visits' : List Visit}

theorem sub (h : record.Covered visits) (hsub : visits' ⊆ visits) : record.Covered visits' :=
  ⟨fun pattern hpattern => h.patterns pattern (hsub hpattern), fun id hid => h.exprs id (hsub hid)⟩

theorem snapshot {pattern : Pattern} (h : record.Covered pattern.visits) :
    pattern.id ∈ record.snapshots := (h.patterns pattern pattern.self_mem_visits).1

theorem not_missing {id : PatternId} : ¬ record.Covered (Pattern.missing id).visits :=
  fun h => (h.patterns _ (Pattern.self_mem_visits _)).2 id rfl

end FlowRecord.Covered

open Planner

/-- Where the visits are planned, steps may store the locals bound there and open the states
recorded for the patterns.  They may fail unless all patterns have been analysed. -/
structure Facts.Permits (facts : Facts) (terms : Terms) (visits : List Visit) : Prop where
  stores : ∀ id, .binding id ∈ visits → terms.stores id
  opens : ∀ pattern, .pattern pattern ∈ visits → ∀ snapshot ∈ facts.record.snapshots[pattern.id]?,
    ∀ state ∈ facts.record.states[snapshot.resume]?, terms.opens state
  fails : facts.record.Covered visits ∨ ∀ failure, terms.fails failure

section

variable {facts : Facts} {terms : Terms} {visits visits' : List Visit}

namespace Facts.Permits

theorem everything (facts : Facts) (visits : List Visit) : facts.Permits .all visits :=
  ⟨fun _ _ => trivial, fun _ _ _ _ _ _ => trivial, .inr fun _ => trivial⟩

theorem mono (h : facts.Permits terms visits) (hsub : visits' ⊆ visits) :
    facts.Permits terms visits' :=
  ⟨fun id hid => h.stores id (hsub hid), fun pattern hpattern => h.opens pattern (hsub hpattern),
    h.fails.imp_left fun hcovered => hcovered.sub hsub⟩

theorem cons {visit : Visit} (h : facts.Permits terms (visit :: visits)) :
    facts.Permits terms visits := h.mono (List.subset_cons_self ..)

theorem append (h : facts.Permits terms (visits ++ visits')) :
    facts.Permits terms visits ∧ facts.Permits terms visits' :=
  ⟨h.mono (List.subset_append_left ..), h.mono (List.subset_append_right ..)⟩

theorem analysed {pattern : Pattern} (h : facts.Permits terms pattern.visits) :
    pattern.id ∈ facts.record.snapshots ∨ ∀ failure, terms.fails failure :=
  h.fails.imp_left FlowRecord.Covered.snapshot

/-- A pattern that is missing was not analysed. -/
theorem missing {id : PatternId} (h : facts.Permits terms (Pattern.missing id).visits)
    (failure : Failure) : terms.fails failure :=
  h.fails.elim (fun hcovered => absurd hcovered FlowRecord.Covered.not_missing) fun hfails =>
    hfails failure

end Facts.Permits

theorem Pattern.suspend_assembled (pattern : Pattern) (h : facts.Permits terms pattern.visits) :
    Assembled terms [] (pattern.suspend facts) := by
  fun_induction Pattern.suspend facts pattern with
  | case1 own first rest condition span ih =>
    refine .snapshot h.analysed fun _ _ => .first (.closeUnassigned _ _) fun _ =>
      ih (h.mono fun visit hvisit => ?_)
    simp [Pattern.visits, Pattern.visitsAll, hvisit]
  | case2 pattern _ => exact .snapshot h.analysed fun _ _ => .closeUnassigned _ _

theorem Pattern.resume_assembled (pattern : Pattern) (h : facts.Permits terms pattern.visits) :
    Assembled terms [] (pattern.resume facts) := by
  fun_induction Pattern.resume facts pattern with
  | case1 own first rest condition span ih =>
    refine .snapshot h.analysed fun snapshot hsnapshot => .first (.openAssigned ?_) fun _ => ih ?_
    · exact h.opens _ (Pattern.self_mem_visits _) snapshot hsnapshot
    · refine h.mono fun visit hvisit => ?_
      simp [Pattern.visits, Pattern.visitsAll, hvisit]
  | case2 pattern _ =>
    exact .snapshot h.analysed fun snapshot hsnapshot => .openAssigned
      (h.opens _ (Pattern.self_mem_visits _) snapshot hsnapshot)

theorem Expr.operand_assembled {expr : Expr} (h : expr.IsOperand) (targets : Targets)
    (enclosing : Enclosing) :
    Assembled terms expr.storedLocals (expr.plan facts targets enclosing) := by
  rw [Expr.plan_operand h, expr.storedLocals_of_operand h]
  exact .first .newValue fun value => .first (.emit rfl) fun _ => .branch value targets

mutual

/-- **What planning for a pattern is put together from**, and what it stores. -/
theorem Pattern.plan_assembled : ∀ (pattern : Pattern), facts.Permits terms pattern.visits →
    ∀ (value : ValueId) (static : Ty) (targets : Targets) (enclosing : Enclosing),
    Assembled terms pattern.storedLocals (pattern.plan facts value static targets enclosing)
  | .type own ty binds span, h, value, static, targets, enclosing => by
    have hbinds : ∀ id ∈ binds, terms.stores id := by
      intro id hid
      refine h.stores id ?_
      simp [Pattern.visits, Option.mem_def.mp hid]
    rw [Pattern.plan, Pattern.storedLocals]
    exact .withFailure targets enclosing fun fail =>
      .first (.testType ..) fun _ => .store hbinds value
  | .record own ty components span, h, value, static, targets, enclosing => by
    rw [Pattern.plan, Pattern.storedLocals]
    refine .withFailure targets enclosing fun fail => ?_
    have hcomponents := Pattern.planComponents_assembled components h.cons 0
      (facts.pool.componentTypes (facts.table.patternType own)) value fail enclosing
    dsimp only
    split
    next => exact .first (.noteElseTarget ..) fun _ => .first (.testType ..) fun _ => hcomponents
    next => exact .first (.testType ..) fun _ => hcomponents
  | .any own span, h, value, static, targets, enclosing => by
    rw [Pattern.plan, Pattern.storedLocals]
    exact .withFailure targets enclosing fun _ => .pure _
  | .guarded own patterns condition span, h, value, static, targets, enclosing => by
    obtain ⟨hpatterns, hcondition⟩ := h.cons.append
    rw [Pattern.plan, Pattern.storedLocals]
    refine .snapshot h.analysed fun snapshot hsnapshot => .newLabel fun thenLabel hthen =>
      .newLabel fun elseLabel helse => .first (.setPhase ..) fun _ =>
      .first (.noteGuard ..) fun _ =>
      .bind (Pattern.planAll_assembled patterns hpatterns value static elseLabel) fun _ => ?_
    have hopen := h.opens _ (Pattern.self_mem_visits _) snapshot hsnapshot
    -- Whatever the condition is, the ranges are brought into line after it.
    have hrest : ∀ exit : PlanM Unit, Assembled terms [] exit → Assembled terms [] (do
        change (·.closeUnassigned facts.record.states snapshot.resume)
        change (·.openAssigned facts.record.states snapshot.resume)
        exit) := fun _ hexit =>
      .first (.closeUnassigned ..) fun _ => .first (.openAssigned hopen) fun _ => hexit
    obtain ⟨onTrue, onFalse⟩ := targets
    cases onTrue with
    | some success =>
      have hexit := hrest _ (.first (.place helse) fun _ =>
        .first (Pattern.suspend_assembled _ h) fun _ =>
          .first (.jump onFalse) fun _ => .setPhase own .emitted)
      dsimp only
      split
      next hskip =>
        rw [Expr.storedLocals_of_skippable hskip]
        exact .first (.jump _) fun _ => hexit
      next hskip =>
        rw [Expr.storedLocals_of_skippable hskip]
        exact .first (.emit rfl) fun _ => hexit
      next => exact .last (condition.plan_assembled hcondition _ _) fun _ => hexit
    | none =>
      have hexit := hrest _ (.first (.jump (some thenLabel)) fun _ => .first (.place helse) fun _ =>
        .first (Pattern.suspend_assembled _ h) fun _ => .first (.jump onFalse) fun _ =>
          .first (.place hthen) fun _ => .first (Pattern.resume_assembled _ h) fun _ =>
            .setPhase own .emitted)
      dsimp only
      split
      next hskip =>
        rw [Expr.storedLocals_of_skippable hskip]
        exact .first (.jump _) fun _ => hexit
      next hskip =>
        rw [Expr.storedLocals_of_skippable hskip]
        exact .first (.emit rfl) fun _ => hexit
      next => exact .last (condition.plan_assembled hcondition _ _) fun _ => hexit
  | .missing own, h, value, static, targets, enclosing => by
    rw [Pattern.plan]
    exact .throw (h.missing _)

theorem Pattern.planAll_assembled : ∀ (patterns : List Pattern),
    facts.Permits terms (Pattern.visitsAll patterns) → ∀ (value : ValueId) (static : Ty)
      (fail : Label), Assembled terms (Pattern.storedLocalsAll patterns)
        (Pattern.planAll facts patterns value static fail)
  | [], _, value, static, fail => by
    rw [Pattern.planAll, Pattern.storedLocalsAll]
    exact .pure _
  | pattern :: patterns, h, value, static, fail => by
    obtain ⟨hfirst, hrest⟩ := Facts.Permits.append h
    rw [Pattern.planAll, Pattern.storedLocalsAll]
    exact .bind (pattern.plan_assembled hfirst value static _ _) fun _ =>
      Pattern.planAll_assembled patterns hrest value static fail

theorem Pattern.planComponents_assembled : ∀ (patterns : List Pattern),
    facts.Permits terms (Pattern.visitsAll patterns) → ∀ (position : Nat) (types : List Ty)
      (whole : ValueId) (fail : Label) (enclosing : Enclosing),
    Assembled terms (Pattern.storedLocalsAll patterns)
      (Pattern.planComponents facts patterns position types whole fail enclosing)
  | [], _, position, types, whole, fail, enclosing => by
    rw [Pattern.planComponents, Pattern.storedLocalsAll]
    exact .pure _
  | pattern :: patterns, h, position, types, whole, fail, enclosing => by
    obtain ⟨hfirst, hrest⟩ := Facts.Permits.append h
    rw [Pattern.planComponents, Pattern.storedLocalsAll]
    exact .first .newValue fun value => .first (.emit rfl) fun _ =>
      .bind (pattern.plan_assembled hfirst value _ _ _) fun _ =>
        Pattern.planComponents_assembled patterns hrest (position + 1) types.tail whole fail
          enclosing

/-- **What planning for a condition is put together from**, and what it stores. -/
theorem Expr.plan_assembled : ∀ (expr : Expr), facts.Permits terms expr.visits →
    ∀ (targets : Targets) (enclosing : Enclosing),
    Assembled terms expr.storedLocals (expr.plan facts targets enclosing)
  | .bool own value span, _, targets, enclosing => by
    rw [Expr.plan, Expr.storedLocals.eq_def]
    exact .jump _
  | .unary own .not operand span, h, targets, enclosing => by
    rw [Expr.plan, Expr.storedLocals]
    exact operand.plan_assembled h.cons targets.swap enclosing.withoutFallthrough
  | .binary own op left right span, h, targets, enclosing => by
    obtain ⟨hleft, hright⟩ := h.cons.append
    have hfirst := fun first : Targets =>
      left.plan_assembled hleft first enclosing.withoutFallthrough
    have hsecond := right.plan_assembled hright targets enclosing
    cases op with
    | and =>
      rw [Expr.plan]
      split
      next hskip =>
        rw [Expr.storedLocals, if_neg (by simp [hskip]), Expr.storedLocals_of_skippable hskip]
        exact hsecond
      next hskip =>
        rw [Expr.storedLocals, if_pos hskip]
        exact .jump _
      next hskip =>
        rw [Expr.storedLocals, if_neg (by simp [hskip])]
        split
        next => exact .bind (hfirst _) fun _ => hsecond
        next =>
          exact .newLabel fun fail hfail => .bind (hfirst _) fun _ => .last hsecond fun _ =>
            .place hfail
    | or =>
      rw [Expr.plan]
      split
      next hskip =>
        rw [Expr.storedLocals, if_neg (by simp [hskip]), Expr.storedLocals_of_skippable hskip]
        exact hsecond
      next hskip =>
        rw [Expr.storedLocals, if_pos hskip]
        exact .jump _
      next hskip =>
        rw [Expr.storedLocals, if_neg (by simp [hskip])]
        split
        next => exact .bind (hfirst _) fun _ => hsecond
        next =>
          exact .newLabel fun success hsuccess => .bind (hfirst _) fun _ => .last hsecond fun _ =>
            .place hsuccess
    | eq | notEq | lt | ltEq | gt | gtEq | add | sub | mul | div | rem =>
      refine Expr.operand_assembled ?_ targets enclosing
      rfl
  | .instanceOf own tested pattern span, h, targets, enclosing => by
    rw [Expr.plan, Expr.storedLocals]
    exact .first .newValue fun value => .first (.emit rfl) fun _ =>
      pattern.plan_assembled h.cons.append.2 value _ targets enclosing
  | .missing own, h, targets, enclosing => by
    rw [Expr.plan]
    refine .throw (h.fails.elim (fun hcovered => ?_) fun hfails => hfails _)
    exact absurd (Expr.self_mem_visits _) (hcovered.exprs own)
  | .int .., _, targets, enclosing | .ident .., _, targets, enclosing
  | .field .., _, targets, enclosing | .call .., _, targets, enclosing
  | .unary _ .neg _ _, _, targets, enclosing => by
    refine Expr.operand_assembled ?_ targets enclosing
    trivial

end

theorem Pattern.generate_assembled {pattern : Pattern} (h : facts.Permits terms pattern.visits)
    (value : ValueId) (static : Ty) (targets : Targets) :
    Assembled terms pattern.storedLocals (pattern.generate facts value static targets) :=
  .snapshot h.analysed fun _ _ => .first .clear fun _ =>
    .last (pattern.plan_assembled h value static targets _) fun _ => .handOut

mutual

theorem Pattern.wrapUp_assembled (full : Bool) : ∀ (pattern : Pattern),
    facts.Permits terms pattern.visits → Assembled terms [] (pattern.wrapUp full)
  | .type _ _ binds _, _ => by
    cases binds with
    | none =>
      rw [Pattern.wrapUp]
      exact .pure _
    | some id =>
      rw [Pattern.wrapUp]
      exact .closeRange id
  | .record _ _ components _, h => by
    rw [Pattern.wrapUp]
    exact Pattern.wrapUpAll_assembled full components h.cons
  | .guarded _ [] _ _, _ => by
    rw [Pattern.wrapUp]
    exact .pure _
  | .guarded _ (first :: rest) _ _, h => by
    obtain ⟨hfirst, hrest⟩ := Facts.Permits.append h.cons.append.1
    rw [Pattern.wrapUp]
    refine .first (first.wrapUp_assembled full hfirst) fun _ => ?_
    split
    next => exact Pattern.wrapUpAll_assembled full rest hrest
    next => exact .pure _
  | .any .., _ => by
    rw [Pattern.wrapUp]
    exact .pure _
  | .missing _, h => by
    rw [Pattern.wrapUp]
    exact .throw (h.missing _)

theorem Pattern.wrapUpAll_assembled (full : Bool) : ∀ (patterns : List Pattern),
    facts.Permits terms (Pattern.visitsAll patterns) →
      Assembled terms [] (Pattern.wrapUpAll full patterns)
  | [], _ => by
    rw [Pattern.wrapUpAll]
    exact .pure _
  | pattern :: patterns, h => by
    obtain ⟨hfirst, hrest⟩ := Facts.Permits.append h
    rw [Pattern.wrapUpAll]
    exact .first (pattern.wrapUp_assembled full hfirst) fun _ =>
      Pattern.wrapUpAll_assembled full patterns hrest

end

namespace CompilationUnit

variable {unit : CompilationUnit} {forest : Forest}

theorem planSite_assembled {site : Site}
    (h : facts.Permits terms (forest.pattern site.pattern).visits) (ty : Ty) :
    Assembled terms (forest.pattern site.pattern).storedLocals (planSite facts forest site ty) :=
  .first .newValue fun value => .first (.emit rfl) fun _ => .newLabel fun _ hnoMatch =>
    .last (Pattern.generate_assembled h value ty _) fun _ =>
      .first (Pattern.wrapUp_assembled true _ h) fun _ => .first (.place hnoMatch) fun _ => .pure _

theorem planCase_assembled {id : PatternId}
    (h : facts.Permits terms (forest.pattern id).visits) (value : ValueId) (ty : Ty)
    (done : Label) :
    Assembled terms (forest.pattern id).storedLocals (planCase facts forest value ty done id) :=
  .newLabel fun _ hnext => .last (Pattern.generate_assembled h value ty _) fun _ =>
    .first (Pattern.wrapUp_assembled true _ h) fun _ => .first (.emit rfl) fun _ =>
      .first (.place hnext) fun _ => .pure _

theorem planSwitch_assembled {switch : Switch}
    (h : ∀ id ∈ switch.cases, facts.Permits terms (forest.pattern id).visits) (ty : Ty) :
    Assembled terms (switch.cases.flatMap fun id => (forest.pattern id).storedLocals)
      (planSwitch facts forest switch ty) :=
  .first .newValue fun value => .first (.emit rfl) fun _ => .newLabel fun done hdone =>
    .last (.mapM fun id hid => planCase_assembled (h id hid) value ty done) fun _ =>
      .first (.place hdone) fun _ => .pure _

/-- **What planning for a unit is put together from**, and what it stores. -/
theorem plan_assembled
    (h : ∀ id ∈ unit.patterns, facts.Permits terms (forest.pattern id).visits)
    (siteTypes switchTypes : List Ty) :
    Assembled terms
      ((unit.sites.zip siteTypes).flatMap (fun root => (forest.pattern root.1.pattern).storedLocals)
        ++ (unit.switches.zip switchTypes).flatMap fun root =>
          root.1.cases.flatMap fun id => (forest.pattern id).storedLocals)
      (unit.plan facts forest false siteTypes switchTypes) := by
  refine .bind (.mapM fun root hroot => ?_) fun _ => .last (.mapM fun root hroot => ?_) fun _ =>
    .pure _
  · have hsite := List.mem_map_of_mem (f := Site.pattern) (List.of_mem_zip hroot).1
    exact planSite_assembled (h _ (List.mem_append_left _ hsite)) root.2
  · refine planSwitch_assembled (fun id hid => h id (List.mem_append_right _ ?_)) root.2
    exact List.mem_flatMap.mpr ⟨root.1, (List.of_mem_zip hroot).1, hid⟩

end CompilationUnit

end

/-! ## Invariants of the steps -/

/-- Every step of planning keeps the invariant, and new labels may be placed. -/
structure Stream.Stable (terms : Terms) (inv : Stream → Prop) : Prop where
  labels : ∀ {stream}, inv stream → terms.places stream.labels.size
  newLabel : ∀ {stream}, inv stream → inv stream.newLabel.2
  newValue : ∀ {stream}, inv stream → inv stream.newValue.2
  emit : ∀ {stream}, inv stream → ∀ {instr : Instr}, instr.placed? = none →
    inv (stream.emit instr)
  place : ∀ {stream}, inv stream → ∀ {label}, terms.places label →
    stream.placeFault? label = none → inv (stream.place label)
  store : ∀ {stream}, inv stream → ∀ {id}, terms.stores id → stream.declareFault? id = none →
    ∀ value, inv (stream.store id value)
  closeRange : ∀ {stream}, inv stream → ∀ id, inv (stream.closeRange id)
  closeUnassigned : ∀ {stream}, inv stream → ∀ states index,
    inv (stream.closeUnassigned states index)
  openAssigned : ∀ {stream}, inv stream → ∀ {states : Array FlowState} {index},
    (∀ state ∈ states[index]?, terms.opens state) → inv (stream.openAssigned states index)

namespace Planner

theorem newLabel_bind {α : Type} {planner : Planner} {next : Label → PlanM α} {bad : Failure → Prop}
    {post : α → Planner → Prop} (h : Ensures (next planner.stream.labels.size)
      { planner with stream := planner.stream.newLabel.2 } bad post) :
    Ensures (newLabel >>= next) planner bad post := h

theorem newValue_bind {α : Type} {planner : Planner} {next : ValueId → PlanM α}
    {bad : Failure → Prop} {post : α → Planner → Prop}
    (h : Ensures (next planner.stream.valueCount)
      { planner with stream := planner.stream.newValue.2 } bad post) :
    Ensures (newValue >>= next) planner bad post := h

/-- The action keeps an invariant of the stream, if it ends. -/
structure Keeps (inv : Stream → Prop) {α : Type} (action : PlanM α) : Prop where
  ensures : ∀ planner : Planner, inv planner.stream →
    Ensures action planner (fun _ => True) fun _ after => inv after.stream

namespace Keeps

variable {inv : Stream → Prop} {α β : Type}

theorem pure (answer : α) : Keeps inv (Pure.pure answer : PlanM α) :=
  ⟨fun _ h => Ensures.pure h⟩

theorem throw (failure : Failure) : Keeps inv (MonadExcept.throw failure : PlanM α) :=
  ⟨fun _ _ => Ensures.throw trivial⟩

theorem bind {action : PlanM α} {next : α → PlanM β} (h : Keeps inv action)
    (hnext : ∀ answer, Keeps inv (next answer)) : Keeps inv (action >>= next) :=
  ⟨fun planner hinv => (h.ensures planner hinv).seq fun answer mid => (hnext answer).ensures mid⟩

theorem change {step : Stream → Stream} (h : ∀ stream, inv stream → inv (step stream)) :
    Keeps inv (change step) := ⟨fun planner hinv => Ensures.modifies (h planner.stream hinv)⟩

theorem setPhase (id : PatternId) (phase : Phase) : Keeps inv (setPhase id phase) :=
  ⟨fun _ hinv => Ensures.modifies hinv⟩

theorem noteGuard (plan : GuardPlan) : Keeps inv (noteGuard plan) :=
  ⟨fun _ hinv => Ensures.modifies hinv⟩

theorem noteElseTarget (id : PatternId) (label : Label) : Keeps inv (noteElseTarget id label) :=
  ⟨fun _ hinv => Ensures.modifies hinv⟩

/-- A step that may fail is made only where it does not. -/
theorem require_change {fault? : Stream → Option Fault} {step : Stream → Stream}
    (h : ∀ stream, inv stream → fault? stream = none → inv (step stream)) :
    Keeps inv (Planner.require fault? >>= fun _ => Planner.change step) := by
  refine ⟨fun planner hinv => Ensures.bind (Ensures.get_bind ?_)⟩
  split
  next => exact Ensures.throw trivial
  next hnone => exact Ensures.pure (Ensures.modifies (h planner.stream hinv hnone))

end Keeps

/-- **What every step keeps is kept by what is put together from them.** -/
theorem Assembled.keeps {terms : Terms} {inv : Stream → Prop} (hinv : Stream.Stable terms inv)
    {ids : List LocalId} {α : Type} {action : PlanM α} (h : Assembled terms ids action) :
    Keeps inv action := by
  induction h with
  | pure answer => exact .pure answer
  | throw _ => exact .throw _
  | bind _ _ ih hnext => exact .bind ih hnext
  | newLabel _ ih =>
    exact ⟨fun _ h => newLabel_bind ((ih _ (hinv.labels h)).ensures _ (hinv.newLabel h))⟩
  | newValue => exact ⟨fun _ h => hinv.newValue h⟩
  | emit hplaced => exact .change fun _ h => hinv.emit h hplaced
  | place hlabel => exact .require_change fun _ h hnone => hinv.place h hlabel hnone
  | storeLocal hid value => exact .require_change fun _ h hnone => hinv.store h hid hnone value
  | closeRange id => exact .change fun _ h => hinv.closeRange h id
  | closeUnassigned states index => exact .change fun _ h => hinv.closeUnassigned h states index
  | openAssigned hopen => exact .change fun _ h => hinv.openAssigned h hopen
  | setPhase id phase => exact .setPhase id phase
  | noteGuard plan => exact .noteGuard plan
  | noteElseTarget id label => exact .noteElseTarget id label
  | clear => exact ⟨fun _ h => Ensures.modifies h⟩
  | handOut => exact ⟨fun _ h => h⟩

end Planner

end GuardedMatch
