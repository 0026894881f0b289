import GuardedMatch.Proofs.Changing
import GuardedMatch.Session

/-!
# Reports steer nothing

The passes report into a queue and never look at it.  So what a pass answers, what it leaves beside
the queue and what it reports do not depend on what is in the queue, nor on the settings by which
the queue accepts and drops.  An offer puts a diagnostic into whatever queue there is; everything
else leaves the queue alone, and what is put together from such steps keeps to the side.

* `Aside`: an action ends in one way from every queue.
* `Pattern.resolve_aside`, `Expr.resolve_aside`, `Pattern.analyse_aside`, `Expr.analyse_aside`:
  resolution and analysis keep to the side.
* `Forest.examineSwitch_does`: so does the check of a switch, which reports its findings.
* `CompilationUnit.passes_eq`, `CompilationUnit.compile_eq`: compiling a unit is running its passes
  apart and offering what they report to the queue.
-/

namespace GuardedMatch

/-! ## Actions beside a queue -/

section

variable {ε σ τ α β γ : Type} {put : σ → Queue → τ}

/-- How an action ends beside a queue: with an answer, a state and reports, or with an error. -/
abbrev Outcome (ε σ α : Type) := Except ε (α × σ × List Diagnostic)

/-- The outcome of what comes after some reports. -/
def Outcome.after (reports : List Diagnostic) (outcome : Outcome ε σ α) : Outcome ε σ α :=
  outcome.map fun (answer, state, more) => (answer, state, reports ++ more)

/-- From this state, beside any queue, the action ends with the outcome; the queue is offered the
reports. -/
def Does (put : σ → Queue → τ) (action : EStateM ε τ α) (state : σ) : Outcome ε σ α → Prop
  | .ok (answer, after, reports) => ∀ queue,
    EStateM.run action (put state queue) = .ok answer (put after (queue.addAll reports))
  | .error error => ∀ queue, ∃ after, EStateM.run action (put state queue) = .error error after

namespace Does

variable {state mid : σ} {answer : α} {reports : List Diagnostic} {outcome last : Outcome ε σ β}

theorem bind {action : EStateM ε τ α} {next : α → EStateM ε τ β}
    (h : Does put action state (.ok (answer, mid, reports)))
    (hnext : Does put (next answer) mid last) (hlast : outcome = last.after reports) :
    Does put (action >>= next) state outcome := by
  subst hlast
  cases last with
  | ok result =>
    intro queue
    rw [run_bind (h queue), hnext, Queue.addAll_append]
  | error error =>
    intro queue
    rw [run_bind (h queue)]
    exact hnext _

theorem pure (put : σ → Queue → τ) (state : σ) (answer : α) :
    Does put (Pure.pure answer : EStateM ε τ α) state (.ok (answer, state, [])) := fun _ => rfl

/-- An answer that is computed beside the queue. -/
theorem lift (put : σ → Queue → τ) (state : σ) (answer : α) :
    Does put (MonadExcept.ofExcept (.ok answer) : EStateM ε τ α) state (.ok (answer, state, [])) :=
  fun _ => rfl

theorem lift_error (put : σ → Queue → τ) (state : σ) (error : ε) :
    Does put (MonadExcept.ofExcept (.error error) : EStateM ε τ α) state (.error error) :=
  fun _ => ⟨_, rfl⟩

theorem bind_error {action : EStateM ε τ α} {next : α → EStateM ε τ β} {error : ε}
    (h : Does put action state (.error error)) :
    Does put (action >>= next) state (.error error) := by
  intro queue
  obtain ⟨after, hrun⟩ := h queue
  rw [EStateM.run] at hrun
  exact ⟨after, by simp only [EStateM.run, Bind.bind, EStateM.bind, hrun]⟩

end Does

/-- The action ends in one way, whatever the queue. -/
structure Aside (put : σ → Queue → τ) (action : EStateM ε τ α) : Prop where
  exists_does : ∀ state, ∃ outcome, Does put action state outcome

namespace Aside

theorem pure (answer : α) : Aside put (Pure.pure answer : EStateM ε τ α) :=
  ⟨fun state => ⟨.ok (answer, state, []), fun _ => rfl⟩⟩

theorem throw (error : ε) : Aside put (MonadExcept.throw error : EStateM ε τ α) :=
  ⟨fun _ => ⟨.error error, fun _ => ⟨_, rfl⟩⟩⟩

/-- What is offered goes to the queue. -/
theorem offer {change : τ → τ} (diagnostic : Diagnostic)
    (h : ∀ state queue, change (put state queue) = put state (queue.add diagnostic).2) :
    Aside put (modify change : EStateM ε τ PUnit) := by
  refine ⟨fun state => ⟨.ok (⟨⟩, state, [diagnostic]), fun queue => ?_⟩⟩
  have hrun : EStateM.run (modify change : EStateM ε τ PUnit) (put state queue) =
      .ok ⟨⟩ (change (put state queue)) := rfl
  rw [hrun, h]
  rfl

/-- What is noted does not go to the queue. -/
theorem note {change : τ → τ} (changed : σ → σ)
    (h : ∀ state queue, change (put state queue) = put (changed state) queue) :
    Aside put (modify change : EStateM ε τ PUnit) := by
  refine ⟨fun state => ⟨.ok (⟨⟩, changed state, []), fun queue => ?_⟩⟩
  have hrun : EStateM.run (modify change : EStateM ε τ PUnit) (put state queue) =
      .ok ⟨⟩ (change (put state queue)) := rfl
  rw [hrun, h]
  rfl

theorem bind {action : EStateM ε τ α} {next : α → EStateM ε τ β} (h : Aside put action)
    (hnext : ∀ answer, Aside put (next answer)) : Aside put (action >>= next) := by
  refine ⟨fun state => ?_⟩
  obtain ⟨outcome, houtcome⟩ := h.exists_does state
  cases outcome with
  | error error => exact ⟨_, houtcome.bind_error⟩
  | ok result =>
    obtain ⟨answer, mid, reports⟩ := result
    obtain ⟨outcome', houtcome'⟩ := (hnext answer).exists_does mid
    exact ⟨_, houtcome.bind houtcome' rfl⟩

/-- What is read of the state is not the queue. -/
theorem get_bind {next : τ → EStateM ε τ β}
    (h : ∀ state, Aside put (next (put state (.new .unlimited))))
    (hread : ∀ state queue, next (put state queue) = next (put state (.new .unlimited))) :
    Aside put (MonadState.get >>= next) := by
  refine ⟨fun state => ?_⟩
  have hrun : ∀ queue, EStateM.run (MonadState.get >>= next) (put state queue) =
      EStateM.run (next (put state (.new .unlimited))) (put state queue) := by
    intro queue
    rw [← hread state queue]
    rfl
  obtain ⟨outcome, houtcome⟩ := (h state).exists_does state
  refine ⟨outcome, ?_⟩
  cases outcome with
  | ok result => exact fun queue => (hrun queue).trans (houtcome queue)
  | error error => exact fun queue => (houtcome queue).imp fun _ => (hrun queue).trans

theorem ite {condition : Prop} [Decidable condition] {left right : EStateM ε τ α}
    (hleft : Aside put left) (hright : Aside put right) :
    Aside put (if condition then left else right) := by
  split
  · exact hleft
  · exact hright

theorem discard {action : EStateM ε τ α} (h : Aside put action) :
    Aside put (Functor.discard action) := bind h fun _ => pure _

theorem forM {f : β → EStateM ε τ PUnit} (h : ∀ b, Aside put (f b)) :
    ∀ bs : List β, Aside put (bs.forM f)
  | [] => pure _
  | b :: bs => bind (h b) fun _ => forM h bs

theorem mapM {f : β → EStateM ε τ α} (h : ∀ b, Aside put (f b)) :
    ∀ bs : List β, Aside put (bs.mapM f)
  | [] => pure _
  | b :: bs => by
    rw [List.mapM_cons]
    exact bind (h b) fun _ => bind (mapM h bs) fun _ => pure _

theorem foldlM {f : α → β → EStateM ε τ α} (h : ∀ a b, Aside put (f a b)) :
    ∀ (bs : List β) (a : α), Aside put (bs.foldlM f a)
  | [], a => pure a
  | b :: bs, a => by
    rw [List.foldlM_cons]
    exact bind (h a b) fun a' => foldlM h bs a'

end Aside

end

/-! ## Resolution -/

namespace Resolver

variable {α : Type}

/-- Changes are made beside the queue, and reports go to it. -/
theorem foldl_apply (changes : List Change) (table : Resolution) :
    ∃ table' reports, ∀ queue, changes.foldl Change.apply ⟨table, queue⟩ =
      ⟨table', queue.addAll reports⟩ := by
  induction changes generalizing table with
  | nil => exact ⟨table, [], fun _ => rfl⟩
  | cons change changes ih =>
    cases change with
    | report diagnostic =>
      obtain ⟨table', reports, h⟩ := ih table
      exact ⟨table', diagnostic :: reports, fun queue => h _⟩
    | patternType id ty => exact ih (table.setPatternType id ty)
    | exprType id ty => exact ih (table.setExprType id ty)
    | localType id ty => exact ih (table.setLocalType id ty)
    | conversion id kind => exact ih (table.setConversion id kind)
    | identLocal id target => exact ih (table.setIdentLocal id target)

theorem Makes.aside {allowed : Change → Prop} {action : ResolveM α} (h : Makes allowed action) :
    Aside Resolver.mk action := by
  obtain ⟨answer, changes, -, hrun⟩ := h.exists_changes
  refine ⟨fun table => ?_⟩
  obtain ⟨table', reports, happly⟩ := foldl_apply changes table
  exact ⟨.ok (answer, table', reports), fun queue => by rw [hrun, happly]⟩

theorem update_aside (change : Resolution → Resolution) :
    Aside Resolver.mk (update change) := .note change fun _ _ => rfl

theorem patternHas_aside (id : PatternId) (ty : Ty) : Aside Resolver.mk (patternHas id ty) :=
  .bind (update_aside _) fun _ => .pure _

theorem exprHas_aside (id : ExprId) (ty : Ty) : Aside Resolver.mk (exprHas id ty) :=
  .bind (update_aside _) fun _ => .pure _

theorem localName_aside (locals : Array LocalDecl) (id : LocalId) :
    Aside Resolver.mk (localName locals id) := by
  rw [localName.eq_def]
  split
  · exact .pure _
  · exact .throw _

theorem extend_aside (locals : Array LocalDecl) (scope : Scope) (bindings : Bindings) :
    Aside Resolver.mk (extend locals scope bindings) := by
  refine .foldlM (fun _ id => .bind (localName_aside locals id) fun _ => ?_) _ _
  exact .get_bind (fun _ => .pure _) fun _ _ => rfl

theorem tagCondition_aside (locals : Array LocalDecl) (owner : PatternId) (condition : Expr) :
    Aside Resolver.mk (tagCondition locals owner condition) := by
  have hnotes : Aside Resolver.mk (do
      condition.allLocals.forM fun id => Functor.discard (localName locals id)
      update fun table =>
        (condition.guardNames table.identLocals).foldl Resolution.tagGuardName table
      update fun table =>
        condition.guardRecords.foldl (Resolution.setElseOwner · owner ·) table) :=
    .bind (.forM (fun id => .discard (localName_aside locals id)) _) fun _ =>
      .bind (update_aside _) fun _ => update_aside _
  rw [tagCondition]
  exact .ite (.bind (.offer _ fun _ _ => rfl) fun _ => hnotes) hnotes

end Resolver

section

variable (pool : Pool) (locals : Array LocalDecl)

open Resolver

mutual

/-- **What resolving a pattern finds and reports does not depend on the queue.** -/
theorem Pattern.resolve_aside :
    ∀ (pattern : Pattern) (expected : Ty) (scope : Scope),
      Aside Resolver.mk (pattern.resolve pool locals expected scope)
  | .type id written binds span, expected, scope => by
    have hfound : Makes (fun _ => True) (typePattern pool written binds span expected) :=
      .typePattern (fun _ _ => trivial) pool written span expected fun _ _ _ => trivial
    rw [Pattern.resolve]
    exact .bind hfound.aside fun _ => patternHas_aside id _
  | .record id written components span, expected, scope => by
    rw [Pattern.resolve]
    exact .bind (Makes.recordPattern Change.Common.report ..).aside fun _ =>
      .bind (Pattern.resolveComponents_aside components _ scope) fun _ =>
        patternHas_aside id _
  | .guarded id patterns condition span, expected, scope => by
    rw [Pattern.resolve]
    refine .get_bind (fun table => ?_) fun _ _ => rfl
    split
    next => exact .pure _
    next =>
      exact .bind (Pattern.resolveAll_aside patterns expected scope) fun _ =>
        .bind (patternHas_aside id _) fun _ =>
        .bind (extend_aside locals scope _) fun inner =>
        .bind (condition.resolve_aside inner) fun _ =>
        .bind (Makes.guard Change.Common.report Change.Common.conversion ..).aside fun _ =>
        .bind (tagCondition_aside locals id condition) fun _ => .pure _
  | .any id span, expected, scope => by
    rw [Pattern.resolve]
    exact patternHas_aside id expected
  | .missing id, expected, scope => by
    rw [Pattern.resolve]
    exact .throw _

theorem Pattern.resolveAll_aside :
    ∀ (patterns : List Pattern) (expected : Ty) (scope : Scope),
      Aside Resolver.mk (Pattern.resolveAll pool locals patterns expected scope)
  | [], expected, scope => by
    rw [Pattern.resolveAll]
    exact .pure _
  | pattern :: patterns, expected, scope => by
    rw [Pattern.resolveAll]
    exact .bind (pattern.resolve_aside expected scope) fun _ =>
      .bind (Pattern.resolveAll_aside patterns expected scope) fun _ => .pure _

theorem Pattern.resolveComponents_aside :
    ∀ (patterns : List Pattern) (types : List Ty) (scope : Scope),
      Aside Resolver.mk (Pattern.resolveComponents pool locals patterns types scope)
  | [], types, scope => by
    rw [Pattern.resolveComponents]
    exact .pure _
  | pattern :: patterns, types, scope => by
    rw [Pattern.resolveComponents]
    exact .bind (pattern.resolve_aside _ scope) fun _ =>
      Pattern.resolveComponents_aside patterns types.tail scope

/-- **What resolving an expression finds and reports does not depend on the queue.** -/
theorem Expr.resolve_aside :
    ∀ (expr : Expr) (scope : Scope), Aside Resolver.mk (expr.resolve pool locals scope)
  | .bool id _ _, scope | .int id _ _, scope => by
    rw [Expr.resolve]
    exact exprHas_aside id _
  | .ident id name span, scope => by
    have hfound : Makes (fun _ => True) (ident id name span scope) :=
      .ident id name span scope trivial fun _ _ => trivial
    rw [Expr.resolve]
    exact .bind hfound.aside fun _ => exprHas_aside id _
  | .field id receiver name span, scope => by
    rw [Expr.resolve]
    exact .bind (receiver.resolve_aside scope) fun _ =>
      .bind (Makes.field Change.Common.report ..).aside fun _ => exprHas_aside id _
  | .unary id op operand span, scope => by
    rw [Expr.resolve]
    exact .bind (operand.resolve_aside scope) fun _ =>
      .bind (Makes.unary Change.Common.report Change.Common.conversion ..).aside fun _ =>
        exprHas_aside id _
  | .binary id op left right span, scope => by
    rw [Expr.resolve]
    refine .bind (left.resolve_aside scope) fun leftTy => ?_
    exact .ite
      (.bind (extend_aside locals scope _) fun inner =>
        .bind (right.resolve_aside inner) fun _ =>
        .bind (Makes.logical Change.Common.report Change.Common.conversion ..).aside fun _ =>
          exprHas_aside id _)
      (.bind (right.resolve_aside scope) fun _ =>
        .bind (Makes.binary Change.Common.report Change.Common.conversion ..).aside fun _ =>
          exprHas_aside id _)
  | .instanceOf id tested pattern span, scope => by
    rw [Expr.resolve]
    exact .bind (tested.resolve_aside scope) fun testedTy =>
      .bind (pattern.resolve_aside testedTy scope) fun _ => exprHas_aside id _
  | .call id callee args written span, scope => by
    rw [Expr.resolve]
    exact .bind (Expr.resolveAll_aside args scope) fun _ =>
      .bind (Makes.result Change.Common.report ..).aside fun _ => exprHas_aside id _
  | .missing id, scope => by
    rw [Expr.resolve]
    exact .throw _

theorem Expr.resolveAll_aside :
    ∀ (exprs : List Expr) (scope : Scope),
      Aside Resolver.mk (Expr.resolveAll pool locals exprs scope)
  | [], scope => by
    rw [Expr.resolveAll]
    exact .pure _
  | expr :: exprs, scope => by
    rw [Expr.resolveAll]
    exact .bind (expr.resolve_aside scope) fun _ =>
      Expr.resolveAll_aside exprs scope

end

end

/-! ## Analysis -/

namespace Analyser

theorem recordState_aside (flow : Flow) : Aside Analyser.mk (recordState flow) := by
  refine .get_bind (fun _ => ?_) fun _ _ => rfl
  exact .bind (.note (·.push flow) fun _ _ => rfl) fun _ => .pure _

theorem setSnapshot_aside (id : PatternId) (suspend resume : StateIndex) :
    Aside Analyser.mk (setSnapshot id suspend resume) :=
  .note (·.setSnapshot id ⟨suspend, resume⟩) fun _ _ => rfl

theorem read_aside (table : Resolution) (locals : Array LocalDecl) (id : ExprId) (span : Span)
    (flow : Flow) : Aside Analyser.mk (read table locals id span flow) := by
  rw [read.eq_def]
  split
  next => exact .pure _
  next =>
    refine .ite ?_ (.pure _)
    split
    next => exact .offer _ fun _ _ => rfl
    next => exact .throw _

end Analyser

section

variable (table : Resolution) (locals : Array LocalDecl)

open Analyser

mutual

/-- **What analysing a pattern finds and reports does not depend on the queue.** -/
theorem Pattern.analyse_aside :
    ∀ (pattern : Pattern) (flow : Flow),
      Aside Analyser.mk (pattern.analyse table locals flow)
  | .type id _ binds _, flow => by
    rw [Pattern.analyse.eq_def]
    exact .bind (recordState_aside flow) fun _ => .bind (recordState_aside _) fun _ =>
      .bind (setSnapshot_aside id ..) fun _ => .pure _
  | .record id _ components _, flow => by
    rw [Pattern.analyse]
    exact .bind (recordState_aside flow) fun _ =>
      .bind (Pattern.analyseAll_aside components flow) fun _ =>
      .bind (recordState_aside _) fun _ => .bind (setSnapshot_aside id ..) fun _ => .pure _
  | .guarded id [] _ _, flow => by
    rw [Pattern.analyse]
    exact .throw _
  | .guarded id (first :: rest) condition _, flow => by
    rw [Pattern.analyse]
    exact .bind (first.analyse_aside flow) fun _ =>
      .bind (recordState_aside _) fun _ =>
      .bind (Pattern.analyseAll_aside rest _) fun _ =>
      .bind (condition.analyse_aside _) fun _ =>
      .bind (recordState_aside _) fun _ => .bind (setSnapshot_aside id ..) fun _ => .pure _
  | .any id _, flow => by
    rw [Pattern.analyse]
    exact .bind (recordState_aside flow) fun _ => .bind (recordState_aside flow) fun _ =>
      .bind (setSnapshot_aside id ..) fun _ => .pure _
  | .missing id, flow => by
    rw [Pattern.analyse]
    exact .throw _

theorem Pattern.analyseAll_aside :
    ∀ (patterns : List Pattern) (flow : Flow),
      Aside Analyser.mk (Pattern.analyseAll table locals patterns flow)
  | [], flow => by
    rw [Pattern.analyseAll]
    exact .pure _
  | pattern :: patterns, flow => by
    rw [Pattern.analyseAll]
    exact .bind (pattern.analyse_aside flow) fun _ =>
      Pattern.analyseAll_aside patterns _

/-- **What analysing an expression finds and reports does not depend on the queue.** -/
theorem Expr.analyse_aside :
    ∀ (expr : Expr) (flow : Flow), Aside Analyser.mk (expr.analyse table locals flow)
  | .bool _ true _, flow | .bool _ false _, flow | .int .., flow => by
    rw [Expr.analyse]
    exact .pure _
  | .ident id _ span, flow => by
    rw [Expr.analyse]
    exact .bind (read_aside table locals id span flow) fun _ => .pure _
  | .field _ operand _ _, flow | .unary _ .neg operand _, flow => by
    rw [Expr.analyse]
    exact operand.analyse_aside flow
  | .unary _ .not operand _, flow => by
    rw [Expr.analyse]
    exact .bind (operand.analyse_aside flow) fun _ => .pure _
  | .binary _ op left right _, flow => by
    rw [Expr.analyse]
    refine .bind (left.analyse_aside flow) fun flow' => ?_
    split
    all_goals exact .bind (right.analyse_aside _) fun _ => .pure _
  | .instanceOf _ tested pattern _, flow => by
    rw [Expr.analyse]
    exact .bind (tested.analyse_aside flow) fun _ =>
      .bind (pattern.analyse_aside _) fun _ => .pure _
  | .call _ _ args _ _, flow => by
    rw [Expr.analyse]
    exact Expr.analyseAll_aside args flow
  | .missing id, flow => by
    rw [Expr.analyse]
    exact .throw _

theorem Expr.analyseAll_aside :
    ∀ (exprs : List Expr) (flow : Flow),
      Aside Analyser.mk (Expr.analyseAll table locals exprs flow)
  | [], flow => by
    rw [Expr.analyseAll]
    exact .pure _
  | expr :: exprs, flow => by
    rw [Expr.analyseAll]
    exact .bind (expr.analyse_aside flow) fun _ =>
      Expr.analyseAll_aside exprs _

end

end

/-! ## Switches -/

/-- A queue with nothing beside it. -/
def Queue.only (_ : Unit) (queue : Queue) : Queue := queue

/-- The notes on dominated cases are offered one after the other. -/
theorem DominatedCase.offers_does (patterns : List Pattern) : ∀ dominated : List DominatedCase,
    Does Queue.only (dominated.forM fun found => do
      CheckM.offer (← MonadExcept.ofExcept (found.diagnostic patterns))) ()
      ((dominated.mapM fun found : DominatedCase => found.diagnostic patterns).map
        fun notes => ((), (), notes))
  | [] => fun _ => rfl
  | found :: rest => by
    have hrest := offers_does patterns rest
    rw [List.mapM_cons]
    cases hfound : found.diagnostic patterns with
    | error fault =>
      refine Does.bind_error (Does.bind_error ?_)
      exact fun _ => ⟨_, by rw [hfound]; rfl⟩
    | ok note =>
      have hoffer : Does Queue.only (do
          CheckM.offer (← MonadExcept.ofExcept (found.diagnostic patterns))) ()
          (.ok ((), (), [note])) := fun _ => by
        rw [hfound]
        rfl
      cases hnotes : rest.mapM fun found => found.diagnostic patterns with
      | ok notes | error fault =>
        rw [hnotes] at hrest
        exact .bind hoffer hrest rfl

namespace Forest

/-- What the check of a switch finds, and the notes on it. -/
def findings (forest : Forest) (pool : Pool) (table : Resolution) (cases : List PatternId)
    (selector : Ty) (span : Span) : Except Fault (SwitchReport × List Diagnostic) := do
  let patterns := cases.map forest.pattern
  let dominated ← dominatedCases pool table [] patterns
  let notes ← dominated.mapM fun found => found.diagnostic patterns
  let exhaustive ← isExhaustive pool table forest.depth patterns selector
  return (⟨dominated, exhaustive⟩, notes ++ if exhaustive then []
    else [Diagnostic.notExhaustive span (pool.display selector)])

variable (forest : Forest) (pool : Pool) (table : Resolution) (cases : List PatternId)
  (selector : Ty) (span : Span)

/-- **The check of a switch reports its findings**, whatever the queue. -/
theorem examineSwitch_does :
    Does Queue.only (forest.examineSwitch pool table cases selector span) ()
      ((forest.findings pool table cases selector span).map fun found =>
        (found.1, (), found.2)) := by
  have hok : ∀ {α β : Type} (answer : α) (next : α → Except Fault β),
      (Except.ok answer >>= next) = next answer := fun _ _ => rfl
  rw [examineSwitch, findings]
  cases dominatedCases pool table [] (cases.map forest.pattern) with
  | error fault => exact (Does.lift_error _ _ fault).bind_error
  | ok dominated =>
  have hoffers := DominatedCase.offers_does (cases.map forest.pattern) dominated
  rw [hok]
  cases hnotes : dominated.mapM fun found => found.diagnostic (cases.map forest.pattern) with
  | error fault =>
    rw [hnotes] at hoffers
    exact .bind (.lift _ _ dominated) hoffers.bind_error rfl
  | ok notes =>
    rw [hnotes] at hoffers
    rw [hok]
    cases isExhaustive pool table forest.depth (cases.map forest.pattern) selector with
    | error fault =>
      exact .bind (.lift _ _ dominated)
        (.bind hoffers (Does.lift_error _ _ fault).bind_error rfl) rfl
    | ok exhaustive =>
      cases exhaustive with
      | true =>
        exact .bind (.lift _ _ dominated)
          (.bind hoffers (.bind (.lift _ _ true) (.pure _ _ _) rfl) rfl) rfl
      | false =>
        have hmissing : Does Queue.only
            (CheckM.offer (Diagnostic.notExhaustive span (pool.display selector))) ()
            (.ok ((), (), [Diagnostic.notExhaustive span (pool.display selector)])) := fun _ => rfl
        exact .bind (.lift _ _ dominated) (.bind hoffers
          (.bind (.lift _ _ false) (.bind hmissing (.pure _ _ _) rfl) rfl) rfl) rfl

/-- A switch is checked with a queue of its own. -/
theorem checkSwitch_eq : forest.checkSwitch pool table cases selector span =
    forest.findings pool table cases selector span := by
  have hdoes := forest.examineSwitch_does pool table cases selector span
  rw [checkSwitch]
  cases hfound : forest.findings pool table cases selector span with
  | error fault =>
    rw [hfound] at hdoes
    obtain ⟨after, hrun⟩ := hdoes (.new .unlimited)
    simp only [Queue.only] at hrun
    rw [hrun]
  | ok found =>
    rw [hfound] at hdoes
    have hrun := hdoes (.new .unlimited)
    simp only [Queue.only] at hrun
    rw [hrun]
    exact congrArg (fun notes => Except.ok (found.1, notes)) (Queue.diagnostics_addAll rfl found.2)

end Forest

/-! ## Units -/

section

variable {ε ε' σ α β : Type} (f : ε → ε')

theorem adaptExcept_bind (action : EStateM ε σ α) (next : α → EStateM ε σ β) :
    (action >>= next).adaptExcept f =
      action.adaptExcept f >>= fun answer => (next answer).adaptExcept f := by
  funext state
  simp only [EStateM.adaptExcept, Bind.bind, EStateM.bind]
  cases action state <;> rfl

theorem adaptExcept_mapM (step : β → EStateM ε σ α) : ∀ bs : List β,
    (bs.mapM step).adaptExcept f = bs.mapM fun b => (step b).adaptExcept f
  | [] => rfl
  | b :: bs => by
    simp only [List.mapM_cons, adaptExcept_bind, adaptExcept_mapM step bs]
    rfl

theorem adaptExcept_forM (step : β → EStateM ε σ PUnit) : ∀ bs : List β,
    (bs.forM step).adaptExcept f = bs.forM fun b => (step b).adaptExcept f
  | [] => rfl
  | b :: bs => by
    refine (adaptExcept_bind f (step b) fun _ => bs.forM step).trans ?_
    rw [adaptExcept_forM step bs]
    rfl

theorem run_adaptExcept (action : EStateM ε σ α) (state : σ) :
    EStateM.run (action.adaptExcept f) state = match EStateM.run action state with
      | .ok answer after => .ok answer after
      | .error error after => .error (f error) after := by
  simp only [EStateM.run, EStateM.adaptExcept]
  cases action state <;> rfl

end

namespace CompilationUnit

/-- There is nothing to compile. -/
def isIdle (unit : CompilationUnit) : Bool := unit.sites.isEmpty && unit.switches.isEmpty

/-- Why a unit is refused, if it is: it is called off at its first site or switch. -/
def refusal? (unit : CompilationUnit) (cancelled : Bool) : Option CompileError :=
  match unit.invalid? with
  | some reason => some reason
  | none => if cancelled && !unit.isIdle then some .cancelled else none

/-- Resolve all sites and then all switches of a unit that is not called off. -/
def resolveAll (pool : Pool) (forest : Forest) (unit : CompilationUnit) :
    ResolveM (List Ty × List Ty) := do
  let siteTypes ← unit.sites.mapM (resolveSite pool forest)
  let switchTypes ← unit.switches.mapM (resolveSwitch pool forest)
  return (siteTypes, switchTypes)

/-- Analyse all sites and then all switches of a unit that is not called off. -/
def analyseAll (table : Resolution) (forest : Forest) (unit : CompilationUnit) : FlowM Unit := do
  unit.sites.forM (analyseSite table forest)
  unit.switches.forM (analyseSwitch table forest)

/-- What the checks of all switches find. -/
def findings (pool : Pool) (table : Resolution) (forest : Forest) (unit : CompilationUnit)
    (switchTypes : List Ty) : Except Fault (List (SwitchReport × List Diagnostic)) :=
  (unit.switches.zip switchTypes).mapM fun (switch, ty) =>
    forest.findings pool table switch.cases ty switch.span

/-- The passes with a queue for each of them that drops nothing: what they make, with the
diagnostics left out, and all that they report. -/
def passesApart (pool : Pool) (localTable : Bool) (unit : CompilationUnit) :
    Except Failure (Compiled × List Diagnostic) :=
  let forest := unit.arena.forest
  match EStateM.run (unit.resolveAll pool forest) ⟨Resolution.empty, .new .unlimited⟩ with
  | .error fault _ => .error (.faulty fault)
  | .ok (siteTypes, switchTypes) resolved =>
    match EStateM.run (unit.analyseAll resolved.table forest)
      ⟨FlowRecord.empty, .new .unlimited⟩ with
    | .error fault _ => .error (.faulty fault)
    | .ok () analysed =>
      match unit.findings pool resolved.table forest switchTypes with
      | .error fault => .error (.faulty fault)
      | .ok checks =>
        let facts : Facts := ⟨pool, resolved.table, analysed.record⟩
        match EStateM.run (unit.plan facts forest false siteTypes switchTypes)
          (Planner.new localTable) with
        | .error failure _ => .error failure
        | .ok emitted planner =>
          .ok (⟨unit.name, [], resolved.table, analysed.record, planner.stream.finish, emitted,
              checks.map (·.1)⟩,
            resolved.queue.diagnostics ++ analysed.queue.diagnostics ++ checks.flatMap (·.2))

variable (unit : CompilationUnit) (pool : Pool) (table : Resolution) (forest : Forest)

theorem resolve_false :
    unit.resolve pool forest false = (unit.resolveAll pool forest).adaptExcept .faulty := by
  rw [resolveAll, adaptExcept_bind, adaptExcept_mapM]
  simp only [adaptExcept_bind, adaptExcept_mapM]
  rfl

theorem analyse_false :
    unit.analyse table forest false = (unit.analyseAll table forest).adaptExcept .faulty := by
  rw [analyseAll, adaptExcept_bind, adaptExcept_forM]
  simp only [adaptExcept_forM]
  rfl

/-- A unit that is called off stops at its first site or switch. -/
theorem passes_true (config : Config) : unit.passes pool config true =
    if unit.isIdle then unit.passes pool config false else .error (.refused .cancelled) := by
  obtain ⟨name, arena, sites, switches⟩ := unit
  cases sites with
  | cons => rfl
  | nil =>
    cases switches with
    | cons => rfl
    | nil => rfl

theorem resolveAll_aside : Aside Resolver.mk (unit.resolveAll pool forest) := by
  have hsite : ∀ site, Aside Resolver.mk (resolveSite pool forest site) := fun site =>
    .bind (Expr.resolve_aside pool _ _ _) fun _ =>
      .bind (Pattern.resolve_aside pool _ _ _ _) fun _ => .pure _
  have hswitch : ∀ switch, Aside Resolver.mk (resolveSwitch pool forest switch) := fun switch =>
    .bind (Expr.resolve_aside pool _ _ _) fun _ =>
      .bind (.forM (fun _ => .discard (Pattern.resolve_aside pool _ _ _ _)) _) fun _ => .pure _
  exact .bind (.mapM hsite _) fun _ => .bind (.mapM hswitch _) fun _ => .pure _

theorem analyseAll_aside : Aside Analyser.mk (unit.analyseAll table forest) := by
  have hsite : ∀ site, Aside Analyser.mk (analyseSite table forest site) := fun site =>
    .bind (Expr.analyse_aside table _ _ _) fun _ => .discard (Pattern.analyse_aside table _ _ _)
  have hswitch : ∀ switch, Aside Analyser.mk (analyseSwitch table forest switch) := fun switch =>
    .bind (Expr.analyse_aside table _ _ _) fun _ =>
      .forM (fun _ => .discard (Pattern.analyse_aside table _ _ _)) _
  exact .bind (.forM hsite _) fun _ => .forM hswitch _

/-- The checks of all switches report their findings, whatever the queue. -/
theorem check_does (types : List Ty) : Does Queue.only (unit.check pool table forest types) ()
    ((unit.findings pool table forest types).map fun checks =>
      (checks.map (·.1), (), checks.flatMap (·.2))) := by
  rw [check, findings]
  induction unit.switches.zip types with
  | nil => exact fun _ => rfl
  | cons root roots ih =>
    obtain ⟨switch, ty⟩ := root
    have hroot := forest.examineSwitch_does pool table switch.cases ty switch.span
    rw [List.mapM_cons, List.mapM_cons]
    dsimp only
    cases hfound : forest.findings pool table switch.cases ty switch.span with
    | error fault =>
      rw [hfound] at hroot
      exact hroot.bind_error
    | ok found =>
    rw [hfound] at hroot
    revert ih
    cases roots.mapM fun (root : Switch × Ty) =>
        forest.findings pool table root.1.cases root.2 root.1.span with
    | error fault => exact fun ih => .bind hroot ih.bind_error rfl
    | ok checks =>
      intro ih
      refine .bind hroot (.bind ih (.pure _ _ _) rfl) ?_
      simp [Outcome.after, Except.map, Bind.bind, Except.bind, Pure.pure, Except.pure]

/-- An action with an outcome beside a queue of its own has it beside any queue. -/
theorem run_of_aside {ε σ τ α : Type} {put : σ → Queue → τ} {action : EStateM ε τ α}
    (h : Aside put action) (state : σ) :
    (∃ error, ∀ queue, ∃ after, EStateM.run action (put state queue) = .error error after) ∨
      ∃ answer after reports, ∀ queue, EStateM.run action (put state queue) =
        .ok answer (put after (queue.addAll reports)) := by
  obtain ⟨outcome, houtcome⟩ := h.exists_does state
  cases outcome with
  | error error => exact .inl ⟨error, houtcome⟩
  | ok result => exact .inr ⟨_, _, _, houtcome⟩

/-- **The passes do with one queue what they do apart**, and it lists what it accepts of their
reports. -/
theorem passes_eq (config : Config) : unit.passes pool config false =
    (unit.passesApart pool config.localTable).map fun passed =>
      { passed.1 with
        diagnostics := ((Queue.new config.diagnostics).addAll passed.2).flush.1 } := by
  have hnew : ∀ reports, ((Queue.new .unlimited).addAll reports).diagnostics = reports :=
    Queue.diagnostics_addAll rfl
  simp only [passes, passesApart, resolve_false, analyse_false, run_adaptExcept]
  rcases run_of_aside (unit.resolveAll_aside pool unit.arena.forest) Resolution.empty with
    ⟨fault, hfails⟩ | ⟨types, table, resolved, hresolved⟩
  · obtain ⟨_, hrun⟩ := hfails (.new config.diagnostics)
    obtain ⟨_, hrun'⟩ := hfails (.new .unlimited)
    simp only [hrun, hrun']
    rfl
  simp only [hresolved]
  rcases run_of_aside (unit.analyseAll_aside table unit.arena.forest) FlowRecord.empty with
    ⟨fault, hfails⟩ | ⟨⟨⟩, record, analysed, hanalysed⟩
  · obtain ⟨_, hrun⟩ := hfails ((Queue.new config.diagnostics).addAll resolved)
    obtain ⟨_, hrun'⟩ := hfails (.new .unlimited)
    simp only [hrun, hrun']
    rfl
  simp only [hanalysed, hnew]
  have hchecks := unit.check_does pool table unit.arena.forest types.2
  cases hfound : unit.findings pool table unit.arena.forest types.2 with
  | error fault =>
    rw [hfound] at hchecks
    obtain ⟨_, hrun⟩ := hchecks (((Queue.new config.diagnostics).addAll resolved).addAll analysed)
    simp only [Queue.only] at hrun
    simp only [hrun]
    rfl
  | ok checks =>
    rw [hfound] at hchecks
    have hrun := hchecks (((Queue.new config.diagnostics).addAll resolved).addAll analysed)
    simp only [Queue.only] at hrun
    simp only [hrun]
    split <;> simp [*, Except.map, Queue.addAll_append]

/-- A unit is refused, or its passes decide. -/
theorem compile_eq (config : Config) (cancelled : Bool) : unit.compile pool config cancelled =
    match unit.refusal? cancelled with
    | some reason => .error (.refused reason)
    | none => (unit.passesApart pool config.localTable).map fun passed =>
      { passed.1 with
        diagnostics := ((Queue.new config.diagnostics).addAll passed.2).flush.1 } := by
  rw [compile, refusal?]
  cases unit.invalid? with
  | some reason => rfl
  | none =>
    cases cancelled with
    | false => exact unit.passes_eq pool config
    | true =>
      dsimp only
      rw [passes_true]
      cases unit.isIdle with
      | true => exact unit.passes_eq pool config
      | false => rfl

end CompilationUnit

end GuardedMatch
