import GuardedMatch.Proofs.Branching
import GuardedMatch.Proofs.Generating
import GuardedMatch.Proofs.Typing
import Mathlib.Data.Finset.Basic

/-!
# What is assigned has been stored

The analysis of a pattern says which locals are assigned after a match.  Here this is compared with
what happens during a match: every such local was assigned before, or it is stored on the way.
Constants need care, since a constant on the left of `&&` and `||` is skipped by the code but not by
the analysis.  It helps that no expression assigns anything for both of its outcomes.

* `Pattern.analyse_backed`, `Expr.analyse_backed`: what an analysis takes to be assigned is stored.
* `Pattern.stored_of_mem_bindings`: what a pattern binds is stored when it matches.
* `stored_when_matched`: the same for the code that is generated for a pattern.
-/

namespace GuardedMatch

/-! ## States -/

namespace FlowState

/-- What is assigned in a state was assigned before, or is stored by what happens. -/
def BackedBy (state before : FlowState) (events : List Event) : Prop :=
  ∀ id, state.isAssigned id = true → before.isAssigned id = true ∨ .stored id ∈ events

variable {state mid before other : FlowState} {events rest : List Event}

theorem BackedBy.refl (state : FlowState) (events : List Event) : state.BackedBy state events :=
  fun _ hid => Or.inl hid

theorem BackedBy.trans (h : state.BackedBy mid rest) (h' : mid.BackedBy before events) :
    state.BackedBy before (events ++ rest) := by
  intro id hid
  rcases h id hid with hmid | hstored
  · rcases h' id hmid with hbefore | hstored
    · exact Or.inl hbefore
    · exact Or.inr (List.mem_append_left _ hstored)
  · exact Or.inr (List.mem_append_right _ hstored)

theorem BackedBy.mono (h : state.BackedBy before events) (hsub : events ⊆ rest) :
    state.BackedBy before rest := fun id hid => (h id hid).imp_right fun hstored => hsub hstored

theorem BackedBy.of_nil (h : state.BackedBy before []) : state.BackedBy before events :=
  h.mono (List.nil_subset _)

theorem BackedBy.merge_left (h : state.BackedBy before events) :
    (state.merge other).BackedBy before events := by
  intro id hid
  rw [isAssigned_merge, Bool.and_eq_true] at hid
  exact h id hid.1

theorem BackedBy.merge_right (h : state.BackedBy before events) :
    (other.merge state).BackedBy before events := by
  intro id hid
  rw [isAssigned_merge, Bool.and_eq_true] at hid
  exact h id hid.2

theorem backedBy_assign (state : FlowState) (id : LocalId) :
    (state.assign id).BackedBy state [.stored id] := by
  intro other hother
  rw [isAssigned_assign, Bool.or_eq_true, decide_eq_true_eq] at hother
  rcases hother with rfl | hother
  · exact Or.inr (List.mem_singleton_self _)
  · exact Or.inl hother

/-- A state that is backed by a reachable one is reachable: only finitely many locals are assigned
before or stored. -/
theorem BackedBy.reachable {assigned : LocalSet} (h : state.BackedBy (reached assigned) events) :
    state.reachable = true := by
  by_contra hunreachable
  rw [Bool.not_eq_true] at hunreachable
  obtain ⟨id, hid⟩ := Infinite.exists_notMem_finset
    (assigned.toList ++ events.filterMap fun event => match event with
      | .stored id => some id
      | .evaluated _ => none).toFinset
  rw [List.mem_toFinset, List.mem_append, not_or] at hid
  have hassigned : state.isAssigned id = true := by simp [isAssigned, hunreachable]
  rcases h id hassigned with hbefore | hstored
  · refine hid.1 (LocalSet.mem_toList.mpr ?_)
    simpa [isAssigned, reached] using hbefore
  · exact hid.2 (List.mem_filterMap.mpr ⟨.stored id, hstored, rfl⟩)

end FlowState

/-- What is assigned whatever the outcome is assigned for each outcome. -/
theorem Flow.joined_backedBy {flow : Flow} {before : FlowState} {events : List Event}
    {outcome : Bool} (h : (flow.half outcome).BackedBy before events) :
    flow.joined.BackedBy before events := fun id hid => h id (Flow.isAssigned_iff.mp hid outcome)

/-! ## Conditions -/

namespace Expr

/-- How a logical operator comes out that goes on to its right operand if the left one comes out as
`way`. -/
inductive Decided (way : Bool) (left right : Expr) (events : List Event) (outcome : Bool) : Prop
  /-- The left operand need not be evaluated, and the right one decides. -/
  | skipped (hknown : left.skippable = some way) (hright : right.outcomes events outcome)
  /-- The left operand need not be evaluated, and it decides. -/
  | known (hknown : left.skippable = some !way) (hevents : events = []) (houtcome : outcome = !way)
  | short (houtcome : outcome = !way) (hleft : left.outcomes events !way)
  | both {before rest : List Event} (hevents : events = before ++ rest)
      (hleft : left.outcomes before way) (hright : right.outcomes rest outcome)

variable {id : ExprId} {left right : Expr} {span : Span} {events : List Event} {outcome : Bool}

theorem decided_and (h : (Expr.binary id .and left right span).outcomes events outcome) :
    Decided true left right events outcome := by
  rw [Expr.outcomes] at h
  rcases hknown : left.skippable with _ | _ | _
  · simp only [hknown] at h
    rcases h with ⟨houtcome, hleft⟩ | ⟨before, rest, hevents, hleft, hright⟩
    · exact .short houtcome hleft
    · exact .both hevents hleft hright
  · simp only [hknown] at h
    exact .known hknown h.1 h.2
  · simp only [hknown] at h
    exact .skipped hknown h

theorem decided_or (h : (Expr.binary id .or left right span).outcomes events outcome) :
    Decided false left right events outcome := by
  rw [Expr.outcomes] at h
  rcases hknown : left.skippable with _ | _ | _
  · simp only [hknown] at h
    rcases h with ⟨houtcome, hleft⟩ | ⟨before, rest, hevents, hleft, hright⟩
    · exact .short (by simpa using houtcome) hleft
    · refine .both hevents hleft ?_
      simpa [Outcomes.flip] using hright
  · simp only [hknown] at h
    exact .skipped hknown h
  · simp only [hknown] at h
    exact .known hknown h.1 h.2

/-- What a flow has assigned after an expression, compared with what happens when the expression is
evaluated. -/
structure Backs (expr : Expr) (before : FlowState) (after : Flow) : Prop where
  plain : ¬ expr.IsCondition → ∃ state, after = .plain state
  stored : ∀ events outcome, expr.outcomes events outcome →
    (after.half outcome).BackedBy before events
  known : ∀ outcome, expr.skippable = some outcome → (after.half outcome).BackedBy before []
  /-- For one of the outcomes nothing is assigned. -/
  dry : ∃ outcome, (after.half outcome).BackedBy before []

variable {expr : Expr} {before state : FlowState} {one two after : Flow}

theorem Backs.joined (h : expr.Backs before after) : after.joined.BackedBy before [] := by
  obtain ⟨outcome, hdry⟩ := h.dry
  exact Flow.joined_backedBy hdry

/-- Where the outcome makes no difference, nothing need be stored. -/
theorem backs_plain (h : state.BackedBy before []) : expr.Backs before (.plain state) := by
  have hhalf : ∀ outcome, ((Flow.plain state).half outcome).BackedBy before [] := by
    intro outcome
    cases outcome <;> exact h
  exact ⟨fun _ => ⟨state, rfl⟩, fun _ outcome _ => (hhalf outcome).of_nil,
    fun outcome _ => hhalf outcome, true, hhalf true⟩

/-- Literals are known. -/
theorem backs_bool {value : Bool} (hvalue : (after.half value) = before) :
    (Expr.bool id value span).Backs before after := by
  refine ⟨fun h => absurd trivial h, fun events outcome h => ?_, fun outcome h => ?_, value, ?_⟩
  · rw [Expr.outcomes] at h
    obtain ⟨-, rfl⟩ := h
    rw [hvalue]
    exact .refl before events
  · rw [skippable_eq_some, fold, Option.some.injEq, Constant.bool.injEq] at h
    rw [← h.2, hvalue]
    exact .refl before []
  · rw [hvalue]
    exact .refl before []

theorem backs_not (h : expr.Backs before after) :
    (Expr.unary id .not expr span).Backs before after.swap := by
  refine ⟨fun h => absurd trivial h, fun events outcome hevents => ?_, fun outcome hknown => ?_, ?_⟩
  · rw [Expr.outcomes] at hevents
    rw [Flow.half_swap]
    exact h.stored events (!outcome) hevents
  · rw [Flow.half_swap]
    exact h.known (!outcome) (skippable_not.mp hknown)
  · obtain ⟨outcome, hdry⟩ := h.dry
    refine ⟨!outcome, ?_⟩
    rwa [Flow.half_swap, Bool.not_not]

/-- **A logical operator assigns no more than its operands store.** -/
theorem Backs.shortCircuit (hone : left.Backs before one) (way : Bool)
    (htwo : right.Backs (one.half way) two) (hcondition : expr.IsCondition)
    (houtcomes : ∀ events outcome, expr.outcomes events outcome →
      Decided way left right events outcome)
    (hskippable : ∀ outcome, expr.skippable = some outcome →
      if outcome = way then left.skippable = some way ∧ right.skippable = some way
      else left.skippable = some (!way) ∨ right.skippable = some !way)
    (hway : after.half way = two.half way)
    (hother : after.half (!way) = (one.half !way).merge (two.half !way)) :
    expr.Backs before after := by
  -- Whichever way it comes out, no more is assigned than on that side of the right operand.
  have hright : ∀ {outcome events}, (two.half outcome).BackedBy before events →
      (after.half outcome).BackedBy before events := by
    intro outcome events h
    rcases Bool.eq_or_eq_not outcome way with rfl | rfl
    · rwa [hway]
    · rw [hother]
      exact h.merge_right
  have hleft : ∀ {events}, (one.half !way).BackedBy before events →
      (after.half !way).BackedBy before events := by
    intro events h
    rw [hother]
    exact h.merge_left
  refine ⟨fun h => absurd hcondition h, fun events outcome hevents => ?_,
    fun outcome hknown => ?_, ?_⟩
  · cases houtcomes events outcome hevents with
    | skipped hknown hsecond =>
      exact hright ((htwo.stored events outcome hsecond).trans (hone.known way hknown))
    | known hknown hnil houtcome =>
      rw [hnil, houtcome]
      exact hleft (hone.known (!way) hknown)
    | short houtcome hfirst =>
      rw [houtcome]
      exact hleft (hone.stored events (!way) hfirst)
    | both hsplit hfirst hsecond =>
      rw [hsplit]
      exact hright ((htwo.stored _ outcome hsecond).trans (hone.stored _ way hfirst))
  · have hsides := hskippable outcome hknown
    by_cases heq : outcome = way
    · rw [if_pos heq] at hsides
      rw [heq]
      exact hright ((htwo.known way hsides.2).trans (hone.known way hsides.1))
    · rw [if_neg heq] at hsides
      rw [Bool.eq_not_of_ne heq]
      rcases hsides with hside | hside
      · exact hleft (hone.known (!way) hside)
      · -- The left operand may not be known, but it assigns nothing for one of its outcomes.
        obtain ⟨dry, hdry⟩ := hone.dry
        rcases Bool.eq_or_eq_not dry way with rfl | rfl
        · exact hright ((htwo.known _ hside).trans hdry)
        · exact hleft hdry
  · obtain ⟨dry, hdry⟩ := hone.dry
    rcases Bool.eq_or_eq_not dry way with rfl | rfl
    · obtain ⟨outcome, hdry'⟩ := htwo.dry
      exact ⟨outcome, hright (hdry'.trans hdry)⟩
    · exact ⟨_, hleft hdry⟩

end Expr

/-! ## Analyses -/

namespace Analyser

/-- An analysis that answers something of which `post` holds, if it ends. -/
def Answers {α : Type} (action : FlowM α) (post : α → Prop) : Prop :=
  ∀ state : Analyser, Ensures action state (fun _ => True) fun answer _ => post answer

namespace Answers

variable {α β : Type} {post : α → Prop} {post' : β → Prop}

theorem pure {answer : α} (h : post answer) : Answers (Pure.pure answer : FlowM α) post :=
  fun _ => Ensures.pure h

theorem throw (fault : Fault) : Answers (MonadExcept.throw fault : FlowM α) post :=
  fun _ => Ensures.throw trivial

theorem bind {action : FlowM α} {next : α → FlowM β} (h : Answers action post)
    (hnext : ∀ answer, post answer → Answers (next answer) post') :
    Answers (action >>= next) post' := by
  intro state
  exact (h state).seq fun answer mid hanswer => hnext answer hanswer mid

theorem skip {action : FlowM α} {next : α → FlowM β}
    (hnext : ∀ answer, Answers (next answer) post') : Answers (action >>= next) post' := by
  intro state
  exact Ensures.skip fun answer mid => hnext answer mid

theorem mono {action : FlowM α} {weaker : α → Prop} (h : Answers action post)
    (hpost : ∀ answer, post answer → weaker answer) : Answers action weaker :=
  fun state => (h state).mono fun answer _ => hpost answer

end Answers

end Analyser

/-- Among the visits, no condition is negated as a number or has a field read of it. -/
def AppliedIn (visits : List Visit) : Prop :=
  ∀ expr, .expr expr ∈ visits → match expr with
    | .field _ operand _ _ | .unary _ .neg operand _ => ¬ operand.IsCondition
    | _ => True

theorem AppliedIn.mono {visits visits' : List Visit} (h : AppliedIn visits)
    (hsub : visits' ⊆ visits) : AppliedIn visits' := fun expr hexpr => h expr (hsub hexpr)

theorem AppliedIn.cons {visit : Visit} {visits : List Visit} (h : AppliedIn (visit :: visits)) :
    AppliedIn visits := h.mono (List.subset_cons_self ..)

theorem AppliedIn.append {visits visits' : List Visit} (h : AppliedIn (visits ++ visits')) :
    AppliedIn visits ∧ AppliedIn visits' :=
  ⟨h.mono (List.subset_append_left ..), h.mono (List.subset_append_right ..)⟩

/-- The flow after patterns is plain, and what is assigned then is stored during the match. -/
def Outcomes.Backs (outcomes : Outcomes) (before : FlowState) (after : Flow) : Prop :=
  ∃ state, after = .plain state ∧ ∀ events, outcomes events true → state.BackedBy before events

section

variable (table : Resolution) (locals : Array LocalDecl)

open Analyser

mutual

/-- **What an analysis takes to be assigned after a match is stored during the match.** -/
theorem Pattern.analyse_backed :
    ∀ (pattern : Pattern), AppliedIn pattern.visits → ∀ before : FlowState,
      Answers (pattern.analyse table locals (.plain before)) (pattern.outcomes.Backs before)
  | .type id ty binds span, _, before => by
    cases binds with
    | none =>
      rw [Pattern.analyse, Pattern.outcomes]
      refine .skip fun _ => .skip fun _ => .skip fun _ => .pure ⟨before, rfl, fun events _ => ?_⟩
      exact .refl before events
    | some binding =>
      rw [Pattern.analyse, Pattern.outcomes]
      refine .skip fun _ => .skip fun _ => .skip fun _ => .pure
        ⟨before.assign binding, rfl, fun events h => ?_⟩
      rcases h with ⟨hfalse, -⟩ | ⟨_, _, rfl, -, rfl, -⟩
      · cases hfalse
      · exact (FlowState.backedBy_assign before binding).mono (by simp)
  | .record id ty components span, happlied, before => by
    rw [Pattern.analyse, Pattern.outcomes]
    refine .skip fun _ => ?_
    refine .bind (Pattern.analyseAll_backed components happlied.cons before) ?_
    rintro after ⟨state, rfl, hstate⟩
    refine .skip fun _ => .skip fun _ => .pure ⟨state, rfl, fun events h => ?_⟩
    rcases h with ⟨hfalse, -⟩ | ⟨_, rest, rfl, rfl, hrest⟩
    · cases hfalse
    · exact hstate rest hrest
  | .guarded id [] condition span, _, before => by
    rw [Pattern.analyse]
    exact .throw _
  | .guarded id (first :: rest) condition span, happlied, before => by
    obtain ⟨hpatterns, hcondition⟩ := happlied.cons.append
    obtain ⟨hfirst, hrest⟩ := AppliedIn.append hpatterns
    rw [Pattern.analyse, Pattern.outcomes]
    refine .bind (first.analyse_backed hfirst before) ?_
    rintro one ⟨state, rfl, hstate⟩
    refine .skip fun _ => ?_
    refine .bind (Pattern.analyseAll_backed rest hrest state) ?_
    rintro all ⟨state', rfl, hstate'⟩
    refine .bind (condition.analyse_backed hcondition state') fun after hafter => ?_
    refine .skip fun _ => .skip fun _ => .pure ⟨after.whenTrue, rfl, fun events h => ?_⟩
    rcases h with ⟨hfalse, -⟩ | ⟨matched, others, rfl, hmatched, hothers⟩
    · cases hfalse
    rw [Pattern.outcomesAll] at hmatched
    rcases hmatched with ⟨hfalse, -⟩ | ⟨front, back, rfl, hfront, hback⟩
    · cases hfalse
    have hbefore : state'.BackedBy before (front ++ back) :=
      (hstate' back hback).trans (hstate front hfront)
    -- A condition that need not be evaluated is known to hold here.
    have htrue : (after.half true).BackedBy state' others := by
      rcases hknown : condition.skippable with _ | outcome
      · simp only [hknown] at hothers
        exact hafter.stored others true hothers
      · simp only [hknown] at hothers
        obtain ⟨rfl, houtcome⟩ := hothers
        rw [houtcome]
        exact hafter.known outcome hknown
    exact htrue.trans hbefore
  | .any id span, _, before => by
    rw [Pattern.analyse, Pattern.outcomes]
    refine .skip fun _ => .skip fun _ => .skip fun _ => .pure ⟨before, rfl, fun events _ => ?_⟩
    exact .refl before events
  | .missing id, _, before => by
    rw [Pattern.analyse]
    exact .throw _

theorem Pattern.analyseAll_backed :
    ∀ (patterns : List Pattern), AppliedIn (Pattern.visitsAll patterns) → ∀ before : FlowState,
      Answers (Pattern.analyseAll table locals patterns (.plain before))
        ((Pattern.outcomesAll patterns).Backs before)
  | [], _, before => by
    rw [Pattern.analyseAll]
    exact .pure ⟨before, rfl, fun events _ => .refl before events⟩
  | pattern :: patterns, happlied, before => by
    obtain ⟨hpattern, hpatterns⟩ := AppliedIn.append happlied
    rw [Pattern.analyseAll, Pattern.outcomesAll]
    refine .bind (pattern.analyse_backed hpattern before) ?_
    rintro mid ⟨state, rfl, hstate⟩
    refine (Pattern.analyseAll_backed patterns hpatterns state).mono ?_
    rintro after ⟨state', rfl, hstate'⟩
    refine ⟨state', rfl, fun events h => ?_⟩
    rcases h with ⟨hfalse, -⟩ | ⟨front, back, rfl, hfront, hback⟩
    · cases hfalse
    · exact (hstate' back hback).trans (hstate front hfront)

/-- **What an analysis takes to be assigned after a condition is stored when it is evaluated.** -/
theorem Expr.analyse_backed :
    ∀ (expr : Expr), AppliedIn expr.visits → ∀ before : FlowState,
      Answers (expr.analyse table locals (.plain before)) (expr.Backs before)
  | .bool id true span, _, before | .bool id false span, _, before => by
    rw [Expr.analyse]
    exact .pure (Expr.backs_bool rfl)
  | .int id value span, _, before => by
    rw [Expr.analyse]
    exact .pure (Expr.backs_plain (.refl before []))
  | .ident id name span, _, before => by
    rw [Expr.analyse]
    exact .skip fun _ => .pure (Expr.backs_plain (.refl before []))
  | .field id receiver name span, happlied, before => by
    rw [Expr.analyse]
    refine (receiver.analyse_backed happlied.cons before).mono fun after hafter => ?_
    obtain ⟨state, rfl⟩ := hafter.plain (happlied _ (Expr.self_mem_visits _))
    exact Expr.backs_plain hafter.joined
  | .unary id .not operand span, happlied, before => by
    rw [Expr.analyse]
    exact .bind (operand.analyse_backed happlied.cons before) fun after hafter =>
      .pure (Expr.backs_not hafter)
  | .unary id .neg operand span, happlied, before => by
    rw [Expr.analyse]
    refine (operand.analyse_backed happlied.cons before).mono fun after hafter => ?_
    obtain ⟨state, rfl⟩ := hafter.plain (happlied _ (Expr.self_mem_visits _))
    exact Expr.backs_plain hafter.joined
  | .binary id op left right span, happlied, before => by
    obtain ⟨hleft, hright⟩ := happlied.cons.append
    rw [Expr.analyse]
    refine .bind (left.analyse_backed hleft before) fun one hone => ?_
    split
    next =>
      refine .bind (right.analyse_backed hright one.whenTrue) fun two htwo => .pure ?_
      refine hone.shortCircuit true htwo rfl (fun _ _ => Expr.decided_and) ?_ rfl rfl
      intro outcome hknown
      cases outcome with
      | true => exact Expr.skippable_and hknown
      | false => exact Expr.skippable_and hknown
    next =>
      refine .bind (right.analyse_backed hright one.whenFalse) fun two htwo => .pure ?_
      refine hone.shortCircuit false htwo rfl (fun _ _ => Expr.decided_or) ?_ rfl rfl
      intro outcome hknown
      cases outcome with
      | true => exact Expr.skippable_or hknown
      | false => exact Expr.skippable_or hknown
    next =>
      refine .bind (right.analyse_backed hright one.joined) fun two htwo => .pure ?_
      exact Expr.backs_plain (htwo.joined.trans hone.joined)
  | .instanceOf id tested pattern span, happlied, before => by
    obtain ⟨htested, hpattern⟩ := happlied.cons.append
    rw [Expr.analyse]
    refine .bind (tested.analyse_backed htested before) fun mid hmid => ?_
    refine .bind (pattern.analyse_backed hpattern mid.joined) ?_
    rintro after ⟨state, rfl, hstate⟩
    refine .pure ⟨fun h => absurd trivial h, fun events outcome h => ?_, fun outcome h => ?_,
      false, ?_⟩
    · rw [Expr.outcomes] at h
      obtain ⟨rest, rfl, hrest⟩ := h
      cases outcome with
      | true => exact ((hstate rest hrest).trans hmid.joined).mono (List.subset_append_right ..)
      | false => exact hmid.joined.of_nil
    · simp [Expr.skippable, Expr.hasRuntimeOperands] at h
    · exact hmid.joined
  | .call id callee args written span, happlied, before => by
    rw [Expr.analyse]
    refine (Expr.analyseAll_backed args happlied.cons before).mono ?_
    rintro after ⟨state, rfl, hstate⟩
    exact Expr.backs_plain hstate
  | .missing id, _, before => by
    rw [Expr.analyse]
    exact .throw _

theorem Expr.analyseAll_backed :
    ∀ (exprs : List Expr), AppliedIn (Expr.visitsAll exprs) → ∀ before : FlowState,
      Answers (Expr.analyseAll table locals exprs (.plain before)) fun after =>
        ∃ state, after = .plain state ∧ state.BackedBy before []
  | [], _, before => by
    rw [Expr.analyseAll]
    exact .pure ⟨before, rfl, .refl before []⟩
  | expr :: exprs, happlied, before => by
    obtain ⟨hexpr, hexprs⟩ := AppliedIn.append happlied
    rw [Expr.analyseAll]
    refine .bind (expr.analyse_backed hexpr before) fun mid hmid => ?_
    refine (Expr.analyseAll_backed exprs hexprs mid.joined).mono ?_
    rintro after ⟨state, rfl, hstate⟩
    exact ⟨state, rfl, hstate.trans hmid.joined⟩

end

end

/-! ## Bindings -/

/-- A condition over literals binds nothing. -/
theorem Expr.bindings_eq_nil : ∀ (expr : Expr), expr.hasRuntimeOperands = false →
    ∀ outcome, expr.bindings outcome = []
  | .unary id op operand span, h, outcome => by
    rw [Expr.hasRuntimeOperands] at h
    cases op with
    | not =>
      rw [Expr.bindings]
      exact operand.bindings_eq_nil h _
    | neg => simp [Expr.bindings]
  | .binary id op left right span, h, outcome => by
    rw [Expr.hasRuntimeOperands, Bool.or_eq_false_iff] at h
    have hleft := left.bindings_eq_nil h.1 outcome
    have hright := right.bindings_eq_nil h.2 outcome
    cases op <;> cases outcome <;> simp_all [Expr.bindings, Bindings.merge]
  | .bool .., _, outcome | .int .., _, outcome | .missing _, _, outcome => by simp [Expr.bindings]
  | .ident .., h, _ | .field .., h, _ | .instanceOf .., h, _ | .call .., h, _ => by
    simp [Expr.hasRuntimeOperands] at h

/-- Where both operands of a logical operator have to come out one way, what both bind is stored. -/
theorem Expr.Decided.stored {way : Bool} {left right : Expr} {events : List Event}
    (h : Expr.Decided way left right events way)
    (hleft : ∀ {events}, left.outcomes events way → ∀ id ∈ left.bindings way, .stored id ∈ events)
    (hright : ∀ {events}, right.outcomes events way →
      ∀ id ∈ right.bindings way, .stored id ∈ events)
    {id : LocalId} (hid : id ∈ Bindings.merge (left.bindings way) (right.bindings way)) :
    .stored id ∈ events := by
  rw [Bindings.mem_merge] at hid
  cases h with
  | skipped hknown hsecond =>
    rw [left.bindings_eq_nil (Expr.skippable_eq_some.mp hknown).1] at hid
    exact hright hsecond id (hid.resolve_left List.not_mem_nil)
  | known _ _ houtcome => cases way <;> cases houtcome
  | short houtcome => cases way <;> cases houtcome
  | both hsplit hfirst hsecond =>
    rw [hsplit]
    rcases hid with hid | hid
    · exact List.mem_append_left _ (hleft hfirst id hid)
    · exact List.mem_append_right _ (hright hsecond id hid)

mutual

/-- **What a pattern binds is stored when it matches.** -/
theorem Pattern.stored_of_mem_bindings : ∀ (pattern : Pattern) {events : List Event},
    pattern.outcomes events true → ∀ id ∈ pattern.bindings, .stored id ∈ events
  | .type id ty binds span, events, h => by
    rw [Pattern.outcomes] at h
    rcases h with ⟨hfalse, -⟩ | ⟨_, _, rfl, -, rfl, -⟩
    · cases hfalse
    · cases binds <;> simp [Pattern.bindings]
  | .record id ty components span, events, h => by
    rw [Pattern.outcomes] at h
    rcases h with ⟨hfalse, -⟩ | ⟨_, rest, rfl, -, hrest⟩
    · cases hfalse
    · intro other hother
      rw [Pattern.bindings] at hother
      exact List.mem_append_right _
        (Pattern.stored_of_mem_bindingsAll components hrest other hother)
  | .guarded id patterns condition span, events, h => by
    rw [Pattern.outcomes] at h
    rcases h with ⟨hfalse, -⟩ | ⟨front, back, rfl, hfront, hback⟩
    · cases hfalse
    intro other hother
    rw [Pattern.bindings, Bindings.mem_merge] at hother
    rcases hother with hother | hother
    · exact List.mem_append_left _ (Pattern.stored_of_mem_bindingsAll patterns hfront other hother)
    · refine List.mem_append_right _ ?_
      rcases hknown : condition.skippable with _ | outcome
      · simp only [hknown] at hback
        exact condition.stored_of_mem_bindings hback other hother
      · rw [condition.bindings_eq_nil (Expr.skippable_eq_some.mp hknown).1] at hother
        cases hother
  | .any id span, events, h => by simp [Pattern.bindings]
  | .missing id, events, h => by simp [Pattern.bindings]

theorem Pattern.stored_of_mem_bindingsAll : ∀ (patterns : List Pattern) {events : List Event},
    Pattern.outcomesAll patterns events true →
    ∀ id ∈ Pattern.bindingsAll patterns, .stored id ∈ events
  | [], events, h => by simp [Pattern.bindingsAll]
  | pattern :: patterns, events, h => by
    rw [Pattern.outcomesAll] at h
    rcases h with ⟨hfalse, -⟩ | ⟨front, back, rfl, hfront, hback⟩
    · cases hfalse
    intro other hother
    rw [Pattern.bindingsAll, Bindings.mem_merge] at hother
    rcases hother with hother | hother
    · exact List.mem_append_left _ (pattern.stored_of_mem_bindings hfront other hother)
    · exact List.mem_append_right _ (Pattern.stored_of_mem_bindingsAll patterns hback other hother)

/-- What a condition binds for an outcome is stored when it comes out so. -/
theorem Expr.stored_of_mem_bindings : ∀ (expr : Expr) {events : List Event} {outcome : Bool},
    expr.outcomes events outcome → ∀ id ∈ expr.bindings outcome, .stored id ∈ events
  | .unary id .not operand span, events, outcome, h => by
    rw [Expr.outcomes] at h
    rw [Expr.bindings]
    exact operand.stored_of_mem_bindings h
  | .binary id op left right span, events, outcome, h => by
    cases op with
    | and =>
      cases outcome with
      | true =>
        intro other hother
        rw [Expr.bindings] at hother
        exact (Expr.decided_and h).stored left.stored_of_mem_bindings right.stored_of_mem_bindings
          hother
      | false => simp [Expr.bindings]
    | or =>
      cases outcome with
      | true => simp [Expr.bindings]
      | false =>
        intro other hother
        rw [Expr.bindings] at hother
        exact (Expr.decided_or h).stored left.stored_of_mem_bindings right.stored_of_mem_bindings
          hother
    | eq | notEq | lt | ltEq | gt | gtEq | add | sub | mul | div | rem => simp [Expr.bindings]
  | .instanceOf id tested pattern span, events, outcome, h => by
    rw [Expr.outcomes] at h
    obtain ⟨rest, rfl, hrest⟩ := h
    cases outcome with
    | true =>
      intro other hother
      rw [Expr.bindings] at hother
      exact List.mem_append_right _ (pattern.stored_of_mem_bindings hrest other hother)
    | false => simp [Expr.bindings]
  | .bool .., events, outcome, h | .int .., events, outcome, h | .ident .., events, outcome, h
  | .field .., events, outcome, h | .call .., events, outcome, h | .missing _, events, outcome, h
  | .unary _ .neg _ _, events, outcome, h => by simp [Expr.bindings]

end

/-! ## Snapshots -/

open Analyser in
/-- An analysis of a pattern ends by noting the state after the match. -/
theorem Pattern.analyse_resume (table : Resolution) (locals : Array LocalDecl) (pattern : Pattern)
    (flow : Flow) (start : Analyser) :
    Ensures (pattern.analyse table locals flow) start (fun _ => True) fun answer after =>
      ∃ snapshot, after.record.snapshots[pattern.id]? = some snapshot ∧
        after.record.states[snapshot.resume]? = some answer.joined := by
  have hlast : ∀ (before : StateIndex) (answer : Flow) (mid : Analyser), Ensures (do
        let resume ← recordState answer
        setSnapshot pattern.id before resume
        return answer) mid (fun _ => True) fun answer after =>
      ∃ snapshot, after.record.snapshots[pattern.id]? = some snapshot ∧
        after.record.states[snapshot.resume]? = some answer.joined := by
    intro before answer mid
    refine Ensures.bind (Ensures.get_bind (Ensures.modify_bind (Ensures.pure ?_)))
    refine Ensures.modify_bind (Ensures.pure ⟨_, Std.ExtTreeMap.getElem?_insert_self, ?_⟩)
    exact Array.getElem?_push_size
  cases pattern with
  | type id ty binds span =>
    cases binds with
    | none =>
      rw [Pattern.analyse]
      exact Ensures.skip fun before mid => hlast before flow mid
    | some binding =>
      rw [Pattern.analyse]
      exact Ensures.skip fun before mid => hlast before (flow.assign binding) mid
  | record id ty components span =>
    rw [Pattern.analyse]
    refine Ensures.skip fun before mid => ?_
    exact Ensures.skip fun answer mid => hlast before answer mid
  | guarded id patterns condition span =>
    cases patterns with
    | nil =>
      rw [Pattern.analyse]
      exact Ensures.throw trivial
    | cons first rest =>
      rw [Pattern.analyse]
      refine Ensures.skip fun one mid => ?_
      refine Ensures.skip fun suspend mid => ?_
      refine Ensures.skip fun all mid => ?_
      exact Ensures.skip fun answer mid => hlast suspend answer.assumeTrue mid
  | any id span =>
    rw [Pattern.analyse]
    exact Ensures.skip fun before mid => hlast before flow mid
  | missing id =>
    rw [Pattern.analyse]
    exact Ensures.throw trivial

/-- In every pool truth values are primitive and have no components. -/
theorem Pool.Declared.opaqueBoolean {allowed : Pool → Ty → Prop} {pool : Pool}
    (h : pool.Declared allowed) : pool.OpaqueBoolean := by
  have hentry : Ty.firstDeclared ≤ pool.size ∧
      pool.flags Ty.boolean = Pool.builtin.flags Ty.boolean ∧ pool.components Ty.boolean = [] := by
    refine h.induction (motive := fun pool => Ty.firstDeclared ≤ pool.size ∧
      pool.flags Ty.boolean = Pool.builtin.flags Ty.boolean ∧ pool.components Ty.boolean = [])
      (by decide) ?_
    rintro pool entry ⟨hsize, hflags, hcomponents⟩ - -
    have hold : Ty.boolean.index ≠ pool.size := (lt_of_lt_of_le (by decide) hsize).ne
    rw [flags_declare, components_declare, if_neg hold, if_neg hold, size_declare]
    exact ⟨hsize.trans (Nat.le_succ _), hflags, hcomponents⟩
  obtain ⟨-, hflags, hcomponents⟩ := hentry
  refine ⟨?_, ?_, hcomponents⟩
  · rw [isError, hflags]
    decide
  · rw [isPrimitive, hflags]
    decide

/-- What a table made without a diagnostic says about the patterns that were resolved. -/
theorem Resolution.Produced.appliedIn {pool : Pool} (hpool : pool.OpaqueBoolean) {forest : Forest}
    (hforest : forest.Closed) {log : List PatternId} {table : Resolution}
    (h : Produced forest pool log [] table) {id : PatternId} (hid : id ∈ log) :
    AppliedIn (forest.pattern id).visits := by
  intro expr hexpr
  have hown : forest.expr expr.id = expr := hforest (.pattern id) _ hexpr
  have happlied := h.applied hforest expr.id (h.typed hforest hid expr hexpr)
  rw [hown] at happlied
  split
  next => exact happlied hpool
  next => exact happlied hpool
  next => trivial

/-! ## Generated code -/

open Machine Planner in
/-- **Flow facts hold on the generated code.**  Take any walk through the code generated for a
pattern that was resolved without a diagnostic and analysed from a reachable state.  The walk leaves
where an outcome leads that fits what happened on it.  If the pattern may have matched, the state
recorded for after the match is reachable, and every local assigned there was assigned before the
pattern, or it was stored on the walk, as all locals were that the pattern binds. -/
theorem stored_when_matched {pool : Pool} (hpool : pool.Declared fun _ _ => True) {arena : Arena}
    (harena : arena.Acyclic) {log : List PatternId} {table : Resolution}
    (htable : Resolution.Produced arena.forest pool log [] table) {id : PatternId} (hid : id ∈ log)
    {record : FlowRecord} {assigned : LocalSet} {analysed : Analysed}
    (hanalysed : arena.forest.analysePattern table record id (.plain (.reached assigned)) =
      .ok analysed)
    (facts : Facts) (value : ValueId) (static : Ty) (targets : Targets) (planner : Planner)
    (hlabels : ∀ outcome, ∀ label ∈ targets.on outcome, label < planner.stream.labels.size)
    {emitted : Emitted} {after : Planner}
    (hgenerated : EStateM.run ((arena.forest.pattern id).generate facts value static targets)
      planner = .ok emitted after) :
    ∃ code snapshot state,
      after.stream.instrs.toList = planner.stream.instrs.toList ++ code ∧
      analysed.record.snapshots[id]? = some snapshot ∧
      analysed.record.states[snapshot.resume]? = some state ∧
      ∀ executed exit, Walk code executed exit →
        (∃ outcome, (arena.forest.pattern id).outcomes (events executed) outcome ∧
          exit = targets.on outcome) ∧
        ((arena.forest.pattern id).outcomes (events executed) true →
          state.reachable = true ∧
          (∀ bound, state.assigned.contains bound = true → assigned.contains bound = true ∨
            ∃ slot stored, .storeLocal bound slot stored ∈ executed) ∧
          ∀ bound ∈ (arena.forest.pattern id).bindings,
            ∃ slot stored, .storeLocal bound slot stored ∈ executed) := by
  have hin : targets.Within none planner.stream.labels.size := by
    intro outcome label hexit
    exact hlabels outcome label (Targets.exits_none.mp hexit).symm
  obtain ⟨code, hgrows, hplays⟩ :=
    ((arena.forest.pattern id).generate_emits value static hin).of_ok hgenerated
  have happlied := htable.appliedIn hpool.opaqueBoolean harena.closed hid
  obtain ⟨ended, hrun, hrecord⟩ := FlowRecord.exists_of_run hanalysed
  obtain ⟨snapshot, hsnapshot, hresume⟩ :=
    ((arena.forest.pattern id).analyse_resume table arena.forest.locals _ _).of_ok hrun
  obtain ⟨state, hflow, hbacked⟩ := ((arena.forest.pattern id).analyse_backed table
    arena.forest.locals happlied (.reached assigned) _).of_ok hrun
  rw [harena.id_pattern, ← hrecord] at hsnapshot
  rw [hflow, ← hrecord] at hresume
  refine ⟨code, snapshot, state, hgrows.appends.instrs, hsnapshot, hresume, ?_⟩
  intro executed exit hwalk
  constructor
  · obtain ⟨outcome, houtcome, hexit⟩ := hplays.outcome_of_walk hgrows.appends.nodup
      hgrows.appends.base_le hin hwalk
    exact ⟨outcome, houtcome, Targets.exits_none.mp hexit⟩
  · intro hmatched
    have hstate := hbacked (events executed) hmatched
    refine ⟨hstate.reachable, fun bound hbound => ?_, fun bound hbound => ?_⟩
    · have hassigned : state.isAssigned bound = true := by
        simp [FlowState.isAssigned, hbound]
      rcases hstate bound hassigned with hbefore | hstored
      · refine Or.inl ?_
        simpa [FlowState.isAssigned, FlowState.reached] using hbefore
      · exact Or.inr (mem_events_stored.mp hstored)
    · exact mem_events_stored.mp
        ((arena.forest.pattern id).stored_of_mem_bindings hmatched bound hbound)

/-- A box in a box, with a constant that the code skips:
`Box(Object content) && !(false || !(content instanceof Box(var inner)))`. -/
def boxNotDenied : Arena where
  patterns := #[.type ⟨some "Object", Span.none⟩ (some 0) Span.none,
    .record ⟨some "Box", Span.none⟩ [0] Span.none, .type ⟨none, Span.none⟩ (some 1) Span.none,
    .record ⟨some "Box", Span.none⟩ [2] Span.none, .guarded [1] 5 Span.none]
  exprs := #[.ident "content" Span.none, .instanceOf 0 3 Span.none, .unary .not 1 Span.none,
    .bool false Span.none, .binary .or 3 2 Span.none, .unary .not 4 Span.none]
  locals := #[⟨"content", Span.none⟩, ⟨"inner", Span.none⟩]

theorem acyclic_boxNotDenied : boxNotDenied.Acyclic :=
  Arena.acyclic_of_rank (Node.rank (fun id => 6 * id) fun id => 18 + id) (by decide)

theorem exists_boxNotDenied_code : ∃ resolved analysed emitted after,
    boxNotDenied.forest.resolvePattern Pool.shapes .empty 4 ⟨32⟩ .empty = .ok resolved ∧
    resolved.offered = [] ∧
    boxNotDenied.forest.analysePattern resolved.table .empty 4 (.plain (.reached .empty)) =
      .ok analysed ∧
    EStateM.run ((boxNotDenied.forest.pattern 4).generate
        ⟨Pool.shapes, resolved.table, analysed.record⟩ 0 ⟨32⟩ ⟨none, some 0⟩) boxPlanner =
      .ok emitted after := by
  have hok : ((boxNotDenied.forest.resolvePattern Pool.shapes .empty 4 ⟨32⟩ .empty).toOption.any
      fun resolved => resolved.offered.isEmpty && (boxNotDenied.forest.analysePattern
        resolved.table .empty 4 (.plain (.reached .empty))).toOption.any fun analysed =>
          (EStateM.run' ((boxNotDenied.forest.pattern 4).generate
            ⟨Pool.shapes, resolved.table, analysed.record⟩ 0 ⟨32⟩ ⟨none, some 0⟩)
              boxPlanner).isSome) = true := by
    decide +kernel
  cases hresolved : boxNotDenied.forest.resolvePattern Pool.shapes .empty 4 ⟨32⟩ .empty with
  | error fault => simp [hresolved, Except.toOption] at hok
  | ok resolved =>
    rw [hresolved, Except.toOption, Option.any_some, Bool.and_eq_true] at hok
    obtain ⟨hoffered, hok⟩ := hok
    cases hanalysed : boxNotDenied.forest.analysePattern resolved.table .empty 4
        (.plain (.reached .empty)) with
    | error fault => simp [hanalysed, Except.toOption] at hok
    | ok analysed =>
      rw [hanalysed, Except.toOption, Option.any_some] at hok
      delta EStateM.run' at hok
      cases hrun : EStateM.run ((boxNotDenied.forest.pattern 4).generate
          ⟨Pool.shapes, resolved.table, analysed.record⟩ 0 ⟨32⟩ ⟨none, some 0⟩) boxPlanner with
      | error fault after => simp [hrun] at hok
      | ok emitted after =>
        exact ⟨resolved, analysed, emitted, after, rfl, List.isEmpty_iff.mp hoffered, hanalysed,
          hrun⟩

open Machine in
/-- After every match of it, the content of the box has been stored and its content too. -/
theorem stored_when_boxNotDenied :
    ∃ resolved analysed emitted after code snapshot state,
      boxNotDenied.forest.resolvePattern Pool.shapes .empty 4 ⟨32⟩ .empty = .ok resolved ∧
      resolved.offered = [] ∧
      boxNotDenied.forest.analysePattern resolved.table .empty 4 (.plain (.reached .empty)) =
        .ok analysed ∧
      EStateM.run ((boxNotDenied.forest.pattern 4).generate
          ⟨Pool.shapes, resolved.table, analysed.record⟩ 0 ⟨32⟩ ⟨none, some 0⟩) boxPlanner =
        .ok emitted after ∧
      after.stream.instrs.toList = boxPlanner.stream.instrs.toList ++ code ∧
      analysed.record.snapshots[4]? = some snapshot ∧
      analysed.record.states[snapshot.resume]? = some state ∧
      ∀ executed, Walk code executed none →
        state.reachable = true ∧
        (∀ bound, state.assigned.contains bound = true →
          ∃ slot stored, .storeLocal bound slot stored ∈ executed) ∧
        ∀ bound ∈ [0, 1], ∃ slot stored, .storeLocal bound slot stored ∈ executed := by
  obtain ⟨resolved, analysed, emitted, after, hresolved, hoffered, hanalysed, hrun⟩ :=
    exists_boxNotDenied_code
  have htable : Resolution.Produced boxNotDenied.forest Pool.shapes [4] [] resolved.table := by
    have hproduced := Resolution.Produced.pattern .empty hresolved
    rwa [hoffered] at hproduced
  obtain ⟨code, snapshot, state, hcode, hsnapshot, hstate, hwalk⟩ := stored_when_matched
    Pool.declared_shapes acyclic_boxNotDenied htable (List.mem_singleton_self 4) hanalysed _ 0 ⟨32⟩
    ⟨none, some 0⟩ boxPlanner (by decide) hrun
  have hbindings : (boxNotDenied.forest.pattern 4).bindings = [0, 1] := by
    decide +kernel
  refine ⟨resolved, analysed, emitted, after, code, snapshot, state, hresolved, hoffered, hanalysed,
    hrun, hcode, hsnapshot, hstate, fun executed hexecuted => ?_⟩
  obtain ⟨⟨outcome, houtcome, hexit⟩, hstored⟩ := hwalk executed none hexecuted
  cases outcome with
  | false => cases hexit
  | true =>
    obtain ⟨hreachable, hassigned, hbound⟩ := hstored houtcome
    refine ⟨hreachable, fun bound hin => (hassigned bound hin).resolve_left ?_, ?_⟩
    · simp
    · rwa [← hbindings]

end GuardedMatch
