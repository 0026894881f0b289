import GuardedMatch.Constant
import GuardedMatch.Proofs.Values

/-!
# Matching in an environment

An environment says what evaluating an expression gives: a value, and whether it counts as true.
The logical operators and `instanceof` are not asked of the environment, they follow from their
operands.  So an environment settles which patterns match and which conditions hold.

* `Pattern.matches_iff`: matching in an environment is matching under the outcomes it gives to
  conditions.
* `Expr.Knowing.holds_iff`: a condition has the outcome it is known to have, in an environment
  where operands have.  This is used for what is known without evaluating anything
  (`Expr.holds_of_skippable`) and for all that folding knows (`Expr.holds_of_truth`).
-/

namespace GuardedMatch

/-- What evaluating expressions gives. -/
structure Env {pool : Pool} (model : ValueModel pool) where
  /-- The value of an expression. -/
  operand : ExprId → model.Value
  /-- The truth value of a boolean expression. -/
  truth : ExprId → Bool

/-- An expression that is evaluated as a whole where it stands as a condition. -/
def Expr.IsOperand : Expr → Prop
  | .int .. | .ident .. | .field .. | .call .. | .unary _ .neg _ _ => True
  | .binary _ op _ _ _ => op.isLogical = false
  | .bool .. | .unary _ .not _ _ | .instanceOf .. | .missing _ => False

section

variable {pool : Pool} {model : ValueModel pool} (env : Env model) (table : Resolution)

mutual

/-- A pattern matches a value. -/
def Pattern.Matches : Pattern → model.Value → Prop
  | .type id .., value => model.inst value (table.patternType id)
  | .record id _ components _, value =>
    model.inst value (table.patternType id) ∧ Pattern.ComponentsMatch components 0 value
  | .guarded _ patterns condition _, value => Pattern.AllMatch patterns value ∧ condition.Holds
  | .any .., _ => True
  | .missing _, _ => False

/-- All patterns match one value. -/
def Pattern.AllMatch : List Pattern → model.Value → Prop
  | [], _ => True
  | pattern :: patterns, value => pattern.Matches value ∧ Pattern.AllMatch patterns value

/-- The patterns match the components of a value, from a position on. -/
def Pattern.ComponentsMatch : List Pattern → (position : Nat) → model.Value → Prop
  | [], _, _ => True
  | pattern :: patterns, position, value =>
    pattern.Matches (model.proj value position) ∧
      Pattern.ComponentsMatch patterns (position + 1) value

/-- A condition holds. -/
def Expr.Holds : Expr → Prop
  | .bool _ value _ => value = true
  | .unary _ .not operand _ => ¬ operand.Holds
  | .binary _ .and left right _ => left.Holds ∧ right.Holds
  | .binary _ .or left right _ => left.Holds ∨ right.Holds
  | .instanceOf _ tested pattern _ => pattern.Matches (env.operand tested.id)
  | .missing _ => False
  | operand => env.truth operand.id = true

end

variable {env table}

/-- A condition that is evaluated as a whole is as true as it evaluates to. -/
theorem Expr.holds_iff {expr : Expr} (h : expr.IsOperand) :
    expr.Holds env table ↔ env.truth expr.id = true := by
  rw [Expr.Holds.eq_def]
  split <;> first | cases h | rfl

/-! ## The two notions of matching -/

mutual

theorem Pattern.matches_iff : ∀ (pattern : Pattern) (value : model.Value),
    pattern.Matches env table value ↔
      pattern.MatchesUnder model table (fun condition _ => condition.Holds env table) value
  | .type .., value | .any .., value | .missing _, value => by
    rw [Pattern.Matches.eq_def, Pattern.MatchesUnder.eq_def]
  | .record id ty components span, value => by
    rw [Pattern.Matches, Pattern.MatchesUnder, Pattern.componentsMatch_iff components 0 value]
  | .guarded id patterns condition span, value => by
    rw [Pattern.Matches, Pattern.MatchesUnder, Pattern.allMatch_iff patterns value]

theorem Pattern.allMatch_iff : ∀ (patterns : List Pattern) (value : model.Value),
    Pattern.AllMatch env table patterns value ↔
      Pattern.AllMatchUnder model table (fun condition _ => condition.Holds env table) patterns
        value
  | [], value => by rw [Pattern.AllMatch, Pattern.AllMatchUnder]
  | pattern :: patterns, value => by
    rw [Pattern.AllMatch, Pattern.AllMatchUnder, pattern.matches_iff value,
      Pattern.allMatch_iff patterns value]

theorem Pattern.componentsMatch_iff :
    ∀ (patterns : List Pattern) (position : Nat) (value : model.Value),
      Pattern.ComponentsMatch env table patterns position value ↔
        Pattern.ComponentsMatchUnder model table (fun condition _ => condition.Holds env table)
          patterns position value
  | [], _, value => by rw [Pattern.ComponentsMatch, Pattern.ComponentsMatchUnder]
  | pattern :: patterns, position, value => by
    rw [Pattern.ComponentsMatch, Pattern.ComponentsMatchUnder, pattern.matches_iff,
      Pattern.componentsMatch_iff patterns]

end

end

/-! ## Known conditions -/

/-- An operand that is made of literals evaluates to the truth value it is known to have. -/
def Env.AgreesAt {pool : Pool} {model : ValueModel pool} (env : Env model) : Visit → Prop
  | .expr expr => expr.IsOperand → ∀ outcome, expr.skippable = some outcome →
    env.truth expr.id = outcome
  | _ => True

/-- An operand evaluates to the truth value it is known to have, also if that takes evaluating
something else. -/
def Env.KnowsAt {pool : Pool} {model : ValueModel pool} (env : Env model) : Visit → Prop
  | .expr expr => expr.IsOperand → ∀ outcome, expr.truth = some outcome →
    env.truth expr.id = outcome
  | _ => True

namespace Expr

variable {expr : Expr} {outcome : Bool} {id : ExprId} {span : Span}

theorem truth_eq_some :
    expr.truth = some outcome ↔ expr.fold = some (.bool outcome) := by
  rw [truth]
  cases expr.fold with
  | none => simp
  | some constant => cases constant <;> simp [Constant.bool?]

theorem skippable_eq_some :
    expr.skippable = some outcome ↔
      expr.hasRuntimeOperands = false ∧ expr.fold = some (.bool outcome) := by
  rw [skippable, ← truth_eq_some]
  cases expr.hasRuntimeOperands <;> simp

theorem truth_of_skippable (h : expr.skippable = some outcome) :
    expr.truth = some outcome := truth_eq_some.mpr (skippable_eq_some.mp h).2

theorem skippable_not {operand : Expr} :
    (Expr.unary id .not operand span).skippable = some outcome ↔
      operand.skippable = some !outcome := by
  rw [skippable_eq_some, skippable_eq_some, fold, hasRuntimeOperands, Constant.unary_not]

/-- If `&&` need not be evaluated, its operands decide it without being evaluated. -/
theorem skippable_and {left right : Expr}
    (h : (Expr.binary id .and left right span).skippable = some outcome) :
    if outcome then left.skippable = some true ∧ right.skippable = some true
    else left.skippable = some false ∨ right.skippable = some false := by
  rw [skippable_eq_some, fold, hasRuntimeOperands, Bool.or_eq_false_iff] at h
  obtain ⟨⟨hleft, hright⟩, hfold⟩ := h
  simp only [skippable_eq_some, hleft, hright, true_and]
  cases outcome with
  | true => exact Constant.and_true.mp hfold
  | false => exact Constant.and_false.mp hfold

theorem skippable_or {left right : Expr}
    (h : (Expr.binary id .or left right span).skippable = some outcome) :
    if outcome then left.skippable = some true ∨ right.skippable = some true
    else left.skippable = some false ∧ right.skippable = some false := by
  rw [skippable_eq_some, fold, hasRuntimeOperands, Bool.or_eq_false_iff] at h
  obtain ⟨⟨hleft, hright⟩, hfold⟩ := h
  simp only [skippable_eq_some, hleft, hright, true_and]
  cases outcome with
  | true => exact Constant.or_true.mp hfold
  | false => exact Constant.or_false.mp hfold

/-- A way of knowing how conditions come out: what it knows of a logical operator, it knows from the
operands. -/
structure Knowing (known : Expr → Option Bool) : Prop where
  bool : ∀ {id value span outcome}, known (.bool id value span) = some outcome → value = outcome
  not : ∀ {id operand span outcome}, known (.unary id .not operand span) = some outcome →
    known operand = some !outcome
  and : ∀ {id left right span outcome}, known (.binary id .and left right span) = some outcome →
    if outcome then known left = some true ∧ known right = some true
    else known left = some false ∨ known right = some false
  or : ∀ {id left right span outcome}, known (.binary id .or left right span) = some outcome →
    if outcome then known left = some true ∨ known right = some true
    else known left = some false ∧ known right = some false
  instanceOf : ∀ {id tested pattern span}, known (.instanceOf id tested pattern span) = none
  missing : ∀ {id}, known (.missing id) = none

theorem knowing_truth : Knowing truth where
  bool h := by simpa [truth_eq_some, fold] using h
  not h := by
    rw [truth_eq_some, fold, Constant.unary_not] at h
    exact truth_eq_some.mpr h
  and {id left right span outcome} h := by
    rw [truth_eq_some, fold] at h
    simp only [truth_eq_some]
    cases outcome with
    | true => exact Constant.and_true.mp h
    | false => exact Constant.and_false.mp h
  or {id left right span outcome} h := by
    rw [truth_eq_some, fold] at h
    simp only [truth_eq_some]
    cases outcome with
    | true => exact Constant.or_true.mp h
    | false => exact Constant.or_false.mp h
  instanceOf := by simp [truth, fold]
  missing := by simp [truth, fold]

theorem knowing_skippable : Knowing skippable where
  bool h := knowing_truth.bool (truth_of_skippable h)
  not h := skippable_not.mp h
  and h := skippable_and h
  or h := skippable_or h
  instanceOf := by simp [skippable, hasRuntimeOperands]
  missing := by simp [skippable, truth, fold]

variable {pool : Pool} {model : ValueModel pool} {env : Env model} {table : Resolution}

theorem holds_of_operand {known : Expr → Option Bool} (hoperand : expr.IsOperand)
    (hagree : ∀ operand : Expr, .expr operand ∈ expr.visits → operand.IsOperand →
      ∀ outcome, known operand = some outcome → env.truth operand.id = outcome)
    (h : known expr = some outcome) : expr.Holds env table ↔ outcome = true := by
  rw [holds_iff hoperand, hagree expr expr.self_mem_visits hoperand outcome h]

/-- **A condition comes out as it is known to**, where operands do. -/
theorem Knowing.holds_iff {known : Expr → Option Bool} (hknown : Knowing known) :
    ∀ (expr : Expr) {outcome : Bool},
      (∀ operand : Expr, .expr operand ∈ expr.visits → operand.IsOperand →
        ∀ outcome, known operand = some outcome → env.truth operand.id = outcome) →
      known expr = some outcome → (expr.Holds env table ↔ outcome = true)
  | .bool id value span, outcome, _, h => by
    rw [Holds, hknown.bool h]
  | .unary id .not operand span, outcome, hagree, h => by
    have hholds := Knowing.holds_iff hknown operand
      (fun other hother => hagree other (List.mem_cons_of_mem _ hother)) (hknown.not h)
    rw [Holds, hholds]
    cases outcome <;> simp
  | .binary id op left right span, outcome, hagree, h => by
    have hl : ∀ side, known left = some side →
        (left.Holds env table ↔ side = true) := fun _ =>
      Knowing.holds_iff hknown left fun other hother =>
        hagree other (Visit.left_subset hother)
    have hr : ∀ side, known right = some side →
        (right.Holds env table ↔ side = true) := fun _ =>
      Knowing.holds_iff hknown right fun other hother =>
        hagree other (Visit.right_subset hother)
    cases op with
    | and =>
      have hsides := hknown.and h
      rw [Holds]
      cases outcome with
      | true => simp [(hl true hsides.1), (hr true hsides.2)]
      | false =>
        rcases hsides with hside | hside
        · simp [hl false hside]
        · simp [hr false hside]
    | or =>
      have hsides := hknown.or h
      rw [Holds]
      cases outcome with
      | true =>
        rcases hsides with hside | hside
        · simp [hl true hside]
        · simp [hr true hside]
      | false => simp [hl false hsides.1, hr false hsides.2]
    | eq | notEq | lt | ltEq | gt | gtEq | add | sub | mul | div | rem =>
      exact holds_of_operand rfl hagree h
  | .instanceOf id tested pattern span, outcome, _, h => by
    rw [hknown.instanceOf] at h
    cases h
  | .missing id, outcome, _, h => by
    rw [hknown.missing] at h
    cases h
  | .int id value span, outcome, hagree, h | .ident id value span, outcome, hagree, h
  | .field id receiver value span, outcome, hagree, h
  | .call id callee args result span, outcome, hagree, h
  | .unary id .neg operand span, outcome, hagree, h => holds_of_operand trivial hagree h

theorem holds_of_skippable (expr : Expr) (hagree : ∀ visit ∈ expr.visits, env.AgreesAt visit)
    (h : expr.skippable = some outcome) :
    expr.Holds env table ↔ outcome = true :=
  knowing_skippable.holds_iff expr (fun _ hvisit => hagree _ hvisit) h

theorem holds_of_truth (expr : Expr) (hknows : ∀ visit ∈ expr.visits, env.KnowsAt visit)
    (h : expr.truth = some outcome) :
    expr.Holds env table ↔ outcome = true :=
  knowing_truth.holds_iff expr (fun _ hvisit => hknows _ hvisit) h

end Expr

end GuardedMatch
