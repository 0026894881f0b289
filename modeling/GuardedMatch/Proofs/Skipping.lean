import GuardedMatch.Code.Plan
import GuardedMatch.Flow.Analysis
import GuardedMatch.Proofs.Folding
import GuardedMatch.Proofs.Matching
import GuardedMatch.Resolution.Resolver

/-!
# Conditions that are not evaluated

A condition that folds and reads nothing but literals is not evaluated: the code jumps at once.
That is right if evaluating the condition would have come out as it was folded.  It never comes out
otherwise, but it may stop on the way.  `&&` and `||` are folded as soon as the right operand
decides them, and evaluated from the left, so what the left operand does is lost if it has no value:
a division by zero there is never made.

* `Expr.steady`: the left operand of every `&&` and `||` that is evaluated has a truth value.
* `Expr.constant_eval`: literals are evaluated to what they fold to, if they are steady, and to
  nothing otherwise.
* `skipped_comes_out_iff`: which conditions may be skipped.
* `zero_division_skipped`: `1 / 0 == 1 || true` is skipped, and should not be.
-/

namespace GuardedMatch

namespace Expr

/-- Every integer literal fits in 64 bits. -/
def literalsFit : Expr → Bool
  | int _ value _ => (Scalar.ofLiteral value).isSome
  | unary _ _ operand _ => operand.literalsFit
  | binary _ _ left right _ => left.literalsFit && right.literalsFit
  | _ => true

/-- The left operand of each `&&` and `||` has a truth value, as far as evaluation gets. -/
def steady : Expr → Bool
  | unary _ _ operand _ => operand.steady
  | binary _ .and left right _ =>
    left.steady && left.truth.any fun outcome => !outcome || right.steady
  | binary _ .or left right _ =>
    left.steady && left.truth.any fun outcome => outcome || right.steady
  | binary _ _ left right _ => left.steady && right.steady
  | _ => true

end Expr

/-! ## Operators -/

/-- A logical operator that is not decided by its left operand comes out as its right operand. -/
theorem Constant.Decides.binary_undecided {op : BinaryOp} {decisive : Bool}
    (hop : Decides op decisive) (right : Option Constant) :
    binary op (some (bool !decisive)) right = (right.bind bool?).map bool := by
  cases hfold : binary op (some (bool !decisive)) right with
  | none =>
    rcases right with _ | outcome | value
    · rfl
    · rcases Bool.eq_or_eq_not outcome decisive with rfl | rfl
      · rw [hop.decided.mpr (.inr rfl)] at hfold
        cases hfold
      · rw [hop.undecided.mpr ⟨rfl, rfl⟩] at hfold
        cases hfold
    · rfl
  | some constant =>
    obtain ⟨outcome, rfl⟩ := hop.exists_bool hfold
    rcases Bool.eq_or_eq_not outcome decisive with rfl | rfl
    · rcases hop.decided.mp hfold with hleft | rfl
      · simp at hleft
      · rfl
    · obtain ⟨-, rfl⟩ := hop.undecided.mp hfold
      rfl

/-- What has no constant on one side leaves an operator that needs both without one. -/
theorem Constant.strict_none {op : BinaryOp} (hop : op.isLogical = false)
    {left right : Option Constant} (h : left = none ∨ right = none) :
    binary op left right = none := by
  refine Option.eq_none_iff_forall_ne_some.mpr fun constant hfold => ?_
  obtain ⟨l, r, rfl, rfl⟩ := exists_of_strict hop hfold
  simp at h

namespace Scalar

theorem constant_unary_bind (op : UnaryOp) (operand : Option Scalar) :
    (operand >>= unary op).map constant = Constant.unary op (operand.map constant) := by
  cases operand with
  | none => cases op <;> rfl
  | some value => exact constant_unary op value

theorem constant_strict_bind {op : BinaryOp} (hop : op.isLogical = false)
    (left right : Option Scalar) :
    (do strict op (← left) (← right)).map constant =
      Constant.binary op (left.map constant) (right.map constant) := by
  cases left with
  | none => exact (Constant.strict_none hop (.inl rfl)).symm
  | some l =>
    cases right with
    | none => exact (Constant.strict_none hop (.inr rfl)).symm
    | some r => exact constant_strict hop l r

/-- Where the left operand does not decide, the right one does. -/
theorem constant_shortCircuit {op : BinaryOp} {decisive : Bool}
    (hop : Constant.Decides op decisive) (right : Option Scalar) :
    (shortCircuit decisive (some (bool !decisive)) right).map constant =
      Constant.binary op (some (.bool !decisive)) (right.map constant) := by
  rw [hop.binary_undecided]
  rcases right with _ | outcome | value <;> simp [shortCircuit, truth?, constant, Constant.bool?]

theorem eq_bool_of_constant {value : Option Scalar} {outcome : Bool}
    (h : value.map constant = some (.bool outcome)) : value = some (bool outcome) := by
  rcases value with _ | found | found <;> simp_all [constant]

/-- What has no truth value on the left leaves a logical operator without a result. -/
theorem shortCircuit_of_truth_none {decisive : Bool} {left right : Option Scalar}
    (h : (left.map constant).bind Constant.bool? = none) :
    shortCircuit decisive left right = none := by
  rcases left with _ | outcome | value <;> simp_all [shortCircuit, truth?, constant, Constant.bool?]

end Scalar

/-! ## Expressions -/

namespace Expr

open Scalar

variable (env : ExprId → Option Scalar)

/-- A logical operator is evaluated to what it folds to if its left operand has a truth value. -/
theorem constant_eval_logical {op : BinaryOp} {decisive : Bool} (hop : Constant.Decides op decisive)
    {left right : Expr}
    (hleft : (left.eval env).map constant = if left.steady then left.fold else none)
    (hright : (right.eval env).map constant = if right.steady then right.fold else none) :
    (shortCircuit decisive (left.eval env) (right.eval env)).map constant =
      if left.steady && left.truth.any (fun outcome => outcome == decisive || right.steady)
      then Constant.binary op left.fold right.fold else none := by
  cases hsteady : left.steady with
  | false =>
    rw [hsteady] at hleft
    rw [shortCircuit_of_truth_none (by simp [hleft])]
    rfl
  | true =>
    rw [hsteady, if_pos rfl] at hleft
    cases htruth : left.truth with
    | none =>
      rw [shortCircuit_of_truth_none (by rw [hleft, ← htruth, truth])]
      rfl
    | some outcome =>
      rw [truth_eq_some] at htruth
      rw [htruth] at hleft ⊢
      rw [eq_bool_of_constant hleft]
      rcases Bool.eq_or_eq_not outcome decisive with rfl | rfl
      · rw [hop.decided.mpr (.inl rfl)]
        simp [shortCircuit, truth?, constant]
      · rw [constant_shortCircuit hop, hright]
        cases right.steady with
        | true => simp
        | false => simp [hop.binary_undecided]

/-- **What reads nothing but literals is evaluated to what it folds to, if it is steady.**
Otherwise its evaluation stops. -/
theorem constant_eval : ∀ expr : Expr, expr.hasRuntimeOperands = false → expr.literalsFit = true →
    (expr.eval env).map constant = if expr.steady then expr.fold else none
  | .bool .., _, _ | .missing _, _, _ => rfl
  | .int id value span, _, hfit => by
    obtain ⟨result, hresult⟩ := Option.isSome_iff_exists.mp hfit
    rw [eval, hresult]
    exact (caught_ofLiteral value result hresult).symm
  | .unary id op operand span, hreads, hfit => by
    rw [eval, constant_unary_bind, operand.constant_eval hreads hfit, steady, fold]
    cases operand.steady with
    | true => rfl
    | false => cases op <;> rfl
  | .binary id op left right span, hreads, hfit => by
    obtain ⟨hreadsLeft, hreadsRight⟩ := Bool.or_eq_false_iff.mp hreads
    obtain ⟨hfitLeft, hfitRight⟩ := Bool.and_eq_true_iff.mp hfit
    have hleft := left.constant_eval hreadsLeft hfitLeft
    have hright := right.constant_eval hreadsRight hfitRight
    rcases op.logical_or_strict with rfl | rfl | hop
    · have h := constant_eval_logical env Constant.decides_and hleft hright
      simpa [eval, fold, steady] using h
    · have h := constant_eval_logical env Constant.decides_or hleft hright
      simpa [eval, fold, steady] using h
    · have hsteady : (binary id op left right span).steady = (left.steady && right.steady) := by
        cases op <;> first | rfl | cases hop
      rw [eval_strict env hop, constant_strict_bind hop, hleft, hright, hsteady, fold]
      cases left.steady with
      | false => exact Constant.strict_none hop (.inl rfl)
      | true =>
        cases right.steady with
        | false => exact Constant.strict_none hop (.inr rfl)
        | true => rfl
  | .ident .., hreads, _ | .field .., hreads, _ | .instanceOf .., hreads, _
  | .call .., hreads, _ => by cases hreads

end Expr

/-- **Which conditions may be skipped.**  A condition that is not evaluated because it is known
never comes out otherwise, in whatever environment.  It comes out as it is known just if it is
steady: then nothing is lost.  If it is not, its evaluation would have stopped. -/
theorem skipped_comes_out_iff (condition : Expr) (hfit : condition.literalsFit = true)
    {outcome : Bool} (hskip : condition.skippable = some outcome) (env : ExprId → Option Scalar) :
    (∀ value, condition.eval env = some value → value = .bool outcome) ∧
      (condition.eval env = some (.bool outcome) ↔ condition.steady = true) := by
  obtain ⟨hreads, hfold⟩ := Expr.skippable_eq_some.mp hskip
  have heval := condition.constant_eval env hreads hfit
  rw [hfold] at heval
  cases hsteady : condition.steady with
  | true =>
    rw [hsteady, if_pos rfl] at heval
    rw [Scalar.eq_bool_of_constant heval]
    simp
  | false =>
    rw [hsteady] at heval
    rw [Option.map_eq_none_iff.mp heval]
    simp

/-- `false && 1 / 0 == 1`. -/
def falseFirst : Expr :=
  .binary 6 .and (.bool 0 false Span.none)
    (.binary 5 .eq (.binary 3 .div (.int 1 1 Span.none) (.int 2 0 Span.none) Span.none)
      (.int 4 1 Span.none) Span.none) Span.none

/-- A division by zero that is never reached is no obstacle. -/
theorem skipped_comes_out_falseFirst :
    falseFirst.literalsFit = true ∧ falseFirst.skippable = some false ∧
      ∀ env, falseFirst.eval env = some (.bool false) := by
  have hskip : falseFirst.skippable = some false := by decide
  exact ⟨by decide, hskip, fun env =>
    (skipped_comes_out_iff falseFirst (by decide) hskip env).2.mpr (by decide)⟩

/-- `Object o when 1 / 0 == 1 || true`. -/
def zeroDivision : Arena where
  patterns := #[.type ⟨some "Object", Span.none⟩ (some 0) Span.none, .guarded [0] 6 Span.none]
  exprs := #[.int 1 Span.none, .int 0 Span.none, .binary .div 0 1 Span.none, .int 1 Span.none,
    .binary .eq 2 3 Span.none, .bool true Span.none, .binary .or 4 5 Span.none]
  locals := #[⟨"o", Span.none⟩]

/-- The condition is skipped although its evaluation stops at the division: nothing is reported, and
in the code for the guard nothing is evaluated. -/
theorem zero_division_skipped :
    (zeroDivision.forest.expr 6).skippable = some true ∧
    (∀ env, (zeroDivision.forest.expr 6).eval env = none) ∧
    (do
      let resolved ← zeroDivision.forest.resolvePattern Pool.builtin .empty 1 Ty.object .empty
      let analysed ← zeroDivision.forest.analysePattern resolved.table .empty 1 (.initial [])
      let (_, planner) ← (Planner.new true).run ((zeroDivision.forest.pattern 1).generate
        ⟨Pool.builtin, resolved.table, analysed.record⟩ 0 Ty.object ⟨none, none⟩)
      return (resolved.offered, planner.stream.instrs.toList)).toOption =
    some ([], [.storeLocal 0 0 0, .goto 0, .placeLabel 1, .placeLabel 0]) := by
  refine ⟨by decide +kernel, fun env => ?_, by decide +kernel⟩
  have heval := (zeroDivision.forest.expr 6).constant_eval env (by decide +kernel)
    (by decide +kernel)
  rw [if_neg (by decide +kernel)] at heval
  exact Option.map_eq_none_iff.mp heval

end GuardedMatch
