import GuardedMatch.Constant
import Mathlib.Data.Bool.Basic

/-!
# Folding and evaluation

A guard expression is evaluated from left to right, over truth values and machine integers of 64
bits.  What names, fields, calls and `instanceof` come out as is up to the environment.  Evaluation
may stop without a value: where an operand is of the wrong kind, where a result does not fit in 64
bits, where the divisor is zero, or where the environment has nothing to offer.  `&&` and `||`
evaluate their right operand only if the left one has not decided the result.

Folding knows no environment and looks at both sides of `&&` and `||`.  The two never disagree.

* `Scalar.constant_ofInts`, `Scalar.constant_strict`: on values, folding and evaluation do the same.
* `Expr.foretold`: what is folded is what comes out, if something does.
* `Expr.caught`: what comes out is folded, if nothing but literals is read.
-/

namespace GuardedMatch

/-- What an expression comes out as. -/
inductive Scalar
  | bool (value : Bool)
  | int (value : Int64)
deriving DecidableEq

namespace Scalar

/-- The constant that a value is. -/
def constant : Scalar → Constant
  | bool value => .bool value
  | int value => .int value.toInt

def truth? : Scalar → Option Bool
  | bool value => some value
  | int _ => none

/-- A literal, if it fits in 64 bits. -/
def ofLiteral (value : Int) : Option Scalar :=
  if (Int64.ofInt value).toInt = value then some (int (Int64.ofInt value)) else none

/-- The operations of the machine wrap around, and where they do there is no result.  The only
quotient that wraps around is that of the least integer and `-1`. -/
def ofInts (op : BinaryOp) (l r : Int64) : Option Scalar :=
  match op with
  | .eq => some (bool (l == r))
  | .notEq => some (bool (l != r))
  | .lt => some (bool (l < r))
  | .ltEq => some (bool (l ≤ r))
  | .gt => some (bool (l > r))
  | .gtEq => some (bool (l ≥ r))
  | .add => if l.toBitVec.saddOverflow r.toBitVec then none else some (int (l + r))
  | .sub => if l.toBitVec.ssubOverflow r.toBitVec then none else some (int (l - r))
  | .mul => if l.toBitVec.smulOverflow r.toBitVec then none else some (int (l * r))
  | .div => if r = 0 ∨ l = Int64.minValue ∧ r = -1 then none else some (int (l / r))
  | .rem => if r = 0 ∨ l = Int64.minValue ∧ r = -1 then none else some (int (l % r))
  | .and | .or => none

/-- The result of an operator that needs both operands. -/
def strict (op : BinaryOp) : Scalar → Scalar → Option Scalar
  | int l, int r => ofInts op l r
  | bool l, bool r =>
    match op with
    | .eq => some (bool (l == r))
    | .notEq => some (bool (l != r))
    | _ => none
  | _, _ => none

def unary : UnaryOp → Scalar → Option Scalar
  | .not, bool value => some (bool (!value))
  | .neg, int value => if value = Int64.minValue then none else some (int (-value))
  | _, _ => none

/-- The result of an operator that is decided if the left operand comes out as `decisive`; otherwise
the right operand decides. -/
def shortCircuit (decisive : Bool) (left right : Option Scalar) : Option Scalar := do
  if (← left.bind truth?) = decisive then
    return bool decisive
  else
    return bool (← right.bind truth?)

end Scalar

/-- Evaluate an expression, where `env` says what names, fields, calls and `instanceof` come out
as. -/
def Expr.eval (env : ExprId → Option Scalar) : Expr → Option Scalar
  | .bool _ value _ => some (.bool value)
  | .int _ value _ => Scalar.ofLiteral value
  | .unary _ op operand _ => operand.eval env >>= Scalar.unary op
  | .binary _ .and left right _ => Scalar.shortCircuit false (left.eval env) (right.eval env)
  | .binary _ .or left right _ => Scalar.shortCircuit true (left.eval env) (right.eval env)
  | .binary _ op left right _ => do
    let l ← left.eval env
    let r ← right.eval env
    Scalar.strict op l r
  | .ident id .. | .field id .. | .instanceOf id .. | .call id .. => env id
  | .missing _ => none

/-! ## Values -/

namespace Scalar

/-- Every machine integer fits in 64 bits. -/
theorem checked_toInt (value : Int64) : Constant.checked value.toInt = some (int value).constant :=
  if_pos ⟨value.le_toInt, value.toInt_lt⟩

/-- If an operation of the machine overflows just where the exact result does not fit, its result
is the exact one. -/
theorem constant_checked {overflow : Prop} [Decidable overflow] {result : Int64} {number : Int}
    (hoverflow : overflow → number < -9223372036854775808 ∨ 9223372036854775808 ≤ number)
    (hexact : ¬ overflow → result.toInt = number) :
    (if overflow then none else some (int result)).map constant = Constant.checked number := by
  split
  next h =>
    have := hoverflow h
    rw [Constant.checked, if_neg (by omega)]
    rfl
  next h =>
    rw [← hexact h, checked_toInt]
    rfl

theorem constant_add (l r : Int64) :
    (ofInts .add l r).map constant = Constant.checked (l.toInt + r.toInt) := by
  refine constant_checked (fun h => ?_) BitVec.toInt_add_of_not_saddOverflow
  simp [BitVec.saddOverflow] at h
  omega

theorem constant_sub (l r : Int64) :
    (ofInts .sub l r).map constant = Constant.checked (l.toInt - r.toInt) := by
  refine constant_checked (fun h => ?_) BitVec.toInt_sub_of_not_ssubOverflow
  simp [BitVec.ssubOverflow] at h
  omega

theorem constant_mul (l r : Int64) :
    (ofInts .mul l r).map constant = Constant.checked (l.toInt * r.toInt) := by
  refine constant_checked (fun h => ?_) BitVec.toInt_mul_of_not_smulOverflow
  simp [BitVec.smulOverflow] at h
  omega

theorem constant_neg (value : Int64) :
    (unary .neg (int value)).map constant = Constant.checked (-value.toInt) := by
  refine constant_checked (fun h => ?_) fun h => ?_
  · rw [h]
    exact Or.inr (by decide)
  · have hne : value.toInt ≠ -9223372036854775808 := fun heq => h (Int64.toInt_inj.mp heq)
    have hlower := value.le_toInt
    have hupper := value.toInt_lt
    rw [Int64.toInt_neg, Int.bmod_eq_of_le] <;> omega

/-- The only quotient that does not fit is that of the least integer and `-1`. -/
theorem constant_quotient (l r : Int64) :
    (if l = Int64.minValue ∧ r = -1 then none else some (int (l / r))).map constant =
      Constant.checked (l.toInt.tdiv r.toInt) := by
  refine constant_checked (fun h => ?_) fun h => ?_
  · rw [h.1, h.2]
    exact Or.inr (by decide)
  · by_cases hl : l = Int64.minValue
    · exact Int64.toInt_div_of_ne_right l r fun hr => h ⟨hl, hr⟩
    · exact Int64.toInt_div_of_ne_left l r hl

/-- **Machine integers are compared and computed with as constants are.** -/
theorem constant_ofInts (op : BinaryOp) (l r : Int64) :
    (ofInts op l r).map constant = Constant.ofInts op l.toInt r.toInt := by
  have hzero : r.toInt = 0 ↔ r = 0 := Int64.toInt_inj (y := 0)
  cases op with
  | and | or => rfl
  | eq | notEq => simp [ofInts, Constant.ofInts, constant, ← Int64.toInt_inj, bne]
  | lt | gt => simp [ofInts, Constant.ofInts, constant, Int64.lt_iff_toInt_lt]
  | ltEq | gtEq => simp [ofInts, Constant.ofInts, constant, Int64.le_iff_toInt_le]
  | add => exact constant_add l r
  | sub => exact constant_sub l r
  | mul => exact constant_mul l r
  | div =>
    by_cases hr : r = 0
    · simp [ofInts, Constant.ofInts, hr]
    · simp only [ofInts, Constant.ofInts, hzero, hr, false_or, if_false]
      exact constant_quotient l r
  | rem =>
    by_cases hr : r = 0
    · simp [ofInts, Constant.ofInts, hr]
    · simp only [ofInts, Constant.ofInts, hzero, hr, false_or, if_false]
      -- There is a remainder just where there is a quotient.
      rw [← constant_quotient, ← Int64.toInt_mod]
      split <;> rfl

theorem constant_unary (op : UnaryOp) (value : Scalar) :
    (unary op value).map constant = Constant.unary op (some value.constant) := by
  rcases op with _ | _ <;> rcases value with value | value
  · rfl
  · rfl
  · rfl
  · exact constant_neg value

/-- **An operator that needs both operands does to values what it does to constants.** -/
theorem constant_strict {op : BinaryOp} (hop : op.isLogical = false) (l r : Scalar) :
    (strict op l r).map constant = Constant.binary op (some l.constant) (some r.constant) := by
  cases op with
  | and | or => cases hop
  | eq | notEq | lt | ltEq | gt | gtEq | add | sub | mul | div | rem =>
    rcases l with l | l <;> rcases r with r | r
    · rfl
    · rfl
    · rfl
    · rw [strict, constant_ofInts]
      rfl

theorem shortCircuit_eq_some {decisive : Bool} {left right : Option Scalar} {value : Scalar} :
    shortCircuit decisive left right = some value ↔
      left = some (bool decisive) ∧ value = bool decisive ∨
      left = some (bool !decisive) ∧ ∃ outcome, right = some (bool outcome) ∧
        value = bool outcome := by
  rcases left with _ | outcome | l
  · simp [shortCircuit]
  · rcases Bool.eq_or_eq_not outcome decisive with rfl | rfl
    · simp [shortCircuit, truth?, eq_comm]
    · rcases right with _ | outcome | r <;> simp [shortCircuit, truth?, eq_comm]
  · simp [shortCircuit, truth?]

end Scalar

/-! ## Operators -/

theorem BinaryOp.logical_or_strict (op : BinaryOp) :
    op = .and ∨ op = .or ∨ op.isLogical = false := by
  cases op <;> decide

namespace Constant

/-- A logical operator folds to its decisive outcome as soon as one side does, and otherwise needs
both. -/
structure Decides (op : BinaryOp) (decisive : Bool) : Prop where
  decided : ∀ {left right}, binary op left right = some (bool decisive) ↔
    left = some (bool decisive) ∨ right = some (bool decisive)
  undecided : ∀ {left right}, binary op left right = some (bool !decisive) ↔
    left = some (bool !decisive) ∧ right = some (bool !decisive)
  exists_bool : ∀ {left right constant}, binary op left right = some constant →
    ∃ outcome, constant = bool outcome

theorem decides_and : Decides .and false where
  decided := and_false
  undecided := and_true
  exists_bool {left right constant} h := by
    rcases left with _ | (_ | _) | _ <;> rcases right with _ | (_ | _) | _ <;>
      simp_all [binary, eq_comm]

theorem decides_or : Decides .or true where
  decided := or_true
  undecided := or_false
  exists_bool {left right constant} h := by
    rcases left with _ | (_ | _) | _ <;> rcases right with _ | (_ | _) | _ <;>
      simp_all [binary, eq_comm]

/-- Every operator that is not logical needs both operands. -/
theorem exists_of_strict {op : BinaryOp} (hop : op.isLogical = false) {left right : Option Constant}
    {constant : Constant} (h : binary op left right = some constant) :
    ∃ l r, left = some l ∧ right = some r := by
  cases op with
  | and | or => cases hop
  | eq | notEq | lt | ltEq | gt | gtEq | add | sub | mul | div | rem =>
    rcases left with _ | l | l <;> rcases right with _ | r | r <;> simp_all [binary]

end Constant

/-- What is folded is what comes out, if something does. -/
def Scalar.Foretold (folded : Option Constant) (evaluated : Option Scalar) : Prop :=
  ∀ constant value, folded = some constant → evaluated = some value → value.constant = constant

/-- What comes out has been folded. -/
def Scalar.Caught (folded : Option Constant) (evaluated : Option Scalar) : Prop :=
  ∀ value, evaluated = some value → folded = some value.constant

namespace Scalar

variable {left right : Option Constant} {l r : Option Scalar} {op : BinaryOp} {decisive : Bool}

theorem caught_unary (h : Caught left l) (op : UnaryOp) :
    Caught (Constant.unary op left) (l >>= unary op) := by
  intro value heval
  obtain ⟨operand, hoperand, hvalue⟩ := Option.bind_eq_some_iff.mp heval
  rw [h operand hoperand, ← constant_unary, hvalue]
  rfl

theorem foretold_unary (h : Foretold left l) (op : UnaryOp) :
    Foretold (Constant.unary op left) (l >>= unary op) := by
  cases left with
  | none =>
    intro constant value hfold
    cases op <;> cases hfold
  | some folded =>
    intro constant value hfold heval
    obtain ⟨operand, hoperand, hvalue⟩ := Option.bind_eq_some_iff.mp heval
    rw [← h folded operand rfl hoperand, ← constant_unary, hvalue] at hfold
    exact Option.some.inj hfold

theorem caught_strict (hop : op.isLogical = false) (hl : Caught left l) (hr : Caught right r) :
    Caught (Constant.binary op left right) (do strict op (← l) (← r)) := by
  intro value heval
  obtain ⟨first, hfirst, heval⟩ := Option.bind_eq_some_iff.mp heval
  obtain ⟨second, hsecond, hvalue⟩ := Option.bind_eq_some_iff.mp heval
  rw [hl first hfirst, hr second hsecond, ← constant_strict hop, hvalue]
  rfl

theorem foretold_strict (hop : op.isLogical = false) (hl : Foretold left l)
    (hr : Foretold right r) :
    Foretold (Constant.binary op left right) (do strict op (← l) (← r)) := by
  intro constant value hfold heval
  obtain ⟨first, hfirst, heval⟩ := Option.bind_eq_some_iff.mp heval
  obtain ⟨second, hsecond, hvalue⟩ := Option.bind_eq_some_iff.mp heval
  obtain ⟨one, two, rfl, rfl⟩ := Constant.exists_of_strict hop hfold
  rw [← hl one first rfl hfirst, ← hr two second rfl hsecond, ← constant_strict hop,
    hvalue] at hfold
  exact Option.some.inj hfold

theorem caught_shortCircuit (hop : Constant.Decides op decisive) (hl : Caught left l)
    (hr : Caught right r) :
    Caught (Constant.binary op left right) (shortCircuit decisive l r) := by
  intro value heval
  rcases shortCircuit_eq_some.mp heval with ⟨hleft, rfl⟩ | ⟨hleft, outcome, hright, rfl⟩
  · exact hop.decided.mpr (.inl (hl _ hleft))
  · rcases Bool.eq_or_eq_not outcome decisive with rfl | rfl
    · exact hop.decided.mpr (.inr (hr _ hright))
    · exact hop.undecided.mpr ⟨hl _ hleft, hr _ hright⟩

theorem foretold_shortCircuit (hop : Constant.Decides op decisive) (hl : Foretold left l)
    (hr : Foretold right r) :
    Foretold (Constant.binary op left right) (shortCircuit decisive l r) := by
  intro constant value hfold heval
  have hdiffer : ∀ {outcome : Bool}, (bool !outcome).constant ≠ .bool outcome := by
    rintro (_ | _) heq <;> cases heq
  obtain ⟨folded, rfl⟩ := hop.exists_bool hfold
  rcases Bool.eq_or_eq_not folded decisive with rfl | rfl <;>
    rcases shortCircuit_eq_some.mp heval with ⟨hleft, rfl⟩ | ⟨hleft, outcome, hright, rfl⟩
  · rfl
  · -- The right operand was evaluated, so it is not the left one that folds to the outcome.
    rcases hop.decided.mp hfold with hone | htwo
    · exact absurd (hl _ _ hone hleft) hdiffer
    · exact hr _ _ htwo hright
  · have hone := (hop.undecided.mp hfold).1
    exact absurd (hl _ _ hone hleft).symm hdiffer
  · exact hr _ _ (hop.undecided.mp hfold).2 hright

theorem caught_ofLiteral (value : Int) : Caught (some (.int value)) (ofLiteral value) := by
  intro result heval
  rw [ofLiteral] at heval
  split at heval
  next hfits =>
    cases heval
    rw [constant, hfits]
  next => cases heval

end Scalar

/-! ## Expressions -/

namespace Expr

open Scalar

variable (env : ExprId → Option Scalar)

/-- The operators that are not logical are all evaluated in one way. -/
theorem eval_strict {op : BinaryOp} (hop : op.isLogical = false) (id : ExprId) (left right : Expr)
    (span : Span) : (binary id op left right span).eval env =
      (do strict op (← left.eval env) (← right.eval env)) := by
  cases op <;> first | rfl | cases hop

/-- **What an expression folds to is what it comes out as, if it comes out as something.** -/
theorem foretold : ∀ expr : Expr, Foretold expr.fold (expr.eval env)
  | .bool id value span => by
    intro constant result hfold heval
    cases hfold
    cases heval
    rfl
  | .int id value span => by
    intro constant result hfold heval
    exact Option.some.inj ((caught_ofLiteral value result heval).symm.trans hfold)
  | .unary id op operand span => foretold_unary operand.foretold op
  | .binary id op left right span => by
    rcases op.logical_or_strict with rfl | rfl | hop
    · exact foretold_shortCircuit Constant.decides_and left.foretold right.foretold
    · exact foretold_shortCircuit Constant.decides_or left.foretold right.foretold
    · rw [fold, eval_strict env hop]
      exact foretold_strict hop left.foretold right.foretold
  | .ident .. | .field .. | .instanceOf .. | .call .. | .missing _ => by
    intro constant result hfold
    cases hfold

/-- **What an expression comes out as is what it folds to, if it reads nothing but literals.** -/
theorem caught : ∀ expr : Expr, expr.hasRuntimeOperands = false →
    Caught expr.fold (expr.eval env)
  | .bool id value span, _ => by
    intro result heval
    cases heval
    rfl
  | .int id value span, _ => caught_ofLiteral value
  | .unary id op operand span, hreads => caught_unary (operand.caught hreads) op
  | .binary id op left right span, hreads => by
    obtain ⟨hleft, hright⟩ := Bool.or_eq_false_iff.mp hreads
    rcases op.logical_or_strict with rfl | rfl | hop
    · exact caught_shortCircuit Constant.decides_and (left.caught hleft) (right.caught hright)
    · exact caught_shortCircuit Constant.decides_or (left.caught hleft) (right.caught hright)
    · rw [fold, eval_strict env hop]
      exact caught_strict hop (left.caught hleft) (right.caught hright)
  | .ident .., hreads | .field .., hreads | .instanceOf .., hreads | .call .., hreads => by
    cases hreads
  | .missing _, _ => by
    intro result heval
    cases heval

end Expr

/-- **Folding is exact.**  If an expression comes out as a value, in whatever environment, it folds
to no other constant; and if it reads nothing but literals, it folds to this value. -/
theorem fold_exact (expr : Expr) (env : ExprId → Option Scalar) (value : Scalar)
    (heval : expr.eval env = some value) :
    (∀ constant, expr.fold = some constant → value.constant = constant) ∧
      (expr.hasRuntimeOperands = false → expr.fold = some value.constant) :=
  ⟨fun constant hfold => expr.foretold env constant value hfold heval,
    fun hreads => expr.caught env hreads value heval⟩

/-- `-9223372036854775808 / 2 % -7 != -4`. -/
def leastHalved : Expr :=
  .binary 6 .notEq
    (.binary 4 .rem
      (.binary 2 .div (.int 0 (-9223372036854775808) Span.none) (.int 1 2 Span.none) Span.none)
      (.int 3 (-7) Span.none) Span.none)
    (.int 5 (-4) Span.none) Span.none

/-- `late && -9223372036854775808 / 2 % -7 != -4`. -/
def lateLeastHalved : Expr := .binary 8 .and (.ident 7 "late" Span.none) leastHalved Span.none

/-- The condition is false although it reads `late`, and so it comes out where `late` is true. -/
theorem fold_exact_lateLeastHalved :
    (lateLeastHalved.eval (fun _ => some (.bool true)) = some (.bool false) ∧
      lateLeastHalved.fold = some (.bool false) ∧
      ∀ constant, lateLeastHalved.fold = some constant → constant = .bool false) ∧
    leastHalved.hasRuntimeOperands = false ∧ leastHalved.fold = some (.bool false) := by
  have hlate : lateLeastHalved.eval (fun _ => some (.bool true)) = some (.bool false) := by decide
  have hleast : leastHalved.eval (fun _ => none) = some (.bool false) := by decide
  refine ⟨⟨hlate, by decide, fun constant hfold => ?_⟩, rfl, ?_⟩
  · exact ((fold_exact lateLeastHalved _ _ hlate).1 constant hfold).symm
  · exact (fold_exact leastHalved _ _ hleast).2 rfl

end GuardedMatch
