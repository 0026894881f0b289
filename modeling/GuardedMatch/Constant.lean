import GuardedMatch.Syntax.Tree

/-!
# Constants

The value of a condition that is known before the program runs.  Only literals and operators
over them have one; names, fields, calls and `instanceof` never do.  `&&` and `||` have a value
as soon as either side decides it, whatever the other side is.

Integers are 64 bits wide.  A result that does not fit, and a division by zero, is no constant.
-/

namespace GuardedMatch

inductive Constant
  | bool (value : Bool)
  | int (value : Int)
deriving DecidableEq

namespace Constant

def bool? : Constant → Option Bool
  | bool value => some value
  | int _ => none

/-- An integer, if it fits in 64 bits. -/
def checked (value : Int) : Option Constant :=
  if -9223372036854775808 ≤ value ∧ value < 9223372036854775808 then some (int value) else none

/-- Division rounds toward zero and the remainder has the sign of the dividend.  The least
integer divided by `-1` does not fit, and then there is no remainder either. -/
def ofInts (op : BinaryOp) (l r : Int) : Option Constant :=
  match op with
  | .eq => some (bool (l == r))
  | .notEq => some (bool (l != r))
  | .lt => some (bool (l < r))
  | .ltEq => some (bool (l ≤ r))
  | .gt => some (bool (l > r))
  | .gtEq => some (bool (l ≥ r))
  | .add => checked (l + r)
  | .sub => checked (l - r)
  | .mul => checked (l * r)
  | .div => if r = 0 then none else checked (l.tdiv r)
  | .rem => if r = 0 then none else (checked (l.tdiv r)).map fun _ => int (l.tmod r)
  | .and | .or => none

def ofBools (op : BinaryOp) (l r : Bool) : Option Constant :=
  match op with
  | .eq => some (bool (l == r))
  | .notEq => some (bool (l != r))
  | _ => none

def unary (op : UnaryOp) (operand : Option Constant) : Option Constant :=
  match op, operand with
  | .not, some (bool value) => some (bool (!value))
  | .neg, some (int value) => checked (-value)
  | _, _ => none

/-- A logical operator is decided by either side; every other one needs both. -/
def binary (op : BinaryOp) (left right : Option Constant) : Option Constant :=
  match op, left, right with
  | .and, some (bool false), _ => some (bool false)
  | .and, _, some (bool false) => some (bool false)
  | .and, some (bool true), some (bool true) => some (bool true)
  | .and, _, _ => none
  | .or, some (bool true), _ => some (bool true)
  | .or, _, some (bool true) => some (bool true)
  | .or, some (bool false), some (bool false) => some (bool false)
  | .or, _, _ => none
  | op, some (int l), some (int r) => ofInts op l r
  | op, some (bool l), some (bool r) => ofBools op l r
  | _, _, _ => none

theorem unary_not {operand : Option Constant} {outcome : Bool} :
    unary .not operand = some (bool outcome) ↔ operand = some (bool !outcome) := by
  rcases operand with _ | (_ | _) | _ <;> cases outcome <;> simp [unary]

theorem and_true {left right : Option Constant} :
    binary .and left right = some (bool true) ↔
      left = some (bool true) ∧ right = some (bool true) := by
  rcases left with _ | (_ | _) | _ <;> rcases right with _ | (_ | _) | _ <;> simp [binary]

theorem and_false {left right : Option Constant} :
    binary .and left right = some (bool false) ↔
      left = some (bool false) ∨ right = some (bool false) := by
  rcases left with _ | (_ | _) | _ <;> rcases right with _ | (_ | _) | _ <;> simp [binary]

theorem or_true {left right : Option Constant} :
    binary .or left right = some (bool true) ↔
      left = some (bool true) ∨ right = some (bool true) := by
  rcases left with _ | (_ | _) | _ <;> rcases right with _ | (_ | _) | _ <;> simp [binary]

theorem or_false {left right : Option Constant} :
    binary .or left right = some (bool false) ↔
      left = some (bool false) ∧ right = some (bool false) := by
  rcases left with _ | (_ | _) | _ <;> rcases right with _ | (_ | _) | _ <;> simp [binary]

end Constant

namespace Expr

/-- The constant that an expression is known to be. -/
def fold : Expr → Option Constant
  | bool _ value _ => some (.bool value)
  | int _ value _ => some (.int value)
  | unary _ op operand _ => Constant.unary op operand.fold
  | binary _ op left right _ => Constant.binary op left.fold right.fold
  | _ => none

/-- The truth value that a condition is known to have. -/
def truth (expr : Expr) : Option Bool := expr.fold.bind Constant.bool?

/-- Whether evaluating the expression reads anything but literals. -/
def hasRuntimeOperands : Expr → Bool
  | bool .. | int .. | missing _ => false
  | unary _ _ operand _ => operand.hasRuntimeOperands
  | binary _ _ left right _ => left.hasRuntimeOperands || right.hasRuntimeOperands
  | ident .. | field .. | instanceOf .. | call .. => true

/-- The truth value of a condition that need not be evaluated at all. -/
def skippable (expr : Expr) : Option Bool :=
  if expr.hasRuntimeOperands then none else expr.truth

/-- The fault of a missing operand that folding comes across. -/
def foldFault : Expr → Option Fault
  | missing id => some (.unknownExpr id)
  | unary _ _ operand _ => operand.foldFault
  | binary _ _ left right _ => left.foldFault.or right.foldFault
  | _ => none

end Expr

end GuardedMatch
