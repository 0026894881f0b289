/-!
# Operators of guard expressions
-/

namespace GuardedMatch

inductive BinaryOp
  | and | or
  | eq | notEq | lt | ltEq | gt | gtEq
  | add | sub | mul | div | rem
deriving DecidableEq

namespace BinaryOp

def all : List BinaryOp :=
  [and, or, eq, notEq, lt, ltEq, gt, gtEq, add, sub, mul, div, rem]

def symbol : BinaryOp → String
  | and => "&&"
  | or => "||"
  | eq => "=="
  | notEq => "!="
  | lt => "<"
  | ltEq => "<="
  | gt => ">"
  | gtEq => ">="
  | add => "+"
  | sub => "-"
  | mul => "*"
  | div => "/"
  | rem => "%"

def ofSymbol? (symbol : String) : Option BinaryOp := all.find? (·.symbol == symbol)

/-- The operators that decide whether their right operand is evaluated. -/
def isLogical : BinaryOp → Bool
  | and | or => true
  | _ => false

def isEquality : BinaryOp → Bool
  | eq | notEq => true
  | _ => false

def isComparison : BinaryOp → Bool
  | eq | notEq | lt | ltEq | gt | gtEq => true
  | _ => false

def isArithmetic : BinaryOp → Bool
  | add | sub | mul | div | rem => true
  | _ => false

/-- How tightly an operator binds; a higher level binds tighter. -/
def level : BinaryOp → Nat
  | or => 1
  | and => 2
  | eq | notEq => 3
  | lt | ltEq | gt | gtEq => 4
  | add | sub => 5
  | mul | div | rem => 6

end BinaryOp

inductive UnaryOp
  | not | neg
deriving DecidableEq

namespace UnaryOp

def symbol : UnaryOp → String
  | not => "!"
  | neg => "-"

def ofSymbol? : String → Option UnaryOp
  | "!" => some not
  | "-" => some neg
  | _ => none

end UnaryOp

end GuardedMatch
