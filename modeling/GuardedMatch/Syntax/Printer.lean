import GuardedMatch.Syntax.Tree

/-!
# Printing patterns and guards

Text is normalised: single spaces, and parentheses only where the level of an operator is
below the least level that its position allows.  A left operand may have the level of its
operator and a right operand has to be above it, so operators of one level group to the left.

A local is printed by its name, which the printer is told by `nameOf`.
-/

namespace GuardedMatch

/-- The level of `instanceof`, that of the relational operators. -/
def instanceOfLevel : Nat := 4

/-- The level of the unary operators, above all binary ones. -/
def unaryLevel : Nat := 7

/-- Put parentheses around a text if it needs them. -/
def parenthesize (needed : Bool) (text : String) : String :=
  if needed then "(" ++ text ++ ")" else text

def TypeRef.text (ty : TypeRef) : String := ty.name.getD "var"

mutual

def Pattern.render (nameOf : LocalId → String) : Pattern → String
  | .type _ ty (some binding) _ => ty.text ++ " " ++ nameOf binding
  | .type _ ty none _ => ty.text ++ " _"
  | .record _ ty components _ =>
    ty.text ++ "(" ++ Pattern.renderAll nameOf components ++ ")"
  | .guarded _ patterns condition _ =>
    Pattern.renderAll nameOf patterns ++ " when " ++ condition.render nameOf 0
  | .any _ _ => "_"
  | .missing _ => ""

def Pattern.renderAll (nameOf : LocalId → String) : List Pattern → String
  | [] => ""
  | [pattern] => pattern.render nameOf
  | pattern :: patterns => pattern.render nameOf ++ ", " ++ Pattern.renderAll nameOf patterns

/-- Print an expression where every operator below the level `least` needs parentheses. -/
def Expr.render (nameOf : LocalId → String) : Expr → (least : Nat) → String
  | .bool _ value _, _ => if value then "true" else "false"
  | .int _ value _, _ => toString value
  | .ident _ name _, _ => name
  | .field _ receiver name _, _ => receiver.render nameOf (unaryLevel + 1) ++ "." ++ name
  | .binary _ op left right _, least =>
    parenthesize (op.level < least)
      (left.render nameOf op.level ++ " " ++ op.symbol ++ " " ++
        right.render nameOf (op.level + 1))
  | .unary _ op operand _, _ => op.symbol ++ operand.render nameOf unaryLevel
  | .instanceOf _ tested pattern _, least =>
    parenthesize (instanceOfLevel < least)
      (tested.render nameOf instanceOfLevel ++ " instanceof " ++ pattern.render nameOf)
  | .call _ callee args _ _, _ => callee ++ "(" ++ Expr.renderAll nameOf args ++ ")"
  | .missing _, _ => ""

def Expr.renderAll (nameOf : LocalId → String) : List Expr → String
  | [] => ""
  | [expr] => expr.render nameOf 0
  | expr :: exprs => expr.render nameOf 0 ++ ", " ++ Expr.renderAll nameOf exprs

end

end GuardedMatch
