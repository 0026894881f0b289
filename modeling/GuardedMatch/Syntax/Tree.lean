import GuardedMatch.Span
import GuardedMatch.Syntax.Operator

/-!
# Patterns and guard expressions

A pattern tests a value and binds locals.  A guarded pattern carries a condition, and a
condition may test a value with `instanceof` against a pattern again, so the two kinds of tree
are mutual.  Every node carries the number under which facts about it are kept, and its span.

A reference that leads nowhere appears in a tree as a `missing` node.
-/

namespace GuardedMatch

/-- A type as written; no name stands for `var`. -/
structure TypeRef where
  name : Option String
  span : Span
deriving DecidableEq

/-- The declaration of a local variable. -/
structure LocalDecl where
  name : String
  span : Span
deriving DecidableEq

mutual

inductive Pattern
  /-- Matches the values of a type, and binds one to a local. -/
  | type (id : PatternId) (ty : TypeRef) (binds : Option LocalId) (span : Span)
  /-- Matches the values of a record type whose components match. -/
  | record (id : PatternId) (ty : TypeRef) (components : List Pattern) (span : Span)
  /-- Matches a value that all sub-patterns match and for which the condition holds. -/
  | guarded (id : PatternId) (patterns : List Pattern) (condition : Expr) (span : Span)
  /-- Matches everything and binds nothing. -/
  | any (id : PatternId) (span : Span)
  | missing (id : PatternId)

inductive Expr
  | bool (id : ExprId) (value : Bool) (span : Span)
  | int (id : ExprId) (value : Int) (span : Span)
  | ident (id : ExprId) (name : String) (span : Span)
  | field (id : ExprId) (receiver : Expr) (name : String) (span : Span)
  | binary (id : ExprId) (op : BinaryOp) (left right : Expr) (span : Span)
  | unary (id : ExprId) (op : UnaryOp) (operand : Expr) (span : Span)
  | instanceOf (id : ExprId) (tested : Expr) (pattern : Pattern) (span : Span)
  | call (id : ExprId) (callee : String) (args : List Expr) (result : TypeRef) (span : Span)
  | missing (id : ExprId)

end

namespace Pattern

def id : Pattern → PatternId
  | type id .. | record id .. | guarded id .. | any id _ | missing id => id

def span : Pattern → Span
  | type _ _ _ s | record _ _ _ s | guarded _ _ _ s | any _ s => s
  | missing _ => Span.none

/-- What kind of pattern this is, in words. -/
def kind : Pattern → String
  | type .. => "type pattern"
  | record .. => "record pattern"
  | guarded .. => "guarded pattern"
  | any .. => "unnamed pattern"
  | missing _ => "missing pattern"

/-- The local that names the whole value: that of a type pattern, also below guards on it
alone. -/
def wholeLocal : Pattern → Option LocalId
  | type _ _ binds _ => binds
  | guarded _ [only] _ _ => only.wholeLocal
  | _ => none

/-- The first sub-pattern below all guards.  A guard on nothing has none. -/
def core : Pattern → Option Pattern
  | guarded _ [] _ _ => none
  | guarded _ (first :: _) _ _ => first.core
  | pattern => some pattern

end Pattern

namespace Expr

def id : Expr → ExprId
  | bool id .. | int id .. | ident id .. | field id .. | binary id .. | unary id ..
  | instanceOf id .. | call id .. | missing id => id

def span : Expr → Span
  | bool _ _ s | int _ _ s | ident _ _ s | field _ _ _ s | binary _ _ _ _ s | unary _ _ _ s
  | instanceOf _ _ _ s | call _ _ _ _ s => s
  | missing _ => Span.none

end Expr

end GuardedMatch
