import GuardedMatch.Fault
import GuardedMatch.Syntax.Tree

/-!
# The arena of a unit

The syntax of a unit is handed over as numbered nodes that refer to one another by number.  An
arena holds them.  Some nodes take their span from what they refer to, so those can only be
added when the reference can be followed; the others may refer to anything, even to a node that
does not exist.
-/

namespace GuardedMatch

inductive PatternNode
  | type (ty : TypeRef) (binds : Option LocalId) (span : Span)
  | record (ty : TypeRef) (components : List PatternId) (span : Span)
  | guarded (patterns : List PatternId) (condition : ExprId) (span : Span)
  | any (span : Span)

namespace PatternNode

/-- The patterns that a node refers to. -/
def patternRefs : PatternNode → List PatternId
  | record _ components _ => components
  | guarded patterns _ _ => patterns
  | type .. | any _ => []

/-- The expressions that a node refers to. -/
def exprRefs : PatternNode → List ExprId
  | guarded _ condition _ => [condition]
  | type .. | record .. | any _ => []

def span : PatternNode → Span
  | type _ _ s | record _ _ s | guarded _ _ s | any s => s

/-- A guard on no pattern at all. -/
def isEmptyGuard : PatternNode → Bool
  | guarded [] _ _ => true
  | _ => false

end PatternNode

inductive ExprNode
  | bool (value : Bool) (span : Span)
  | int (value : Int) (span : Span)
  | ident (name : String) (span : Span)
  | field (receiver : ExprId) (name : String) (span : Span)
  | binary (op : BinaryOp) (left right : ExprId) (span : Span)
  | unary (op : UnaryOp) (operand : ExprId) (span : Span)
  | instanceOf (tested : ExprId) (pattern : PatternId) (span : Span)
  | call (callee : String) (args : List ExprId) (result : TypeRef) (span : Span)

namespace ExprNode

/-- The patterns that a node refers to. -/
def patternRefs : ExprNode → List PatternId
  | instanceOf _ pattern _ => [pattern]
  | bool .. | int .. | ident .. | field .. | binary .. | unary .. | call .. => []

/-- The expressions that a node refers to. -/
def exprRefs : ExprNode → List ExprId
  | field receiver _ _ => [receiver]
  | binary _ left right _ => [left, right]
  | unary _ operand _ => [operand]
  | instanceOf tested _ _ => [tested]
  | call _ args _ _ => args
  | bool .. | int .. | ident .. => []

def span : ExprNode → Span
  | bool _ s | int _ s | ident _ s | field _ _ s | binary _ _ _ s | unary _ _ s
  | instanceOf _ _ s | call _ _ _ s => s

end ExprNode

structure Arena where
  patterns : Array PatternNode
  exprs : Array ExprNode
  locals : Array LocalDecl

namespace Arena

def empty : Arena := ⟨#[], #[], #[]⟩

/-! ## Adding nodes

A new node gets the next number of its kind. -/

def addPattern (arena : Arena) (node : PatternNode) : Arena :=
  { arena with patterns := arena.patterns.push node }

def addExpr (arena : Arena) (node : ExprNode) : Arena :=
  { arena with exprs := arena.exprs.push node }

def addLocal (arena : Arena) (decl : LocalDecl) : Arena :=
  { arena with locals := arena.locals.push decl }

def patternSpan (arena : Arena) (id : PatternId) : Except Fault Span :=
  match arena.patterns[id]? with
  | some node => .ok node.span
  | none => .error (.unknownPattern id)

def exprSpan (arena : Arena) (id : ExprId) : Except Fault Span :=
  match arena.exprs[id]? with
  | some node => .ok node.span
  | none => .error (.unknownExpr id)

/-- A type pattern reaches from its type to the name of its local, which it declares. -/
def addTypePattern (arena : Arena) (ty : TypeRef) : Option LocalDecl → Arena
  | some decl =>
    (arena.addLocal decl).addPattern
      (.type ty (some arena.locals.size) (ty.span.through decl.span))
  | none => arena.addPattern (.type ty none ty.span)

/-- A guarded pattern reaches from its first sub-pattern to its condition. -/
def addGuarded (arena : Arena) (patterns : List PatternId) (condition : ExprId) :
    Except Fault Arena := do
  let conditionSpan ← arena.exprSpan condition
  match patterns with
  | [] => return arena.addPattern (.guarded patterns condition conditionSpan)
  | first :: _ =>
    let firstSpan ← arena.patternSpan first
    return arena.addPattern (.guarded patterns condition (firstSpan.through conditionSpan))

/-- A field access reaches from its receiver to the field's name. -/
def addField (arena : Arena) (receiver : ExprId) (name : String) (nameSpan : Span) :
    Except Fault Arena := do
  let receiverSpan ← arena.exprSpan receiver
  return arena.addExpr (.field receiver name (receiverSpan.through nameSpan))

def addBinary (arena : Arena) (op : BinaryOp) (left right : ExprId) : Except Fault Arena := do
  let leftSpan ← arena.exprSpan left
  let rightSpan ← arena.exprSpan right
  return arena.addExpr (.binary op left right (leftSpan.through rightSpan))

def addUnary (arena : Arena) (op : UnaryOp) (operand : ExprId) (opSpan : Span) :
    Except Fault Arena := do
  let operandSpan ← arena.exprSpan operand
  return arena.addExpr (.unary op operand (opSpan.through operandSpan))

def addInstanceOf (arena : Arena) (tested : ExprId) (pattern : PatternId) :
    Except Fault Arena := do
  let testedSpan ← arena.exprSpan tested
  let patternSpan ← arena.patternSpan pattern
  return arena.addExpr (.instanceOf tested pattern (testedSpan.through patternSpan))

/-- The number of patterns and expressions. -/
def nodeCount (arena : Arena) : Nat := arena.patterns.size + arena.exprs.size

end Arena

end GuardedMatch
