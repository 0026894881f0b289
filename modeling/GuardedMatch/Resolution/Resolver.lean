import GuardedMatch.Bindings
import GuardedMatch.Constant
import GuardedMatch.Diagnostic.Queue
import GuardedMatch.Resolution.Scope
import GuardedMatch.Resolution.Table
import GuardedMatch.Syntax.Forest
import GuardedMatch.Types.Subtyping

/-!
# Resolution

Resolving a pattern finds its type, given the type of the value it tests, and resolving an
expression finds its type in a scope.  All findings go into the table.

A guarded pattern takes the type of its first sub-pattern.  Its condition is resolved in the
scope extended by the locals of its sub-patterns, and then three things are noted about the
condition: whether it can never be true, which names in it read a local, and which record
patterns in it belong to this guard.  A guarded pattern is resolved once for each table.

`a && b` resolves `b` where the locals are visible that `a` binds when it is true, `a || b`
where those are visible that `a` binds when it is false.
-/

namespace GuardedMatch

/-! ## What a condition holds -/

mutual

/-- The record patterns that belong to the guard a pattern stands in: all of them, down to the
conditions of further guards. -/
def Pattern.guardRecords : Pattern → List PatternId
  | .record id _ components _ => id :: Pattern.guardRecordsAll components
  | .guarded _ patterns _ _ => Pattern.guardRecordsAll patterns
  | .type .. | .any .. | .missing _ => []

def Pattern.guardRecordsAll : List Pattern → List PatternId
  | [] => []
  | pattern :: patterns => pattern.guardRecords ++ Pattern.guardRecordsAll patterns

end

mutual

/-- The record patterns in a condition that belong to the guard with this condition. -/
def Expr.guardRecords : Expr → List PatternId
  | .field _ receiver _ _ => receiver.guardRecords
  | .binary _ _ left right _ => left.guardRecords ++ right.guardRecords
  | .unary _ _ operand _ => operand.guardRecords
  | .instanceOf _ tested pattern _ => tested.guardRecords ++ pattern.guardRecords
  | .call _ _ args _ _ => Expr.guardRecordsAll args
  | .bool .. | .int .. | .ident .. | .missing _ => []

def Expr.guardRecordsAll : List Expr → List PatternId
  | [] => []
  | expr :: exprs => expr.guardRecords ++ Expr.guardRecordsAll exprs

end

/-- Whether a node reads a local: an identifier that means one, or a field of one. -/
def Expr.readsLocal (identLocals : IdMap LocalId) : Expr → Bool
  | .ident id _ _ => identLocals.contains id
  | .field _ receiver _ _ => identLocals.contains receiver.id
  | _ => false

/-- The nodes in a condition that read a local. -/
def Expr.guardNames (identLocals : IdMap LocalId) (condition : Expr) : List ExprId :=
  ((condition.visits.filterMap Visit.expr?).filter (Expr.readsLocal identLocals)).map Expr.id

/-! ## The state of a resolution -/

structure Resolver where
  table : Resolution
  /-- Where diagnostics go. -/
  queue : Queue

/-- A fault stops a resolution. -/
abbrev ResolveM := EStateM Fault Resolver

namespace Resolver

def offer (diagnostic : Diagnostic) : ResolveM Unit :=
  modify fun state => { state with queue := (state.queue.add diagnostic).2 }

def update (change : Resolution → Resolution) : ResolveM Unit :=
  modify fun state => { state with table := change state.table }

/-- Note the type of a pattern and answer it. -/
def patternHas (id : PatternId) (ty : Ty) : ResolveM Ty := do
  update (·.setPatternType id ty)
  return ty

/-- Note the type of an expression and answer it. -/
def exprHas (id : ExprId) (ty : Ty) : ResolveM Ty := do
  update (·.setExprType id ty)
  return ty

/-- The name of a local that has to be declared. -/
def localName (locals : Array LocalDecl) (id : LocalId) : ResolveM String :=
  match locals[id]? with
  | some decl => return decl.name
  | none => throw (.unknownLocal id)

/-- Make locals visible, with the types they have so far. -/
def extend (locals : Array LocalDecl) (scope : Scope) (bindings : Bindings) : ResolveM Scope :=
  bindings.foldlM (fun scope id => do
    let name ← localName locals id
    let ty := (← get).table.localTypes[id]?.getD Ty.error
    return scope.declare ⟨name, id, ty⟩) scope

/-! ## Types as written -/

def namedType (pool : Pool) (name : String) (span : Span) : ResolveM Ty :=
  match pool.lookup name with
  | some ty => return ty
  | none => do
    offer (Diagnostic.unknownType span name)
    return Ty.error

/-- Whether a value of the expected type can match a pattern of this type. -/
def compatible (pool : Pool) (expected ty : Ty) : Bool :=
  pool.isError expected || pool.isError ty || pool.isCastable expected ty

def expectCompatible (pool : Pool) (span : Span) (expected ty : Ty) : ResolveM Unit := do
  if !compatible pool expected ty then
    offer (Diagnostic.incompatiblePattern span (pool.display expected) (pool.display ty))

/-- A type pattern has the type it names, or the expected one if it says `var`. -/
def typePattern (pool : Pool) (written : TypeRef) (binds : Option LocalId) (span : Span)
    (expected : Ty) : ResolveM Ty := do
  let ty ← match written.name with
    | none => pure expected
    | some name => namedType pool name written.span
  expectCompatible pool span expected ty
  match binds with
  | some id => update (·.setLocalType id ty)
  | none => pure ()
  return ty

/-- The type of a record pattern with `arity` sub-patterns, and the types that these have to
match.  If the type is no record, there is nothing to match them against. -/
def recordPattern (pool : Pool) (written : TypeRef) (arity : Nat) (span : Span) (expected : Ty) :
    ResolveM (Ty × List Ty) := do
  match written.name with
  | none =>
    offer (Diagnostic.varRecord written.span)
    return (Ty.error, [])
  | some name =>
    let ty ← namedType pool name written.span
    if pool.isError ty then
      return (Ty.error, [])
    if !pool.isRecord ty then
      offer (Diagnostic.notARecord written.span (pool.display ty))
      return (Ty.error, [])
    expectCompatible pool span expected ty
    let types := pool.componentTypes ty
    if types.length ≠ arity then
      offer (Diagnostic.componentCount span (pool.display ty) types.length arity)
    return (ty, types)

/-! ## Operators -/

/-- Note the conversion that takes an operand from one type to another. -/
def convert (pool : Pool) (operand : ExprId) (source target : Ty) : ResolveM Unit := do
  if source ≠ target ∧ !pool.isError source then
    let conversion := match source.unboxed? with
      | some primitive => if primitive = target then .unbox else .unboxAndWiden target
      | none => .widen target
    update (·.setConversion operand conversion)

/-- Whether an operand can stand where a boolean has to; the error type can. -/
def expectBoolean (pool : Pool) (operand : ExprId) (ty : Ty) : ResolveM Bool := do
  if pool.isBoolean ty then
    convert pool operand ty Ty.boolean
    return true
  return pool.isError ty

/-- A condition has to be boolean. -/
def guard (pool : Pool) (condition : Expr) (ty : Ty) : ResolveM Unit := do
  if pool.isBoolean ty then
    convert pool condition.id ty Ty.boolean
  else if !pool.isError ty then
    offer (Diagnostic.guardNotBoolean condition.span (pool.display ty))

def unaryMismatch (pool : Pool) (span : Span) (op : UnaryOp) (ty : Ty) : ResolveM Unit :=
  offer (Diagnostic.unaryMismatch span op.symbol (pool.display ty))

def binaryMismatch (pool : Pool) (span : Span) (op : BinaryOp) (left right : Ty) :
    ResolveM Unit :=
  offer (Diagnostic.binaryMismatch span op.symbol (pool.display left) (pool.display right))

/-- The type of a unary operator applied to an operand. -/
def unary (pool : Pool) (span : Span) (op : UnaryOp) (operand : ExprId) (ty : Ty) :
    ResolveM Ty := do
  match op with
  | .not =>
    if !(← expectBoolean pool operand ty) then
      unaryMismatch pool span op ty
    return Ty.boolean
  | .neg =>
    if pool.isError ty then
      return Ty.error
    match pool.promote ty Ty.int with
    | some promoted =>
      convert pool operand ty promoted
      return promoted
    | none =>
      unaryMismatch pool span op ty
      return Ty.error

/-- The type of `&&` or `||` applied to two operands. -/
def logical (pool : Pool) (span : Span) (op : BinaryOp) (left : ExprId) (leftTy : Ty)
    (right : ExprId) (rightTy : Ty) : ResolveM Ty := do
  let leftOk ← expectBoolean pool left leftTy
  let rightOk ← expectBoolean pool right rightTy
  if !(leftOk && rightOk) then
    binaryMismatch pool span op leftTy rightTy
  return Ty.boolean

/-- The type of any other binary operator applied to two operands.  Numbers are promoted to a
common type; equality also compares two booleans or two references. -/
def binary (pool : Pool) (span : Span) (op : BinaryOp) (left : ExprId) (leftTy : Ty)
    (right : ExprId) (rightTy : Ty) : ResolveM Ty := do
  match pool.promote leftTy rightTy with
  | some promoted =>
    convert pool left leftTy promoted
    convert pool right rightTy promoted
    return if op.isArithmetic then promoted else Ty.boolean
  | none =>
    if op.isEquality && pool.isBoolean leftTy && pool.isBoolean rightTy then
      convert pool left leftTy Ty.boolean
      convert pool right rightTy Ty.boolean
      return Ty.boolean
    if op.isEquality && !pool.isPrimitive leftTy && !pool.isPrimitive rightTy then
      return Ty.boolean
    if !(pool.isError leftTy || pool.isError rightTy) then
      binaryMismatch pool span op leftTy rightTy
    return if op.isArithmetic then Ty.error else Ty.boolean

/-- An integer literal is an `int` if it fits in 32 bits. -/
def literalType (value : Int) : Ty :=
  if -2147483648 ≤ value ∧ value < 2147483648 then Ty.int else Ty.long

/-- The type of a component, by name. -/
def field (pool : Pool) (span : Span) (receiver : Ty) (name : String) : ResolveM Ty := do
  if pool.isError receiver then
    return Ty.error
  match (pool.components receiver).find? (·.name == name) with
  | some component => return component.ty
  | none =>
    offer (Diagnostic.unknownComponent span name (pool.display receiver))
    return Ty.error

/-- The type of an identifier, which then means the innermost local of its name. -/
def ident (id : ExprId) (name : String) (span : Span) (scope : Scope) : ResolveM Ty :=
  match scope.lookup name with
  | some entry => do
    update (·.setIdentLocal id entry.id)
    return entry.ty
  | none => do
    offer (Diagnostic.unknownName span name)
    return Ty.error

/-- A call has its declared result type. -/
def result (pool : Pool) (written : TypeRef) : ResolveM Ty :=
  match written.name with
  | some name => namedType pool name written.span
  | none => return Ty.error

/-- Note what the condition of a guarded pattern holds. -/
def tagCondition (locals : Array LocalDecl) (owner : PatternId) (condition : Expr) :
    ResolveM Unit := do
  if condition.truth = some false then
    offer (Diagnostic.guardAlwaysFalse condition.span)
  condition.allLocals.forM fun id => discard (localName locals id)
  update fun table =>
    (condition.guardNames table.identLocals).foldl Resolution.tagGuardName table
  update fun table => condition.guardRecords.foldl (Resolution.setElseOwner · owner ·) table

end Resolver

/-! ## Trees -/

open Resolver in
mutual

/-- Resolve a pattern against a value of the expected type. -/
def Pattern.resolve (pool : Pool) (locals : Array LocalDecl) :
    Pattern → (expected : Ty) → Scope → ResolveM Ty
  | .type id written binds span, expected, _ => do
    let ty ← typePattern pool written binds span expected
    patternHas id ty
  | .record id written components span, expected, scope => do
    let (ty, types) ← recordPattern pool written components.length span expected
    Pattern.resolveComponents pool locals components types scope
    patternHas id ty
  | .guarded id patterns condition _, expected, scope => do
    match (← get).table.patternTypes[id]? with
    | some ty => return ty
    | none =>
      let types ← Pattern.resolveAll pool locals patterns expected scope
      let ty ← patternHas id (types.headD expected)
      let inner ← extend locals scope (Pattern.bindingsAll patterns)
      let conditionTy ← condition.resolve pool locals inner
      guard pool condition conditionTy
      tagCondition locals id condition
      return ty
  | .any id _, expected, _ => patternHas id expected
  | .missing id, _, _ => throw (.unknownPattern id)

/-- Resolve patterns that all test the same value. -/
def Pattern.resolveAll (pool : Pool) (locals : Array LocalDecl) :
    List Pattern → (expected : Ty) → Scope → ResolveM (List Ty)
  | [], _, _ => return []
  | pattern :: patterns, expected, scope => do
    let ty ← pattern.resolve pool locals expected scope
    let types ← Pattern.resolveAll pool locals patterns expected scope
    return ty :: types

/-- Resolve the patterns of components against the types of the components; those without a
type are resolved against the error type. -/
def Pattern.resolveComponents (pool : Pool) (locals : Array LocalDecl) :
    List Pattern → List Ty → Scope → ResolveM Unit
  | [], _, _ => return ()
  | pattern :: patterns, types, scope => do
    let _ ← pattern.resolve pool locals (types.headD Ty.error) scope
    Pattern.resolveComponents pool locals patterns types.tail scope

/-- Resolve an expression in a scope. -/
def Expr.resolve (pool : Pool) (locals : Array LocalDecl) : Expr → Scope → ResolveM Ty
  | .bool id _ _, _ => exprHas id Ty.boolean
  | .int id value _, _ => exprHas id (literalType value)
  | .ident id name span, scope => do
    let ty ← ident id name span scope
    exprHas id ty
  | .field id receiver name span, scope => do
    let receiverTy ← receiver.resolve pool locals scope
    let ty ← field pool span receiverTy name
    exprHas id ty
  | .unary id op operand span, scope => do
    let operandTy ← operand.resolve pool locals scope
    let ty ← unary pool span op operand.id operandTy
    exprHas id ty
  | .binary id op left right span, scope => do
    let leftTy ← left.resolve pool locals scope
    if op.isLogical then
      let inner ← extend locals scope (left.bindings (op == .and))
      let rightTy ← right.resolve pool locals inner
      let ty ← logical pool span op left.id leftTy right.id rightTy
      exprHas id ty
    else
      let rightTy ← right.resolve pool locals scope
      let ty ← binary pool span op left.id leftTy right.id rightTy
      exprHas id ty
  | .instanceOf id tested pattern _, scope => do
    let testedTy ← tested.resolve pool locals scope
    let _ ← pattern.resolve pool locals testedTy scope
    exprHas id Ty.boolean
  | .call id _ args written _, scope => do
    Expr.resolveAll pool locals args scope
    let ty ← result pool written
    exprHas id ty
  | .missing id, _ => throw (.unknownExpr id)

/-- Resolve the arguments of a call. -/
def Expr.resolveAll (pool : Pool) (locals : Array LocalDecl) :
    List Expr → Scope → ResolveM Unit
  | [], _ => return ()
  | expr :: exprs, scope => do
    let _ ← expr.resolve pool locals scope
    Expr.resolveAll pool locals exprs scope

end

/-- Resolve an expression that stands as a guard. -/
def Expr.resolveGuard (pool : Pool) (locals : Array LocalDecl) (condition : Expr)
    (scope : Scope) : ResolveM Ty := do
  let ty ← condition.resolve pool locals scope
  Resolver.guard pool condition ty
  return ty

/-! ## Entry points -/

/-- The outcome of a pass that has a queue of its own, which drops nothing: its answer, what it
found out, and the diagnostics it offers. -/
structure Resolved where
  ty : Ty
  table : Resolution
  offered : List Diagnostic

/-- Run a resolution on a table. -/
def Resolution.run (table : Resolution) (action : ResolveM Ty) : Except Fault Resolved :=
  match EStateM.run action ⟨table, .new .unlimited⟩ with
  | .ok ty state => .ok ⟨ty, state.table, state.queue.diagnostics⟩
  | .error fault _ => .error fault

namespace Forest

def resolvePattern (forest : Forest) (pool : Pool) (table : Resolution) (id : PatternId)
    (expected : Ty) (scope : Scope) : Except Fault Resolved :=
  table.run ((forest.pattern id).resolve pool forest.locals expected scope)

def resolveExpr (forest : Forest) (pool : Pool) (table : Resolution) (id : ExprId)
    (scope : Scope) : Except Fault Resolved :=
  table.run ((forest.expr id).resolve pool forest.locals scope)

def resolveGuard (forest : Forest) (pool : Pool) (table : Resolution) (id : ExprId)
    (scope : Scope) : Except Fault Resolved :=
  table.run ((forest.expr id).resolveGuard pool forest.locals scope)

/-- Whether the value of the expected type can match a resolved pattern.  Only the first
sub-pattern of a guard counts, and what is not resolved is taken to match. -/
def isCompatible (forest : Forest) (pool : Pool) (table : Resolution) (id : PatternId)
    (expected : Ty) : Except Fault Bool :=
  match (forest.pattern id).core with
  | none => .ok true
  | some (.missing id) => .error (.unknownPattern id)
  | some (.any ..) => .ok true
  | some core =>
    match table.patternTypes[core.id]? with
    | some ty => .ok (Resolver.compatible pool expected ty)
    | none => .ok true

end Forest

end GuardedMatch
