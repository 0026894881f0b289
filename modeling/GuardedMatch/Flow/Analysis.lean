import GuardedMatch.Diagnostic.Queue
import GuardedMatch.Flow.State
import GuardedMatch.Resolution.Table
import GuardedMatch.Syntax.Forest

/-!
# Definite assignment

A flow goes through a pattern on the assumption that it matches, and through an expression in
the order of evaluation.  Literals, `&&`, `||`, `!` and `instanceof` split the flow by outcome.

Every pattern leaves a snapshot.  For a guarded pattern it holds the states after its first
sub-pattern and after its condition; for any other pattern those before and after it.

An identifier that means a local which is not assigned where it is read is reported.
-/

namespace GuardedMatch

structure Analyser where
  record : FlowRecord
  /-- Where diagnostics go. -/
  queue : Queue

/-- A fault stops an analysis. -/
abbrev FlowM := EStateM Fault Analyser

namespace Analyser

def offer (diagnostic : Diagnostic) : FlowM Unit :=
  modify fun state => { state with queue := (state.queue.add diagnostic).2 }

/-- Record where a flow stands and answer the index of the state. -/
def recordState (flow : Flow) : FlowM StateIndex := do
  let index := (← get).record.states.size
  modify fun state => { state with record := state.record.push flow }
  return index

def setSnapshot (id : PatternId) (suspend resume : StateIndex) : FlowM Unit :=
  modify fun state => { state with record := state.record.setSnapshot id ⟨suspend, resume⟩ }

/-- Report a read of a local that is not assigned. -/
def read (table : Resolution) (locals : Array LocalDecl) (id : ExprId) (span : Span)
    (flow : Flow) : FlowM Unit := do
  match table.identLocals[id]? with
  | none => return ()
  | some target =>
    if !flow.isAssigned target then
      match locals[target]? with
      | some decl => offer (Diagnostic.unassignedLocal span decl.name)
      | none => throw (.unknownLocal target)

end Analyser

open Analyser in
mutual

/-- The flow after a pattern has matched. -/
def Pattern.analyse (table : Resolution) (locals : Array LocalDecl) :
    Pattern → Flow → FlowM Flow
  | .type id _ binds _, flow => do
    let before ← recordState flow
    let flow := match binds with
      | some binding => flow.assign binding
      | none => flow
    let after ← recordState flow
    setSnapshot id before after
    return flow
  | .record id _ components _, flow => do
    let before ← recordState flow
    let flow ← Pattern.analyseAll table locals components flow
    let after ← recordState flow
    setSnapshot id before after
    return flow
  | .guarded id [] _ _, _ => throw (.emptyGuard id)
  | .guarded id (first :: rest) condition _, flow => do
    let flow ← first.analyse table locals flow
    let suspend ← recordState flow
    let flow ← Pattern.analyseAll table locals rest flow
    let flow ← condition.analyse table locals flow
    let flow := flow.assumeTrue
    let resume ← recordState flow
    setSnapshot id suspend resume
    return flow
  | .any id _, flow => do
    let before ← recordState flow
    let after ← recordState flow
    setSnapshot id before after
    return flow
  | .missing id, _ => throw (.unknownPattern id)

/-- The flow after patterns have matched one after the other. -/
def Pattern.analyseAll (table : Resolution) (locals : Array LocalDecl) :
    List Pattern → Flow → FlowM Flow
  | [], flow => return flow
  | pattern :: patterns, flow => do
    let flow ← pattern.analyse table locals flow
    Pattern.analyseAll table locals patterns flow

/-- The flow after an expression has been evaluated. -/
def Expr.analyse (table : Resolution) (locals : Array LocalDecl) : Expr → Flow → FlowM Flow
  | .bool _ true _, flow => return .split flow.joined FlowState.unreachable
  | .bool _ false _, flow => return .split FlowState.unreachable flow.joined
  | .int .., flow => return flow
  | .ident id _ span, flow => do
    read table locals id span flow
    return flow
  | .field _ receiver _ _, flow => receiver.analyse table locals flow
  | .unary _ .not operand _, flow => do
    let flow ← operand.analyse table locals flow
    return flow.swap
  | .unary _ .neg operand _, flow => operand.analyse table locals flow
  | .binary _ op left right _, flow => do
    let left ← left.analyse table locals flow
    match op with
    | .and =>
      let right ← right.analyse table locals (.plain left.whenTrue)
      return .split right.whenTrue (left.whenFalse.merge right.whenFalse)
    | .or =>
      let right ← right.analyse table locals (.plain left.whenFalse)
      return .split (left.whenTrue.merge right.whenTrue) right.whenFalse
    | _ =>
      let right ← right.analyse table locals left.join
      return right.join
  | .instanceOf _ tested pattern _, flow => do
    let before ← tested.analyse table locals flow
    let matched ← pattern.analyse table locals before.join
    return .split matched.whenTrue before.joined
  | .call _ _ args _ _, flow => Expr.analyseAll table locals args flow
  | .missing id, _ => throw (.unknownExpr id)

/-- The flow after the arguments of a call have been evaluated. -/
def Expr.analyseAll (table : Resolution) (locals : Array LocalDecl) :
    List Expr → Flow → FlowM Flow
  | [], flow => return flow
  | expr :: exprs, flow => do
    let flow ← expr.analyse table locals flow
    Expr.analyseAll table locals exprs flow.join

end

/-! ## Entry points -/

/-- The outcome of an analysis that has a queue of its own, which drops nothing: the flow at its
end, the states recorded so far, and the diagnostics it offers. -/
structure Analysed where
  flow : Flow
  record : FlowRecord
  offered : List Diagnostic

/-- Run an analysis on a record. -/
def FlowRecord.run (record : FlowRecord) (action : FlowM Flow) : Except Fault Analysed :=
  match EStateM.run action ⟨record, .new .unlimited⟩ with
  | .ok flow state => .ok ⟨flow, state.record, state.queue.diagnostics⟩
  | .error fault _ => .error fault

namespace Forest

def analysePattern (forest : Forest) (table : Resolution) (record : FlowRecord) (id : PatternId)
    (flow : Flow) : Except Fault Analysed :=
  record.run ((forest.pattern id).analyse table forest.locals flow)

def analyseExpr (forest : Forest) (table : Resolution) (record : FlowRecord) (id : ExprId)
    (flow : Flow) : Except Fault Analysed :=
  record.run ((forest.expr id).analyse table forest.locals flow)

end Forest

end GuardedMatch
