import GuardedMatch.Code.Stream
import GuardedMatch.CompileError
import GuardedMatch.Constant
import GuardedMatch.Resolution.Table
import GuardedMatch.Types.Subtyping

/-!
# Branch planning

A pattern or a condition becomes a sequence of tests that either fall through or jump to one of
two targets.  A target that is absent means that the outcome falls off the end.

A guarded pattern plans two labels of its own.  Failing sub-patterns and a false condition both
lead to its else label, where the ranges of its locals are suspended before control leaves for
the false target.  Record patterns in the condition fail straight to that label where they can,
and such targets are noted.

A condition that is known and reads nothing at run time is not evaluated.
-/

namespace GuardedMatch

/-- Where to go when a test holds and when it does not. -/
structure Targets where
  whenTrue : Option Label
  whenFalse : Option Label
deriving DecidableEq

namespace Targets

def swap (targets : Targets) : Targets := ⟨targets.whenFalse, targets.whenTrue⟩

end Targets

/-- What a test is planned inside of: the else label of the enclosing guarded pattern, and the
label that stands right after the test, to which a failure may as well jump. -/
structure Enclosing where
  guardElse : Option Label
  fallthrough : Option Label
deriving DecidableEq

namespace Enclosing

def nothing : Enclosing := ⟨none, none⟩

def withoutFallthrough (enclosing : Enclosing) : Enclosing :=
  { enclosing with fallthrough := none }

end Enclosing

/-- How far planning has come with a pattern. -/
inductive Phase
  | unanalysed
  | analysed
  | planned
  | emitted
deriving DecidableEq

namespace Phase

def text : Phase → String
  | unanalysed => "Unanalyzed"
  | analysed => "FlowAnalyzed"
  | planned => "BranchPlanned"
  | emitted => "Emitted"

end Phase

/-- The labels of a guarded pattern. -/
structure GuardPlan where
  pattern : PatternId
  thenLabel : Label
  elseLabel : Label
deriving DecidableEq

/-- What was planned for one pattern. -/
structure Emitted where
  guards : Array GuardPlan
  /-- The record patterns that fail to the else label of the guard they stand in. -/
  elseTargets : Array (PatternId × Label)
deriving DecidableEq

namespace Emitted

def empty : Emitted := ⟨#[], #[]⟩

/-- The first plan of a guarded pattern. -/
def planOf? (emitted : Emitted) (id : PatternId) : Option GuardPlan :=
  emitted.guards.find? (·.pattern == id)

/-- The first else label noted for a record pattern. -/
def elseTarget? (emitted : Emitted) (id : PatternId) : Option Label :=
  (emitted.elseTargets.find? (·.1 == id)).map (·.2)

end Emitted

/-- What planning reads: the types, what resolution found out and what the flow analysis
recorded. -/
structure Facts where
  pool : Pool
  table : Resolution
  record : FlowRecord

/-- The state of planning. -/
structure Planner where
  stream : Stream
  phases : IdMap Phase
  emitted : Emitted

/-- A refusal or a fault stops planning. -/
abbrev PlanM := EStateM Failure Planner

namespace Planner

def new (tracking : Bool) : Planner := ⟨Stream.new tracking, ∅, Emitted.empty⟩

/-- Run a step of planning.  What was emitted before a refusal stays. -/
def run {α : Type} (planner : Planner) (action : PlanM α) :
    Except Fault (Except CompileError α × Planner) :=
  match EStateM.run action planner with
  | .ok answer after => .ok (.ok answer, after)
  | .error (.refused reason) after => .ok (.error reason, after)
  | .error (.faulty fault) _ => .error fault

def phase (planner : Planner) (record : FlowRecord) (id : PatternId) : Phase :=
  match planner.phases[id]? with
  | some phase => phase
  | none => if record.snapshots.contains id then .analysed else .unanalysed

/-! ## Steps on the stream -/

def change (step : Stream → Stream) : PlanM Unit :=
  modify fun planner => { planner with stream := step planner.stream }

/-- Take a new number from the stream. -/
def take (step : Stream → Nat × Stream) : PlanM Nat :=
  modifyGet fun planner =>
    let (number, stream) := step planner.stream
    (number, { planner with stream := stream })

def refuse {α : Type} (reason : CompileError) : PlanM α := throw (.refused reason)

def fail {α : Type} (fault : Fault) : PlanM α := throw (.faulty fault)

/-- Fail if the stream gives a fault. -/
def require (fault? : Stream → Option Fault) : PlanM Unit := do
  match fault? (← get).stream with
  | some fault => fail fault
  | none => return ()

def newLabel : PlanM Label := take Stream.newLabel

def newValue : PlanM ValueId := take Stream.newValue

def emit (instr : Instr) : PlanM Unit := change (·.emit instr)

def place (label : Label) : PlanM Unit := do
  require (·.placeFault? label)
  change (·.place label)

/-- The slot of a local. -/
def declare (id : LocalId) : PlanM Nat := do
  require (·.declareFault? id)
  take (·.declare id)

def openRange (id : LocalId) : PlanM Unit := do
  if (← get).stream.canStart id then
    require (·.declareFault? id)
  change (·.openRange id)

/-- Jump, if there is somewhere to go. -/
def jump : Option Label → PlanM Unit
  | some label => emit (.goto label)
  | none => return ()

def setPhase (id : PatternId) (phase : Phase) : PlanM Unit :=
  modify fun planner => { planner with phases := planner.phases.insert id phase }

def noteGuard (plan : GuardPlan) : PlanM Unit :=
  modify fun planner =>
    { planner with
      emitted := { planner.emitted with guards := planner.emitted.guards.push plan } }

def noteElseTarget (id : PatternId) (label : Label) : PlanM Unit :=
  modify fun planner =>
    { planner with
      emitted :=
        { planner.emitted with elseTargets := planner.emitted.elseTargets.push (id, label) } }

/-- The states recorded for a pattern that has to be analysed. -/
def snapshot (facts : Facts) (id : PatternId) : PlanM Snapshot :=
  match facts.record.snapshots[id]? with
  | some snapshot => return snapshot
  | none => refuse (.notAnalysed id)

/-- Test the type of a value, unless its static type says enough. -/
def testType (facts : Facts) (id : PatternId) (value : ValueId) (static : Ty) (fail : Label) :
    PlanM Unit := do
  let ty := facts.table.patternType id
  if facts.pool.isError ty || facts.pool.isError static || !facts.pool.isSubtype static ty then
    emit (.testType value ty fail)

def store (binds : Option LocalId) (value : ValueId) : PlanM Unit :=
  match binds with
  | some id => do
    require (·.declareFault? id)
    change (·.store id value)
  | none => return ()

/-- Plan a test that fails to a label: the false target, or the label right after the test, or
else a label of its own at the end. -/
def withFailure (targets : Targets) (enclosing : Enclosing) (test : Label → PlanM Unit) :
    PlanM Unit := do
  match targets.whenFalse.or enclosing.fallthrough with
  | some fail =>
    test fail
    jump targets.whenTrue
  | none =>
    let fail ← newLabel
    test fail
    jump targets.whenTrue
    place fail

/-- Branch on a truth value. -/
def branch (value : ValueId) (targets : Targets) : PlanM Unit :=
  match targets.whenTrue, targets.whenFalse with
  | some t, some f => do
    emit (.branchIf value true t)
    emit (.goto f)
  | some t, none => emit (.branchIf value true t)
  | none, some f => emit (.branchIf value false f)
  | none, none => return ()

end Planner

/-! ## Suspending and resuming -/

open Planner in
/-- Close what a pattern has opened, down through the first sub-patterns of guards. -/
def Pattern.suspend (facts : Facts) : Pattern → PlanM Unit
  | .guarded id (first :: _) _ _ => do
    let states ← snapshot facts id
    change (·.closeUnassigned facts.record.states states.suspend)
    first.suspend facts
  | pattern => do
    let states ← snapshot facts pattern.id
    change (·.closeUnassigned facts.record.states states.suspend)

open Planner in
/-- Open again what a pattern has assigned, down through the first sub-patterns of guards. -/
def Pattern.resume (facts : Facts) : Pattern → PlanM Unit
  | .guarded id (first :: _) _ _ => do
    let states ← snapshot facts id
    change (·.openAssigned facts.record.states states.resume)
    first.resume facts
  | pattern => do
    let states ← snapshot facts pattern.id
    change (·.openAssigned facts.record.states states.resume)

/-! ## Tests -/

open Planner in
mutual

/-- Plan the test of a value, of which a static type is known, against a pattern. -/
def Pattern.plan (facts : Facts) :
    Pattern → ValueId → (static : Ty) → Targets → Enclosing → PlanM Unit
  | .type id _ binds _, value, static, targets, enclosing =>
    withFailure targets enclosing fun fail => do
      testType facts id value static fail
      store binds value
  | .record id _ components _, value, static, targets, enclosing =>
    withFailure targets enclosing fun fail => do
      if enclosing.guardElse = some fail then
        noteElseTarget id fail
      testType facts id value static fail
      Pattern.planComponents facts components 0
        (facts.pool.componentTypes (facts.table.patternType id)) value fail enclosing
  | .any .., _, _, targets, enclosing => withFailure targets enclosing fun _ => return ()
  | .guarded id patterns condition span, value, static, targets, _ => do
    let states ← snapshot facts id
    let thenLabel ← newLabel
    let elseLabel ← newLabel
    setPhase id .planned
    noteGuard ⟨id, thenLabel, elseLabel⟩
    Pattern.planAll facts patterns value static elseLabel
    match condition.skippable with
    | some true => jump targets.whenTrue
    | some false => emit (.goto elseLabel)
    | none =>
      match targets.whenTrue with
      | some t => condition.plan facts ⟨some t, none⟩ ⟨some elseLabel, some elseLabel⟩
      | none => condition.plan facts ⟨none, some elseLabel⟩ ⟨some elseLabel, none⟩
    change (·.closeUnassigned facts.record.states states.resume)
    change (·.openAssigned facts.record.states states.resume)
    match targets.whenTrue with
    | some _ =>
      place elseLabel
      (Pattern.guarded id patterns condition span).suspend facts
      jump targets.whenFalse
    | none =>
      emit (.goto thenLabel)
      place elseLabel
      (Pattern.guarded id patterns condition span).suspend facts
      jump targets.whenFalse
      place thenLabel
      (Pattern.guarded id patterns condition span).resume facts
    setPhase id .emitted
  | .missing id, _, _, _, _ => fail (.unknownPattern id)

/-- Plan the tests of one value against several patterns, which all fail to one label. -/
def Pattern.planAll (facts : Facts) :
    List Pattern → ValueId → (static : Ty) → (fail : Label) → PlanM Unit
  | [], _, _, _ => return ()
  | pattern :: patterns, value, static, fail => do
    pattern.plan facts value static ⟨none, some fail⟩ Enclosing.nothing
    Pattern.planAll facts patterns value static fail

/-- Plan the tests of the components of a record, from a position on. -/
def Pattern.planComponents (facts : Facts) :
    List Pattern → (position : Nat) → List Ty → (whole : ValueId) → (fail : Label) →
      Enclosing → PlanM Unit
  | [], _, _, _, _, _ => return ()
  | pattern :: patterns, position, types, whole, fail, enclosing => do
    let value ← newValue
    emit (.project value whole position)
    pattern.plan facts value (types.headD Ty.error) ⟨none, some fail⟩ enclosing
    Pattern.planComponents facts patterns (position + 1) types.tail whole fail enclosing

/-- Plan a condition. -/
def Expr.plan (facts : Facts) : Expr → Targets → Enclosing → PlanM Unit
  | .bool _ value _, targets, _ => jump (if value then targets.whenTrue else targets.whenFalse)
  | .unary _ .not operand _, targets, enclosing =>
    operand.plan facts targets.swap enclosing.withoutFallthrough
  | .binary _ .and left right _, targets, enclosing =>
    match left.skippable with
    | some true => right.plan facts targets enclosing
    | some false => jump targets.whenFalse
    | none =>
      match targets.whenFalse with
      | some fail => do
        left.plan facts ⟨none, some fail⟩ enclosing.withoutFallthrough
        right.plan facts targets enclosing
      | none => do
        let fail ← newLabel
        left.plan facts ⟨none, some fail⟩ enclosing.withoutFallthrough
        right.plan facts targets enclosing
        place fail
  | .binary _ .or left right _, targets, enclosing =>
    match left.skippable with
    | some false => right.plan facts targets enclosing
    | some true => jump targets.whenTrue
    | none =>
      match targets.whenTrue with
      | some success => do
        left.plan facts ⟨some success, none⟩ enclosing.withoutFallthrough
        right.plan facts targets enclosing
      | none => do
        let success ← newLabel
        left.plan facts ⟨some success, none⟩ enclosing.withoutFallthrough
        right.plan facts targets enclosing
        place success
  | .instanceOf _ tested pattern _, targets, enclosing => do
    let value ← newValue
    emit (.evalOperand value tested.id)
    pattern.plan facts value (facts.table.exprTypes[tested.id]?.getD Ty.object) targets enclosing
  | .missing id, _, _ => fail (.unknownExpr id)
  | operand, targets, _ => do
    let value ← newValue
    emit (.evalOperand value operand.id)
    branch value targets

end

open Planner in
/-- Plan the test of a value against an analysed pattern, and answer what was planned. -/
def Pattern.generate (facts : Facts) (pattern : Pattern) (value : ValueId) (static : Ty)
    (targets : Targets) : PlanM Emitted := do
  let _ ← snapshot facts pattern.id
  modify fun planner => { planner with emitted := Emitted.empty }
  pattern.plan facts value static targets Enclosing.nothing
  let emitted := (← get).emitted
  modify fun planner => { planner with emitted := Emitted.empty }
  return emitted

/-! ## Bindings without tests, and the end of ranges -/

open Planner in
mutual

/-- Store the locals of a pattern that is known to match.  Of a guard, the first sub-pattern
counts. -/
def Pattern.storeLocals : Pattern → ValueId → PlanM Unit
  | .type _ _ binds _, value => store binds value
  | .record _ _ components _, value => Pattern.storeComponents components 0 value
  | .guarded id [] _ _, _ => refuse (.emptyGuard id)
  | .guarded _ (first :: _) _ _, value => first.storeLocals value
  | .any .., _ => return ()
  | .missing id, _ => fail (.unknownPattern id)

def Pattern.storeComponents : List Pattern → (position : Nat) → (whole : ValueId) → PlanM Unit
  | [], _, _ => return ()
  | pattern :: patterns, position, whole => do
    let value ← newValue
    emit (.project value whole position)
    pattern.storeLocals value
    Pattern.storeComponents patterns (position + 1) whole

end

open Planner in
mutual

/-- End the ranges of the locals of a pattern, for all sub-patterns of guards or only for the
first ones. -/
def Pattern.wrapUp (full : Bool) : Pattern → PlanM Unit
  | .type _ _ (some id) _ => change (·.closeRange id)
  | .type _ _ none _ => return ()
  | .record _ _ components _ => Pattern.wrapUpAll full components
  | .guarded _ [] _ _ => return ()
  | .guarded _ (first :: rest) _ _ => do
    first.wrapUp full
    if full then
      Pattern.wrapUpAll full rest
  | .any .. => return ()
  | .missing id => fail (.unknownPattern id)

def Pattern.wrapUpAll (full : Bool) : List Pattern → PlanM Unit
  | [] => return ()
  | pattern :: patterns => do
    pattern.wrapUp full
    Pattern.wrapUpAll full patterns

end

end GuardedMatch
