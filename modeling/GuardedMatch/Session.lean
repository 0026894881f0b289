import GuardedMatch.Code.Plan
import GuardedMatch.Coverage.Switch
import GuardedMatch.Diagnostic.Queue
import GuardedMatch.Flow.Analysis
import GuardedMatch.Resolution.Resolver

/-!
# Compiling a unit

A unit is the body of one method.  It has sites, where a value is tested against one pattern,
and switches, where a value is tested against several.  All of them are resolved, then
analysed, then the switches are checked, then the code is planned.

The passes report into one queue, which is handed on from pass to pass and flushed at the end.
-/

namespace GuardedMatch

structure Site where
  pattern : PatternId
  selector : ExprId
  scope : Scope

structure Switch where
  selector : ExprId
  cases : List PatternId
  scope : Scope
  span : Span

structure CompilationUnit where
  name : String
  arena : Arena
  sites : List Site
  switches : List Switch

structure Config where
  diagnostics : QueueConfig
  /-- Whether the code has a table of local ranges. -/
  localTable : Bool

structure Compiled where
  name : String
  diagnostics : List Diagnostic
  table : Resolution
  record : FlowRecord
  code : Code
  emitted : List Emitted
  reports : List SwitchReport

def Compiled.hasErrors (compiled : Compiled) : Bool := !compiled.diagnostics.isEmpty

namespace CompilationUnit

/-- The patterns that sites and switches name, in order. -/
def patterns (unit : CompilationUnit) : List PatternId :=
  unit.sites.map (·.pattern) ++ unit.switches.flatMap (·.cases)

/-- The first pattern that is named and does not exist. -/
def unknownPattern? (unit : CompilationUnit) : Option PatternId :=
  unit.patterns.find? fun id => unit.arena.patterns.size ≤ id

/-- The first guarded pattern on nothing, whether it is used or not. -/
def emptyGuard? (unit : CompilationUnit) : Option PatternId :=
  unit.arena.patterns.findIdx? (·.isEmptyGuard)

/-- Why a unit is refused before any pass, if it is. -/
def invalid? (unit : CompilationUnit) : Option CompileError :=
  match unit.unknownPattern?, unit.emptyGuard? with
  | some id, _ => some (.unknownPattern id)
  | none, some id => some (.emptyGuard id)
  | none, none => none

/-! ## The passes over a unit

They read the trees of the unit from its forest. -/

/-- Take the next site or switch, unless compilation was called off. -/
def proceed {σ α : Type} (cancelled : Bool) (action : EStateM Failure σ α) : EStateM Failure σ α :=
  if cancelled then throw (.refused .cancelled) else action

def resolveSite (pool : Pool) (forest : Forest) (site : Site) : ResolveM Ty := do
  let ty ← (forest.expr site.selector).resolve pool forest.locals site.scope
  let _ ← (forest.pattern site.pattern).resolve pool forest.locals ty site.scope
  return ty

def resolveSwitch (pool : Pool) (forest : Forest) (switch : Switch) : ResolveM Ty := do
  let ty ← (forest.expr switch.selector).resolve pool forest.locals switch.scope
  switch.cases.forM fun id =>
    discard ((forest.pattern id).resolve pool forest.locals ty switch.scope)
  return ty

/-- Resolve all sites and then all switches.  Answers the types of their selectors. -/
def resolve (pool : Pool) (forest : Forest) (cancelled : Bool) (unit : CompilationUnit) :
    EStateM Failure Resolver (List Ty × List Ty) := do
  let siteTypes ← unit.sites.mapM fun site =>
    proceed cancelled ((resolveSite pool forest site).adaptExcept .faulty)
  let switchTypes ← unit.switches.mapM fun switch =>
    proceed cancelled ((resolveSwitch pool forest switch).adaptExcept .faulty)
  return (siteTypes, switchTypes)

/-- The locals in the scope of a site are assigned before it. -/
def analyseSite (table : Resolution) (forest : Forest) (site : Site) : FlowM Unit := do
  let entry ← (forest.expr site.selector).analyse table forest.locals
    (Flow.initial site.scope.locals)
  discard ((forest.pattern site.pattern).analyse table forest.locals entry)

/-- Every case of a switch starts after the selector. -/
def analyseSwitch (table : Resolution) (forest : Forest) (switch : Switch) : FlowM Unit := do
  let entry ← (forest.expr switch.selector).analyse table forest.locals
    (Flow.initial switch.scope.locals)
  switch.cases.forM fun id => discard ((forest.pattern id).analyse table forest.locals entry)

/-- Analyse all sites and then all switches. -/
def analyse (table : Resolution) (forest : Forest) (cancelled : Bool) (unit : CompilationUnit) :
    EStateM Failure Analyser Unit := do
  unit.sites.forM fun site =>
    proceed cancelled ((analyseSite table forest site).adaptExcept .faulty)
  unit.switches.forM fun switch =>
    proceed cancelled ((analyseSwitch table forest switch).adaptExcept .faulty)

/-- Check the switches, given the types of their selectors. -/
def check (pool : Pool) (table : Resolution) (forest : Forest) (unit : CompilationUnit)
    (switchTypes : List Ty) : CheckM (List SwitchReport) :=
  (unit.switches.zip switchTypes).mapM fun (switch, ty) =>
    forest.examineSwitch pool table switch.cases ty switch.span

open Planner in
/-- The code of a site: evaluate the selector, test it, and fall off the end either way. -/
def planSite (facts : Facts) (forest : Forest) (site : Site) (ty : Ty) : PlanM Emitted := do
  let value ← newValue
  emit (.evalOperand value site.selector)
  let noMatch ← newLabel
  let pattern := forest.pattern site.pattern
  let emitted ← pattern.generate facts value ty ⟨none, some noMatch⟩
  pattern.wrapUp true
  place noMatch
  return emitted

open Planner in
/-- The code of one case: on a match, leave the switch; otherwise go on after it. -/
def planCase (facts : Facts) (forest : Forest) (value : ValueId) (ty : Ty) (done : Label)
    (id : PatternId) : PlanM Emitted := do
  let next ← newLabel
  let pattern := forest.pattern id
  let emitted ← pattern.generate facts value ty ⟨none, some next⟩
  pattern.wrapUp true
  emit (.goto done)
  place next
  return emitted

open Planner in
/-- The code of a switch: evaluate the selector once and try the cases in order. -/
def planSwitch (facts : Facts) (forest : Forest) (switch : Switch) (ty : Ty) :
    PlanM (List Emitted) := do
  let value ← newValue
  emit (.evalOperand value switch.selector)
  let done ← newLabel
  let emitted ← switch.cases.mapM (planCase facts forest value ty done)
  place done
  return emitted

/-- The code of all sites and then of all switches. -/
def plan (facts : Facts) (forest : Forest) (cancelled : Bool) (unit : CompilationUnit)
    (siteTypes switchTypes : List Ty) : PlanM (List Emitted) := do
  let sites ← (unit.sites.zip siteTypes).mapM fun (site, ty) =>
    proceed cancelled (planSite facts forest site ty)
  let switches ← (unit.switches.zip switchTypes).mapM fun (switch, ty) =>
    proceed cancelled (planSwitch facts forest switch ty)
  return sites ++ switches.flatten

/-- The passes over a unit, one after the other.  They hand on the queue, and in the end it lists
what they have reported. -/
def passes (pool : Pool) (config : Config) (cancelled : Bool) (unit : CompilationUnit) :
    Except Failure Compiled :=
  let forest := unit.arena.forest
  let queue := Queue.new config.diagnostics
  match EStateM.run (unit.resolve pool forest cancelled) ⟨Resolution.empty, queue⟩ with
  | .error failure _ => .error failure
  | .ok (siteTypes, switchTypes) ⟨table, queue⟩ =>
    match EStateM.run (unit.analyse table forest cancelled) ⟨FlowRecord.empty, queue⟩ with
    | .error failure _ => .error failure
    | .ok () ⟨record, queue⟩ =>
      match EStateM.run (unit.check pool table forest switchTypes) queue with
      | .error fault _ => .error (.faulty fault)
      | .ok reports queue =>
        let facts : Facts := ⟨pool, table, record⟩
        let planner := Planner.new config.localTable
        match EStateM.run (unit.plan facts forest cancelled siteTypes switchTypes) planner with
        | .error failure _ => .error failure
        | .ok emitted planner =>
          .ok ⟨unit.name, queue.flush.1, table, record, planner.stream.finish, emitted, reports⟩

/-- Compile a unit.  `cancelled` says whether compilation was called off before it started. -/
def compile (pool : Pool) (config : Config) (cancelled : Bool) (unit : CompilationUnit) :
    Except Failure Compiled :=
  match unit.invalid? with
  | some reason => .error (.refused reason)
  | none => unit.passes pool config cancelled

end CompilationUnit

end GuardedMatch
