import GuardedMatch.Proofs.Assembling

/-!
# Settings decide nothing else

Ranges are kept beside the code, and no step of planning asks for them.  So a planner that has
forgotten its ranges plans what it would have planned with them.  No pass looks at the queue that it
reports into, so the passes do with one queue what they do with another.  So of what compilation
answers, only the ranges depend on whether they are kept, and only the diagnostics on the settings
of the queue.

* `Planner.Forgets`: forgetting the ranges first or last is the same.
* `CompilationUnit.passes_localTable`: so it is for the passes over a unit.
* `CompilationUnit.compile_settings`: two compilations with different settings.
-/

namespace GuardedMatch

/-! ## Streams -/

namespace Stream

/-- The stream as if ranges had never been kept. -/
def forget (stream : Stream) : Stream :=
  { stream with ranges := #[], live := ∅, tracking := false }

variable {stream after : Stream}

/-- What only changes ranges is forgotten with them. -/
theorem SameCode.forget_eq (h : SameCode stream after) : after.forget = stream.forget := by
  rw [forget, forget, h.instrs, h.labels, h.valueCount, h.slots]

theorem closeRange_forget (stream : Stream) (id : LocalId) :
    stream.forget.closeRange id = stream.forget := by
  have hlive : stream.forget.live[id]? = none := Std.ExtTreeMap.getElem?_empty
  rw [closeRange, hlive]

theorem closeUnassigned_forget (stream : Stream) (states : Array FlowState) (index : StateIndex) :
    stream.forget.closeUnassigned states index = stream.forget := by
  have hlive : stream.forget.liveLocals = [] := rfl
  rw [closeUnassigned]
  split
  next =>
    split
    next =>
      rw [hlive]
      rfl
    next => rfl
  next => rfl

theorem foldl_startRange_forget (stream : Stream) (ids : List LocalId) :
    ids.foldl (fun stream id =>
      match stream.slots[id]? with
      | some slot => stream.startRange id slot
      | none => stream) stream.forget = stream.forget := by
  induction ids with
  | nil => rfl
  | cons id ids ih =>
    rw [List.foldl_cons]
    cases hslot : stream.forget.slots[id]? with
    | none => exact ih
    | some slot => exact ih

theorem openAssigned_forget (stream : Stream) (states : Array FlowState) (index : StateIndex) :
    stream.forget.openAssigned states index = stream.forget := by
  rw [openAssigned]
  split
  next =>
    split
    next => exact foldl_startRange_forget stream _
    next => rfl
  next => rfl

theorem declare_forget (stream : Stream) (id : LocalId) :
    stream.forget.declare id = ((stream.declare id).1, (stream.declare id).2.forget) := by
  have hslots : stream.forget.slots[id]? = stream.slots[id]? := rfl
  rw [declare, declare, hslots]
  cases stream.slots[id]? with
  | none => rfl
  | some slot => rfl

theorem store_forget (stream : Stream) (id : LocalId) (value : ValueId) :
    stream.forget.store id value = (stream.store id value).forget := by
  rw [store, store, declare_forget, (SameCode.startRange ..).forget_eq]
  rfl

end Stream

/-! ## Planning -/

namespace Planner

def forget (planner : Planner) : Planner := { planner with stream := planner.stream.forget }

/-- An outcome of planning as if ranges had never been kept. -/
def forgotten {α : Type} : EStateM.Result Failure Planner α → EStateM.Result Failure Planner α
  | .ok answer planner => .ok answer planner.forget
  | .error failure planner => .error failure planner.forget

/-- An action that forgets ranges first does what it does if it forgets them last. -/
structure Forgets {α : Type} (action : PlanM α) : Prop where
  run : ∀ planner : Planner,
    EStateM.run action planner.forget = forgotten (EStateM.run action planner)

namespace Forgets

variable {α β : Type}

theorem bind {action : PlanM α} {next : α → PlanM β} (h : Forgets action)
    (hnext : ∀ answer, Forgets (next answer)) : Forgets (action >>= next) := by
  refine ⟨fun planner => ?_⟩
  have hrun := h.run planner
  simp only [EStateM.run, Bind.bind, EStateM.bind] at hrun ⊢
  rw [hrun]
  cases action planner with
  | ok answer after => exact (hnext answer).run after
  | error failure after => rfl

theorem change {step : Stream → Stream}
    (h : ∀ stream : Stream, step stream.forget = (step stream).forget) :
    Forgets (Planner.change step) := by
  refine ⟨fun planner => ?_⟩
  have hstep : ({ planner.forget with stream := step planner.stream.forget } : Planner) =
      { planner with stream := step planner.stream }.forget := by
    rw [h]
    rfl
  exact congrArg (EStateM.Result.ok ()) hstep

/-- A change of ranges alone is no change to a planner without them. -/
theorem aligns {step : Stream → Stream} (hsame : ∀ stream, Stream.SameCode stream (step stream))
    (hforget : ∀ stream : Stream, step stream.forget = stream.forget) :
    Forgets (Planner.change step) :=
  change fun stream => (hforget stream).trans (hsame stream).forget_eq.symm

theorem require {fault? : Stream → Option Fault}
    (h : ∀ stream : Stream, fault? stream.forget = fault? stream) :
    Forgets (Planner.require fault?) := by
  refine ⟨fun planner => ?_⟩
  have hfault : fault? planner.forget.stream = fault? planner.stream := h planner.stream
  have hget : ∀ (start : Planner) (next : Planner → PlanM Unit),
      EStateM.run (get >>= next) start = EStateM.run (next start) start := fun _ _ => rfl
  rw [Planner.require, hget, hget, hfault]
  cases fault? planner.stream with
  | none => rfl
  | some fault => rfl

theorem of_assembled {ids : List LocalId} {action : PlanM α} (h : Assembled .all ids action) :
    Forgets action := by
  induction h with
  | bind _ _ ih hnext => exact bind ih hnext
  | newLabel _ ih => exact bind ⟨fun _ => rfl⟩ fun label => ih label trivial
  | place _ => exact bind (require fun _ => rfl) fun _ => change fun _ => rfl
  | storeLocal _ value =>
    exact bind (require fun _ => rfl) fun _ => change fun stream => stream.store_forget _ value
  | closeRange id => exact aligns (.closeRange · id) fun stream => stream.closeRange_forget id
  | closeUnassigned states index =>
    exact aligns (.closeUnassigned · states index) fun stream =>
      stream.closeUnassigned_forget states index
  | openAssigned _ =>
    exact aligns (.openAssigned · _ _) fun stream => stream.openAssigned_forget _ _
  | pure | throw | newValue | emit | setPhase | noteGuard | noteElseTarget | clear
  | handOut => exact ⟨fun _ => rfl⟩

end Forgets

end Planner

/-! ## Compiling -/

/-- The code, with its table of ranges or without. -/
def Code.withTable (code : Code) (localTable : Bool) : Code :=
  if localTable then code else { code with ranges := #[] }

theorem Code.instrs_withTable (code : Code) (localTable : Bool) :
    (code.withTable localTable).instrs = code.instrs := by
  cases localTable <;> rfl

theorem Code.slotCount_withTable (code : Code) (localTable : Bool) :
    (code.withTable localTable).slotCount = code.slotCount := by
  cases localTable <;> rfl

/-- What two compilations have in common, and what depends on the settings. -/
structure Compiled.Agree (config config' : Config) (compiled compiled' : Compiled) : Prop where
  name : compiled.name = compiled'.name
  table : compiled.table = compiled'.table
  record : compiled.record = compiled'.record
  emitted : compiled.emitted = compiled'.emitted
  reports : compiled.reports = compiled'.reports
  instrs : compiled.code.instrs = compiled'.code.instrs
  slotCount : compiled.code.slotCount = compiled'.code.slotCount
  diagnostics : config.diagnostics = config'.diagnostics →
    compiled.diagnostics = compiled'.diagnostics
  ranges : config.localTable = config'.localTable → compiled.code.ranges = compiled'.code.ranges
  noRanges : config.localTable = false → compiled.code.ranges = #[]

namespace CompilationUnit

theorem plan_forgets (facts : Facts) (forest : Forest) (unit : CompilationUnit)
    (siteTypes switchTypes : List Ty) :
    Planner.Forgets (unit.plan facts forest false siteTypes switchTypes) :=
  .of_assembled (plan_assembled (fun _ _ => .everything facts _) siteTypes switchTypes)

/-- The passes fail with a table just as they do without, or they answer the same but for it. -/
theorem passes_localTable (unit : CompilationUnit) (pool : Pool) :
    (∃ failure, ∀ localTable, unit.passesApart pool localTable = .error failure) ∨
      ∃ (compiled : Compiled) (offered : List Diagnostic), ∀ localTable,
        unit.passesApart pool localTable =
          .ok ({ compiled with code := compiled.code.withTable localTable }, offered) := by
  simp only [passesApart]
  split
  next => exact Or.inl ⟨_, fun _ => rfl⟩
  next siteTypes switchTypes resolved _ =>
    split
    next => exact Or.inl ⟨_, fun _ => rfl⟩
    next analysed _ =>
      split
      next => exact Or.inl ⟨_, fun _ => rfl⟩
      next checks _ =>
        have hplan := (plan_forgets ⟨pool, resolved.table, analysed.record⟩
          unit.arena.forest unit siteTypes switchTypes).run (Planner.new true)
        have hnew : (Planner.new true).forget = Planner.new false := rfl
        rw [hnew] at hplan
        cases hrun : EStateM.run (unit.plan ⟨pool, resolved.table, analysed.record⟩
            unit.arena.forest false siteTypes switchTypes) (Planner.new true) with
        | error failure after =>
          rw [hrun] at hplan
          refine Or.inl ⟨failure, fun localTable => ?_⟩
          cases localTable with
          | false => rw [hplan]; rfl
          | true => rw [hrun]
        | ok emitted after =>
          rw [hrun] at hplan
          refine Or.inr ⟨⟨unit.name, [], resolved.table, analysed.record, after.stream.finish,
              emitted, checks.map (·.1)⟩,
            resolved.queue.diagnostics ++ analysed.queue.diagnostics ++ checks.flatMap (·.2),
            fun localTable => ?_⟩
          cases localTable with
          | false => rw [hplan]; rfl
          | true => rw [hrun]; rfl

/-- One answer fits all settings: its code gets a table or none, and the queue lists what was
offered. -/
theorem compile_cases (unit : CompilationUnit) (pool : Pool) (cancelled : Bool) :
    (∃ failure, ∀ config, unit.compile pool config cancelled = .error failure) ∨
      ∃ (compiled : Compiled) (offered : List Diagnostic), ∀ config : Config,
        unit.compile pool config cancelled = .ok { compiled with
          code := compiled.code.withTable config.localTable
          diagnostics := ((Queue.new config.diagnostics).addAll offered).flush.1 } := by
  simp only [compile_eq]
  cases unit.refusal? cancelled with
  | some reason => exact Or.inl ⟨_, fun _ => rfl⟩
  | none =>
    rcases unit.passes_localTable pool with ⟨failure, hpasses⟩ | ⟨compiled, offered, hpasses⟩
    · simp only [hpasses]
      exact Or.inl ⟨failure, fun _ => rfl⟩
    · simp only [hpasses]
      exact Or.inr ⟨compiled, offered, fun _ => rfl⟩

/-- **Whatever the settings, compilation fails in the same way or answers the same**, but for what
the settings are about. -/
theorem compile_settings (unit : CompilationUnit) (pool : Pool) (cancelled : Bool)
    (config config' : Config) :
    (∀ failure, unit.compile pool config cancelled = .error failure ↔
      unit.compile pool config' cancelled = .error failure) ∧
    ∀ compiled compiled', unit.compile pool config cancelled = .ok compiled →
      unit.compile pool config' cancelled = .ok compiled' →
      Compiled.Agree config config' compiled compiled' := by
  rcases unit.compile_cases pool cancelled with ⟨failure, hfails⟩ | ⟨compiled, offered, hends⟩
  · refine ⟨fun other => by rw [hfails, hfails], fun compiled compiled' hcompiled => ?_⟩
    rw [hfails] at hcompiled
    cases hcompiled
  · refine ⟨fun failure => by simp [hends], fun first second hfirst hsecond => ?_⟩
    obtain rfl := Except.ok.inj ((hends config).symm.trans hfirst)
    obtain rfl := Except.ok.inj ((hends config').symm.trans hsecond)
    constructor
    case instrs | slotCount => simp only [Code.instrs_withTable, Code.slotCount_withTable]
    case diagnostics =>
      intro hqueue
      simp only [hqueue]
    case ranges =>
      intro htable
      simp only [htable]
    case noRanges =>
      intro htable
      simp only [htable]
      rfl
    all_goals rfl

/-- The boxes in boxes, compiled with a table and without. -/
theorem compile_settings_innerBoxes : ∃ compiled compiled',
    innerBoxes.compile Pool.shapes ⟨.default, true⟩ false = .ok compiled ∧
      innerBoxes.compile Pool.shapes ⟨.unlimited, false⟩ false = .ok compiled' ∧
      Compiled.Agree ⟨.default, true⟩ ⟨.unlimited, false⟩ compiled compiled' ∧
      0 < compiled.code.ranges.size ∧ compiled'.code.ranges.size = 0 := by
  have hranges : (innerBoxes.compile Pool.shapes ⟨.default, true⟩ false).toOption.map
      (fun compiled => decide (0 < compiled.code.ranges.size)) = some true := by decide +kernel
  have hnone : (innerBoxes.compile Pool.shapes ⟨.unlimited, false⟩ false).toOption.map
      (·.code.ranges.size) = some 0 := by decide +kernel
  have hsettings := compile_settings innerBoxes Pool.shapes false ⟨.default, true⟩
    ⟨.unlimited, false⟩
  cases hon : innerBoxes.compile Pool.shapes ⟨.default, true⟩ false with
  | error failure =>
    rw [hon] at hranges
    cases hranges
  | ok compiled =>
    cases hoff : innerBoxes.compile Pool.shapes ⟨.unlimited, false⟩ false with
    | error failure =>
      rw [hoff] at hnone
      cases hnone
    | ok compiled' =>
      rw [hon] at hranges
      rw [hoff] at hnone
      refine ⟨compiled, compiled', rfl, rfl, hsettings.2 compiled compiled' hon hoff, ?_, ?_⟩
      · simpa [Except.toOption] using hranges
      · simpa [Except.toOption] using hnone

end CompilationUnit

end GuardedMatch
