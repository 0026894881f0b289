import GuardedMatch.Proofs.Analysing
import GuardedMatch.Proofs.Exhaustive
import GuardedMatch.Proofs.Planning
import GuardedMatch.Proofs.Slots
import GuardedMatch.Proofs.Typing

/-!
# Branch planning implements matching

The code generated for a pattern that was resolved and analysed, run on a value of the static type,
leaves through the true target if the pattern matches and through the false target if not.

* `runs_generated`: this, for every pattern, every planner and all targets.
-/

namespace GuardedMatch

open Planner Machine

/-- The environment fits a table at the visits: operands that are tested are of their types, and
operands made of literals have their known values. -/
structure Env.Fits {pool : Pool} {model : ValueModel pool} (env : Env model) (table : Resolution)
    (visits : List Visit) : Prop where
  tested : ∀ id tested pattern span ty, .expr (.instanceOf id tested pattern span) ∈ visits →
    table.exprTypes[tested.id]? = some ty → model.inst (env.operand tested.id) ty
  agrees : ∀ visit ∈ visits, env.AgreesAt visit

/-- What resolution and environment give is all that the tests rely on. -/
theorem Env.Fits.ready {facts : Facts} {model : ValueModel facts.pool} {env : Env model}
    {pattern : Pattern} (henv : env.Fits facts.table pattern.visits)
    (htyped : facts.table.Typed pattern.visits) : pattern.Each (Visit.Ready facts env) := by
  intro visit hvisit
  refine ⟨henv.agrees visit hvisit, ?_⟩
  rintro id tested other span rfl _
  have hmem : .expr tested ∈ pattern.visits := (pattern.below_sublist hvisit).subset
    (Visit.left_subset tested.self_mem_visits)
  obtain ⟨ty, hty⟩ := Option.isSome_iff_exists.mp
    (Std.ExtTreeMap.mem_iff_isSome_getElem?.mp (htyped tested hmem))
  rw [hty]
  exact henv.tested id tested other span ty hvisit hty

/-- Code that goes to its end, or to a label that it does not place, is left there. -/
theorem runs_iff_of_goes {pool : Pool} {model : ValueModel pool} {env : Env model}
    {code : List Instr} {position : Nat} {cells cells' : Cells model.Value} {target : Option Label}
    (h : Goes env code position cells code.length target cells')
    (htarget : ∀ label ∈ target, label ∉ placedLabels code) (exit : Option Label) :
    Runs env code position cells exit ↔ exit = target := by
  rw [h]
  cases target with
  | none => exact runs_end le_rfl
  | some label => exact lands_iff_eq (htarget label rfl)

/-- The code generated for a pattern goes to the true target if the pattern matches the value, and
to the false target if not.  It is left there if the target is a label of the caller, and it is
generated unless there are too many locals. -/
theorem Pattern.generate_runs {facts : Facts} (herror : facts.pool.isError Ty.error = true)
    {model : ValueModel facts.pool} {env : Env model} {pattern : Pattern}
    (hready : pattern.Each (Visit.Ready facts env))
    (hcovered : facts.record.Covered pattern.visits) {planner : Planner} (targets : Targets)
    {static : Ty} {value : ValueId} (hvalue : value < planner.stream.valueCount)
    {cells : Cells model.Value} {cell : Cell model.Value} (hcell : cells value = some cell)
    (hinst : model.Conforms cell.value static) :
    Ensures (pattern.generate facts value static targets) planner
      (OutOfSlots fun bound => bound ∈ planner.stream.slots ∨ bound ∈ pattern.allLocals)
      fun _ after => ∃ code, after.stream.instrs.toList = planner.stream.instrs.toList ++ code ∧
        ∀ outcome, (pattern.Matches env facts.table cell.value ↔ outcome = true) →
          (∀ label ∈ targets.on outcome, label < planner.stream.labels.size) →
          ∀ exit, Runs env code 0 cells exit ↔ exit = targets.on outcome := by
  have hmade : Performs (pattern.generate facts value static targets) value cell.value
      (targets.Exits none) (pattern.test facts static cell.value : Deciding env) planner :=
    pattern.generate_made value cell.value static False.elim
  have hstores := (pattern.generate_stores hcovered value static targets).ensures planner
  cases hrun : EStateM.run (pattern.generate facts value static targets) planner with
  | error failure last =>
    rw [Ensures, hrun]
    refine (hstores.of_error hrun (hmade.of_error hrun)).mono fun id hid => hid.imp_right ?_
    exact fun hstored => pattern.mem_allLocals.mpr (pattern.binding_of_stored hstored)
  | ok emitted after =>
    rw [Ensures, hrun]
    obtain ⟨code, hgrows, hdecides⟩ := hmade.of_ok hrun
    refine ⟨code, hgrows.appends.instrs, fun outcome houtcome hlabels => ?_⟩
    have hnew : value ∉ destinations code := fun hdest =>
      (hgrows.fresh value hdest).1.not_gt hvalue
    obtain ⟨target, cells', hexit, -, hgoes⟩ := hdecides hgrows.once hnew code 0 cells
      hgrows.appends.nodup (embeds_self code) ⟨cell, hcell, rfl⟩ outcome
      ((pattern.test_iff_matches herror hready static cell.value hinst).trans houtcome)
    rw [Targets.exits_none.mp hexit, Nat.zero_add] at hgoes
    -- Labels that the code places are new.
    exact runs_iff_of_goes hgoes fun label hlabel hplaced =>
      (hgrows.appends.base_le label hplaced).not_gt (hlabels label hlabel)

/-- Whatever the targets are, the code generated for a pattern is left through the true target if
the pattern matches the value, and through the false target if not.  It is generated unless there
are too many locals. -/
theorem runs_generated {pool : Pool} (hpool : pool.Declared fun _ _ => True) {arena : Arena}
    (harena : arena.Acyclic) {resolved analysed : List PatternId} {offered : List Diagnostic}
    {table : Resolution} (htable : Resolution.Produced arena.forest pool resolved offered table)
    {record : FlowRecord} (hrecord : FlowRecord.Produced arena.forest analysed record)
    {id : PatternId} (hresolved : id ∈ resolved) (hanalysed : id ∈ analysed)
    (model : ValueModel pool) (env : Env model)
    (henv : env.Fits table (arena.forest.pattern id).visits)
    (planner : Planner) (targets : Targets) (static : Ty) (value : ValueId)
    (htrue : ∀ label ∈ targets.whenTrue, label < planner.stream.labels.size)
    (hfalse : ∀ label ∈ targets.whenFalse, label < planner.stream.labels.size)
    (hvalue : value < planner.stream.valueCount) (cells : Cells model.Value)
    (cell : Cell model.Value) (hcell : cells value = some cell)
    (hinst : model.inst cell.value static) :
    Ensures ((arena.forest.pattern id).generate ⟨pool, table, record⟩ value static targets) planner
      (OutOfSlots fun bound =>
        bound ∈ planner.stream.slots ∨ bound ∈ (arena.forest.pattern id).allLocals)
      fun _ after => ∃ code, after.stream.instrs.toList = planner.stream.instrs.toList ++ code ∧
        ((arena.forest.pattern id).Matches env table cell.value →
          ∀ exit, Runs env code 0 cells exit ↔ exit = targets.whenTrue) ∧
        (¬ (arena.forest.pattern id).Matches env table cell.value →
          ∀ exit, Runs env code 0 cells exit ↔ exit = targets.whenFalse) := by
  have hready : (arena.forest.pattern id).Each (Visit.Ready ⟨pool, table, record⟩ env) :=
    henv.ready (htable.typed harena.closed hresolved)
  refine (Pattern.generate_runs hpool.isError_error.2 hready (hrecord.covered hanalysed) targets
    hvalue hcell fun _ => hinst).mono ?_
  rintro _ after ⟨code, hinstrs, hruns⟩
  exact ⟨code, hinstrs, fun h => hruns true (iff_of_true h rfl) htrue,
    fun h => hruns false (iff_of_false h Bool.false_ne_true) hfalse⟩

/-! ## A box in a box -/

/-- A box whose content is a box: `Box(Object content) && content instanceof Box(_)`. -/
def nestedBoxes : Arena where
  patterns := #[.type ⟨some "Object", Span.none⟩ (some 0) Span.none,
    .record ⟨some "Box", Span.none⟩ [0] Span.none, .any Span.none,
    .record ⟨some "Box", Span.none⟩ [2] Span.none, .guarded [1] 1 Span.none]
  exprs := #[.ident "content" Span.none, .instanceOf 0 3 Span.none]
  locals := #[⟨"content", Span.none⟩]

/-- What resolution finds out about it. -/
def nestedTable : Resolution where
  patternTypes := ((((Std.ExtTreeMap.empty.insert 0 Ty.object).insert 1 ⟨34⟩).insert 2
    Ty.object).insert 3 ⟨34⟩).insert 4 ⟨34⟩
  exprTypes := (Std.ExtTreeMap.empty.insert 0 Ty.object).insert 1 Ty.boolean
  localTypes := Std.ExtTreeMap.empty.insert 0 Ty.object
  conversions := ∅
  identLocals := Std.ExtTreeMap.empty.insert 0 0
  guardNames := Std.ExtTreeSet.empty.insert 0
  elseOwners := Std.ExtTreeMap.empty.insert 3 4

theorem acyclic_nestedBoxes : nestedBoxes.Acyclic :=
  Arena.acyclic_of_rank (Node.rank (fun id => 2 * id) fun id => 7 * id) (by decide)

theorem produced_nestedTable : nestedTable.Produced nestedBoxes.forest Pool.shapes [4] [] := by
  have hrun : nestedBoxes.forest.resolvePattern Pool.shapes Resolution.empty 4 ⟨32⟩ Scope.empty =
      .ok ⟨⟨34⟩, nestedTable, []⟩ := by with_unfolding_all rfl
  exact .pattern .empty hrun

theorem produced_nestedRecord : ∃ record, FlowRecord.Produced nestedBoxes.forest [4] record := by
  have hrun : ∃ analysed, nestedBoxes.forest.analysePattern nestedTable FlowRecord.empty 4
      (Flow.initial []) = .ok analysed := ⟨_, by with_unfolding_all rfl⟩
  obtain ⟨analysed, hrun⟩ := hrun
  exact ⟨analysed.record, .pattern .empty hrun⟩

/-- Wherever `content` is read, it is the inner box. -/
def boxedBoxEnv : Env Pool.topDown_shapes.layered.model where
  operand _ := boxedBox.component 0
  truth _ := false

/-- The condition of the nested boxes. -/
def contentIsBox : Expr :=
  .instanceOf 1 (.ident 0 "content" Span.none)
    (.record 3 ⟨some "Box", Span.none⟩ [.any 2 Span.none] Span.none) Span.none

theorem expr_mem_nestedBoxes {expr : Expr}
    (h : .expr expr ∈ (nestedBoxes.forest.pattern 4).visits) :
    expr = contentIsBox ∨ expr = .ident 0 "content" Span.none := by
  have htree : nestedBoxes.forest.pattern 4 =
      .guarded 4 [.record 1 ⟨some "Box", Span.none⟩ [.type 0 ⟨some "Object", Span.none⟩ (some 0)
        Span.none] Span.none] contentIsBox Span.none := by
    with_unfolding_all rfl
  rw [htree] at h
  simpa [contentIsBox, Pattern.visits, Pattern.visitsAll, Expr.visits] using h

theorem fits_boxedBoxEnv :
    boxedBoxEnv.Fits nestedTable (nestedBoxes.forest.pattern 4).visits := by
  constructor
  · intro id tested pattern span ty hvisit hty
    obtain hexpr | hexpr := expr_mem_nestedBoxes hvisit <;> cases hexpr
    cases hty
    cases inhabits_boxedBox with
    | intro _ hcomponents _ _ => exact hcomponents 0 Ty.object rfl
  · rintro (pattern | expr | id) hvisit
    · trivial
    · obtain rfl | rfl := expr_mem_nestedBoxes hvisit <;> nofun
    · trivial

/-- A planner that has handed out a label and a value. -/
def boxPlanner : Planner :=
  { Planner.new true with stream := { Stream.new true with labels := #[false], valueCount := 1 } }

/-- The code for the nested boxes is left at its end for those that match, and through the label
for others. -/
theorem runs_generated_boxedBox :
    nestedTable.Produced nestedBoxes.forest Pool.shapes [4] [] ∧
    Pool.shapes.Inhabits boxedBox ⟨32⟩ ∧
    ∃ record, FlowRecord.Produced nestedBoxes.forest [4] record ∧
      Ensures ((nestedBoxes.forest.pattern 4).generate ⟨Pool.shapes, nestedTable, record⟩ 0 ⟨32⟩
          ⟨none, some 0⟩) boxPlanner
        (OutOfSlots fun bound => bound ∈ boxPlanner.stream.slots ∨
          bound ∈ (nestedBoxes.forest.pattern 4).allLocals)
        fun _ after => ∃ code,
          after.stream.instrs.toList = boxPlanner.stream.instrs.toList ++ code ∧
          ((nestedBoxes.forest.pattern 4).Matches boxedBoxEnv nestedTable boxedBox → ∀ exit,
            Runs boxedBoxEnv code 0 (fun _ => some ⟨boxedBox, none⟩) exit ↔ exit = none) ∧
          (¬ (nestedBoxes.forest.pattern 4).Matches boxedBoxEnv nestedTable boxedBox → ∀ exit,
            Runs boxedBoxEnv code 0 (fun _ => some ⟨boxedBox, none⟩) exit ↔ exit = some 0) := by
  obtain ⟨record, hrecord⟩ := produced_nestedRecord
  refine ⟨produced_nestedTable, inhabits_boxedBox, record, hrecord, ?_⟩
  exact runs_generated Pool.declared_shapes acyclic_nestedBoxes produced_nestedTable hrecord
    (List.mem_singleton_self 4) (List.mem_singleton_self 4) _ boxedBoxEnv fits_boxedBoxEnv
    boxPlanner ⟨none, some 0⟩ ⟨32⟩ 0 nofun (by decide) (by decide) _ ⟨boxedBox, none⟩ rfl
    inhabits_boxedBox

end GuardedMatch
