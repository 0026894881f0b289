import GuardedMatch.Proofs.Branching

/-!
# Covering a type and passing the test

A pattern that covers a type is taken to match every value of it.  The code generated for a guarded
pattern tests all its sub-patterns, one after the other, while covering asks for one of them only.
So the two agree as long as guards are unanimous: wherever one sub-pattern of a guard covers a type
that counts, all do.  A guard on one pattern always is.

* `runs_of_covers`: the code for a pattern that covers its static type unanimously is left through
  the true target, whatever the value and whatever conditions evaluate to that are not constant.
* `fails_though_covering`: for `Object o, String s when true` it is not, though the pattern covers
  `Object`.
-/

namespace GuardedMatch

open Planner Machine

/-- A pattern that covers a type unanimously matches its values, where expressions evaluate to what
they are known to be. -/
theorem Pattern.matches_of_covers {pool : Pool} {table : Resolution} {pattern : Pattern} {ty : Ty}
    (hcovers : pattern.covers pool table ty = .ok true)
    (hunanimous : pattern.Unanimous pool table ty) {model : ValueModel pool} {env : Env model}
    (hknows : pattern.Each env.KnowsAt) {value : model.Value} (hvalue : model.inst value ty) :
    pattern.Matches env table value := by
  have hsurely := surely_of_unanimous pattern hunanimous hcovers hvalue
  rw [Pattern.matches_iff]
  refine Pattern.Surely.matchesUnder_of_each pattern (fun visit hvisit => ?_) hsurely
  cases visit with
  | pattern | binding => trivial
  | expr condition =>
    intro htrue _
    refine (condition.holds_of_truth (fun other hother => ?_) htrue).mpr rfl
    exact hknows other ((pattern.below_sublist hvisit).subset hother)

/-- **Code for a pattern that covers its static type always succeeds.**  The guards have to be
unanimous, and constant expressions have to evaluate to what they are; other conditions may evaluate
to anything. -/
theorem runs_of_covers {pool : Pool} (hpool : pool.Declared fun _ _ => True) {arena : Arena}
    (harena : arena.Acyclic) {resolved analysed : List PatternId} {offered : List Diagnostic}
    {table : Resolution} (htable : Resolution.Produced arena.forest pool resolved offered table)
    {record : FlowRecord} (hrecord : FlowRecord.Produced arena.forest analysed record)
    {id : PatternId} (hresolved : id ∈ resolved) (hanalysed : id ∈ analysed) {static : Ty}
    (hcovers : (arena.forest.pattern id).covers pool table static = .ok true)
    (hunanimous : (arena.forest.pattern id).Unanimous pool table static)
    (model : ValueModel pool) (env : Env model)
    (henv : env.Fits table (arena.forest.pattern id).visits)
    (hknows : (arena.forest.pattern id).Each env.KnowsAt)
    (planner : Planner) (targets : Targets) (value : ValueId)
    (htrue : ∀ label ∈ targets.whenTrue, label < planner.stream.labels.size)
    (hvalue : value < planner.stream.valueCount) (cells : Cells model.Value)
    (cell : Cell model.Value) (hcell : cells value = some cell)
    (hinst : model.inst cell.value static) :
    Ensures ((arena.forest.pattern id).generate ⟨pool, table, record⟩ value static targets) planner
      (OutOfSlots fun bound =>
        bound ∈ planner.stream.slots ∨ bound ∈ (arena.forest.pattern id).allLocals)
      fun _ after => ∃ code, after.stream.instrs.toList = planner.stream.instrs.toList ++ code ∧
        ∀ exit, Runs env code 0 cells exit ↔ exit = targets.whenTrue := by
  have hready : (arena.forest.pattern id).Each (Visit.Ready ⟨pool, table, record⟩ env) :=
    henv.ready (htable.typed harena.closed hresolved)
  have hmatches := Pattern.matches_of_covers hcovers hunanimous hknows hinst
  refine (Pattern.generate_runs hpool.isError_error.2 hready (hrecord.covered hanalysed) targets
    hvalue hcell fun _ => hinst).mono ?_
  rintro _ after ⟨code, hinstrs, hruns⟩
  exact ⟨code, hinstrs, hruns true (iff_of_true hmatches rfl) htrue⟩

/-! ## A guard on two patterns that cover `Object` -/

/-- A value that is an object and nothing else. -/
def plainObject : Datum := .object Ty.object fun _ => .void

theorem inhabits_plainObject : Pool.builtin.Inhabits plainObject Ty.object := by
  refine .intro ⟨by decide, by decide⟩ (fun position part hpart => ?_) (by decide) (by decide)
  cases hpart

/-- `Object o, _ when o instanceof String s || true`. -/
def objectTwice : Arena where
  patterns := #[.type ⟨some "Object", Span.none⟩ (some 0) Span.none, .any Span.none,
    .type ⟨some "String", Span.none⟩ (some 1) Span.none, .guarded [0, 1] 3 Span.none]
  exprs := #[.ident "o" Span.none, .instanceOf 0 2 Span.none, .bool true Span.none,
    .binary .or 1 2 Span.none]
  locals := #[⟨"o", Span.none⟩, ⟨"s", Span.none⟩]

/-- What resolution finds out about it. -/
def objectTwiceTable : Resolution where
  patternTypes := (((Std.ExtTreeMap.empty.insert 0 Ty.object).insert 1 Ty.object).insert 3
    Ty.object).insert 2 Ty.string
  exprTypes := (((Std.ExtTreeMap.empty.insert 0 Ty.object).insert 1 Ty.boolean).insert 2
    Ty.boolean).insert 3 Ty.boolean
  localTypes := (Std.ExtTreeMap.empty.insert 0 Ty.object).insert 1 Ty.string
  conversions := ∅
  identLocals := Std.ExtTreeMap.empty.insert 0 0
  guardNames := Std.ExtTreeSet.empty.insert 0
  elseOwners := ∅

theorem acyclic_objectTwice : objectTwice.Acyclic :=
  Arena.acyclic_of_rank (Node.rank (fun id => 6 * id) fun id => 12 + id) (by decide)

theorem produced_objectTwiceTable :
    objectTwiceTable.Produced objectTwice.forest Pool.builtin [3] [] := by
  have hrun : objectTwice.forest.resolvePattern Pool.builtin Resolution.empty 3 Ty.object
      Scope.empty = .ok ⟨Ty.object, objectTwiceTable, []⟩ := by with_unfolding_all rfl
  exact .pattern .empty hrun

theorem produced_objectTwiceRecord :
    ∃ record, FlowRecord.Produced objectTwice.forest [3] record := by
  have hrun : ∃ analysed, objectTwice.forest.analysePattern objectTwiceTable FlowRecord.empty 3
      (Flow.initial []) = .ok analysed := ⟨_, by with_unfolding_all rfl⟩
  obtain ⟨analysed, hrun⟩ := hrun
  exact ⟨analysed.record, .pattern .empty hrun⟩

theorem pattern_objectTwice : objectTwice.forest.pattern 3 =
    .guarded 3 [.type 0 ⟨some "Object", Span.none⟩ (some 0) Span.none, .any 1 Span.none]
      (.binary 3 .or (.instanceOf 1 (.ident 0 "o" Span.none)
        (.type 2 ⟨some "String", Span.none⟩ (some 1) Span.none) Span.none)
        (.bool 2 true Span.none) Span.none) Span.none := by
  with_unfolding_all rfl

theorem unanimous_objectTwice :
    (objectTwice.forest.pattern 3).covers Pool.builtin objectTwiceTable Ty.object = .ok true ∧
      (objectTwice.forest.pattern 3).Unanimous Pool.builtin objectTwiceTable Ty.object := by
  rw [pattern_objectTwice]
  refine ⟨by decide +kernel, ?_⟩
  simp only [Pattern.Unanimous, Pattern.AllUnanimous, and_true, true_and]
  decide +kernel

/-- Every expression evaluates to the object, and no operand to true. -/
def plainEnv : Env Pool.layered_builtin.model where
  operand _ := plainObject
  truth _ := false

theorem fits_plainEnv : plainEnv.Fits objectTwiceTable (objectTwice.forest.pattern 3).visits ∧
    (objectTwice.forest.pattern 3).Each plainEnv.KnowsAt := by
  -- The only operand is a name, and nothing is known about it.
  have hknows : (objectTwice.forest.pattern 3).Each plainEnv.KnowsAt := by
    rw [pattern_objectTwice]
    simp [Pattern.Each, Pattern.visits, Pattern.visitsAll, Expr.visits, Env.KnowsAt,
      Expr.IsOperand, BinaryOp.isLogical, Expr.truth, Expr.fold]
  refine ⟨⟨?_, fun visit hvisit => ?_⟩, hknows⟩
  · rw [pattern_objectTwice]
    intro id tested pattern span ty hvisit hty
    simp [Pattern.visits, Pattern.visitsAll, Expr.visits] at hvisit
    obtain ⟨rfl, rfl, rfl, rfl⟩ := hvisit
    cases hty
    exact inhabits_plainObject
  · cases visit with
    | pattern | binding => trivial
    | expr expr =>
      exact fun hoperand outcome h => hknows _ hvisit hoperand outcome (Expr.truth_of_skippable h)

/-- The code for the two patterns is left at its end, though the object is no string. -/
theorem runs_of_covers_objectTwice :
    objectTwiceTable.Produced objectTwice.forest Pool.builtin [3] [] ∧
    (objectTwice.forest.pattern 3).covers Pool.builtin objectTwiceTable Ty.object = .ok true ∧
    Pool.builtin.Inhabits plainObject Ty.object ∧
    ∃ record, FlowRecord.Produced objectTwice.forest [3] record ∧
      Ensures ((objectTwice.forest.pattern 3).generate ⟨Pool.builtin, objectTwiceTable, record⟩ 0
          Ty.object ⟨none, some 0⟩) boxPlanner
        (OutOfSlots fun bound => bound ∈ boxPlanner.stream.slots ∨
          bound ∈ (objectTwice.forest.pattern 3).allLocals)
        fun _ after => ∃ code,
          after.stream.instrs.toList = boxPlanner.stream.instrs.toList ++ code ∧
          ∀ exit, Runs plainEnv code 0 (fun _ => some ⟨plainObject, none⟩) exit ↔ exit = none := by
  obtain ⟨record, hrecord⟩ := produced_objectTwiceRecord
  obtain ⟨hcovers, hunanimous⟩ := unanimous_objectTwice
  refine ⟨produced_objectTwiceTable, hcovers, inhabits_plainObject, record, hrecord, ?_⟩
  exact runs_of_covers .builtin acyclic_objectTwice produced_objectTwiceTable hrecord
    (List.mem_singleton_self 3) (List.mem_singleton_self 3) hcovers hunanimous _ plainEnv
    fits_plainEnv.1 fits_plainEnv.2 boxPlanner ⟨none, some 0⟩ 0 (by simp) (by decide) _
    ⟨plainObject, none⟩ rfl inhabits_plainObject

/-! ## A guard on two patterns of which one covers `Object` -/

/-- `Object o, String s when true`. -/
def objectAndString : Arena where
  patterns := #[.type ⟨some "Object", Span.none⟩ (some 0) Span.none,
    .type ⟨some "String", Span.none⟩ (some 1) Span.none, .guarded [0, 1] 0 Span.none]
  exprs := #[.bool true Span.none]
  locals := #[⟨"o", Span.none⟩, ⟨"s", Span.none⟩]

/-- What resolution finds out about it. -/
def objectAndStringTable : Resolution where
  patternTypes := ((Std.ExtTreeMap.empty.insert 0 Ty.object).insert 1 Ty.string).insert 2 Ty.object
  exprTypes := Std.ExtTreeMap.empty.insert 0 Ty.boolean
  localTypes := (Std.ExtTreeMap.empty.insert 0 Ty.object).insert 1 Ty.string
  conversions := ∅
  identLocals := ∅
  guardNames := ∅
  elseOwners := ∅

theorem produced_objectAndStringTable :
    objectAndStringTable.Produced objectAndString.forest Pool.builtin [2] [] := by
  have hrun : objectAndString.forest.resolvePattern Pool.builtin Resolution.empty 2 Ty.object
      Scope.empty = .ok ⟨Ty.object, objectAndStringTable, []⟩ := by with_unfolding_all rfl
  exact .pattern .empty hrun

/-- The code for it, with a label for values that do not match. -/
def objectAndStringCode : List Instr :=
  [.storeLocal 0 0 0, .testType 0 Ty.string 2, .storeLocal 1 1 0, .goto 1, .placeLabel 2, .goto 0,
    .placeLabel 1]

theorem not_inhabits_string : ¬ Pool.builtin.Inhabits plainObject Ty.string := by
  intro h
  cases h with
  | intro _ _ _ hle => exact absurd hle (by decide)

theorem runs_objectAndStringCode (env : Env Pool.layered_builtin.model) :
    Runs env objectAndStringCode 0 (fun _ => some ⟨plainObject, none⟩) (some 0) := by
  refine .next (.storeLocal rfl rfl) ?_
  -- The failed test jumps to label 2, from where control goes to label 0.
  refine (runs_iff (.fail rfl rfl not_inhabits_string)).mpr ?_
  show Runs env objectAndStringCode 4 _ (some 0)
  refine .next (.placeLabel rfl) ?_
  refine (runs_iff (.goto rfl)).mpr ?_
  exact (lands_iff_eq (by decide)).mpr rfl

/-- An object that is no string fails the test for a pattern that covers `Object`, whatever
expressions evaluate to. -/
theorem fails_though_covering :
    objectAndStringTable.Produced objectAndString.forest Pool.builtin [2] [] ∧
    (objectAndString.forest.pattern 2).covers Pool.builtin objectAndStringTable Ty.object =
      .ok true ∧
    Pool.builtin.Inhabits plainObject Ty.object ∧
    ∃ analysed emitted after,
      objectAndString.forest.analysePattern objectAndStringTable .empty 2 (Flow.initial []) =
        .ok analysed ∧
      EStateM.run ((objectAndString.forest.pattern 2).generate
          ⟨Pool.builtin, objectAndStringTable, analysed.record⟩ 0 Ty.object ⟨none, some 0⟩)
          boxPlanner = .ok emitted after ∧
      after.stream.instrs.toList = boxPlanner.stream.instrs.toList ++ objectAndStringCode ∧
      ∀ env : Env Pool.layered_builtin.model, ∀ exit,
        Runs env objectAndStringCode 0 (fun _ => some ⟨plainObject, none⟩) exit ↔
          exit = some 0 := by
  refine ⟨produced_objectAndStringTable, by with_unfolding_all rfl, inhabits_plainObject, _, _, _,
    by with_unfolding_all rfl, by with_unfolding_all rfl, by with_unfolding_all rfl,
    fun env exit => ⟨fun h => h.deterministic (runs_objectAndStringCode env), ?_⟩⟩
  rintro rfl
  exact runs_objectAndStringCode env

end GuardedMatch
