import GuardedMatch.Proofs.Branching
import GuardedMatch.Proofs.Generating
import GuardedMatch.Proofs.Inquiry

/-!
# The order of evaluation

Generated code evaluates operands as the language says: what is asked when it is run with an oracle
is what the inquiry of the pattern asks, in the same order, whatever the answers are.

* `Pattern.test_eq_inquiry`, `Expr.test_eq_inquiry`: skipping a constant changes nothing.
* `Conducts.run`: code that conducts an inquiry can be run.
* `evaluated_in_order`: no evaluation is dropped, repeated or moved.
-/

namespace GuardedMatch

variable {facts : Facts} {forest : Forest} {oracle : Oracle}

/-! ## Skipping -/

/-- The forest holds the expression that is visited, and the oracle answers for it as it has to. -/
structure Visit.Foreseen (forest : Forest) (oracle : Oracle) (visit : Visit) : Prop where
  reads : ∀ expr, visit = .expr expr → forest.reads expr.id = expr.hasRuntimeOperands
  agrees : oracle.AgreesAt visit

namespace Expr

variable {left right : Expr} {id : ExprId} {span : Span}

theorem test_eq_inquiry_operand {expr : Expr} (hoperand : expr.IsOperand)
    (h : ∀ visit ∈ expr.visits, visit.Foreseen forest oracle) :
    (expr.test facts : Asking forest oracle) = expr.inquiry facts oracle := by
  rw [test_operand hoperand, inquiry_operand hoperand, ← (h _ expr.self_mem_visits).reads expr rfl]
  rfl

/-- A constant on the left of `&&` may be skipped. -/
theorem test_eq_inquiry_and (hagree : ∀ visit ∈ left.visits, oracle.AgreesAt visit)
    (hleft : (left.test facts : Asking forest oracle) = left.inquiry facts oracle)
    (hright : (right.test facts : Asking forest oracle) = right.inquiry facts oracle) :
    ((Expr.binary id .and left right span).test facts : Asking forest oracle) =
      (Expr.binary id .and left right span).inquiry facts oracle := by
  rw [test, inquiry, hleft, hright]
  cases hskip : left.skippable with
  | none => rfl
  | some outcome =>
    rw [left.inquiry_of_skippable hagree hskip]
    cases outcome <;> rfl

theorem test_eq_inquiry_or (hagree : ∀ visit ∈ left.visits, oracle.AgreesAt visit)
    (hleft : (left.test facts : Asking forest oracle) = left.inquiry facts oracle)
    (hright : (right.test facts : Asking forest oracle) = right.inquiry facts oracle) :
    ((Expr.binary id .or left right span).test facts : Asking forest oracle) =
      (Expr.binary id .or left right span).inquiry facts oracle := by
  rw [test, inquiry, hleft, hright]
  cases hskip : left.skippable with
  | none =>
    rw [Inquiry.orElse_eq]
    rfl
  | some outcome =>
    rw [left.inquiry_of_skippable hagree hskip]
    cases outcome <;> rfl

end Expr

mutual

/-- **What the code of a pattern asks is what the pattern asks.** -/
theorem Pattern.test_eq_inquiry : ∀ (pattern : Pattern),
    pattern.Each (Visit.Foreseen forest oracle) → ∀ static : Ty,
      (pattern.test facts static () : Asking forest oracle) = pattern.inquiry facts oracle static
  | .type id ty binds span, _, static => by
    rw [Pattern.test, Pattern.inquiry]
    exact Inquiry.both_known_true _
  | .record id ty components span, h, static => by
    rw [Pattern.test, Pattern.inquiry,
      Pattern.testComponents_eq_inquiry components fun _ => h.component]
    rfl
  | .guarded id patterns condition span, h, static => by
    have hcondition : ∀ visit ∈ condition.visits, visit.Foreseen forest oracle :=
      fun visit hvisit => h visit (Visit.right_subset hvisit)
    rw [Pattern.test, Pattern.inquiry, Pattern.testAll_eq_inquiry patterns fun _ => h.sub]
    cases hskip : condition.skippable with
    | none =>
      rw [← condition.test_eq_inquiry hcondition]
      rfl
    | some outcome =>
      rw [condition.inquiry_of_skippable (fun visit hvisit => (hcondition visit hvisit).agrees)
        hskip]
      rfl
  | .any id span, _, static => by
    rw [Pattern.test, Pattern.inquiry]
    rfl
  | .missing id, _, static => by
    rw [Pattern.test, Pattern.inquiry]
    rfl

theorem Pattern.testAll_eq_inquiry : ∀ (patterns : List Pattern),
    (∀ pattern ∈ patterns, pattern.Each (Visit.Foreseen forest oracle)) → ∀ static : Ty,
      (Pattern.testAll facts patterns static () : Asking forest oracle) =
        Pattern.inquiryAll facts oracle patterns static
  | [], _, static => by
    rw [Pattern.testAll, Pattern.inquiryAll]
    rfl
  | pattern :: patterns, h, static => by
    rw [List.forall_mem_cons] at h
    rw [Pattern.testAll, Pattern.inquiryAll, pattern.test_eq_inquiry h.1,
      Pattern.testAll_eq_inquiry patterns h.2]
    rfl

theorem Pattern.testComponents_eq_inquiry : ∀ (patterns : List Pattern),
    (∀ pattern ∈ patterns, pattern.Each (Visit.Foreseen forest oracle)) →
      ∀ (position : Nat) (types : List Ty),
      (Pattern.testComponents facts patterns position types () : Asking forest oracle) =
        Pattern.inquiryComponents facts oracle patterns types
  | [], _, position, types => by
    rw [Pattern.testComponents, Pattern.inquiryComponents]
    rfl
  | pattern :: patterns, h, position, types => by
    rw [List.forall_mem_cons] at h
    rw [Pattern.testComponents, Pattern.inquiryComponents, pattern.test_eq_inquiry h.1,
      Pattern.testComponents_eq_inquiry patterns h.2]
    rfl

/-- What the code of a condition asks is what the condition asks. -/
theorem Expr.test_eq_inquiry : ∀ (expr : Expr),
    (∀ visit ∈ expr.visits, visit.Foreseen forest oracle) →
      (expr.test facts : Asking forest oracle) = expr.inquiry facts oracle
  | .bool id value span, _ => by
    rw [Expr.test, Expr.inquiry]
    rfl
  | .unary id .not operand span, h => by
    rw [Expr.test, Expr.inquiry, operand.test_eq_inquiry fun visit hvisit =>
      h visit (List.mem_cons_of_mem _ hvisit)]
    rfl
  | .binary id op left right span, h => by
    have hl : ∀ visit ∈ left.visits, visit.Foreseen forest oracle := fun visit hvisit =>
      h visit (Visit.left_subset hvisit)
    have hr : ∀ visit ∈ right.visits, visit.Foreseen forest oracle := fun visit hvisit =>
      h visit (Visit.right_subset hvisit)
    have hagree : ∀ visit ∈ left.visits, oracle.AgreesAt visit := fun visit hvisit =>
      (hl visit hvisit).agrees
    cases op with
    | and =>
      exact Expr.test_eq_inquiry_and hagree (left.test_eq_inquiry hl) (right.test_eq_inquiry hr)
    | or =>
      exact Expr.test_eq_inquiry_or hagree (left.test_eq_inquiry hl) (right.test_eq_inquiry hr)
    | eq | notEq | lt | ltEq | gt | gtEq | add | sub | mul | div | rem =>
      exact Expr.test_eq_inquiry_operand rfl h
  | .instanceOf id tested pattern span, h => by
    have htested := h (.expr tested)
      (Visit.left_subset tested.self_mem_visits)
    have hpattern : pattern.Each (Visit.Foreseen forest oracle) := fun visit hvisit =>
      h visit (Visit.right_subset hvisit)
    rw [Expr.test, Expr.inquiry, pattern.test_eq_inquiry hpattern, ← htested.reads tested rfl]
    rfl
  | .missing id, _ => by
    rw [Expr.test, Expr.inquiry]
    rfl
  | .int .., h | .ident .., h | .field .., h | .call .., h | .unary _ .neg _ _, h =>
    Expr.test_eq_inquiry_operand trivial h

end

/-! ## Runs -/

/-- **Code that conducts an inquiry can be run**, and leaves to where the outcome leads. -/
theorem Conducts.run {exits : Exits} {inquiry : Inquiry} {code : List Instr}
    (h : Conducts forest oracle exits inquiry code) (honce : (placedLabels code).Nodup)
    (hexits : ∀ outcome label, exits outcome (some label) → label ∉ placedLabels code) :
    ∃ exit final, Point.Leads forest oracle code (.inside 0 .empty) (.outside exit final) ∧
      exits (inquiry []).1 exit ∧ final.history = (inquiry []).2 := by
  obtain ⟨target, memory, hexit, hhistory, hleads⟩ :=
    h code 0 .empty honce (Machine.embeds_self code)
  refine ⟨target, memory, hleads.trans ?_, hexit, hhistory⟩
  cases target with
  | none => exact Point.leads_finish (Nat.zero_add _).ge
  | some label =>
    have hland : Point.land code label memory = .outside (some label) memory :=
      Point.land_of_notMem (hexits _ label hexit)
    rw [Point.heading, hland]

/-- For the operands of a forest that are known without reading anything, the oracle answers what is
known. -/
def Oracle.AgreesWith (oracle : Oracle) (forest : Forest) : Prop :=
  ∀ id, (forest.expr id).IsOperand → ∀ outcome, (forest.expr id).skippable = some outcome →
    ∀ history, oracle history (.operand id) = outcome

theorem Arena.Acyclic.foreseen {arena : Arena} (harena : arena.Acyclic)
    (hagrees : oracle.AgreesWith arena.forest) (id : PatternId) :
    (arena.forest.pattern id).Each (Visit.Foreseen arena.forest oracle) := by
  intro visit hvisit
  have hexpr : ∀ expr, visit = .expr expr → arena.forest.expr expr.id = expr := by
    rintro expr rfl
    exact harena.closed (.pattern id) _ hvisit
  refine ⟨fun expr heq => ?_, fun operand heq hoperand outcome hskip => ?_⟩
  · rw [Forest.reads, hexpr expr heq]
  · rw [← hexpr operand heq] at hoperand hskip
    exact hagrees operand.id hoperand outcome hskip

open Point in
/-- **Generated code evaluates operands in the order of the source.**  Take any answers to type
tests and for operands, as long as they fit what is known of operands that read only literals.  The
code generated for a pattern can be run with them.  Every run leaves to where the outcome of the
pattern leads, and the operands evaluated on it that read something are those that the pattern asks
for, in this order. -/
theorem evaluated_in_order {arena : Arena} (harena : arena.Acyclic) (id : PatternId)
    (facts : Facts) (value : ValueId) (static : Ty) (targets : Targets) (planner : Planner)
    (hlabels : ∀ outcome, ∀ label ∈ targets.on outcome, label < planner.stream.labels.size)
    {emitted : Emitted} {after : Planner}
    (hgenerated : EStateM.run ((arena.forest.pattern id).generate facts value static targets)
      planner = .ok emitted after) :
    ∃ code, after.stream.instrs.toList = planner.stream.instrs.toList ++ code ∧
      ∀ oracle : Oracle, oracle.AgreesWith arena.forest →
        (∃ exit final, Leads arena.forest oracle code (.inside 0 .empty) (.outside exit final)) ∧
        ∀ exit final, Leads arena.forest oracle code (.inside 0 .empty) (.outside exit final) →
          exit = targets.on ((arena.forest.pattern id).inquiry facts oracle static []).1 ∧
          final.evaluated.filter arena.forest.reads =
            ((arena.forest.pattern id).inquiry facts oracle static []).2.operands := by
  have hin : targets.Within none planner.stream.labels.size := by
    intro outcome label hexit
    exact hlabels outcome label (Targets.exits_none.mp hexit).symm
  obtain ⟨code, hgrows, -⟩ :=
    ((arena.forest.pattern id).generate_emits value static hin).of_ok hgenerated
  refine ⟨code, hgrows.appends.instrs, fun oracle hagrees => ?_⟩
  have hconducts : Conducts arena.forest oracle (targets.Exits none)
      ((arena.forest.pattern id).inquiry facts oracle static) code := by
    have hmade : Planner.Performs ((arena.forest.pattern id).generate facts value static targets)
        value () (targets.Exits none)
        ((arena.forest.pattern id).test facts static () : Asking arena.forest oracle) planner :=
      (arena.forest.pattern id).generate_made value () static fun _ => hin
    obtain ⟨piece, hgrows', hmakes⟩ := hmade.of_ok hgenerated
    obtain rfl : piece = code :=
      List.append_cancel_left (hgrows'.appends.instrs.symm.trans hgrows.appends.instrs)
    rw [← (arena.forest.pattern id).test_eq_inquiry (harena.foreseen hagrees id)]
    exact hmakes
  obtain ⟨exit, final, hrun, hexit, hhistory⟩ := hconducts.run hgrows.appends.nodup
    fun outcome label hexit hplaced =>
      (hgrows.appends.base_le label hplaced).not_gt (hin outcome label hexit)
  refine ⟨⟨exit, final, hrun⟩, fun exit' final' hrun' => ?_⟩
  -- The answers determine the run, so this is the run that the inquiry describes.
  cases hrun.eq_of_outside hrun'
  have hfaithful : final.Faithful arena.forest := hrun.faithful rfl
  rw [← hhistory]
  exact ⟨Targets.exits_none.mp hexit, hfaithful⟩

/-- `Box(Object content) && (ready && 1 < 2 || late)`. -/
def readyOrLate : Arena where
  patterns := #[.type ⟨some "Object", Span.none⟩ (some 0) Span.none,
    .record ⟨some "Box", Span.none⟩ [0] Span.none, .guarded [1] 6 Span.none]
  exprs := #[.ident "ready" Span.none, .int 1 Span.none, .int 2 Span.none,
    .binary .lt 1 2 Span.none, .binary .and 0 3 Span.none, .ident "late" Span.none,
    .binary .or 4 5 Span.none]
  locals := #[⟨"content", Span.none⟩]

theorem acyclic_readyOrLate : readyOrLate.Acyclic :=
  Arena.acyclic_of_rank (Node.rank (fun id => 8 * id) fun id => id) (by decide)

/-- Every test passes, and every operand but the first is true. -/
def lateOnly : Oracle := fun _ question => question != .operand 0

theorem agreesWith_lateOnly : lateOnly.AgreesWith readyOrLate.forest := by
  intro id _ outcome hskip history
  have hknown : ∀ id < 7, (readyOrLate.forest.expr id).skippable =
      if id = 3 then some true else none := by
    decide +kernel
  by_cases hid : id < 7
  · rw [hknown id hid] at hskip
    split at hskip
    next heq =>
      cases hskip
      rw [heq]
      rfl
    next => cases hskip
  · have hnode : readyOrLate.exprs[id]? = none := by
      rw [Array.getElem?_eq_none_iff]
      exact Nat.le_of_not_lt hid
    rw [Arena.expr_of_none hnode, Expr.knowing_skippable.missing] at hskip
    cases hskip

/-- Nothing is known of types here, and the snapshots are of an empty table. -/
def bareFacts : Facts :=
  ⟨Pool.shapes, .empty, ⟨#[], ((∅ : IdMap Snapshot).insert 1 ⟨0, 0⟩).insert 2 ⟨0, 0⟩⟩⟩

open Point in
/-- If only `late` is true, the code evaluates `ready` and then `late`, and the pattern matches. -/
theorem evaluated_readyOrLate : ∃ emitted after code,
    EStateM.run ((readyOrLate.forest.pattern 2).generate bareFacts 0 ⟨32⟩ ⟨none, some 0⟩)
      boxPlanner = .ok emitted after ∧
    after.stream.instrs.toList = boxPlanner.stream.instrs.toList ++ code ∧
    (∃ exit final, Leads readyOrLate.forest lateOnly code (.inside 0 .empty)
      (.outside exit final)) ∧
    ∀ exit final, Leads readyOrLate.forest lateOnly code (.inside 0 .empty) (.outside exit final) →
      exit = none ∧ final.evaluated.filter readyOrLate.forest.reads = [0, 5] := by
  have hok : (EStateM.run' ((readyOrLate.forest.pattern 2).generate bareFacts 0 ⟨32⟩
      ⟨none, some 0⟩) boxPlanner).isSome = true := by
    decide +kernel
  delta EStateM.run' at hok
  cases hrun : EStateM.run ((readyOrLate.forest.pattern 2).generate bareFacts 0 ⟨32⟩
      ⟨none, some 0⟩) boxPlanner with
  | error fault after => simp [hrun] at hok
  | ok emitted after =>
    obtain ⟨code, hcode, hruns⟩ := evaluated_in_order acyclic_readyOrLate 2 bareFacts 0 ⟨32⟩
      ⟨none, some 0⟩ boxPlanner (by decide) hrun
    obtain ⟨hexists, hall⟩ := hruns lateOnly agreesWith_lateOnly
    have hasked : ((readyOrLate.forest.pattern 2).inquiry bareFacts lateOnly ⟨32⟩ []).1 = true ∧
        ((readyOrLate.forest.pattern 2).inquiry bareFacts lateOnly ⟨32⟩ []).2.operands =
          [0, 5] := by
      decide +kernel
    refine ⟨emitted, after, code, rfl, hcode, hexists, fun exit final hleads => ?_⟩
    obtain ⟨hexit, hevaluated⟩ := hall exit final hleads
    rw [hasked.1] at hexit
    rw [hasked.2] at hevaluated
    exact ⟨hexit, hevaluated⟩

end GuardedMatch
