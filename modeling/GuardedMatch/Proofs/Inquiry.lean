import GuardedMatch.Proofs.Reading

/-!
# What is asked during a test

Testing a value against a pattern asks questions: whether a value has a type, and whether an operand
is true.  Here they are put to an oracle.  It knows what was asked before and may answer as it
likes, so that oracles stand for all outcomes of type tests and all truth values of operands.

An inquiry puts questions to the oracle and comes out true or false.  The inquiry of a pattern asks
what the language says, and in the order it says.  Code that is run with an oracle asks questions as
well, and a piece of code conducts an inquiry if it asks the same questions wherever it stands, and
leaves to where the outcome leads.

* `Pattern.inquiry`, `Expr.inquiry`: what is asked to test a pattern or a condition.
* `Expr.inquiry_of_skippable`: nothing has to be asked for a condition that may be skipped.
* `Point.Leads.eq_of_outside`: the answers determine where a run ends.
* `Conducts.both`, `Conducts.jump`, `Conducts.place`, ...: how pieces that conduct inquiries are put
  together.  So inquiries are a reading of code, `Asking.reading`.
-/

namespace GuardedMatch

/-! ## Inquiries -/

inductive Question
  | type (ty : Ty)
  | operand (id : ExprId)
deriving DecidableEq

/-- What was asked and how it was answered, the earliest first. -/
abbrev History := List (Question × Bool)

/-- Answers in view of what was asked before. -/
abbrev Oracle := History → Question → Bool

/-- How an inquiry comes out after a history, and the history then. -/
abbrev Inquiry := History → Bool × History

/-- The operand that is asked for. -/
def Question.operand? : Question → Option ExprId
  | type _ => none
  | operand id => some id

/-- The operands that were asked for, in order. -/
def History.operands (history : History) : List ExprId :=
  history.filterMap fun entry => entry.1.operand?

namespace Inquiry

/-- Nothing is asked. -/
def known (outcome : Bool) : Inquiry := fun history => (outcome, history)

def ask (oracle : Oracle) (question : Question) : Inquiry := fun history =>
  (oracle history question, history ++ [(question, oracle history question)])

/-- Ask for an operand.  This is kept in the history only if the operand reads something at run
time. -/
def consult (oracle : Oracle) (reads : Bool) (id : ExprId) : Inquiry := fun history =>
  if reads then ask oracle (.operand id) history else (oracle history (.operand id), history)

def negate (inquiry : Inquiry) : Inquiry := fun history =>
  (!(inquiry history).1, (inquiry history).2)

/-- The second inquiry is made whatever the first one gives. -/
def after (first second : Inquiry) : Inquiry := fun history => second (first history).2

/-- The second inquiry is made if the first one comes out true. -/
def both (first second : Inquiry) : Inquiry := fun history =>
  if (first history).1 then second (first history).2 else first history

/-- The second inquiry is made if the first one comes out false. -/
def orElse (first second : Inquiry) : Inquiry := fun history =>
  if (first history).1 then first history else second (first history).2

variable {first second : Inquiry} {history : History}

theorem both_of_true (h : (first history).1 = true) :
    first.both second history = second (first history).2 := if_pos h

theorem both_of_false (h : (first history).1 = false) :
    first.both second history = first history := if_neg (by rw [h]; decide)

theorem both_known_true (inquiry : Inquiry) : inquiry.both (.known true) = inquiry := by
  funext history
  cases houtcome : (inquiry history).1 with
  | true =>
    rw [both_of_true houtcome, known, ← houtcome]
  | false => rw [both_of_false houtcome]

@[simp]
theorem negate_negate (inquiry : Inquiry) : inquiry.negate.negate = inquiry := by
  funext history
  simp [negate]

theorem orElse_eq (first second : Inquiry) :
    first.orElse second = (first.negate.both second.negate).negate := by
  funext history
  cases houtcome : (first history).1 with
  | true =>
    have hfalse : (first.negate history).1 = false := by simp [negate, houtcome]
    rw [negate, both_of_false hfalse, orElse, if_pos houtcome]
    exact congrFun (negate_negate first).symm history
  | false =>
    have htrue : (first.negate history).1 = true := by simp [negate, houtcome]
    rw [negate, both_of_true htrue, orElse, if_neg (by rw [houtcome]; decide)]
    exact congrFun (negate_negate second).symm _

end Inquiry

/-- Ask whether a value has the type of a pattern, unless its static type says so. -/
def Facts.probe (facts : Facts) (oracle : Oracle) (id : PatternId) (static : Ty) : Inquiry :=
  if facts.leavesOpen id static then .ask oracle (.type (facts.table.patternType id))
  else .known true

section

variable (facts : Facts) (oracle : Oracle)

mutual

/-- What is asked to test a value, of which a static type is known, against a pattern.  Of a guarded
pattern, the condition is asked after all sub-patterns have matched. -/
def Pattern.inquiry : Pattern → (static : Ty) → Inquiry
  | .type id .., static => facts.probe oracle id static
  | .record id _ components _, static =>
    .both (facts.probe oracle id static) (Pattern.inquiryComponents components
      (facts.pool.componentTypes (facts.table.patternType id)))
  | .guarded _ patterns condition _, static =>
    .both (Pattern.inquiryAll patterns static) condition.inquiry
  | .any .., _ => .known true
  | .missing _, _ => .known false

/-- Patterns are tested from left to right, as long as they match. -/
def Pattern.inquiryAll : List Pattern → (static : Ty) → Inquiry
  | [], _ => .known true
  | pattern :: patterns, static =>
    .both (pattern.inquiry static) (Pattern.inquiryAll patterns static)

def Pattern.inquiryComponents : List Pattern → List Ty → Inquiry
  | [], _ => .known true
  | pattern :: patterns, types =>
    .both (pattern.inquiry (types.headD Ty.error)) (Pattern.inquiryComponents patterns types.tail)

/-- What is asked to evaluate a condition.  The logical operators evaluate their operands from left
to right as far as they have to, `instanceof` evaluates its expression before it tests it, and every
other expression is one operand. -/
def Expr.inquiry : Expr → Inquiry
  | .bool _ value _ => .known value
  | .unary _ .not operand _ => operand.inquiry.negate
  | .binary _ .and left right _ => .both left.inquiry right.inquiry
  | .binary _ .or left right _ => .orElse left.inquiry right.inquiry
  | .instanceOf _ tested pattern _ =>
    .after (.consult oracle tested.hasRuntimeOperands tested.id)
      (pattern.inquiry (facts.table.exprTypes[tested.id]?.getD Ty.object))
  | .missing _ => .known false
  | operand => .consult oracle operand.hasRuntimeOperands operand.id

end

end

variable {facts : Facts} {oracle : Oracle}

/-- A condition that is evaluated as a whole is asked for as a whole. -/
theorem Expr.inquiry_operand {expr : Expr} (h : expr.IsOperand) :
    expr.inquiry facts oracle = .consult oracle expr.hasRuntimeOperands expr.id := by
  rw [Expr.inquiry.eq_def]
  split <;> first | cases h | rfl

/-! ## Conditions that may be skipped -/

/-- For an operand that is known without reading anything, the oracle answers what is known. -/
def Oracle.AgreesAt (oracle : Oracle) (visit : Visit) : Prop :=
  ∀ operand, visit = .expr operand → operand.IsOperand → ∀ outcome,
    operand.skippable = some outcome → ∀ history, oracle history (.operand operand.id) = outcome

namespace Expr

theorem inquiry_literal {expr : Expr} (hoperand : expr.IsOperand)
    (h : expr.hasRuntimeOperands = false) (history : History) :
    expr.inquiry facts oracle history = (oracle history (.operand expr.id), history) := by
  rw [inquiry_operand hoperand, h, Inquiry.consult, if_neg Bool.false_ne_true]

/-- What reads only literals leaves nothing in the history. -/
theorem inquiry_history (history : History) : ∀ expr : Expr, expr.hasRuntimeOperands = false →
    (expr.inquiry facts oracle history).2 = history
  | .bool id value span, _ => by rw [inquiry, Inquiry.known]
  | .unary id .not operand span, h => by
    rw [inquiry, Inquiry.negate]
    exact inquiry_history history operand h
  | .binary id op left right span, h => by
    obtain ⟨hl, hr⟩ : left.hasRuntimeOperands = false ∧ right.hasRuntimeOperands = false := by
      simpa [hasRuntimeOperands] using h
    have hleft := inquiry_history history left hl
    have hright := inquiry_history history right hr
    cases op with
    | and =>
      rw [inquiry, Inquiry.both]
      split
      next => rw [hleft, hright]
      next => exact hleft
    | or =>
      rw [inquiry, Inquiry.orElse]
      split
      next => exact hleft
      next => rw [hleft, hright]
    | eq | notEq | lt | ltEq | gt | gtEq | add | sub | mul | div | rem =>
      exact congrArg Prod.snd (inquiry_literal (by exact rfl) h history)
  | .missing id, _ => by rw [inquiry, Inquiry.known]
  | .int .., h | .unary _ .neg _ _, h =>
    congrArg Prod.snd (inquiry_literal (by exact trivial) h history)
  | .ident .., h | .field .., h | .call .., h | .instanceOf .., h => by
    simp [hasRuntimeOperands] at h

theorem hasRuntimeOperands_of_skippable {expr : Expr} {outcome : Bool}
    (h : expr.skippable = some outcome) : expr.hasRuntimeOperands = false := by
  by_contra hruntime
  simp [skippable, hruntime] at h

theorem inquiry_known {expr : Expr} {outcome : Bool} (hoperand : expr.IsOperand)
    (hagree : ∀ visit ∈ expr.visits, oracle.AgreesAt visit) (h : expr.skippable = some outcome)
    (history : History) : (expr.inquiry facts oracle history).1 = outcome := by
  rw [inquiry_literal hoperand (hasRuntimeOperands_of_skippable h)]
  exact hagree _ expr.self_mem_visits expr rfl hoperand outcome h history

/-- A condition that may be skipped comes out as it is known to. -/
theorem inquiry_outcome (history : History) : ∀ (expr : Expr) {outcome : Bool},
    (∀ visit ∈ expr.visits, oracle.AgreesAt visit) → expr.skippable = some outcome →
      (expr.inquiry facts oracle history).1 = outcome
  | .bool id value span, outcome, _, h => by
    rw [inquiry]
    exact knowing_skippable.bool h
  | .unary id .not operand span, outcome, hagree, h => by
    have hoperand := inquiry_outcome history operand
      (fun visit hvisit => hagree visit (List.mem_cons_of_mem _ hvisit)) (knowing_skippable.not h)
    rw [inquiry, Inquiry.negate, hoperand, Bool.not_not]
  | .binary id op left right span, outcome, hagree, h => by
    have hl : ∀ side, left.skippable = some side →
        (left.inquiry facts oracle history).1 = side := fun _ =>
      inquiry_outcome history left fun visit hvisit =>
        hagree visit (Visit.left_subset hvisit)
    have hr : ∀ side, right.skippable = some side →
        (right.inquiry facts oracle history).1 = side := fun _ =>
      inquiry_outcome history right fun visit hvisit =>
        hagree visit (Visit.right_subset hvisit)
    -- One side may decide although the other one is not known.  That one reads only literals.
    have hhistory : (left.inquiry facts oracle history).2 = history := by
      have hliteral := hasRuntimeOperands_of_skippable h
      rw [hasRuntimeOperands, Bool.or_eq_false_iff] at hliteral
      exact inquiry_history history left hliteral.1
    cases op with
    | and =>
      have hsides := knowing_skippable.and h
      rw [inquiry, Inquiry.both, hhistory]
      cases outcome with
      | true => rw [hl true hsides.1, if_pos rfl, hr true hsides.2]
      | false =>
        rcases hsides with hside | hside
        · simp [hl false hside]
        · split
          next => exact hr false hside
          next hleft => simpa using hleft
    | or =>
      have hsides := knowing_skippable.or h
      rw [inquiry, Inquiry.orElse, hhistory]
      cases outcome with
      | true =>
        rcases hsides with hside | hside
        · simp [hl true hside]
        · split
          next hleft => exact hleft
          next => exact hr true hside
      | false => rw [hl false hsides.1, if_neg Bool.false_ne_true, hr false hsides.2]
    | eq | notEq | lt | ltEq | gt | gtEq | add | sub | mul | div | rem =>
      exact inquiry_known (by exact rfl) hagree h history
  | .instanceOf id tested pattern span, outcome, _, h => by
    rw [knowing_skippable.instanceOf] at h
    cases h
  | .missing id, outcome, _, h => by
    rw [knowing_skippable.missing] at h
    cases h
  | .int .., outcome, hagree, h | .ident .., outcome, hagree, h | .field .., outcome, hagree, h
  | .call .., outcome, hagree, h | .unary _ .neg _ _, outcome, hagree, h =>
    inquiry_known (by exact trivial) hagree h history

/-- **Nothing is asked for a condition that may be skipped.** -/
theorem inquiry_of_skippable (expr : Expr) {outcome : Bool}
    (hagree : ∀ visit ∈ expr.visits, oracle.AgreesAt visit) (h : expr.skippable = some outcome) :
    expr.inquiry facts oracle = .known outcome := by
  funext history
  exact Prod.ext (inquiry_outcome history expr hagree h)
    (inquiry_history history expr (hasRuntimeOperands_of_skippable h))

end Expr

/-! ## Running code with an oracle -/

/-- Whether an operand reads anything but literals. -/
def Forest.reads (forest : Forest) (id : ExprId) : Bool := (forest.expr id).hasRuntimeOperands

/-- What a run with an oracle has come to know. -/
structure Memory where
  /-- The truth values held under the numbers of values. -/
  truths : ValueId → Option Bool
  history : History
  /-- The operands that were evaluated, in order. -/
  evaluated : List ExprId

def Memory.empty : Memory := ⟨fun _ => none, [], []⟩

/-- What an instruction does to the memory, and whether it jumps.  It gets stuck on a truth value
that is not there. -/
def Instr.effect (forest : Forest) (oracle : Oracle) (memory : Memory) :
    Instr → Option (Bool × Memory)
  | placeLabel _ | project .. | storeLocal .. => some (false, memory)
  | goto _ => some (true, memory)
  | testType _ ty _ =>
    let answer := Inquiry.ask oracle (.type ty) memory.history
    some (!answer.1, { memory with history := answer.2 })
  | evalOperand dest id =>
    let answer := Inquiry.consult oracle (forest.reads id) id memory.history
    some (false, ⟨Function.update memory.truths dest (some answer.1), answer.2,
      memory.evaluated ++ [id]⟩)
  | branchIf value outcome _ =>
    (memory.truths value).map fun truth => (truth == outcome, memory)

/-- The operands that read something were asked for when they were evaluated. -/
def Memory.Faithful (forest : Forest) (memory : Memory) : Prop :=
  memory.evaluated.filter forest.reads = memory.history.operands

/-- Where a run is: before an instruction, or out of the code, to a label or at the end. -/
inductive Point
  | inside (position : Nat) (memory : Memory)
  | outside (exit : Option Label) (memory : Memory)

namespace Point

def memory : Point → Memory
  | inside _ memory | outside _ memory => memory

/-- After a jump to a label. -/
def land (code : List Instr) (label : Label) (memory : Memory) : Point :=
  match code.idxOf? (.placeLabel label) with
  | some position => inside position memory
  | none => outside (some label) memory

/-- At a target, or at `stop` if there is none. -/
def heading (code : List Instr) (stop : Nat) (target : Option Label) (memory : Memory) : Point :=
  match target with
  | some label => land code label memory
  | none => inside stop memory

/-- One step of a run with an oracle. -/
def step (forest : Forest) (oracle : Oracle) (code : List Instr) : Point → Option Point
  | outside .. => none
  | inside position memory =>
    match code[position]? with
    | none => some (outside none memory)
    | some instr => (instr.effect forest oracle memory).map fun (jumps, memory) =>
      heading code (position + 1) (if jumps then instr.target? else none) memory

/-- A run with an oracle leads from one point to another. -/
def Leads (forest : Forest) (oracle : Oracle) (code : List Instr) : Point → Point → Prop :=
  Relation.ReflTransGen fun before after => before.step forest oracle code = some after

variable {forest : Forest} {oracle : Oracle} {code : List Instr} {position : Nat}
  {memory memory' : Memory} {instr : Instr} {label : Label} {before after : Point}

/-- A label that is placed once is landed on where it is placed. -/
theorem land_of_placed (honce : (placedLabels code).Nodup)
    (h : code[position]? = some (.placeLabel label)) :
    land code label memory = inside position memory := by
  rw [land, idxOf?_placeLabel honce h]

theorem land_of_notMem (h : label ∉ placedLabels code) :
    land code label memory = outside (some label) memory := by
  rw [land, List.idxOf?_eq_none_iff.mpr fun hmem => h (mem_placedLabels.mpr hmem)]

theorem leads_stay (hinstr : code[position]? = some instr)
    (heffect : instr.effect forest oracle memory = some (false, memory')) :
    Leads forest oracle code (inside position memory) (inside (position + 1) memory') := by
  refine .single ?_
  simp [step, hinstr, heffect, heading]

theorem leads_jump (hinstr : code[position]? = some instr)
    (heffect : instr.effect forest oracle memory = some (true, memory'))
    (htarget : instr.target? = some label) :
    Leads forest oracle code (inside position memory) (land code label memory') := by
  refine .single ?_
  simp [step, hinstr, heffect, htarget, heading]

theorem leads_finish (h : code.length ≤ position) :
    Leads forest oracle code (inside position memory) (outside none memory) := by
  refine .single ?_
  simp [step, List.getElem?_eq_none h]

open Machine in
theorem leads_branch {value : ValueId} {truth : Bool} (htruth : memory.truths value = some truth)
    (targets : Targets) (hpiece : Embeds code position (branchCode value targets)) :
    Leads forest oracle code (inside position memory)
      (heading code (position + (branchCode value targets).length) (targets.on truth) memory) := by
  have hbranch : ∀ (outcome : Bool) (target : Label),
      (Instr.branchIf value outcome target).effect forest oracle memory =
        some (truth == outcome, memory) := by
    intro outcome target
    rw [Instr.effect, htruth, Option.map_some]
  match targets with
  | ⟨some t, some f⟩ =>
    obtain ⟨hfirst, hgoto, -⟩ := (embeds_cons.mp hpiece).imp_right embeds_cons.mp
    cases truth with
    | true => exact leads_jump hfirst (hbranch true t) rfl
    | false => exact (leads_stay hfirst (hbranch true t)).trans (leads_jump hgoto rfl rfl)
  | ⟨some t, none⟩ =>
    have hfirst := (embeds_cons.mp hpiece).1
    cases truth with
    | true => exact leads_jump hfirst (hbranch true t) rfl
    | false => exact leads_stay hfirst (hbranch true t)
  | ⟨none, some f⟩ =>
    have hfirst := (embeds_cons.mp hpiece).1
    cases truth with
    | true => exact leads_stay hfirst (hbranch false f)
    | false => exact leads_jump hfirst (hbranch false f) rfl
  | ⟨none, none⟩ => cases truth <;> exact .refl

/-- **The answers determine where a run ends.** -/
theorem Leads.eq_of_outside {exit exit' : Option Label}
    (h : Leads forest oracle code before (outside exit memory))
    (h' : Leads forest oracle code before (outside exit' memory')) :
    outside exit memory = outside exit' memory' := by
  have hunique : Relator.RightUnique fun before after : Point =>
      before.step forest oracle code = some after :=
    fun _ _ _ hone hother => Option.some.inj (hone.symm.trans hother)
  have hstuck : ∀ {exit memory after}, Leads forest oracle code (outside exit memory) after →
      outside exit memory = after := by
    intro exit memory after hleads
    rcases Relation.ReflTransGen.cases_head hleads with heq | ⟨_, hstep, -⟩
    · exact heq
    · cases hstep
  rcases Relation.ReflTransGen.total_of_right_unique hunique h h' with hleads | hleads
  · exact hstuck hleads
  · exact (hstuck hleads).symm

/-! ### What was evaluated -/

theorem memory_heading (stop : Nat) (target : Option Label) (memory : Memory) :
    (heading code stop target memory).memory = memory := by
  cases target with
  | none => rfl
  | some label =>
    show (land code label memory).memory = memory
    rw [land]
    split <;> rfl

end Point

/-- An instruction keeps account of what it evaluates. -/
theorem Memory.Faithful.effect {forest : Forest} {oracle : Oracle} {memory memory' : Memory}
    {instr : Instr} {jumps : Bool} (h : memory.Faithful forest)
    (heffect : instr.effect forest oracle memory = some (jumps, memory')) :
    memory'.Faithful forest := by
  cases instr with
  | placeLabel | goto | project | storeLocal =>
    cases heffect
    exact h
  | testType value ty onFail =>
    rw [Instr.effect, Option.some_inj, Prod.mk.injEq] at heffect
    obtain ⟨-, rfl⟩ := heffect
    rw [Memory.Faithful] at h ⊢
    simp [h, Inquiry.ask, History.operands, Question.operand?]
  | evalOperand dest id =>
    rw [Instr.effect, Option.some_inj, Prod.mk.injEq] at heffect
    obtain ⟨-, rfl⟩ := heffect
    rw [Memory.Faithful] at h ⊢
    cases hreads : forest.reads id with
    | true => simp [h, hreads, Inquiry.consult, Inquiry.ask, History.operands, Question.operand?]
    | false => simp [h, hreads, Inquiry.consult]
  | branchIf value outcome target =>
    obtain ⟨truth, -, heq⟩ := Option.map_eq_some_iff.mp heffect
    cases heq
    exact h

/-- A run keeps account of what it evaluates. -/
theorem Point.Leads.faithful {forest : Forest} {oracle : Oracle} {code : List Instr}
    {before after : Point} (h : Leads forest oracle code before after)
    (hbefore : before.memory.Faithful forest) : after.memory.Faithful forest := by
  induction h with
  | refl => exact hbefore
  | @tail mid after _ hstep ih =>
    cases mid with
    | outside => cases hstep
    | inside position memory =>
      rw [Point.step] at hstep
      split at hstep
      next =>
        cases hstep
        exact ih
      next instr _ =>
        obtain ⟨⟨jumps, memory'⟩, heffect, rfl⟩ := Option.map_eq_some_iff.mp hstep
        rw [memory_heading]
        exact Memory.Faithful.effect ih heffect

/-! ## Pieces that conduct inquiries -/

open Machine

/-- Wherever the piece stands, it asks what the inquiry asks and leaves to where the outcome
leads. -/
def Conducts (forest : Forest) (oracle : Oracle) (exits : Exits) (inquiry : Inquiry)
    (piece : List Instr) : Prop :=
  ∀ (code : List Instr) (position : Nat) (memory : Memory), (placedLabels code).Nodup →
    Embeds code position piece → ∃ target memory',
      exits (inquiry memory.history).1 target ∧ memory'.history = (inquiry memory.history).2 ∧
      Point.Leads forest oracle code (.inside position memory)
        (.heading code (position + piece.length) target memory')

namespace Conducts

variable {forest : Forest} {oracle : Oracle} {exits exits' exits'' : Exits}
  {inquiry first second : Inquiry} {piece rest : List Instr}

theorem mono (h : Conducts forest oracle exits inquiry piece)
    (hexits : ∀ outcome exit, exits outcome exit → exits' outcome exit) :
    Conducts forest oracle exits' inquiry piece := by
  intro code position memory honce hpiece
  obtain ⟨target, memory', hexit, hrest⟩ := h code position memory honce hpiece
  exact ⟨target, memory', hexits _ _ hexit, hrest⟩

theorem negate (h : Conducts forest oracle exits inquiry piece) :
    Conducts forest oracle (fun outcome => exits !outcome) inquiry.negate piece := by
  intro code position memory honce hpiece
  obtain ⟨target, memory', hexit, hrest⟩ := h code position memory honce hpiece
  refine ⟨target, memory', ?_, hrest⟩
  show exits (!!_) target
  rwa [Bool.not_not]

/-! ### Single instructions -/

/-- Where the outcome is known, a jump is all. -/
theorem known {outcome : Bool} {target : Option Label} (hexit : exits outcome target) :
    Conducts forest oracle exits (.known outcome) (jumpCode target) := by
  intro code position memory _ hpiece
  refine ⟨target, memory, hexit, rfl, ?_⟩
  cases target with
  | none => exact .refl
  | some label => exact Point.leads_jump (embeds_cons.mp hpiece).1 rfl rfl

theorem nothing {outcome : Bool} (hexit : exits outcome none) :
    Conducts forest oracle exits (.known outcome) [] := known hexit

theorem testType {value : ValueId} {ty : Ty} {fail : Label} :
    Conducts forest oracle (Targets.Exits ⟨none, some fail⟩ none) (.ask oracle (.type ty))
      [.testType value ty fail] := by
  intro code position memory _ hpiece
  have hinstr := (embeds_cons.mp hpiece).1
  let memory' : Memory :=
    { memory with history := (Inquiry.ask oracle (.type ty) memory.history).2 }
  have heffect : (Instr.testType value ty fail).effect forest oracle memory =
      some (!(Inquiry.ask oracle (.type ty) memory.history).1, memory') := rfl
  refine ⟨_, memory', Or.inl rfl, rfl, ?_⟩
  cases hanswer : (Inquiry.ask oracle (.type ty) memory.history).1 with
  | true =>
    rw [hanswer] at heffect
    exact Point.leads_stay hinstr heffect
  | false =>
    rw [hanswer] at heffect
    exact Point.leads_jump hinstr heffect rfl

theorem cons {instr : Instr} (heffect : ∀ memory, ∃ memory',
      instr.effect forest oracle memory = some (false, memory') ∧
        memory'.history = (first memory.history).2)
    (h : Conducts forest oracle exits second piece) :
    Conducts forest oracle exits (first.after second) (instr :: piece) := by
  intro code position memory honce hpiece
  obtain ⟨hinstr, hpiece⟩ := embeds_cons.mp hpiece
  obtain ⟨mid, heffect, hhistory⟩ := heffect memory
  obtain ⟨target, memory', hexit, hhistory', hleads⟩ := h code (position + 1) mid honce hpiece
  rw [hhistory] at hexit hhistory'
  have hlength : position + (instr :: piece).length = position + 1 + piece.length := by
    rw [List.length_cons]
    omega
  rw [hlength]
  exact ⟨target, memory', hexit, hhistory', (Point.leads_stay hinstr heffect).trans hleads⟩

theorem silent {instr : Instr}
    (heffect : ∀ memory, instr.effect forest oracle memory = some (false, memory))
    (h : Conducts forest oracle exits inquiry piece) :
    Conducts forest oracle exits inquiry (instr :: piece) := by
  have hafter : (Inquiry.known true).after inquiry = inquiry := rfl
  rw [← hafter]
  exact h.cons fun memory => ⟨memory, heffect memory, rfl⟩

theorem operand (value : ValueId) (id : ExprId) (targets : Targets)
    (fallthrough : Option Label) :
    Conducts forest oracle (targets.Exits fallthrough) (.consult oracle (forest.reads id) id)
      (.evalOperand value id :: branchCode value targets) := by
  intro code position memory honce hpiece
  obtain ⟨hinstr, hpiece⟩ := embeds_cons.mp hpiece
  have heval : (Instr.evalOperand value id).effect forest oracle memory = some (false, _) := rfl
  have hlength : position + (Instr.evalOperand value id :: branchCode value targets).length =
      position + 1 + (branchCode value targets).length := by
    rw [List.length_cons]
    omega
  rw [hlength]
  exact ⟨_, _, Or.inl rfl, rfl, (Point.leads_stay hinstr heval).trans
    (Point.leads_branch (Function.update_self ..) targets hpiece)⟩

/-! ### Putting pieces together -/

/-- **Two inquiries in a row**, the second of which is made if the first comes out true. -/
theorem both (h : Conducts forest oracle exits first piece)
    (h' : Conducts forest oracle exits' second rest)
    (htrue : ∀ exit, exits true exit → exit = none)
    (hfalse : ∀ exit, exits false exit → exit ≠ none ∧ exits'' false exit)
    (hsecond : ∀ outcome exit, exits' outcome exit → exits'' outcome exit) :
    Conducts forest oracle exits'' (first.both second) (piece ++ rest) := by
  intro code position memory honce hpieces
  obtain ⟨hpiece, hrest⟩ := embeds_append.mp hpieces
  obtain ⟨target, mid, hexit, hhistory, hleads⟩ := h code position memory honce hpiece
  cases houtcome : (first memory.history).1 with
  | true =>
    rw [houtcome] at hexit
    rw [htrue target hexit] at hleads
    obtain ⟨target', memory', hexit', hhistory', hleads'⟩ := h' code _ mid honce hrest
    rw [hhistory] at hexit' hhistory'
    rw [Inquiry.both_of_true houtcome, List.length_append, ← Nat.add_assoc]
    exact ⟨target', memory', hsecond _ _ hexit', hhistory', hleads.trans hleads'⟩
  | false =>
    rw [houtcome] at hexit
    obtain ⟨hsome, hexit⟩ := hfalse target hexit
    rw [Inquiry.both_of_false houtcome, houtcome]
    refine ⟨target, mid, hexit, hhistory, ?_⟩
    -- A jump to a label does not depend on where the pieces end.
    obtain ⟨label, rfl⟩ := Option.ne_none_iff_exists'.mp hsome
    exact hleads

/-- Where an inquiry goes on at its end, it may jump to a target instead. -/
theorem jump (h : Conducts forest oracle exits inquiry piece) (target : Option Label)
    (htarget : ∀ outcome, exits outcome none → exits' outcome target)
    (hother : ∀ outcome label, exits outcome (some label) → exits' outcome (some label)) :
    Conducts forest oracle exits' inquiry (piece ++ jumpCode target) := by
  intro code position memory honce hpieces
  obtain ⟨hpiece, hjump⟩ := embeds_append.mp hpieces
  obtain ⟨exit, memory', hexit, hhistory, hleads⟩ := h code position memory honce hpiece
  cases exit with
  | some label => exact ⟨some label, memory', hother _ _ hexit, hhistory, hleads⟩
  | none =>
    refine ⟨target, memory', htarget _ hexit, hhistory, ?_⟩
    cases target with
    | none =>
      rw [jumpCode, List.append_nil]
      exact hleads
    | some label => exact hleads.trans (Point.leads_jump (embeds_cons.mp hjump).1 rfl rfl)

/-- **A label of the piece is placed at its end.** -/
theorem place {label : Label} (h : Conducts forest oracle exits inquiry piece)
    (hhere : ∀ outcome, exits outcome none → exits' outcome none)
    (hother : ∀ outcome other, exits outcome (some other) →
      exits' outcome (some other) ∨ other = label ∧ exits' outcome none) :
    Conducts forest oracle exits' inquiry (piece ++ [.placeLabel label]) := by
  intro code position memory honce hpieces
  obtain ⟨hpiece, hplace⟩ := embeds_append.mp hpieces
  have hinstr := (embeds_cons.mp hplace).1
  obtain ⟨target, memory', hexit, hhistory, hleads⟩ := h code position memory honce hpiece
  have hover : Point.Leads forest oracle code (.inside (position + piece.length) memory')
      (.inside (position + (piece ++ [Instr.placeLabel label]).length) memory') := by
    rw [List.length_append, ← Nat.add_assoc, List.length_singleton]
    exact Point.leads_stay hinstr rfl
  cases target with
  | none => exact ⟨none, memory', hhere _ hexit, hhistory, hleads.trans hover⟩
  | some other =>
    rcases hother _ _ hexit with hexit | ⟨rfl, hexit⟩
    · exact ⟨some other, memory', hexit, hhistory, hleads⟩
    · refine ⟨none, memory', hexit, hhistory, ?_⟩
      rw [Point.heading, Point.land_of_placed honce hinstr] at hleads
      exact hleads.trans hover

end Conducts

/-! ## Inquiries as tests -/

/-- Inquiries that are put to an oracle, about the operands of a forest. -/
def Asking (_ : Forest) (_ : Oracle) : Type := Inquiry

variable {forest : Forest}

/-- A test is what is asked during it. -/
instance Asking.reading : Reading Unit (Asking forest oracle) where
  Strict := False
  part _ _ := ()
  found _ := ()
  known := Inquiry.known
  missing := Inquiry.known false
  probe facts id static _ := facts.probe oracle id static
  stored _ := Inquiry.known true
  operand id := Inquiry.consult oracle (forest.reads id) id
  after id := Inquiry.after (.consult oracle (forest.reads id) id)
  flip := Inquiry.negate
  both := Inquiry.both
  Makes _ _ _ := Conducts forest oracle
  mono := Conducts.mono
  mono_base h _ := h
  makes_known := Conducts.known
  makes_probe hopen := by
    rw [Facts.probe, if_pos hopen]
    exact .testType
  makes_settled hsettled := by
    rw [Facts.probe, if_neg (Bool.not_eq_true _ ▸ hsettled)]
    exact .nothing (Or.inl rfl)
  makes_unbound := .nothing (Or.inl rfl)
  makes_stored := .silent (fun _ => rfl) (.nothing (Or.inl rfl))
  makes_operand := Conducts.operand _ _
  makes_after := Conducts.cons fun _ => ⟨_, rfl, rfl⟩
  makes_project := Conducts.silent fun _ => rfl
  makes_flip := Conducts.negate
  makes_both h h' _ _ := h.both h'
  makes_jump target h _ := h.jump target
  makes_place h _ _ hhere hother _ := h.place hhere hother

end GuardedMatch
