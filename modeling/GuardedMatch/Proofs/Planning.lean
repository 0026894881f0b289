import GuardedMatch.Proofs.Reading

/-!
# Planned code tests what it is planned for

Code that is run on values decides something: wherever a piece of it stands, it goes to an exit for
true if that is so and to an exit for false if not.  So what pieces decide is a reading of code,
`Deciding.reading`, in which a test is a proposition.  The test of a pattern says that the pattern
matches, and the test of a condition that the condition holds.

* `Decides.both`, `Decides.jump`, `Decides.place`, ...: how pieces that decide something are put
  together.
* `Pattern.test_iff_matches`, `Expr.test_iff_holds`: what is decided for patterns and conditions.
-/

namespace GuardedMatch

open Machine

/-! ## Pieces that decide something -/

section

variable {pool : Pool} {model : ValueModel pool}

/-- A cell holds a value. -/
def Machine.Holding (id : ValueId) (value : model.Value) (cells : Cells model.Value) : Prop :=
  ∃ cell, cells id = some cell ∧ cell.value = value

/-- Wherever the piece stands, it goes to where the outcome of what is tested leads, if it finds a
value held and does not compute that one itself.  Other values that were computed before stay. -/
def Decides (env : Env model) (value : ValueId) (held : model.Value) (exits : Exits)
    (tested : Prop) (piece : List Instr) : Prop :=
  (destinations piece).Nodup → value ∉ destinations piece →
  ∀ (code : List Instr) (position : Nat) (cells : Cells model.Value), (placedLabels code).Nodup →
    Embeds code position piece → Holding value held cells →
    ∀ outcome, (tested ↔ outcome = true) → ∃ target cells', exits outcome target ∧
      (∀ id, id ∉ destinations piece → cells' id = cells id) ∧
      Goes env code position cells (position + piece.length) target cells'

namespace Decides

variable {env : Env model} {value dest : ValueId} {held : model.Value}
  {exits exits' exits'' : Exits} {tested tested' : Prop} {piece rest : List Instr}

theorem mono (h : Decides env value held exits tested piece)
    (hexits : ∀ outcome exit, exits outcome exit → exits' outcome exit) :
    Decides env value held exits' tested piece := by
  intro honce hvalue code position cells hnodup hpiece hheld outcome houtcome
  obtain ⟨target, cells', hexit, hrest⟩ :=
    h honce hvalue code position cells hnodup hpiece hheld outcome houtcome
  exact ⟨target, cells', hexits outcome target hexit, hrest⟩

theorem not (h : Decides env value held exits tested piece) :
    Decides env value held (fun outcome => exits !outcome) (¬ tested) piece := by
  intro honce hvalue code position cells hnodup hpiece hheld outcome houtcome
  refine h honce hvalue code position cells hnodup hpiece hheld (!outcome) ?_
  rw [Bool.not_eq_true', ← Bool.not_eq_true, ← houtcome, not_not]

/-! ### Single instructions -/

/-- Where the outcome is known, a jump is all. -/
theorem known {outcome : Bool} {target : Option Label} (hexit : exits outcome target) :
    Decides env value held exits (outcome = true) (jumpCode target) := by
  intro _ _ code position cells _ hpiece _ outcome' houtcome
  obtain rfl : outcome = outcome' := Bool.eq_iff_iff.mpr houtcome
  exact ⟨target, cells, hexit, fun _ _ => rfl, goes_jumpCode hpiece⟩

theorem nothing (hexit : exits true none) (h : tested) :
    Decides env value held exits tested [] := by
  have hknown : Decides env value held exits (true = true) (jumpCode none) := known hexit
  rwa [eq_self, ← eq_true h] at hknown

theorem testType {ty : Ty} {fail : Label} :
    Decides env value held (Targets.Exits ⟨none, some fail⟩ none) (model.inst held ty)
      [.testType value ty fail] := by
  rintro _ _ code position cells _ hpiece ⟨cell, hcell, rfl⟩ outcome houtcome
  have hinstr := (embeds_cons.mp hpiece).1
  refine ⟨_, cells, Or.inl rfl, fun _ _ => rfl, ?_⟩
  cases outcome with
  | true => exact .single (.pass hinstr hcell (houtcome.mpr rfl))
  | false => exact .jump (.fail hinstr hcell (mt houtcome.mp Bool.false_ne_true))

theorem storeLocal {id : LocalId} {slot : Nat} {fail : Option Label} :
    Decides env value held (Targets.Exits ⟨none, fail⟩ none) True [.storeLocal id slot value] := by
  rintro _ _ code position cells _ hpiece ⟨cell, hcell, -⟩ outcome houtcome
  obtain rfl := houtcome.mp trivial
  exact ⟨_, cells, Or.inl rfl, fun _ _ => rfl,
    .single (.storeLocal (embeds_cons.mp hpiece).1 hcell)⟩

/-- A value is computed, and what follows is about this value. -/
theorem compute {instr : Instr} {computed : model.Value} (hdest : instr.dest? = some dest)
    (hstep : ∀ (code : List Instr) (position : Nat) (cells : Cells model.Value),
      code[position]? = some instr → Holding value held cells → ∃ cell, cell.value = computed ∧
        Step env code position cells
          (.next (position + 1) (Function.update cells dest (some cell))))
    (h : Decides env dest computed exits tested piece) :
    Decides env value held exits tested (instr :: piece) := by
  have hdests : destinations (instr :: piece) = dest :: destinations piece :=
    List.filterMap_cons_some hdest
  rw [Decides, hdests, List.nodup_cons]
  rintro ⟨hnew, honce⟩ _ code position cells hnodup hpiece hheld outcome houtcome
  obtain ⟨hinstr, hpiece⟩ := embeds_cons.mp hpiece
  obtain ⟨cell, hcell, hstep⟩ := hstep code position cells hinstr hheld
  obtain ⟨target, cells', hexit, hagree, hgoes⟩ := h honce hnew code (position + 1) _ hnodup hpiece
    ⟨cell, Function.update_self .., hcell⟩ outcome houtcome
  refine ⟨target, cells', hexit, fun id hid => ?_, ?_⟩
  · rw [List.mem_cons, not_or] at hid
    exact (hagree id hid.2).trans (Function.update_of_ne hid.1 ..)
  · rw [List.length_cons, Nat.add_comm piece.length, ← Nat.add_assoc]
    exact (Goes.single hstep).trans hgoes

theorem evalOperand {id : ExprId} (h : Decides env dest (env.operand id) exits tested piece) :
    Decides env value held exits tested (.evalOperand dest id :: piece) :=
  h.compute rfl fun _ _ _ hinstr _ => ⟨_, rfl, .evalOperand hinstr⟩

theorem project {component : Nat}
    (h : Decides env dest (model.proj held component) exits tested piece) :
    Decides env value held exits tested (.project dest value component :: piece) := by
  refine h.compute rfl ?_
  rintro _ _ _ hinstr ⟨cell, hcell, rfl⟩
  exact ⟨_, rfl, .project hinstr hcell⟩

theorem operand (id : ExprId) (targets : Targets) (fallthrough : Option Label) :
    Decides env value held (targets.Exits fallthrough) (env.truth id = true)
      (.evalOperand dest id :: branchCode dest targets) := by
  intro _ _ code position cells _ hpiece _ outcome houtcome
  obtain ⟨hinstr, hpiece⟩ := embeds_cons.mp hpiece
  obtain rfl : env.truth id = outcome := Bool.eq_iff_iff.mpr houtcome
  let cell : Cell model.Value := ⟨env.operand id, some (env.truth id)⟩
  have hcell : Function.update cells dest (some cell) dest = some cell := Function.update_self ..
  refine ⟨_, Function.update cells dest (some cell), Or.inl rfl, fun other hother => ?_,
    (Goes.single (.evalOperand hinstr)).trans ?_⟩
  · have hne : other ≠ dest := by
      rintro rfl
      exact hother List.mem_cons_self
    exact Function.update_of_ne hne ..
  · rw [List.length_cons, Nat.add_comm (branchCode dest targets).length, ← Nat.add_assoc]
    exact goes_branchCode hcell rfl targets hpiece

/-! ### Putting pieces together -/

/-- **Two tests in a row**, the second of which is made if the first comes out true. -/
theorem both (h : Decides env value held exits tested piece)
    (h' : Decides env value held exits' tested' rest)
    (htrue : ∀ exit, exits true exit → exit = none)
    (hfalse : ∀ exit, exits false exit → exit ≠ none ∧ exits'' false exit)
    (hsecond : ∀ outcome exit, exits' outcome exit → exits'' outcome exit) :
    Decides env value held exits'' (tested ∧ tested') (piece ++ rest) := by
  rw [Decides, destinations_append, List.nodup_append', List.mem_append, not_or]
  rintro ⟨honce, honce', -⟩ ⟨hvalue, hvalue'⟩ code position cells hnodup hpieces hheld outcome
    houtcome
  obtain ⟨hpiece, hrest⟩ := embeds_append.mp hpieces
  have hfirst := h honce hvalue code position cells hnodup hpiece hheld
  by_cases htested : tested
  · rw [and_iff_right htested] at houtcome
    obtain ⟨target, mid, hexit, hagree, hgoes⟩ := hfirst true (iff_of_true htested rfl)
    rw [htrue target hexit] at hgoes
    -- The first piece has not computed the value that is held.
    have hheld' : Holding value held mid := by rwa [Holding, hagree value hvalue]
    obtain ⟨target', cells', hexit', hagree', hgoes'⟩ :=
      h' honce' hvalue' code _ mid hnodup hrest hheld' outcome houtcome
    refine ⟨target', cells', hsecond outcome target' hexit', fun id hid => ?_, ?_⟩
    · rw [List.mem_append, not_or] at hid
      exact (hagree' id hid.2).trans (hagree id hid.1)
    · rw [List.length_append, ← Nat.add_assoc]
      exact hgoes.trans hgoes'
  · have hnot : outcome = false := by
      rw [← Bool.not_eq_true, ← houtcome]
      exact fun hboth => htested hboth.1
    obtain ⟨target, cells', hexit, hagree, hgoes⟩ :=
      hfirst false (iff_of_false htested Bool.false_ne_true)
    obtain ⟨hsome, hexit⟩ := hfalse target hexit
    refine ⟨target, cells', hnot ▸ hexit, fun id hid => hagree id fun hmem => ?_, ?_⟩
    · exact hid (List.mem_append_left _ hmem)
    · -- A jump to a label does not depend on where the pieces end.
      obtain ⟨label, rfl⟩ := Option.ne_none_iff_exists'.mp hsome
      exact hgoes

/-- Where a test goes on at its end, it may jump to a target instead. -/
theorem jump (h : Decides env value held exits tested piece) (target : Option Label)
    (htarget : ∀ outcome, exits outcome none → exits' outcome target)
    (hother : ∀ outcome label, exits outcome (some label) → exits' outcome (some label)) :
    Decides env value held exits' tested (piece ++ jumpCode target) := by
  have hdests : destinations (piece ++ jumpCode target) = destinations piece := by
    rw [destinations_append]
    cases target <;> exact List.append_nil _
  rw [Decides, hdests]
  intro honce hvalue code position cells hnodup hpieces hheld outcome houtcome
  obtain ⟨hpiece, hjump⟩ := embeds_append.mp hpieces
  obtain ⟨exit, cells', hexit, hagree, hgoes⟩ :=
    h honce hvalue code position cells hnodup hpiece hheld outcome houtcome
  cases exit with
  | some label => exact ⟨some label, cells', hother outcome label hexit, hagree, hgoes⟩
  | none =>
    refine ⟨target, cells', htarget outcome hexit, hagree, ?_⟩
    rw [List.length_append, ← Nat.add_assoc]
    exact hgoes.trans (goes_jumpCode hjump)

/-- **A label of the piece is placed at its end.** -/
theorem place {label : Label} (h : Decides env value held exits tested piece)
    (hhere : ∀ outcome, exits outcome none → exits' outcome none)
    (hother : ∀ outcome other, exits outcome (some other) →
      exits' outcome (some other) ∨ other = label ∧ exits' outcome none) :
    Decides env value held exits' tested (piece ++ [.placeLabel label]) := by
  have hdests : destinations (piece ++ [.placeLabel label]) = destinations piece := by
    rw [destinations_append]
    exact List.append_nil _
  rw [Decides, hdests]
  intro honce hvalue code position cells hnodup hpieces hheld outcome houtcome
  obtain ⟨hpiece, hplace⟩ := embeds_append.mp hpieces
  have hinstr := (embeds_cons.mp hplace).1
  obtain ⟨target, cells', hexit, hagree, hgoes⟩ :=
    h honce hvalue code position cells hnodup hpiece hheld outcome houtcome
  have hover : Goes env code (position + piece.length) cells'
      (position + (piece ++ [Instr.placeLabel label]).length) none cells' := by
    rw [List.length_append, ← Nat.add_assoc]
    exact .single (.placeLabel hinstr)
  cases target with
  | none => exact ⟨none, cells', hhere outcome hexit, hagree, hgoes.trans hover⟩
  | some other =>
    rcases hother outcome other hexit with hexit | ⟨rfl, hexit⟩
    · exact ⟨some other, cells', hexit, hagree, hgoes⟩
    · exact ⟨none, cells', hexit, hagree, (hgoes.land hnodup hinstr).trans hover⟩

end Decides

/-! ## Propositions as tests -/

/-- Propositions about values, where expressions evaluate as the environment says. -/
def Deciding (_ : Env model) : Type := Prop

/-- A test is what it decides. -/
instance Deciding.reading (env : Env model) : Reading model.Value (Deciding env) where
  Strict := False
  part := model.proj
  found := env.operand
  known outcome := outcome = true
  missing := False
  probe facts id static held :=
    facts.leavesOpen id static = true → model.inst held (facts.table.patternType id)
  stored _ := True
  operand id := env.truth id = true
  after _ test := test
  flip := Not
  both := And
  Makes _ := Decides env
  mono := Decides.mono
  mono_base h _ := h
  makes_known := Decides.known
  makes_probe hopen := by
    rw [forall_prop_of_true hopen]
    exact .testType
  makes_settled hsettled := .nothing (Or.inl rfl) fun hopen => by
    rw [hsettled] at hopen
    cases hopen
  makes_unbound := .nothing (Or.inl rfl) trivial
  makes_stored := .storeLocal
  makes_operand := .operand _
  makes_after := .evalOperand
  makes_project := .project
  makes_flip := .not
  makes_both h h' _ _ := h.both h'
  makes_jump target h _ := h.jump target
  makes_place h _ _ hhere hother _ := h.place hhere hother

end

/-! ## Patterns and conditions -/

/-- A value is of its static type, as far as that says something. -/
def ValueModel.Conforms {pool : Pool} (model : ValueModel pool) (value : model.Value)
    (static : Ty) : Prop := pool.isError static = false → model.inst value static

/-- What is decided depends on where something is visited: known operands have their known values,
and operands that are tested have their static types. -/
structure Visit.Ready (facts : Facts) {model : ValueModel facts.pool} (env : Env model)
    (visit : Visit) : Prop where
  agrees : env.AgreesAt visit
  tested : ∀ id tested pattern span, visit = .expr (.instanceOf id tested pattern span) →
    model.Conforms (env.operand tested.id) (facts.table.exprTypes[tested.id]?.getD Ty.object)

variable {facts : Facts} {model : ValueModel facts.pool} {env : Env model} {held : model.Value}

/-- What the static type settles is so. -/
theorem Deciding.probe_iff {id : PatternId} {static : Ty} (h : model.Conforms held static) :
    (Reading.probe facts id static held : Deciding env) ↔
      model.inst held (facts.table.patternType id) := by
  refine ⟨fun hprobe => ?_, fun hinst _ => hinst⟩
  cases hopen : facts.leavesOpen id static with
  | true => exact hprobe hopen
  | false =>
    simp only [Facts.leavesOpen, Bool.or_eq_false_iff, Bool.not_eq_false'] at hopen
    obtain ⟨⟨hty, hstatic⟩, hsub⟩ := hopen
    exact model.inst_mono (h hstatic) hstatic hty hsub

namespace Expr

variable {left right : Expr} {id : ExprId} {span : Span}

theorem test_iff_holds_operand {expr : Expr} (hoperand : expr.IsOperand) :
    (expr.test facts : Deciding env) ↔ expr.Holds env facts.table := by
  rw [test_operand hoperand, holds_iff hoperand]
  exact Iff.rfl

/-- A constant on the left of `&&` may be skipped. -/
theorem test_iff_holds_and (hagree : ∀ visit ∈ left.visits, env.AgreesAt visit)
    (hleft : (left.test facts : Deciding env) ↔ left.Holds env facts.table)
    (hright : (right.test facts : Deciding env) ↔ right.Holds env facts.table) :
    ((Expr.binary id .and left right span).test facts : Deciding env) ↔
      (Expr.binary id .and left right span).Holds env facts.table := by
  rw [test, Holds]
  cases hskip : left.skippable with
  | none => exact and_congr hleft hright
  | some outcome =>
    have hknown : left.Holds env facts.table ↔ outcome = true :=
      left.holds_of_skippable hagree hskip
    rw [hknown]
    cases outcome with
    | true => exact hright.trans (and_iff_right rfl).symm
    | false => exact iff_of_false Bool.false_ne_true fun h => Bool.false_ne_true h.1

theorem test_iff_holds_or (hagree : ∀ visit ∈ left.visits, env.AgreesAt visit)
    (hleft : (left.test facts : Deciding env) ↔ left.Holds env facts.table)
    (hright : (right.test facts : Deciding env) ↔ right.Holds env facts.table) :
    ((Expr.binary id .or left right span).test facts : Deciding env) ↔
      (Expr.binary id .or left right span).Holds env facts.table := by
  rw [test, Holds]
  cases hskip : left.skippable with
  | none =>
    rw [or_iff_not_and_not]
    exact not_congr (and_congr (not_congr hleft) (not_congr hright))
  | some outcome =>
    have hknown : left.Holds env facts.table ↔ outcome = true :=
      left.holds_of_skippable hagree hskip
    rw [hknown]
    cases outcome with
    | true => exact iff_of_true rfl (.inl rfl)
    | false => exact hright.trans (or_iff_right Bool.false_ne_true).symm

end Expr

mutual

/-- **The code of a pattern decides whether the pattern matches.** -/
theorem Pattern.test_iff_matches (herror : facts.pool.isError Ty.error = true) :
    ∀ (pattern : Pattern), pattern.Each (Visit.Ready facts env) →
      ∀ (static : Ty) (held : model.Value), model.Conforms held static →
      ((pattern.test facts static held : Deciding env) ↔ pattern.Matches env facts.table held)
  | .type id ty binds span, _, static, held, hconforms => by
    rw [Pattern.test, Pattern.Matches, ← and_true (model.inst held _)]
    exact and_congr_left' (Deciding.probe_iff hconforms)
  | .record id ty components span, hready, static, held, hconforms => by
    rw [Pattern.test, Pattern.Matches]
    refine (and_congr_left' (Deciding.probe_iff hconforms)).trans (and_congr_right fun hinst => ?_)
    refine Pattern.testComponents_iff_match herror components (fun _ => hready.component) 0 _ held
      fun index ty hty => ?_
    rw [Nat.zero_add]
    exact model.inst_proj hinst hty
  | .guarded id patterns condition span, hready, static, held, hconforms => by
    have hcondition : ∀ visit ∈ condition.visits, visit.Ready facts env := fun visit hvisit =>
      hready visit (Visit.right_subset hvisit)
    rw [Pattern.test, Pattern.Matches]
    refine and_congr (Pattern.testAll_iff_match herror patterns (fun _ => hready.sub) static held
      hconforms) ?_
    cases hskip : condition.skippable with
    | none => exact condition.test_iff_holds herror hcondition
    | some outcome =>
      exact (condition.holds_of_skippable (fun visit hvisit => (hcondition visit hvisit).agrees)
        hskip).symm
  | .any id span, _, static, held, _ => by
    rw [Pattern.test, Pattern.Matches]
    exact iff_of_true rfl trivial
  | .missing id, _, static, held, _ => by
    rw [Pattern.test, Pattern.Matches]
    exact Iff.rfl

theorem Pattern.testAll_iff_match (herror : facts.pool.isError Ty.error = true) :
    ∀ (patterns : List Pattern), (∀ pattern ∈ patterns, pattern.Each (Visit.Ready facts env)) →
      ∀ (static : Ty) (held : model.Value), model.Conforms held static →
      ((Pattern.testAll facts patterns static held : Deciding env) ↔
        Pattern.AllMatch env facts.table patterns held)
  | [], _, static, held, _ => by
    rw [Pattern.testAll, Pattern.AllMatch]
    exact iff_of_true rfl trivial
  | pattern :: patterns, hready, static, held, hconforms => by
    rw [List.forall_mem_cons] at hready
    rw [Pattern.testAll, Pattern.AllMatch]
    exact and_congr (pattern.test_iff_matches herror hready.1 static held hconforms)
      (Pattern.testAll_iff_match herror patterns hready.2 static held hconforms)

theorem Pattern.testComponents_iff_match (herror : facts.pool.isError Ty.error = true) :
    ∀ (patterns : List Pattern), (∀ pattern ∈ patterns, pattern.Each (Visit.Ready facts env)) →
      ∀ (position : Nat) (types : List Ty) (held : model.Value),
      (∀ (index : Nat) ty, types[index]? = some ty →
        model.inst (model.proj held (position + index)) ty) →
      ((Pattern.testComponents facts patterns position types held : Deciding env) ↔
        Pattern.ComponentsMatch env facts.table patterns position held)
  | [], _, position, types, held, _ => by
    rw [Pattern.testComponents, Pattern.ComponentsMatch]
    exact iff_of_true rfl trivial
  | pattern :: patterns, hready, position, types, held, htypes => by
    rw [List.forall_mem_cons] at hready
    rw [Pattern.testComponents, Pattern.ComponentsMatch]
    refine and_congr (pattern.test_iff_matches herror hready.1 _ _ fun hstatic => ?_)
      (Pattern.testComponents_iff_match herror patterns hready.2 (position + 1) types.tail held
        fun index ty hty => ?_)
    · cases types with
      | nil => exact absurd (herror.symm.trans hstatic) (by decide)
      | cons ty types => exact htypes 0 ty rfl
    · rw [List.getElem?_tail] at hty
      rw [Nat.add_assoc, Nat.add_comm 1 index]
      exact htypes (index + 1) ty hty

/-- **The code of a condition decides whether the condition holds.** -/
theorem Expr.test_iff_holds (herror : facts.pool.isError Ty.error = true) : ∀ (expr : Expr),
    (∀ visit ∈ expr.visits, visit.Ready facts env) →
      ((expr.test facts : Deciding env) ↔ expr.Holds env facts.table)
  | .bool id value span, _ => by
    rw [Expr.test, Expr.Holds]
    exact Iff.rfl
  | .unary id .not operand span, hready => by
    rw [Expr.test, Expr.Holds]
    exact not_congr (operand.test_iff_holds herror fun visit hvisit =>
      hready visit (List.mem_cons_of_mem _ hvisit))
  | .binary id op left right span, hready => by
    have hl : ∀ visit ∈ left.visits, visit.Ready facts env := fun visit hvisit =>
      hready visit (Visit.left_subset hvisit)
    have hr : ∀ visit ∈ right.visits, visit.Ready facts env := fun visit hvisit =>
      hready visit (Visit.right_subset hvisit)
    have hagree : ∀ visit ∈ left.visits, env.AgreesAt visit := fun visit hvisit =>
      (hl visit hvisit).agrees
    cases op with
    | and =>
      exact Expr.test_iff_holds_and hagree (left.test_iff_holds herror hl)
        (right.test_iff_holds herror hr)
    | or =>
      exact Expr.test_iff_holds_or hagree (left.test_iff_holds herror hl)
        (right.test_iff_holds herror hr)
    | eq | notEq | lt | ltEq | gt | gtEq | add | sub | mul | div | rem =>
      exact Expr.test_iff_holds_operand rfl
  | .instanceOf id tested pattern span, hready => by
    rw [Expr.test, Expr.Holds]
    refine pattern.test_iff_matches herror (fun visit hvisit => ?_) _ _ ?_
    · exact hready visit (Visit.right_subset hvisit)
    · exact (hready _ List.mem_cons_self).tested id tested pattern span rfl
  | .missing id, _ => by
    rw [Expr.test, Expr.Holds]
    exact Iff.rfl
  | .int .., _ | .ident .., _ | .field .., _ | .call .., _ | .unary _ .neg _ _, _ =>
    Expr.test_iff_holds_operand trivial

end

end GuardedMatch
