import GuardedMatch.Proofs.Tracing

/-!
# Readings of code

What a piece of code tests can be read in more than one way.  One may look at what happens on the
way, or at what is asked.  A reading says what counts as a test, how tests are put together, and
which pieces of code make a test.  What planning appends makes the test of a pattern or of a
condition, whatever the reading.

* `Reading`: the rules by which pieces of code that make tests are put together.
* `Pattern.test`, `Expr.test`: the test of a pattern or a condition, in any reading.
* `Pattern.test_eq_outcomes`, `Expr.test_eq_outcomes`: where a test is what happens.
-/

namespace GuardedMatch

/-- Whether it is left open by the static type of a value if the value has the type of a
pattern. -/
def Facts.leavesOpen (facts : Facts) (id : PatternId) (static : Ty) : Bool :=
  let ty := facts.table.patternType id
  facts.pool.isError ty || facts.pool.isError static || !facts.pool.isSubtype static ty

open Machine in
/-- A way to read pieces of code as tests of what is held under the number of a value.  Labels from
`base` on belong to the piece. -/
class Reading (Held : outParam Type) (Test : Type) where
  /-- Only labels that were handed out are jumped to. -/
  Strict : Prop
  /-- A component of what is held. -/
  part : Held → Nat → Held
  /-- What an operand evaluates to. -/
  found : ExprId → Held
  known : Bool → Test
  /-- There is nothing to test against. -/
  missing : Test
  /-- What is held has the type of a pattern. -/
  probe : Facts → PatternId → (static : Ty) → Held → Test
  /-- A local is stored, if there is one. -/
  stored : Option LocalId → Test
  /-- An operand is true. -/
  operand : ExprId → Test
  /-- The test is made after an operand was evaluated. -/
  after : ExprId → Test → Test
  flip : Test → Test
  /-- The second test is made if the first comes out true. -/
  both : Test → Test → Test
  Makes : (base : Label) → (value : ValueId) → Held → Exits → Test → List Instr → Prop
  mono {base : Label} {value : ValueId} {held : Held} {exits exits' : Exits} {test : Test}
    {piece : List Instr} : Makes base value held exits test piece →
      (∀ outcome exit, exits outcome exit → exits' outcome exit) →
      Makes base value held exits' test piece
  mono_base {base bound : Label} {value : ValueId} {held : Held} {exits : Exits} {test : Test}
    {piece : List Instr} : Makes bound value held exits test piece → base ≤ bound →
      Makes base value held exits test piece
  makes_known {base : Label} {value : ValueId} {held : Held} {exits : Exits} {outcome : Bool}
    {target : Option Label} : exits outcome target →
      Makes base value held exits (known outcome) (jumpCode target)
  makes_probe {base fail : Label} {value : ValueId} {held : Held} {facts : Facts} {id : PatternId}
    {static : Ty} : facts.leavesOpen id static = true →
      Makes base value held (Targets.Exits ⟨none, some fail⟩ none) (probe facts id static held)
        [.testType value (facts.table.patternType id) fail]
  makes_settled {base fail : Label} {value : ValueId} {held : Held} {facts : Facts}
    {id : PatternId} {static : Ty} : facts.leavesOpen id static = false →
      Makes base value held (Targets.Exits ⟨none, some fail⟩ none) (probe facts id static held) []
  makes_unbound {base : Label} {value : ValueId} {held : Held} {fail : Option Label} :
    Makes base value held (Targets.Exits ⟨none, fail⟩ none) (stored none) []
  makes_stored {base : Label} {value : ValueId} {held : Held} {fail : Option Label} {id : LocalId}
    {slot : Nat} : Makes base value held (Targets.Exits ⟨none, fail⟩ none) (stored (some id))
      [.storeLocal id slot value]
  makes_operand {base : Label} {value dest : ValueId} {held : Held} {id : ExprId}
    (targets : Targets) (fallthrough : Option Label) :
    Makes base value held (targets.Exits fallthrough) (operand id)
      (.evalOperand dest id :: branchCode dest targets)
  makes_after {base : Label} {value dest : ValueId} {held : Held} {exits : Exits} {test : Test}
    {piece : List Instr} {id : ExprId} : Makes base dest (found id) exits test piece →
      Makes base value held exits (after id test) (.evalOperand dest id :: piece)
  makes_project {base : Label} {value dest : ValueId} {held : Held} {exits : Exits} {test : Test}
    {piece : List Instr} {component : Nat} :
    Makes base dest (part held component) exits test piece →
      Makes base value held exits test (.project dest value component :: piece)
  makes_flip {base : Label} {value : ValueId} {held : Held} {exits : Exits} {test : Test}
    {piece : List Instr} : Makes base value held exits test piece →
      Makes base value held (fun outcome => exits !outcome) (flip test) piece
  makes_both {base bound : Label} {value : ValueId} {held : Held} {exits exits' exits'' : Exits}
    {test test' : Test} {piece rest : List Instr} : Makes base value held exits test piece →
      Makes bound value held exits' test' rest → base ≤ bound →
      (Strict → ∀ instr ∈ piece, ∀ label ∈ instr.target?, label < bound) →
      (∀ exit, exits true exit → exit = none) →
      (∀ exit, exits false exit → exit ≠ none ∧ exits'' false exit) →
      (∀ outcome exit, exits' outcome exit → exits'' outcome exit) →
      Makes base value held exits'' (both test test') (piece ++ rest)
  makes_jump {base : Label} {value : ValueId} {held : Held} {exits exits' : Exits} {test : Test}
    {piece : List Instr} (target : Option Label) : Makes base value held exits test piece →
      (∃ outcome, exits outcome none) → (∀ outcome, exits outcome none → exits' outcome target) →
      (∀ outcome label, exits outcome (some label) → exits' outcome (some label)) →
      Makes base value held exits' test (piece ++ jumpCode target)
  makes_place {base bound label : Label} {value : ValueId} {held : Held} {exits exits' : Exits}
    {test : Test} {piece : List Instr} : Makes bound value held exits test piece → base ≤ label →
      label < bound → (∀ outcome, exits outcome none → exits' outcome none) →
      (∀ outcome other, exits outcome (some other) →
        exits' outcome (some other) ∨ other = label ∧ exits' outcome none) →
      (Strict → ∀ outcome, ¬ exits' outcome (some label)) →
      Makes base value held exits' test (piece ++ [.placeLabel label])

namespace Reading

variable {Held Test : Type} [Reading Held Test]

/-- The second test is made if the first comes out false. -/
def orElse (first second : Test) : Test := flip (both (flip first) (flip second))

theorem makes_orElse {base bound : Label} {value : ValueId} {held : Held}
    {exits exits' exits'' : Exits} {test test' : Test} {piece rest : List Instr}
    (h : Makes base value held exits test piece) (h' : Makes bound value held exits' test' rest)
    (hle : base ≤ bound)
    (hpiece : Strict Test → ∀ instr ∈ piece, ∀ label ∈ instr.target?, label < bound)
    (hfalse : ∀ exit, exits false exit → exit = none)
    (htrue : ∀ exit, exits true exit → exit ≠ none ∧ exits'' true exit)
    (hsecond : ∀ outcome exit, exits' outcome exit → exits'' outcome exit) :
    Makes base value held exits'' (orElse test test') (piece ++ rest) := by
  have hboth : Makes base value held (fun outcome => exits'' !outcome)
      (both (flip test) (flip test')) (piece ++ rest) :=
    makes_both (makes_flip h) (makes_flip h') hle hpiece hfalse htrue fun _ exit => hsecond _ exit
  refine mono (makes_flip hboth) fun outcome exit hexit => ?_
  rwa [Bool.not_not] at hexit

end Reading

/-! ## Tests of patterns and conditions -/

section

variable {Held Test : Type} [Reading Held Test] (facts : Facts)

open Reading

mutual

/-- The test of what is held, of which a static type is known, against a pattern. -/
def Pattern.test : Pattern → (static : Ty) → Held → Test
  | .type id _ binds _, static, held => both (probe facts id static held) (stored binds)
  | .record id _ components _, static, held =>
    both (probe facts id static held) (Pattern.testComponents components 0
      (facts.pool.componentTypes (facts.table.patternType id)) held)
  | .guarded _ patterns condition _, static, held =>
    both (Pattern.testAll patterns static held) (match condition.skippable with
      | some outcome => known outcome
      | none => condition.test)
  | .any .., _, _ => known true
  | .missing _, _, _ => missing

def Pattern.testAll : List Pattern → (static : Ty) → Held → Test
  | [], _, _ => known true
  | pattern :: patterns, static, held =>
    both (pattern.test static held) (Pattern.testAll patterns static held)

def Pattern.testComponents : List Pattern → (position : Nat) → List Ty → Held → Test
  | [], _, _, _ => known true
  | pattern :: patterns, position, types, held =>
    both (pattern.test (types.headD Ty.error) (part Test held position))
      (Pattern.testComponents patterns (position + 1) types.tail held)

/-- The test of a condition.  A constant on the left need not be evaluated. -/
def Expr.test : Expr → Test
  | .bool _ value _ => known value
  | .unary _ .not operand _ => flip operand.test
  | .binary _ .and left right _ => match left.skippable with
    | some true => right.test
    | some false => known false
    | none => both left.test right.test
  | .binary _ .or left right _ => match left.skippable with
    | some false => right.test
    | some true => known true
    | none => orElse left.test right.test
  | .instanceOf _ tested pattern _ =>
    after tested.id (pattern.test (facts.table.exprTypes[tested.id]?.getD Ty.object)
      (found Test tested.id))
  | .missing _ => missing
  | operand => Reading.operand operand.id

end

end

variable {facts : Facts}

/-- The test of a condition that is evaluated as a whole. -/
theorem Expr.test_operand {Held Test : Type} [Reading Held Test] {expr : Expr}
    (h : expr.IsOperand) : (expr.test facts : Test) = Reading.operand expr.id := by
  rw [Expr.test.eq_def]
  split <;> first | cases h | rfl

/-! ## What happens -/

namespace Plays

open Machine

variable {base : Label} {exits : Exits}

theorem known {outcome : Bool} {target : Option Label} (hexit : exits outcome target) :
    Plays base exits (.known outcome) (jumpCode target) := by
  cases target with
  | none => exact .nothing outcome ⟨rfl, rfl⟩ hexit
  | some label => exact .ofJump rfl rfl (fun h => by cases h) ⟨outcome, ⟨rfl, rfl⟩, hexit⟩

theorem branch (value : ValueId) (targets : Targets) (fallthrough : Option Label) :
    Plays base (targets.Exits fallthrough) .either (branchCode value targets) := by
  match targets with
  | ⟨some t, some f⟩ =>
    have hbranch :
        Plays base (Targets.Exits ⟨some t, none⟩ none) .either [.branchIf value true t] :=
      .ofJump rfl rfl (fun _ => ⟨false, rfl, Or.inl rfl⟩) ⟨true, rfl, Or.inl rfl⟩
    refine hbranch.jump (some f) ⟨false, Or.inl rfl⟩ ?_ ?_
    · intro outcome hexit
      cases outcome with
      | true => cases Targets.exits_none.mp hexit
      | false => exact Or.inl rfl
    · intro outcome label hexit
      cases outcome with
      | true =>
        have heq := Targets.exits_none.mp hexit
        exact Or.inl heq
      | false => cases Targets.exits_none.mp hexit
  | ⟨some t, none⟩ =>
    exact .ofJump rfl rfl (fun _ => ⟨false, rfl, Or.inl rfl⟩) ⟨true, rfl, Or.inl rfl⟩
  | ⟨none, some f⟩ =>
    exact .ofJump rfl rfl (fun _ => ⟨true, rfl, Or.inl rfl⟩) ⟨false, rfl, Or.inl rfl⟩
  | ⟨none, none⟩ => exact .nothing true rfl (Or.inl rfl)

theorem evaluated {outcomes : Outcomes} {piece : List Instr} {value : ValueId} {id : ExprId}
    (h : Plays base exits outcomes piece) :
    Plays base exits (.after (some (.evaluated id)) outcomes) (.evalOperand value id :: piece) := by
  have hcons : Plays base exits (outcomes.after (Instr.evalOperand value id).event?)
      (.evalOperand value id :: piece) := h.cons rfl rfl
  exact hcons

end Plays

/-- A test is what happens during it. -/
instance Outcomes.reading : Reading Unit Outcomes where
  Strict := True
  part _ _ := ()
  found _ := ()
  known := .known
  missing := fun _ _ => False
  probe _ _ _ _ := .either
  stored := .stored
  operand id := .after (some (.evaluated id)) .either
  after id := .after (some (.evaluated id))
  flip := .flip
  both := .both
  Makes base _ _ := Plays base
  mono := Plays.mono
  mono_base := Plays.mono_base
  makes_known := Plays.known
  makes_probe _ := .ofJump rfl rfl (fun _ => ⟨true, rfl, Or.inl rfl⟩) ⟨false, rfl, Or.inl rfl⟩
  makes_settled _ := .nothing true rfl (Or.inl rfl)
  makes_unbound := .nothing true ⟨rfl, rfl⟩ (Or.inl rfl)
  makes_stored {base value _ fail id slot} := by
    have hnothing : Plays base (Targets.Exits ⟨none, fail⟩ none) (.known true) [] :=
      .nothing true ⟨rfl, rfl⟩ (Or.inl rfl)
    have hstore : Plays base _ _ [.storeLocal id slot value] := hnothing.cons rfl rfl
    refine hstore.imp (fun _ _ h => h) ?_
    rintro events outcome ⟨rest, rfl, rfl, rfl⟩
    exact ⟨rfl, rfl⟩
  makes_operand targets fallthrough := (Plays.branch _ targets fallthrough).evaluated
  makes_after := Plays.evaluated
  makes_project h := by
    refine (h.cons rfl rfl).imp (fun _ _ h => h) ?_
    rintro events outcome ⟨rest, rfl, hrest⟩
    exact hrest
  makes_flip := Plays.flip
  makes_both h h' hle hpiece := h.both h' hle (hpiece trivial)
  makes_jump target h := h.jump target
  makes_place h hbase hbound hhere hother hnew := h.place hbase hbound hhere
    (fun outcome hexit => ((hother outcome _ hexit).resolve_left (hnew trivial outcome)).2)
    fun outcome other hexit hne => (hother outcome other hexit).resolve_right fun hsame =>
      hne hsame.1

theorem Expr.test_eq_outcomes_of_operand {expr : Expr} (h : expr.IsOperand) :
    (expr.test facts : Outcomes) = expr.outcomes := by
  rw [Expr.test_operand h, Expr.outcomes_operand h]
  rfl

mutual

theorem Pattern.test_eq_outcomes : ∀ (pattern : Pattern) (static : Ty),
    (pattern.test facts static () : Outcomes) = pattern.outcomes
  | .type id ty binds span, static => by
    rw [Pattern.test, Pattern.outcomes]
    rfl
  | .record id ty components span, static => by
    rw [Pattern.test, Pattern.outcomes, Pattern.testComponents_eq_outcomes]
    rfl
  | .guarded id patterns condition span, static => by
    rw [Pattern.test, Pattern.outcomes, Pattern.testAll_eq_outcomes, condition.test_eq_outcomes]
    rfl
  | .any id span, static => by
    rw [Pattern.test, Pattern.outcomes]
    rfl
  | .missing id, static => by
    rw [Pattern.test, Pattern.outcomes]
    rfl

theorem Pattern.testAll_eq_outcomes : ∀ (patterns : List Pattern) (static : Ty),
    (Pattern.testAll facts patterns static () : Outcomes) = Pattern.outcomesAll patterns
  | [], static => by
    rw [Pattern.testAll, Pattern.outcomesAll]
    rfl
  | pattern :: patterns, static => by
    rw [Pattern.testAll, Pattern.outcomesAll, pattern.test_eq_outcomes,
      Pattern.testAll_eq_outcomes]
    rfl

theorem Pattern.testComponents_eq_outcomes :
    ∀ (patterns : List Pattern) (position : Nat) (types : List Ty),
      (Pattern.testComponents facts patterns position types () : Outcomes) =
        Pattern.outcomesAll patterns
  | [], position, types => by
    rw [Pattern.testComponents, Pattern.outcomesAll]
    rfl
  | pattern :: patterns, position, types => by
    rw [Pattern.testComponents, Pattern.outcomesAll, pattern.test_eq_outcomes,
      Pattern.testComponents_eq_outcomes]
    rfl

theorem Expr.test_eq_outcomes : ∀ expr : Expr, (expr.test facts : Outcomes) = expr.outcomes
  | .bool id value span => by
    rw [Expr.test, Expr.outcomes]
    rfl
  | .unary id .not operand span => by
    rw [Expr.test, Expr.outcomes, operand.test_eq_outcomes]
    rfl
  | .binary id op left right span => by
    cases op with
    | and | or =>
      rw [Expr.test, Expr.outcomes, left.test_eq_outcomes, right.test_eq_outcomes]
      rfl
    | eq | notEq | lt | ltEq | gt | gtEq | add | sub | mul | div | rem =>
      exact Expr.test_eq_outcomes_of_operand rfl
  | .instanceOf id tested pattern span => by
    rw [Expr.test, Expr.outcomes, pattern.test_eq_outcomes]
    rfl
  | .missing id => by
    rw [Expr.test, Expr.outcomes]
    rfl
  | .int .. | .ident .. | .field .. | .call .. | .unary _ .neg _ _ =>
    Expr.test_eq_outcomes_of_operand trivial

end

end GuardedMatch
