import GuardedMatch.Proofs.Gaining

/-!
# Whether an outcome leaks into a match

The flow before a match may be split, by the outcome of a condition that has nothing to do with the
match.  A guard goes on where its own condition is true.  But names, numbers and calls without
arguments do not ask for the outcome they are reached with, and pass it on.  If the condition of a
guard starts with one of those, the guard goes on where the outcome before the match was true.

* `Ways.Impartial`: it does not matter on which side a state comes in.
* `Expr.forgets`: the expressions after which the outcome before them is forgotten.
* `outcome_forgotten_iff`: for which patterns the outcome before a match makes no difference.
-/

namespace GuardedMatch

/-! ## States that say the same -/

namespace FlowState

variable {state other : FlowState}

/-- Both states can be reached or none, and the same locals are assigned if they can. -/
structure Alike (state other : FlowState) : Prop where
  reachable : state.reachable = other.reachable
  contains : state.reachable = true → ∀ id, state.assigned.contains id = other.assigned.contains id

theorem alike_iff : state.Alike other ↔ ∀ fact, state.vouches fact = other.vouches fact := by
  constructor
  · intro h fact
    cases fact with
    | none => rw [vouches, vouches, h.reachable]
    | some id =>
      by_cases hreachable : state.reachable = true
      · simp only [vouches, isAssigned, ← h.reachable, h.contains hreachable id]
      · simp [vouches, isAssigned, ← h.reachable, hreachable]
  · intro h
    have hreachable : state.reachable = other.reachable := by simpa [vouches] using h none
    refine ⟨hreachable, fun hreached id => ?_⟩
    have hid := h (some id)
    rwa [vouches, vouches, isAssigned, isAssigned, ← hreachable, hreached] at hid

theorem vouches_reached_empty (fact : Fact) : (reached .empty).vouches fact = false := by
  cases fact <;> simp [vouches, isAssigned, reached]

end FlowState

/-! ## Ways that do not depend on the side -/

namespace Ways

variable {ways ways' : Ways} {t f : FlowState} {one two : Flow}

/-- It does not matter on which side a state comes in. -/
def Impartial (ways : Ways) : Prop := ways.outOf true = ways.outOf false

instance (ways : Ways) : Decidable ways.Impartial :=
  inferInstanceAs (Decidable (ways.outOf true = ways.outOf false))

/-- What it means for two flows that went the same ways to end alike, if the sides of one of them
had met before. -/
theorem alike_iff (hone : (Flow.split t f).Takes ways one)
    (htwo : (Flow.split t f).join.Takes ways two) :
    one.joined.Alike two.joined ↔ ∀ fact,
      ((t.vouches fact || (ways.outOf true).vouches fact) &&
        (f.vouches fact || (ways.outOf false).vouches fact)) =
      ((t.vouches fact && f.vouches fact || (ways.outOf true).vouches fact) &&
        (t.vouches fact && f.vouches fact || (ways.outOf false).vouches fact)) := by
  rw [FlowState.alike_iff]
  refine forall_congr' fun fact => ?_
  have hjoined : ∀ outcome, ((Flow.split t f).join.half outcome).vouches fact =
      (t.vouches fact && f.vouches fact) := by
    intro outcome
    rw [← FlowState.vouches_merge]
    cases outcome <;> rfl
  rw [hone.vouches_joined, htwo.vouches_joined, hjoined, hjoined]
  rfl

theorem Impartial.alike (h : ways.Impartial) (hone : (Flow.split t f).Takes ways one)
    (htwo : (Flow.split t f).join.Takes ways two) : one.joined.Alike two.joined := by
  rw [alike_iff hone htwo]
  intro fact
  rw [h, Bool.and_self, Bool.or_and_distrib_right]

/-- If it makes no difference for a state that comes in on one side only, the ways are impartial. -/
theorem impartial_of_alike {one' two' : Flow}
    (hone : (Flow.split .unreachable (.reached .empty)).Takes ways one)
    (htwo : (Flow.split .unreachable (.reached .empty)).join.Takes ways two)
    (h : one.joined.Alike two.joined)
    (hone' : (Flow.split (.reached .empty) .unreachable).Takes ways one')
    (htwo' : (Flow.split (.reached .empty) .unreachable).join.Takes ways two')
    (h' : one'.joined.Alike two'.joined) : ways.Impartial := by
  refine Gain.ext fun fact => ?_
  have hfalse := (alike_iff hone htwo).mp h fact
  have htrue := (alike_iff hone' htwo').mp h' fact
  simp only [FlowState.vouches_unreachable, FlowState.vouches_reached_empty, Bool.true_or,
    Bool.false_or, Bool.true_and, Bool.and_true, Bool.and_false] at hfalse htrue
  rw [htrue, ← hfalse]

end Ways

/-! ## Conditions that forget the outcome -/

/-- What is evaluated first in the expression does not pass on the outcome from before. -/
def Expr.forgets : Expr → Bool
  | .bool .. | .instanceOf .. => true
  | .int .. | .ident .. | .missing _ => false
  | .field _ operand _ _ | .unary _ _ operand _ => operand.forgets
  | .binary _ .and left _ _ | .binary _ .or left _ _ => left.forgets
  | .binary .. => true
  | .call _ _ args _ _ => !args.isEmpty

theorem Expr.ways_of_forgets (expr : Expr) (h : expr.forgets = true) (outcome : Bool) :
    expr.ways true outcome = expr.ways false outcome := by
  fun_induction Expr.forgets expr generalizing outcome with
  | case1 | case2 => rfl
  | case3 | case4 | case5 => cases h
  | case6 id operand name span ih => exact ih h outcome
  | case7 id op operand span ih =>
    cases op with
    | not => exact ih h !outcome
    | neg => exact ih h outcome
  | case8 id left right span ih | case9 id left right span ih =>
    simp only [Expr.ways, Ways.shortCircuit, ih h]
  | case10 id op left right span hand hor =>
    cases op with
    | and => exact (hand rfl).elim
    | or => exact (hor rfl).elim
    | eq | notEq | lt | ltEq | gt | gtEq | add | sub | mul | div | rem => rfl
  | case11 id callee args written span =>
    cases args with
    | nil => cases h
    | cons => rfl

mutual

/-- The condition of the guard that is decided first. -/
def Pattern.firstCondition : Pattern → Option Expr
  | .record _ _ components _ => Pattern.firstConditionAll components
  | .guarded _ patterns condition _ => (Pattern.firstConditionAll patterns).or condition
  | .type .. | .any .. | .missing _ => none

def Pattern.firstConditionAll : List Pattern → Option Expr
  | [] => none
  | pattern :: patterns => pattern.firstCondition.or (Pattern.firstConditionAll patterns)

end

namespace Ways

variable {ways ways' : Ways} {first second : Option Expr}

/-- The sides stay apart until the first condition is met, and if that forgets the outcome, the side
does not matter from then on. -/
structure Settles (ways : Ways) (first : Option Expr) : Prop where
  apart : first = none → ∃ gained, ways = stay gained
  forgets : ∀ condition, first = some condition → condition.forgets = true →
    ∀ outcome, ways true outcome = ways false outcome

theorem settles_stay (gained : Finset LocalId) : (stay gained).Settles none :=
  ⟨fun _ => ⟨gained, rfl⟩, fun _ h => by cases h⟩

theorem Settles.andThen (h : ways.Settles first) (h' : ways'.Settles second) :
    (ways.andThen ways').Settles (first.or second) := by
  cases first with
  | some condition =>
    rw [Option.some_or]
    refine ⟨fun hnone => (Option.some_ne_none _ hnone).elim, ?_⟩
    intro other hother hforgets outcome
    have heq := h.forgets other hother hforgets
    rw [Ways.andThen, Ways.andThen, heq true, heq false]
  | none =>
    obtain ⟨gained, rfl⟩ := h.apart rfl
    rw [Option.none_or]
    constructor
    · intro hnone
      obtain ⟨gained', rfl⟩ := h'.apart hnone
      refine ⟨gained ∪ gained', ?_⟩
      funext source outcome
      cases source <;> cases outcome <;> rfl
    · intro condition hcondition hforgets outcome
      refine Gain.ext fun fact => ?_
      simp [Ways.andThen, stay, h'.forgets condition hcondition hforgets outcome]

theorem Settles.impartial (h : ways.Settles first)
    (hforgets : first.all Expr.forgets = true) : ways.Impartial := by
  cases first with
  | none =>
    obtain ⟨gained, rfl⟩ := h.apart rfl
    rfl
  | some condition =>
    have heq := h.forgets condition rfl hforgets
    rw [Impartial, outOf, outOf, heq true, heq false]

end Ways

theorem Expr.ways_settles (expr : Expr) : expr.ways.Settles (some expr) := by
  refine ⟨fun hnone => (Option.some_ne_none _ hnone).elim, fun condition hcondition hforgets => ?_⟩
  rw [Option.some.inj hcondition]
  exact condition.ways_of_forgets hforgets

mutual

theorem Pattern.ways_settles : ∀ pattern : Pattern, pattern.ways.Settles pattern.firstCondition
  | .type .. | .any .. | .missing _ => by
    rw [Pattern.firstCondition]
    exact Ways.settles_stay _
  | .record _ _ components _ => by
    rw [Pattern.firstCondition]
    exact Pattern.waysAll_settles components
  | .guarded _ patterns condition _ => by
    have hall := (Pattern.waysAll_settles patterns).andThen condition.ways_settles
    rw [Pattern.firstCondition]
    refine ⟨fun hnone => ?_, fun first hfirst hforgets _ => hall.forgets first hfirst hforgets true⟩
    simp at hnone

theorem Pattern.waysAll_settles : ∀ patterns : List Pattern,
    (Pattern.waysAll patterns).Settles (Pattern.firstConditionAll patterns)
  | [] => Ways.settles_stay ∅
  | pattern :: patterns => by
    rw [Pattern.firstConditionAll]
    exact pattern.ways_settles.andThen (Pattern.waysAll_settles patterns)

end

/-! ## Analyses of a pattern -/

/-- The state recorded for the point where a pattern is resumed. -/
def FlowRecord.resumeState? (record : FlowRecord) (id : PatternId) : Option FlowState := do
  record.states[(← record.snapshots[id]?).resume]?

/-- The analyses of a pattern from a split flow and from the flow where its sides have met end
alike, and the pattern is resumed in states that are alike. -/
def Forest.Forgets (forest : Forest) (table : Resolution) (record : FlowRecord) (id : PatternId)
    (t f : FlowState) : Prop :=
  ∃ one two resume resume',
    forest.analysePattern table record id (.split t f) = .ok one ∧
    forest.analysePattern table record id (Flow.split t f).join = .ok two ∧
    one.flow.joined.Alike two.flow.joined ∧ one.record.resumeState? id = some resume ∧
    two.record.resumeState? id = some resume' ∧ resume.Alike resume'

section

variable {arena : Arena} {id : PatternId} {table : Resolution} {record : FlowRecord} {flow : Flow}
  {analysed one two : Analysed} {t f : FlowState}

/-- A pattern is resumed with the state at the end of its analysis. -/
theorem Arena.Acyclic.resumeState_of_run (hacyclic : arena.Acyclic)
    (h : arena.forest.analysePattern table record id flow = .ok analysed) :
    analysed.record.resumeState? id = some analysed.flow.joined := by
  obtain ⟨after, hrun, hrecord⟩ := FlowRecord.exists_of_run h
  obtain ⟨snapshot, hsnapshot, hresume⟩ :=
    ((arena.forest.pattern id).analyse_resume table arena.forest.locals flow _).of_ok hrun
  rw [hacyclic.id_pattern] at hsnapshot
  rw [FlowRecord.resumeState?, hrecord, hsnapshot]
  exact hresume

theorem Arena.Acyclic.forgets_iff (hacyclic : arena.Acyclic)
    (hone : arena.forest.analysePattern table record id (.split t f) = .ok one)
    (htwo : arena.forest.analysePattern table record id (Flow.split t f).join = .ok two) :
    arena.forest.Forgets table record id t f ↔ one.flow.joined.Alike two.flow.joined := by
  constructor
  · rintro ⟨one', two', _, _, hone', htwo', halike, -⟩
    rw [Except.ok.inj (hone.symm.trans hone'), Except.ok.inj (htwo.symm.trans htwo')]
    exact halike
  · intro halike
    exact ⟨one, two, _, _, hone, htwo, halike, hacyclic.resumeState_of_run hone,
      hacyclic.resumeState_of_run htwo, halike⟩

end

/-- **For which patterns the outcome before a match makes no difference.**  All analyses end.  The
outcome is forgotten for exactly those patterns for which it does not matter on which side a state
comes in.  Among them are the patterns without a condition and those whose first condition forgets
the outcome. -/
theorem outcome_forgotten_iff {arena : Arena} (hacyclic : arena.Acyclic) (hrange : arena.InRange)
    (hguards : ∀ node ∈ arena.patterns, node.isEmptyGuard = false) {id : PatternId}
    (hid : .pattern id ∈ arena.nodes) {table : Resolution}
    (hstrays : ¬ table.Strays arena.locals.size) (record : FlowRecord) :
    (∀ flow, ∃ analysed, arena.forest.analysePattern table record id flow = .ok analysed) ∧
    ((∀ t f, arena.forest.Forgets table record id t f) ↔
      (arena.forest.pattern id).ways.Impartial) ∧
    ((arena.forest.pattern id).firstCondition.all Expr.forgets = true →
      ∀ t f, arena.forest.Forgets table record id t f) := by
  have hends : ∀ flow, ∃ analysed,
      arena.forest.analysePattern table record id flow = .ok analysed :=
    fun flow => hacyclic.exists_analysedPattern hrange hguards hstrays record flow hid
  have htakes : ∀ {flow : Flow} {analysed : Analysed},
      arena.forest.analysePattern table record id flow = .ok analysed →
        flow.Takes (arena.forest.pattern id).ways analysed.flow :=
    fun hrun => ((arena.forest.pattern id).analyse_takes _ _ _).of_run hrun
  have hforgets : (arena.forest.pattern id).ways.Impartial →
      ∀ t f, arena.forest.Forgets table record id t f := by
    intro himpartial t f
    obtain ⟨one, hone⟩ := hends (.split t f)
    obtain ⟨two, htwo⟩ := hends (Flow.split t f).join
    exact (hacyclic.forgets_iff hone htwo).mpr (himpartial.alike (htakes hone) (htakes htwo))
  refine ⟨hends, ⟨fun h => ?_, hforgets⟩, fun hfirst => ?_⟩
  · -- A state that comes in on one side only tells the sides apart.
    obtain ⟨one, two, _, _, hone, htwo, halike, -⟩ := h .unreachable (.reached .empty)
    obtain ⟨one', two', _, _, hone', htwo', halike', -⟩ := h (.reached .empty) .unreachable
    exact Ways.impartial_of_alike (htakes hone) (htakes htwo) halike (htakes hone') (htakes htwo')
      halike'
  · exact hforgets ((arena.forest.pattern id).ways_settles.impartial hfirst)

/-- Two guards after `x instanceof String s`: `Boolean b && flag` and `Boolean c && flag == c`. -/
def flagAfterString : Arena where
  patterns := #[.type ⟨some "String", Span.none⟩ (some 2) Span.none,
    .type ⟨some "Boolean", Span.none⟩ (some 3) Span.none, .guarded [1] 2 Span.none,
    .type ⟨some "Boolean", Span.none⟩ (some 4) Span.none, .guarded [3] 5 Span.none]
  exprs := #[.ident "x" Span.none, .instanceOf 0 0 Span.none, .ident "flag" Span.none,
    .ident "flag" Span.none, .ident "c" Span.none, .binary .eq 3 4 Span.none]
  locals := #[⟨"x", Span.none⟩, ⟨"flag", Span.none⟩, ⟨"s", Span.none⟩, ⟨"b", Span.none⟩,
    ⟨"c", Span.none⟩]

theorem acyclic_flagAfterString : flagAfterString.Acyclic :=
  Arena.acyclic_of_rank (Node.rank (fun id => 6 * id) fun id => 3 * id) (by decide)

theorem inRange_flagAfterString : flagAfterString.InRange := Arena.inRange_of_nodes (by decide)

theorem outcome_forgotten_flagAfterString :
    flagAfterString.Acyclic ∧ flagAfterString.InRange ∧
    (∀ node ∈ flagAfterString.patterns, node.isEmptyGuard = false) ∧
    ¬ Resolution.empty.Strays flagAfterString.locals.size ∧
    (∀ t f, flagAfterString.forest.Forgets .empty .empty 4 t f) ∧
    ¬ ∀ t f, flagAfterString.forest.Forgets .empty .empty 2 t f := by
  have hguards : ∀ node ∈ flagAfterString.patterns, node.isEmptyGuard = false := by decide
  have hstrays := Resolution.not_strays_empty flagAfterString.locals.size
  refine ⟨acyclic_flagAfterString, inRange_flagAfterString, hguards, hstrays, ?_, ?_⟩
  · exact (outcome_forgotten_iff acyclic_flagAfterString inRange_flagAfterString hguards
      (by decide) hstrays .empty).2.2 (by decide +kernel)
  · rw [(outcome_forgotten_iff acyclic_flagAfterString inRange_flagAfterString hguards
      (by decide) hstrays .empty).2.1]
    decide +kernel

/-- With `flag` as its condition the guard goes on where `x` is a string, and takes `s` to be
assigned. -/
theorem outcome_leaks : (do
      let selector ← flagAfterString.forest.analyseExpr .empty .empty 1 (.initial [0, 1])
      let one ← flagAfterString.forest.analysePattern .empty selector.record 2 selector.flow
      let two ← flagAfterString.forest.analysePattern .empty selector.record 2 selector.flow.join
      return (one.flow.isReachable, one.flow.isAssigned 2, two.flow.isAssigned 2)).toOption =
    some (true, true, false) := by
  decide +kernel

end GuardedMatch
