import GuardedMatch.Proofs.Compiling
import GuardedMatch.Proofs.Flowing
import Mathlib.Data.Finset.Option

/-!
# What is gained on the way

What an analysis does to a flow depends on the syntax alone.  On its way from one side of the flow
before a tree to one side of the flow after it, a state gains a fixed set of locals, or there is no
such way.  Where several ways lead to one side, the states that come along them meet.

* `Pattern.ways`, `Expr.ways`: the ways through a tree.
* `Pattern.analyse_takes`, `Expr.analyse_takes`: an analysis takes these ways, from any flow.
* `Expr.ways_outOf`: an expression assigns nothing for both outcomes.
* `Pattern.gained_between`, `Expr.gained_between`: what is gained is at least what is bound, and
  nothing that is not bound anywhere in the tree.
* `analysis_gains`: what is assigned after an analysis.
-/

namespace GuardedMatch

/-- What a state may vouch for: that a local is assigned, or, without a local, that the point is
never reached. -/
abbrev Fact := Option LocalId

namespace FlowState

def vouches (state : FlowState) : Fact → Bool
  | some id => state.isAssigned id
  | none => !state.reachable

@[simp]
theorem vouches_merge (state other : FlowState) (fact : Fact) :
    (state.merge other).vouches fact = (state.vouches fact && other.vouches fact) := by
  cases fact with
  | some id => exact isAssigned_merge state other id
  | none =>
    rcases state with ⟨assigned, _ | _⟩ <;> rcases other with ⟨assigned', _ | _⟩ <;> rfl

theorem vouches_assign (state : FlowState) (id : LocalId) (fact : Fact) :
    (state.assign id).vouches fact =
      (state.vouches fact || fact.any (· ∈ ({id} : Finset LocalId))) := by
  cases fact with
  | some other =>
    rw [vouches, isAssigned_assign, Bool.or_comm]
    simp [vouches, eq_comm]
  | none => exact (Bool.or_false _).symm

@[simp]
theorem vouches_unreachable (fact : Fact) : unreachable.vouches fact = true := by
  cases fact <;> rfl

end FlowState

/-- What is gained on a way; `none` if there is no way. -/
abbrev Gain := Option (Finset LocalId)

namespace Gain

def vouches (gain : Gain) (fact : Fact) : Bool :=
  gain.all fun gained => fact.any (· ∈ gained)

/-- One way after the other. -/
def andThen (first second : Gain) : Gain := do return (← first) ∪ (← second)

/-- Two ways to one point. -/
def meet : Gain → Gain → Gain
  | none, other => other
  | gain, none => gain
  | some gained, some gained' => some (gained ∩ gained')

@[simp]
theorem vouches_none (fact : Fact) : vouches none fact = true := rfl

@[simp]
theorem vouches_empty (fact : Fact) : vouches (some ∅) fact = false := by
  cases fact <;> rfl

@[simp]
theorem vouches_andThen (first second : Gain) (fact : Fact) :
    (first.andThen second).vouches fact = (first.vouches fact || second.vouches fact) := by
  rcases first with _ | first <;> rcases second with _ | second <;> rcases fact with _ | id <;>
    simp [andThen, vouches]

@[simp]
theorem vouches_meet (gain other : Gain) (fact : Fact) :
    (gain.meet other).vouches fact = (gain.vouches fact && other.vouches fact) := by
  rcases gain with _ | gain <;> rcases other with _ | other <;> rcases fact with _ | id <;>
    simp [meet, vouches]

theorem ext {gain other : Gain} (h : ∀ fact, gain.vouches fact = other.vouches fact) :
    gain = other := by
  rcases gain with _ | gain <;> rcases other with _ | other
  · rfl
  · simpa [vouches] using h none
  · simpa [vouches] using h none
  · congr 1
    ext id
    simpa [vouches] using h (some id)

end Gain

/-- The ways through a tree, from a side of the flow before it to a side of the flow after it. -/
abbrev Ways := (source outcome : Bool) → Gain

namespace Ways

/-- Each side goes on, and both gain the same. -/
def stay (gained : Finset LocalId) : Ways := fun source outcome =>
  if source = outcome then some gained else none

/-- One tree after the other. -/
def andThen (first second : Ways) : Ways := fun source outcome =>
  ((first source true).andThen (second true outcome)).meet
    ((first source false).andThen (second false outcome))

/-- What an unsplit flow gains on the way to an outcome. -/
def into (ways : Ways) (outcome : Bool) : Gain := (ways true outcome).meet (ways false outcome)

/-- What is gained from a side on, whatever the outcome. -/
def outOf (ways : Ways) (source : Bool) : Gain := (ways source true).meet (ways source false)

/-- The second condition is tried only if the first one came out as `way`. -/
def shortCircuit (way : Bool) (first second : Ways) : Ways := fun source outcome =>
  if outcome = way then (first source way).andThen (second.into way)
  else (first source outcome).meet ((first source way).andThen (second.into outcome))

/-- The ways through the arguments of a call.  Without any, each side goes on. -/
def args : List Expr → Ways
  | [] => stay ∅
  | _ :: _ => fun _ _ => some ∅

end Ways

mutual

/-- The ways through a pattern that matches. -/
def Pattern.ways : Pattern → Ways
  | .type _ _ binds _ => Ways.stay binds.toFinset
  | .record _ _ components _ => Pattern.waysAll components
  | .guarded _ patterns condition _ => fun source _ =>
    (Pattern.waysAll patterns).andThen condition.ways source true
  | .any .. | .missing _ => Ways.stay ∅

/-- The ways through patterns that match one after the other. -/
def Pattern.waysAll : List Pattern → Ways
  | [] => Ways.stay ∅
  | pattern :: patterns => pattern.ways.andThen (Pattern.waysAll patterns)

/-- The ways through an expression.  Names, numbers and calls without arguments pass on the outcome
of what came before. -/
def Expr.ways : Expr → Ways
  | .bool _ value _ => fun _ outcome => if outcome = value then some ∅ else none
  | .int .. | .ident .. | .missing _ => Ways.stay ∅
  | .field _ receiver _ _ => receiver.ways
  | .unary _ .not operand _ => fun source outcome => operand.ways source !outcome
  | .unary _ .neg operand _ => operand.ways
  | .binary _ .and left right _ => Ways.shortCircuit true left.ways right.ways
  | .binary _ .or left right _ => Ways.shortCircuit false left.ways right.ways
  | .binary .. => fun _ _ => some ∅
  | .instanceOf _ _ pattern _ => fun _ outcome =>
    if outcome then pattern.ways.into true else some ∅
  | .call _ _ args _ _ => Ways.args args

end

/-! ## Flows that take a way -/

namespace Flow

variable {flow mid after : Flow} {ways ways' : Ways}

theorem vouches_joined (flow : Flow) (fact : Fact) :
    flow.joined.vouches fact =
      ((flow.half true).vouches fact && (flow.half false).vouches fact) := by
  cases flow with
  | plain state => exact (Bool.and_self _).symm
  | split t f => exact FlowState.vouches_merge t f fact

/-- To each side of the flow after a tree, states come along the ways that lead there. -/
def Takes (flow : Flow) (ways : Ways) (after : Flow) : Prop := ∀ outcome fact,
  (after.half outcome).vouches fact =
    (((flow.half true).vouches fact || (ways true outcome).vouches fact) &&
      ((flow.half false).vouches fact || (ways false outcome).vouches fact))

theorem Takes.andThen (h : flow.Takes ways mid) (h' : mid.Takes ways' after) :
    flow.Takes (ways.andThen ways') after := by
  intro outcome fact
  rw [h' outcome fact, h true fact, h false fact]
  simp only [Ways.andThen, Gain.vouches_meet, Gain.vouches_andThen, Bool.or_and_distrib_left,
    Bool.or_and_distrib_right, Bool.or_assoc]
  ac_rfl

theorem takes_stay (flow : Flow) : flow.Takes (Ways.stay ∅) flow := by
  intro outcome fact
  cases outcome <;> simp [Ways.stay]

theorem takes_assign (flow : Flow) (binding : LocalId) :
    flow.Takes (Ways.stay {binding}) (flow.assign binding) := by
  intro outcome fact
  have hhalf : (flow.assign binding).half outcome = (flow.half outcome).assign binding := by
    cases flow <;> cases outcome <;> rfl
  rw [hhalf, FlowState.vouches_assign]
  cases outcome <;> simp [Ways.stay, Gain.vouches]

/-- If the sides meet before they part again, it does not matter where a state came from. -/
theorem takes_of_joined {gains : Bool → Gain}
    (h : ∀ outcome fact, (after.half outcome).vouches fact =
      (flow.joined.vouches fact || (gains outcome).vouches fact)) :
    flow.Takes (fun _ outcome => gains outcome) after := by
  intro outcome fact
  rw [h, vouches_joined, Bool.or_and_distrib_right]

theorem takes_join (h : ∀ fact, after.joined.vouches fact = flow.joined.vouches fact) :
    flow.Takes (fun _ _ => some ∅) after.join := by
  refine takes_of_joined fun outcome fact => ?_
  rw [Gain.vouches_empty, Bool.or_false, ← h]
  cases outcome <;> rfl

/-- Where the sides of the flow after a tree meet, states have come along all ways. -/
theorem Takes.vouches_joined (h : flow.Takes ways after) (fact : Fact) :
    after.joined.vouches fact =
      (((flow.half true).vouches fact || (ways.outOf true).vouches fact) &&
        ((flow.half false).vouches fact || (ways.outOf false).vouches fact)) := by
  rw [Flow.vouches_joined, h true fact, h false fact]
  simp only [Ways.outOf, Gain.vouches_meet, Bool.or_and_distrib_left]
  ac_rfl

/-- An unsplit flow takes the ways from both sides. -/
theorem Takes.vouches_half {state : FlowState} (h : (plain state).Takes ways after) (outcome : Bool)
    (fact : Fact) : (after.half outcome).vouches fact =
      (state.vouches fact || (ways.into outcome).vouches fact) := by
  rw [h outcome fact, Ways.into, Gain.vouches_meet, Bool.or_and_distrib_left]
  rfl

theorem Takes.swap (h : flow.Takes ways after) :
    flow.Takes (fun source outcome => ways source !outcome) after.swap := by
  intro outcome fact
  rw [half_swap]
  exact h (!outcome) fact

theorem Takes.shortCircuit {one two : Flow} (hone : flow.Takes ways one) (way : Bool)
    (htwo : (plain (one.half way)).Takes ways' two) (hway : after.half way = two.half way)
    (hother : after.half (!way) = (one.half !way).merge (two.half !way)) :
    flow.Takes (Ways.shortCircuit way ways ways') after := by
  intro outcome fact
  rcases Bool.eq_or_eq_not outcome way with rfl | rfl
  · rw [hway, htwo.vouches_half, hone outcome fact]
    simp only [Ways.shortCircuit, if_pos, Gain.vouches_andThen, Bool.or_and_distrib_right,
      Bool.or_assoc]
  · rw [hother, FlowState.vouches_merge, htwo.vouches_half, hone (!way) fact, hone way fact]
    simp only [Ways.shortCircuit, Bool.not_eq_self, if_false, Gain.vouches_meet,
      Gain.vouches_andThen, Bool.or_and_distrib_right, Bool.or_and_distrib_left, Bool.or_assoc]
    ac_rfl

end Flow

namespace Ways

theorem into_args (exprs : List Expr) (outcome : Bool) : (args exprs).into outcome = some ∅ := by
  cases exprs <;> cases outcome <;> rfl

/-- If nothing is gained for good on the second tree, nothing is gained for good but on the
first. -/
theorem outOf_shortCircuit (way : Bool) (first second : Ways)
    (h : ∀ source, second.outOf source = some ∅) (source : Bool) :
    (shortCircuit way first second).outOf source = first.outOf source := by
  refine Gain.ext fun fact => ?_
  have hclosed : ∀ source,
      ((second source true).vouches fact && (second source false).vouches fact) = false := by
    intro source
    rw [← Gain.vouches_meet, ← outOf, h, Gain.vouches_empty]
  have ht := hclosed true
  have hf := hclosed false
  cases way <;> simp only [outOf, shortCircuit, into, Gain.vouches_meet, Gain.vouches_andThen,
    if_true, if_false, reduceCtorEq] <;> grind

end Ways

/-- **An expression assigns nothing for good.**  What it assigns for one outcome it does not assign
for the other. -/
theorem Expr.ways_outOf : ∀ (expr : Expr) (source : Bool), expr.ways.outOf source = some ∅
  | .bool id value span, source => by
    cases value <;> rfl
  | .int .., source | .ident .., source | .missing _, source => by
    cases source <;> rfl
  | .field _ receiver _ _, source => receiver.ways_outOf source
  | .unary _ .not operand _, source => by
    refine Gain.ext fun fact => ?_
    rw [← operand.ways_outOf source]
    simp [Expr.ways, Ways.outOf, Bool.and_comm]
  | .unary _ .neg operand _, source => operand.ways_outOf source
  | .binary id op left right span, source => by
    cases op with
    | and | or =>
      rw [← left.ways_outOf source]
      exact Ways.outOf_shortCircuit _ left.ways right.ways right.ways_outOf source
    | eq | notEq | lt | ltEq | gt | gtEq | add | sub | mul | div | rem => rfl
  | .instanceOf _ _ pattern _, source => by
    refine Gain.ext fun fact => ?_
    simp [Expr.ways, Ways.outOf]
  | .call _ _ args _ _, source => by
    cases args <;> cases source <;> rfl

/-- Where the outcomes of an expression meet, all is as it was. -/
theorem Expr.vouches_joined (expr : Expr) {flow after : Flow} (h : flow.Takes expr.ways after)
    (fact : Fact) : after.joined.vouches fact = flow.joined.vouches fact := by
  rw [h.vouches_joined, expr.ways_outOf, expr.ways_outOf, Gain.vouches_empty, Bool.or_false,
    Bool.or_false, ← Flow.vouches_joined]

section

variable (table : Resolution) (locals : Array LocalDecl)

open Analyser

mutual

/-- **The flow after a pattern has taken the ways through the pattern.** -/
theorem Pattern.analyse_takes : ∀ (pattern : Pattern) (flow : Flow),
    Answers (pattern.analyse table locals flow) (flow.Takes pattern.ways)
  | .type id ty binds span, flow => by
    cases binds with
    | none =>
      rw [Pattern.analyse]
      exact .skip fun _ => .skip fun _ => .skip fun _ => .pure flow.takes_stay
    | some binding =>
      rw [Pattern.analyse]
      exact .skip fun _ => .skip fun _ => .skip fun _ => .pure (flow.takes_assign binding)
  | .record id ty components span, flow => by
    rw [Pattern.analyse]
    exact .skip fun _ => .bind (Pattern.analyseAll_takes components flow) fun after hafter =>
      .skip fun _ => .skip fun _ => .pure hafter
  | .guarded id [] condition span, flow => by
    rw [Pattern.analyse]
    exact .throw _
  | .guarded id (first :: rest) condition span, flow => by
    rw [Pattern.analyse]
    refine .bind (first.analyse_takes flow) fun one hone => .skip fun _ => ?_
    refine .bind (Pattern.analyseAll_takes rest one) fun all hall => ?_
    refine .bind (condition.analyse_takes all) fun last hlast => ?_
    refine .skip fun _ => .skip fun _ => .pure ?_
    intro outcome
    have hhalf : last.assumeTrue.half outcome = last.half true := by cases outcome <;> rfl
    rw [hhalf]
    exact (hone.andThen hall).andThen hlast true
  | .any id span, flow => by
    rw [Pattern.analyse]
    exact .skip fun _ => .skip fun _ => .skip fun _ => .pure flow.takes_stay
  | .missing id, flow => by
    rw [Pattern.analyse]
    exact .throw _

theorem Pattern.analyseAll_takes : ∀ (patterns : List Pattern) (flow : Flow),
    Answers (Pattern.analyseAll table locals patterns flow) (flow.Takes (Pattern.waysAll patterns))
  | [], flow => by
    rw [Pattern.analyseAll]
    exact .pure flow.takes_stay
  | pattern :: patterns, flow => by
    rw [Pattern.analyseAll]
    exact .bind (pattern.analyse_takes flow) fun mid hmid =>
      (Pattern.analyseAll_takes patterns mid).mono fun _ hafter => hmid.andThen hafter

/-- **The flow after an expression has taken the ways through the expression.** -/
theorem Expr.analyse_takes : ∀ (expr : Expr) (flow : Flow),
    Answers (expr.analyse table locals flow) (flow.Takes expr.ways)
  | .bool id value span, flow => by
    cases value with
    | true | false =>
      rw [Expr.analyse]
      refine .pure (Flow.takes_of_joined fun outcome fact => ?_)
      cases outcome <;> simp [Flow.half, Flow.whenTrue, Flow.whenFalse]
  | .int id value span, flow => by
    rw [Expr.analyse]
    exact .pure flow.takes_stay
  | .ident id name span, flow => by
    rw [Expr.analyse]
    exact .skip fun _ => .pure flow.takes_stay
  | .field id receiver name span, flow => by
    rw [Expr.analyse]
    exact receiver.analyse_takes flow
  | .unary id .not operand span, flow => by
    rw [Expr.analyse]
    exact .bind (operand.analyse_takes flow) fun after hafter => .pure hafter.swap
  | .unary id .neg operand span, flow => by
    rw [Expr.analyse]
    exact operand.analyse_takes flow
  | .binary id op left right span, flow => by
    rw [Expr.analyse]
    refine .bind (left.analyse_takes flow) fun one hone => ?_
    cases op with
    | and =>
      exact .bind (right.analyse_takes _) fun two htwo =>
        .pure (hone.shortCircuit true htwo rfl rfl)
    | or =>
      exact .bind (right.analyse_takes _) fun two htwo =>
        .pure (hone.shortCircuit false htwo rfl rfl)
    | eq | notEq | lt | ltEq | gt | gtEq | add | sub | mul | div | rem =>
      refine .bind (right.analyse_takes _) fun two htwo => .pure ?_
      refine Flow.takes_join fun fact => ?_
      exact (right.vouches_joined htwo fact).trans (left.vouches_joined hone fact)
  | .instanceOf id tested pattern span, flow => by
    rw [Expr.analyse]
    refine .bind (tested.analyse_takes flow) fun before hbefore => ?_
    refine .bind (pattern.analyse_takes _) fun matched hmatched => .pure ?_
    refine Flow.takes_of_joined fun outcome fact => ?_
    rw [← tested.vouches_joined hbefore fact]
    cases outcome with
    | true => exact hmatched.vouches_half true fact
    | false =>
      rw [if_neg Bool.false_ne_true, Gain.vouches_empty, Bool.or_false]
      rfl
  | .call id callee args written span, flow => by
    rw [Expr.analyse]
    exact Expr.analyseAll_takes args flow
  | .missing id, flow => by
    rw [Expr.analyse]
    exact .throw _

theorem Expr.analyseAll_takes : ∀ (exprs : List Expr) (flow : Flow),
    Answers (Expr.analyseAll table locals exprs flow) (flow.Takes (Ways.args exprs))
  | [], flow => by
    rw [Expr.analyseAll]
    exact .pure flow.takes_stay
  | expr :: exprs, flow => by
    rw [Expr.analyseAll]
    refine .bind (expr.analyse_takes flow) fun mid hmid => ?_
    refine (Expr.analyseAll_takes exprs mid.join).mono fun after hafter => ?_
    refine Flow.takes_of_joined fun outcome fact => ?_
    rw [hafter.vouches_half, Ways.into_args, expr.vouches_joined hmid]

end

end

/-! ## Flows that are not split -/

section

variable (table : Resolution) (locals : Array LocalDecl)

open Analyser

mutual

/-- A pattern splits no flow. -/
theorem Pattern.analyse_plain : ∀ (pattern : Pattern) (state : FlowState),
    Answers (pattern.analyse table locals (.plain state)) fun after => ∃ state, after = .plain state
  | .type id ty binds span, state => by
    cases binds with
    | none | some =>
      rw [Pattern.analyse]
      exact .skip fun _ => .skip fun _ => .skip fun _ => .pure ⟨_, rfl⟩
  | .record id ty components span, state => by
    rw [Pattern.analyse]
    exact .skip fun _ => .bind (Pattern.analyseAll_plain components state) fun after hafter =>
      .skip fun _ => .skip fun _ => .pure hafter
  | .guarded id [] condition span, state => by
    rw [Pattern.analyse]
    exact .throw _
  | .guarded id (first :: rest) condition span, state => by
    rw [Pattern.analyse]
    exact .skip fun _ => .skip fun _ => .skip fun _ => .skip fun last => .skip fun _ =>
      .skip fun _ => .pure ⟨last.whenTrue, rfl⟩
  | .any id span, state => by
    rw [Pattern.analyse]
    exact .skip fun _ => .skip fun _ => .skip fun _ => .pure ⟨state, rfl⟩
  | .missing id, state => by
    rw [Pattern.analyse]
    exact .throw _

theorem Pattern.analyseAll_plain : ∀ (patterns : List Pattern) (state : FlowState),
    Answers (Pattern.analyseAll table locals patterns (.plain state)) fun after =>
      ∃ state, after = .plain state
  | [], state => by
    rw [Pattern.analyseAll]
    exact .pure ⟨state, rfl⟩
  | pattern :: patterns, state => by
    rw [Pattern.analyseAll]
    refine .bind (pattern.analyse_plain state) fun mid hmid => ?_
    obtain ⟨state, rfl⟩ := hmid
    exact Pattern.analyseAll_plain patterns state

end

end

/-! ## Analyses that end -/

section

variable {table : Resolution} {locals : Array LocalDecl} {visits : List Visit}
  {action : FlowM Flow}

theorem Analyser.Reports.exists_run (h : Reports table locals visits action)
    (hblocks : ∀ visit ∈ visits, ¬ visit.Blocks) (hstrays : ¬ table.Strays locals.size)
    (record : FlowRecord) : ∃ analysed, record.run action = .ok analysed := by
  obtain ⟨flow, after, hrun, -⟩ := (h.ensures ⟨record, .new .unlimited⟩).exists_ok (by
    rintro _ (⟨visit, hvisit, hblock⟩ | hstray)
    · exact hblocks visit hvisit hblock
    · exact hstrays hstray)
  rw [FlowRecord.run, hrun]
  exact ⟨_, rfl⟩

theorem Analyser.Answers.of_run {post : Flow → Prop} (h : Answers action post)
    {record : FlowRecord} {analysed : Analysed} (hrun : record.run action = .ok analysed) :
    post analysed.flow := by
  obtain ⟨after, hrun, -⟩ := FlowRecord.exists_of_run hrun
  exact (h _).of_ok hrun

theorem Analyser.Records.answers {fits : FlowState → FlowState → Prop} {post : Flow → Prop}
    (h : Records fits visits action post) : Answers action post :=
  fun state => (h.ensures state).mono fun _ _ hafter => hafter.2

end

theorem Resolution.not_strays_empty (count : Nat) : ¬ Resolution.empty.Strays count := by
  rintro ⟨id, target, hmeans, -⟩
  simp [Resolution.empty] at hmeans

theorem Flow.within_empty (known : LocalId → Prop) :
    (Flow.plain (.reached .empty)).Within known := by
  refine .plain fun bound hbound => ?_
  simp [FlowState.Holds, FlowState.reached] at hbound

namespace Arena.Acyclic

variable {arena : Arena} {table : Resolution} (hacyclic : arena.Acyclic) (hrange : arena.InRange)
  (hguards : ∀ node ∈ arena.patterns, node.isEmptyGuard = false)
  (hstrays : ¬ table.Strays arena.locals.size) (record : FlowRecord) (flow : Flow)

include hacyclic hrange hguards hstrays

theorem exists_analysedPattern {id : PatternId} (hid : .pattern id ∈ arena.nodes) :
    ∃ analysed, arena.forest.analysePattern table record id flow = .ok analysed := by
  rw [← (isForest_forest arena).locals] at hstrays
  exact ((arena.forest.pattern id).analyse_walks_anyhow table _ flow).reports.exists_run
    (hacyclic.not_blocks hrange hguards hid) hstrays record

theorem exists_analysedExpr {id : ExprId} (hid : .expr id ∈ arena.nodes) :
    ∃ analysed, arena.forest.analyseExpr table record id flow = .ok analysed := by
  rw [← (isForest_forest arena).locals] at hstrays
  exact ((arena.forest.expr id).analyse_walks_anyhow table _ flow).reports.exists_run
    (hacyclic.not_blocks hrange hguards hid) hstrays record

end Arena.Acyclic

/-! ## What is gained -/

/-- The state can be reached if `passes`, and then what is assigned is what was before and what has
been gained. -/
structure FlowState.Gained (before : LocalSet) (gained : Finset LocalId) (passes : Bool)
    (state : FlowState) : Prop where
  reachable : state.reachable = passes
  contains : passes = true → ∀ id,
    state.assigned.contains id = true ↔ before.contains id = true ∨ id ∈ gained

theorem FlowState.gained_of_vouches {before : LocalSet} {gain : Gain} {state : FlowState}
    (bound : Finset LocalId)
    (h : ∀ fact, state.vouches fact = ((reached before).vouches fact || gain.vouches fact)) :
    state.Gained before (gain.getD bound) gain.isSome := by
  have hreachable := h none
  cases gain with
  | none =>
    refine ⟨?_, fun hpasses => by cases hpasses⟩
    simpa [vouches] using hreachable
  | some gained =>
    have hreached : state.reachable = true := by
      simpa [vouches, reached, Gain.vouches] using hreachable
    refine ⟨hreached, fun _ id => ?_⟩
    have hid := h (some id)
    simp only [vouches, isAssigned, hreached, reached, Gain.vouches, Option.all_some,
      Option.any_some, Bool.not_true, Bool.false_or] at hid
    rw [hid, Bool.or_eq_true, decide_eq_true_eq, Option.getD_some]

namespace Ways

open Analyser

variable {ways : Ways} {bindings : Bool → Bindings} {after : Flow} {known : LocalId → Prop}

/-- What an unsplit flow gains on the way to an outcome; what is bound for it, if there is no
way. -/
def gained (ways : Ways) (bindings : Bool → Bindings) (outcome : Bool) : Finset LocalId :=
  (ways.into outcome).getD (bindings outcome).toFinset

def passes (ways : Ways) (outcome : Bool) : Bool := (ways.into outcome).isSome

theorem gained_of_takes {before : LocalSet} (bindings : Bool → Bindings)
    (h : (Flow.plain (.reached before)).Takes ways after) (outcome : Bool) :
    (after.half outcome).Gained before (ways.gained bindings outcome) (ways.passes outcome) :=
  FlowState.gained_of_vouches _ (h.vouches_half outcome)

/-- On the way to an outcome, what is bound for it is gained, and nothing but what is known.  What
is gained does not depend on what names mean or what was assigned before, so it can be read off an
analysis where names mean nothing and nothing is assigned. -/
theorem gained_between {locals : Array LocalDecl} {visits : List Visit} {action : FlowM Flow}
    {fits : FlowState → FlowState → Prop} (hreports : Reports .empty locals visits action)
    (hblocks : ∀ visit ∈ visits, ¬ visit.Blocks)
    (htakes : Answers action ((Flow.plain (.reached .empty)).Takes ways))
    (hcarries : Answers action ((Flow.plain (.reached .empty)).Carries bindings))
    (hrecords : Records fits visits action (Flow.Within known))
    (hknown : ∀ outcome, ∀ id ∈ bindings outcome, known id) (outcome : Bool) :
    (∀ id ∈ bindings outcome, id ∈ ways.gained bindings outcome) ∧
      ∀ id ∈ ways.gained bindings outcome, known id := by
  obtain ⟨analysed, hrun⟩ := hreports.exists_run hblocks (Resolution.not_strays_empty _) .empty
  have hgained := gained_of_takes bindings (htakes.of_run hrun) outcome
  by_cases hpasses : ways.passes outcome = true
  · have hcontains := hgained.contains hpasses
    have hreachable := hgained.reachable.trans hpasses
    simp only [LocalSet.contains_empty, Bool.false_eq_true, false_or] at hcontains
    constructor
    · intro id hid
      have hassigned := hcarries.of_run hrun outcome id (Or.inr hid)
      rw [FlowState.isAssigned, hreachable] at hassigned
      exact (hcontains id).mp hassigned
    · intro id hid
      exact hrecords.answers.of_run hrun id ⟨outcome, hreachable, (hcontains id).mpr hid⟩
  · have hnone : ways.into outcome = none := by simpa [passes] using hpasses
    have hbound : ∀ id, id ∈ ways.gained bindings outcome ↔ id ∈ bindings outcome := by
      intro id
      rw [gained, hnone, Option.getD_none, List.mem_toFinset]
    exact ⟨fun id hid => (hbound id).mpr hid,
      fun id hid => hknown outcome id ((hbound id).mp hid)⟩

end Ways

/-- What a flow gains on a pattern. -/
def Pattern.gained (pattern : Pattern) : Finset LocalId :=
  pattern.ways.gained (fun _ => pattern.bindings) true

/-- What a flow gains on an expression that comes out as `outcome`. -/
def Expr.gained (expr : Expr) : (outcome : Bool) → Finset LocalId := expr.ways.gained expr.bindings

/-- On a pattern, what it binds is gained, and nothing but what is bound in it. -/
theorem Pattern.gained_between (pattern : Pattern)
    (hblocks : ∀ visit ∈ pattern.visits, ¬ visit.Blocks) :
    (∀ id ∈ pattern.bindings, id ∈ pattern.gained) ∧
      ∀ id ∈ pattern.gained, id ∈ pattern.allLocals := by
  refine Ways.gained_between (pattern.analyse_walks_anyhow .empty #[] _).reports hblocks
    (pattern.analyse_takes _ _ _) (pattern.analyse_carries _ _ _)
    (pattern.analyse_records _ _ (fun id => pattern.mem_allLocals.mpr) _ (Flow.within_empty _))
    (fun _ id hid => ?_) true
  exact pattern.mem_allLocals.mpr (pattern.binding_mem_visits hid)

theorem Expr.gained_between (expr : Expr) (hblocks : ∀ visit ∈ expr.visits, ¬ visit.Blocks)
    (outcome : Bool) : (∀ id ∈ expr.bindings outcome, id ∈ expr.gained outcome) ∧
      ∀ id ∈ expr.gained outcome, id ∈ expr.allLocals := by
  refine Ways.gained_between (expr.analyse_walks_anyhow .empty #[] _).reports hblocks
    (expr.analyse_takes _ _ _) (expr.analyse_carries _ _ _)
    (expr.analyse_records _ _ (fun id => expr.mem_allLocals.mpr) _ (Flow.within_empty _))
    (fun _ id hid => ?_) outcome
  exact expr.mem_allLocals.mpr (expr.binding_mem_visits hid)

/-- **What an analysis assigns depends on the syntax alone.**  Whatever names mean and whatever was
assigned before, after a pattern just what was assigned and what is gained on it is assigned, and
the same holds for each outcome of an expression.  What is gained lies between what is bound for
sure and what is bound anywhere.  The analysis ends if names mean declared locals. -/
theorem analysis_gains {arena : Arena} (hacyclic : arena.Acyclic) (hrange : arena.InRange)
    (hguards : ∀ node ∈ arena.patterns, node.isEmptyGuard = false) (table : Resolution)
    (record : FlowRecord) (assigned : LocalSet) :
    (∀ id, .pattern id ∈ arena.nodes →
      (∀ bound ∈ (arena.forest.pattern id).bindings, bound ∈ (arena.forest.pattern id).gained) ∧
      (∀ bound ∈ (arena.forest.pattern id).gained, bound ∈ (arena.forest.pattern id).allLocals) ∧
      (¬ table.Strays arena.locals.size → ∃ analysed,
        arena.forest.analysePattern table record id (.plain (.reached assigned)) = .ok analysed) ∧
      ∀ analysed,
        arena.forest.analysePattern table record id (.plain (.reached assigned)) = .ok analysed →
        ∃ state, analysed.flow = .plain state ∧
          state.Gained assigned (arena.forest.pattern id).gained
            ((arena.forest.pattern id).ways.passes true)) ∧
    ∀ id, .expr id ∈ arena.nodes →
      (∀ outcome, ∀ bound ∈ (arena.forest.expr id).bindings outcome,
        bound ∈ (arena.forest.expr id).gained outcome) ∧
      (∀ outcome, ∀ bound ∈ (arena.forest.expr id).gained outcome,
        bound ∈ (arena.forest.expr id).allLocals) ∧
      (¬ table.Strays arena.locals.size → ∃ analysed,
        arena.forest.analyseExpr table record id (.plain (.reached assigned)) = .ok analysed) ∧
      ∀ analysed,
        arena.forest.analyseExpr table record id (.plain (.reached assigned)) = .ok analysed →
        ∀ outcome, (analysed.flow.half outcome).Gained assigned
          ((arena.forest.expr id).gained outcome) ((arena.forest.expr id).ways.passes outcome) := by
  refine ⟨fun id hid => ?_, fun id hid => ?_⟩
  · have hbetween := (arena.forest.pattern id).gained_between
      (hacyclic.not_blocks hrange hguards hid)
    refine ⟨hbetween.1, hbetween.2, fun hstrays =>
      hacyclic.exists_analysedPattern hrange hguards hstrays record _ hid, fun analysed hrun => ?_⟩
    obtain ⟨state, hstate⟩ := ((arena.forest.pattern id).analyse_plain _ _ _).of_run hrun
    have htakes := ((arena.forest.pattern id).analyse_takes _ _ _).of_run hrun
    rw [hstate] at htakes
    exact ⟨state, hstate, Ways.gained_of_takes _ htakes true⟩
  · have hbetween := (arena.forest.expr id).gained_between
      (hacyclic.not_blocks hrange hguards hid)
    refine ⟨fun outcome => (hbetween outcome).1, fun outcome => (hbetween outcome).2,
      fun hstrays => hacyclic.exists_analysedExpr hrange hguards hstrays record _ hid,
      fun analysed hrun outcome => ?_⟩
    exact Ways.gained_of_takes _ (((arena.forest.expr id).analyse_takes _ _ _).of_run hrun) outcome

theorem inRange_boxNotDenied : boxNotDenied.InRange := Arena.inRange_of_nodes (by decide)

/-- If `false || !(content instanceof Box(var inner))` is false, `inner` is gained, and nothing if
it is true. -/
theorem analysis_gains_boxNotDenied :
    boxNotDenied.Acyclic ∧ boxNotDenied.InRange ∧
    (∀ node ∈ boxNotDenied.patterns, node.isEmptyGuard = false) ∧
    (∃ analysed state, boxNotDenied.forest.analysePattern .empty .empty 4
        (.plain (.reached (.ofList [7]))) = .ok analysed ∧
      analysed.flow = .plain state ∧ state.Gained (.ofList [7]) {0, 1} true) ∧
    ∃ analysed, boxNotDenied.forest.analyseExpr .empty .empty 4
        (.plain (.reached (.ofList [7]))) = .ok analysed ∧
      (analysed.flow.half true).Gained (.ofList [7]) ∅ true ∧
      (analysed.flow.half false).Gained (.ofList [7]) {1} true := by
  have hguards : ∀ node ∈ boxNotDenied.patterns, node.isEmptyGuard = false := by decide
  have hgains := analysis_gains acyclic_boxNotDenied inRange_boxNotDenied hguards .empty .empty
    (.ofList [7])
  have hpattern : (boxNotDenied.forest.pattern 4).gained = {0, 1} ∧
      (boxNotDenied.forest.pattern 4).ways.passes true = true := by decide +kernel
  have hexpr : (boxNotDenied.forest.expr 4).gained true = ∅ ∧
      (boxNotDenied.forest.expr 4).gained false = {1} ∧
      ∀ outcome, (boxNotDenied.forest.expr 4).ways.passes outcome = true := by decide +kernel
  refine ⟨acyclic_boxNotDenied, inRange_boxNotDenied, hguards, ?_, ?_⟩
  · obtain ⟨-, -, hends, hafter⟩ := hgains.1 4 (by decide)
    obtain ⟨analysed, hrun⟩ := hends (Resolution.not_strays_empty _)
    obtain ⟨state, hstate, hgained⟩ := hafter analysed hrun
    rw [hpattern.1, hpattern.2] at hgained
    exact ⟨analysed, state, hrun, hstate, hgained⟩
  · obtain ⟨-, -, hends, hafter⟩ := hgains.2 4 (by decide)
    obtain ⟨analysed, hrun⟩ := hends (Resolution.not_strays_empty _)
    have htrue := hafter analysed hrun true
    have hfalse := hafter analysed hrun false
    rw [hexpr.1, hexpr.2.2] at htrue
    rw [hexpr.2.1, hexpr.2.2] at hfalse
    exact ⟨analysed, hrun, htrue, hfalse⟩

end GuardedMatch
