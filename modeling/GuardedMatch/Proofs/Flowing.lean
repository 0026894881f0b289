import GuardedMatch.Proofs.Analysing
import GuardedMatch.Proofs.Assignment
import GuardedMatch.Proofs.Ranges
import GuardedMatch.Proofs.Storing

/-!
# What flows through a tree

An analysis takes a flow through a tree.  What was assigned before stays assigned, and what the tree
binds is assigned as well; this does not depend on what names mean.  Nothing else gets assigned.  So
in the states that are recorded on the way no local is assigned that neither was before nor is bound
in the tree, and this holds for trees in which some pattern is met twice, too.

* `Pattern.analyse_carries`, `Expr.analyse_carries`: what is assigned after an analysis.
* `Analyser.Records`: what is recorded by an analysis, whatever was recorded before.
* `Pattern.analyse_passes`, `Expr.analyse_passes`: what is assigned in recorded states.
-/

namespace GuardedMatch

/-! ## What is assigned -/

theorem Analyser.Walks.answers {table : Resolution} {locals : Array LocalDecl} {safe : Prop}
    {visits : List Visit} {α : Type} {action : FlowM α} {post : α → Prop}
    (h : Walks table locals safe visits action post) : Answers action post :=
  fun state => (h.ensures state).imp (fun _ _ => trivial) fun _ _ hafter => hafter.2.2

section

variable (table : Resolution) (locals : Array LocalDecl)

open Analyser

/-- **After an analysis of a pattern, what was assigned and what the pattern binds is assigned.** -/
theorem Pattern.analyse_carries (pattern : Pattern) (flow : Flow) :
    Answers (pattern.analyse table locals flow) (flow.Carries fun _ => pattern.bindings) :=
  (pattern.analyse_walks_anyhow table locals flow).answers

theorem Pattern.analyseAll_carries (patterns : List Pattern) (flow : Flow) :
    Answers (Pattern.analyseAll table locals patterns flow)
      (flow.Carries fun _ => Pattern.bindingsAll patterns) :=
  (Pattern.analyseAll_walks_anyhow table locals patterns flow).answers

/-- **After an analysis of an expression, what was assigned is assigned for both outcomes, and what
the expression binds for an outcome is assigned for it.** -/
theorem Expr.analyse_carries (expr : Expr) (flow : Flow) :
    Answers (expr.analyse table locals flow) (flow.Carries expr.bindings) :=
  (expr.analyse_walks_anyhow table locals flow).answers

end

/-- What is assigned in the first of two states is assigned in the second. -/
def FlowState.AssignedIn (suspend resume : FlowState) : Prop :=
  ∀ bound, suspend.isAssigned bound = true → resume.isAssigned bound = true

theorem Flow.Carries.keeps {flow after : Flow} {bindings : Bool → Bindings}
    (h : flow.Carries bindings after) : flow.joined.AssignedIn after.joined :=
  fun _ hbound => h.isAssigned hbound

/-! ## What is recorded -/

namespace FlowRecord

/-- A pattern has a snapshot of two states, of which the first was recorded earlier, and they
fit. -/
def Noted (fits : FlowState → FlowState → Prop) (record : FlowRecord) (id : PatternId) : Prop :=
  ∃ snapshot suspend resume, record.snapshots[id]? = some snapshot ∧
    snapshot.suspend < snapshot.resume ∧ record.states[snapshot.suspend]? = some suspend ∧
    record.states[snapshot.resume]? = some resume ∧ fits suspend resume

/-- States are only added, what is noted about the visited patterns fits, and about any other
pattern nothing is noted that does not. -/
structure Notes (fits : FlowState → FlowState → Prop) (visits : List Visit)
    (record after : FlowRecord) : Prop where
  states : ∀ (index : StateIndex) state, record.states[index]? = some state →
    after.states[index]? = some state
  visited : ∀ pattern, .pattern pattern ∈ visits → after.Noted fits pattern.id
  others : ∀ id, after.Noted fits id ∨ after.snapshots[id]? = record.snapshots[id]?

variable {fits fits' : FlowState → FlowState → Prop} {visits visits' : List Visit}
  {record mid after : FlowRecord} {id : PatternId}

theorem Noted.mono (h : record.Noted fits id)
    (hfits : ∀ suspend resume, fits suspend resume → fits' suspend resume) :
    record.Noted fits' id := by
  obtain ⟨snapshot, suspend, resume, hsnapshot, hlt, hsuspend, hresume, h⟩ := h
  exact ⟨snapshot, suspend, resume, hsnapshot, hlt, hsuspend, hresume, hfits suspend resume h⟩

theorem Noted.kept (h : record.Noted fits id) (hafter : Notes fits visits record after) :
    after.Noted fits id := by
  rcases hafter.others id with hnew | hold
  · exact hnew
  · obtain ⟨snapshot, suspend, resume, hsnapshot, hlt, hsuspend, hresume, hfits⟩ := h
    exact ⟨snapshot, suspend, resume, hold.trans hsnapshot, hlt, hafter.states _ _ hsuspend,
      hafter.states _ _ hresume, hfits⟩

namespace Notes

theorem refl (record : FlowRecord) : Notes fits [] record record :=
  ⟨fun _ _ h => h, fun _ h => absurd h List.not_mem_nil, fun _ => Or.inr rfl⟩

theorem trans (h : Notes fits visits record mid) (h' : Notes fits visits' mid after) :
    Notes fits (visits ++ visits') record after := by
  refine ⟨fun index state hstate => h'.states index state (h.states index state hstate),
    fun pattern hpattern => ?_, fun id => ?_⟩
  · rcases List.mem_append.mp hpattern with hfirst | hrest
    · exact (h.visited pattern hfirst).kept h'
    · exact h'.visited pattern hrest
  · rcases h.others id with hnew | hold
    · exact Or.inl (hnew.kept h')
    · rw [← hold]
      exact h'.others id

theorem mono (h : Notes fits visits record after)
    (hsub : ∀ pattern, .pattern pattern ∈ visits' → .pattern pattern ∈ visits)
    (hfits : ∀ suspend resume, fits suspend resume → fits' suspend resume) :
    Notes fits' visits' record after :=
  ⟨h.states, fun pattern hpattern => (h.visited pattern (hsub pattern hpattern)).mono hfits,
    fun id => (h.others id).imp_left fun hnew => hnew.mono hfits⟩

theorem push (record : FlowRecord) (flow : Flow) : Notes fits [] record (record.push flow) :=
  ⟨(Covers.push record flow).states, fun _ h => absurd h List.not_mem_nil, fun _ => Or.inr rfl⟩

theorem setSnapshot (pattern : Pattern) {snapshot : Snapshot} {suspend resume : FlowState}
    (hlt : snapshot.suspend < snapshot.resume)
    (hsuspend : record.states[snapshot.suspend]? = some suspend)
    (hresume : record.states[snapshot.resume]? = some resume) (hfits : fits suspend resume) :
    Notes fits [.pattern pattern] record (record.setSnapshot pattern.id snapshot) := by
  have hnoted : (record.setSnapshot pattern.id snapshot).Noted fits pattern.id :=
    ⟨snapshot, suspend, resume, Std.ExtTreeMap.getElem?_insert_self, hlt, hsuspend, hresume, hfits⟩
  refine ⟨fun _ _ h => h, fun other hother => ?_, fun id => ?_⟩
  · obtain rfl : other = pattern := by simpa using hother
    exact hnoted
  · by_cases heq : pattern.id = id
    · exact Or.inl (heq ▸ hnoted)
    · refine Or.inr ?_
      rw [FlowRecord.setSnapshot, Std.ExtTreeMap.getElem?_insert,
        if_neg fun hcompare => heq (Nat.compare_eq_eq.mp hcompare)]

end Notes

end FlowRecord

namespace Analyser

/-- An analysis that notes what fits about the visited patterns, and answers something of which
`post` holds, if it ends. -/
structure Records (fits : FlowState → FlowState → Prop) (visits : List Visit) {α : Type}
    (action : FlowM α) (post : α → Prop) : Prop where
  ensures : ∀ state : Analyser, Ensures action state (fun _ => True) fun answer after =>
    FlowRecord.Notes fits visits state.record after.record ∧ post answer

namespace Records

variable {fits fits' : FlowState → FlowState → Prop} {visits visits' : List Visit} {α β : Type}
  {post : α → Prop} {post' : β → Prop}

theorem pure {answer : α} (h : post answer) : Records fits [] (Pure.pure answer : FlowM α) post :=
  ⟨fun state => Ensures.pure ⟨.refl state.record, h⟩⟩

theorem throw (fault : Fault) : Records fits visits (MonadExcept.throw fault : FlowM α) post :=
  ⟨fun _ => Ensures.throw trivial⟩

theorem bind {action : FlowM α} {next : α → FlowM β} (h : Records fits visits action post)
    (hnext : ∀ answer, post answer → Records fits visits' (next answer) post') :
    Records fits (visits ++ visits') (action >>= next) post' := by
  refine ⟨fun state => (h.ensures state).seq fun answer mid hmid => ?_⟩
  refine ((hnext answer hmid.2).ensures mid).mono fun _ after hafter => ?_
  exact ⟨hmid.1.trans hafter.1, hafter.2⟩

theorem mono {action : FlowM α} (h : Records fits visits action post)
    (hsub : ∀ pattern, .pattern pattern ∈ visits' → .pattern pattern ∈ visits)
    (hfits : ∀ suspend resume, fits suspend resume → fits' suspend resume) :
    Records fits' visits' action post :=
  ⟨fun state => (h.ensures state).mono fun _ _ hafter => ⟨hafter.1.mono hsub hfits, hafter.2⟩⟩

/-- Only patterns are noted, and their order does not matter. -/
theorem within {action : FlowM α} (h : Records fits visits action post)
    (hsub : ∀ pattern, .pattern pattern ∈ visits' → .pattern pattern ∈ visits) :
    Records fits visits' action post := h.mono hsub fun _ _ => id

theorem cons_expr {action : FlowM α} {expr : Expr} (h : Records fits visits action post) :
    Records fits (.expr expr :: visits) action post := h.within fun _ hpattern => by
  simpa using hpattern

theorem map {action : FlowM α} {change : α → β} (h : Records fits visits action post)
    (hchange : ∀ answer, post answer → post' (change answer)) :
    Records fits visits (action >>= fun answer => Pure.pure (change answer)) post' := by
  rw [← List.append_nil visits]
  exact h.bind fun answer hanswer => .pure (hchange answer hanswer)

theorem read (table : Resolution) (locals : Array LocalDecl) (id : ExprId) (span : Span)
    (flow : Flow) : Records fits [] (Analyser.read table locals id span flow) fun _ => True := by
  rw [Analyser.read.eq_def]
  split
  next => exact pure trivial
  next =>
    split
    next =>
      split
      next => exact ⟨fun state => Ensures.modifies ⟨.refl state.record, trivial⟩⟩
      next => exact throw _
    next => exact pure trivial

/-- A pattern is recorded around what is below it. -/
theorem snapshot {post : Flow → Prop} (pattern : Pattern) (flow : Flow) {inner : FlowM Flow}
    (hinner : Records fits visits inner post)
    (hfits : ∀ after : Flow, post after → fits flow.joined after.joined) :
    Records fits (visits ++ [.pattern pattern]) (do
      let before ← recordState flow
      let flow ← inner
      let after ← recordState flow
      setSnapshot pattern.id before after
      return flow) post := by
  refine ⟨fun state => ?_⟩
  refine Ensures.bind (Ensures.get_bind (Ensures.modify_bind (Ensures.pure ?_)))
  refine (hinner.ensures _).seq fun last mid hmid => ?_
  refine Ensures.bind (Ensures.get_bind (Ensures.modify_bind (Ensures.pure ?_)))
  refine Ensures.modify_bind (Ensures.pure ⟨?_, hmid.2⟩)
  have hpushed : FlowRecord.Notes fits [] mid.record (mid.record.push last) := .push mid.record last
  have hbefore : mid.record.states[state.record.states.size]? = some flow.joined :=
    hmid.1.states _ _ Array.getElem?_push_size
  have hlt : state.record.states.size < mid.record.states.size :=
    (Array.getElem?_eq_some_iff.mp hbefore).1
  refine ((FlowRecord.Notes.push state.record flow).trans hmid.1).trans (hpushed.trans ?_)
  exact .setSnapshot pattern hlt (hpushed.states _ _ hbefore) Array.getElem?_push_size
    (hfits last hmid.2)

theorem alone {post : Flow → Prop} (pattern : Pattern) (flow : Flow) {after : Flow}
    (hafter : post after) (hfits : fits flow.joined after.joined) :
    Records fits [.pattern pattern] (do
      let before ← recordState flow
      let resume ← recordState after
      setSnapshot pattern.id before resume
      return after) post := by
  have hinner : Records fits [] (Pure.pure after : FlowM Flow) fun answer =>
    post answer ∧ answer = after := .pure ⟨hafter, rfl⟩
  have hframed := snapshot pattern flow hinner fun answer hanswer => hanswer.2 ▸ hfits
  exact ⟨fun state => (hframed.ensures state).mono fun _ _ hlast => hlast.imp_right And.left⟩

/-- What is answered may be known from elsewhere. -/
theorem and {action : FlowM α} {facts : α → Prop} (h : Records fits visits action post)
    (hfacts : Answers action facts) :
    Records fits visits action fun answer => post answer ∧ facts answer :=
  ⟨fun state => ((h.ensures state).and (hfacts state)).mono fun _ _ hafter =>
    ⟨hafter.1.1, hafter.1.2, hafter.2⟩⟩

theorem imp {action : FlowM α} {weaker : α → Prop} (h : Records fits visits action post)
    (hpost : ∀ answer, post answer → weaker answer) : Records fits visits action weaker :=
  ⟨fun state => (h.ensures state).mono fun answer _ hafter => ⟨hafter.1, hpost answer hafter.2⟩⟩

end Records

end Analyser

/-! ## Holding a local -/

namespace FlowState

variable {state other : FlowState} {id binding : LocalId}

theorem Holds.isAssigned (h : state.Holds id) : state.isAssigned id = true := by
  simp [FlowState.isAssigned, h.2]

theorem holds_merge (h : (state.merge other).Holds id) : state.Holds id ∨ other.Holds id := by
  rw [merge] at h
  split at h
  next => exact Or.inr h
  next hreachable =>
    split at h
    next => exact Or.inl h
    next =>
      rw [Holds, reached, LocalSet.contains_inter, Bool.and_eq_true] at h
      exact Or.inl ⟨by simpa using hreachable, h.2.1⟩

theorem holds_assign (h : (state.assign binding).Holds id) : binding = id ∨ state.Holds id := by
  rw [Holds, assign, LocalSet.contains_insert, Bool.or_eq_true, decide_eq_true_eq] at h
  exact h.2.imp_right fun hid => ⟨h.1, hid⟩

end FlowState

namespace Flow

variable {flow : Flow} {id binding : LocalId}

/-- A local is assigned after one of the outcomes. -/
def Holds (flow : Flow) (id : LocalId) : Prop := ∃ outcome, (flow.half outcome).Holds id

theorem holds_plain {state : FlowState} : (plain state).Holds id ↔ state.Holds id := by
  simp [Holds, half, whenTrue, whenFalse]

theorem holds_split {t f : FlowState} : (split t f).Holds id ↔ t.Holds id ∨ f.Holds id := by
  simp [Holds, half, whenTrue, whenFalse, or_comm]

theorem holds_joined (h : flow.joined.Holds id) : flow.Holds id := by
  cases flow with
  | plain state => exact holds_plain.mpr h
  | split t f => exact holds_split.mpr (FlowState.holds_merge h)

theorem holds_whenTrue (h : flow.whenTrue.Holds id) : flow.Holds id := ⟨true, h⟩

theorem holds_swap (h : flow.swap.Holds id) : flow.Holds id := by
  obtain ⟨outcome, h⟩ := h
  rw [half_swap] at h
  exact ⟨_, h⟩

theorem holds_assign (h : (flow.assign binding).Holds id) : binding = id ∨ flow.Holds id := by
  cases flow with
  | plain state =>
    rw [assign, holds_plain] at h
    rw [holds_plain]
    exact FlowState.holds_assign h
  | split t f =>
    rw [assign, holds_split] at h
    rw [holds_split]
    rcases h with h | h
    · exact (FlowState.holds_assign h).imp_right Or.inl
    · exact (FlowState.holds_assign h).imp_right Or.inr

end Flow

/-! ## What is not assigned -/

/-- For no outcome a local is assigned that is not known to be. -/
def Flow.Within (known : LocalId → Prop) (flow : Flow) : Prop :=
  ∀ bound, flow.Holds bound → known bound

namespace Flow.Within

variable {known : LocalId → Prop} {flow : Flow} {state other : FlowState}

theorem joined (h : flow.Within known) : ∀ bound, flow.joined.Holds bound → known bound :=
  fun bound hbound => h bound (Flow.holds_joined hbound)

theorem plain (h : ∀ bound, state.Holds bound → known bound) : (Flow.plain state).Within known :=
  fun bound hbound => h bound (Flow.holds_plain.mp hbound)

theorem half (h : flow.Within known) (outcome : Bool) :
    ∀ bound, (flow.half outcome).Holds bound → known bound :=
  fun bound hbound => h bound ⟨outcome, hbound⟩

theorem join (h : flow.Within known) : flow.join.Within known := .plain h.joined

theorem split (h : ∀ bound, state.Holds bound → known bound)
    (h' : ∀ bound, other.Holds bound → known bound) : (Flow.split state other).Within known :=
  fun bound hbound => (Flow.holds_split.mp hbound).elim (h bound) (h' bound)

theorem merge (h : ∀ bound, state.Holds bound → known bound)
    (h' : ∀ bound, other.Holds bound → known bound) :
    ∀ bound, (state.merge other).Holds bound → known bound :=
  fun bound hbound => (FlowState.holds_merge hbound).elim (h bound) (h' bound)

end Flow.Within

section

variable (table : Resolution) (locals : Array LocalDecl) {known : LocalId → Prop}

/-- What is assigned after the second of two states is known. -/
def Fits (known : LocalId → Prop) (_ resume : FlowState) : Prop :=
  ∀ bound, resume.Holds bound → known bound

/-- What is assigned in the first of two states is assigned in the second, and what is assigned in
either is known. -/
structure Passes (known : LocalId → Prop) (suspend resume : FlowState) : Prop where
  kept : suspend.AssignedIn resume
  before : ∀ bound, suspend.Holds bound → known bound
  after : Fits known suspend resume

open Analyser

mutual

/-- **In the states that a pattern leaves, what is assigned was before or is bound in it.** -/
theorem Pattern.analyse_passes : ∀ (pattern : Pattern),
    (∀ bound, .binding bound ∈ pattern.visits → known bound) → ∀ flow : Flow, flow.Within known →
    Records (Passes known) pattern.visits (pattern.analyse table locals flow) (Flow.Within known)
  | .type id ty binds span, hbinds, flow, hflow => by
    cases binds with
    | none =>
      rw [Pattern.analyse]
      exact .alone (.type id ty none span) flow hflow
        ⟨(Flow.Carries.refl flow).keeps, hflow.joined, hflow.joined⟩
    | some binding =>
      have hafter : (flow.assign binding).Within known := by
        intro bound hbound
        rcases Flow.holds_assign hbound with rfl | hbound
        · exact hbinds binding (by simp [Pattern.visits])
        · exact hflow bound hbound
      have hkeeps : flow.joined.AssignedIn (flow.assign binding).joined :=
        fun bound hbound => Flow.isAssigned_assign.mpr (Or.inr hbound)
      rw [Pattern.analyse]
      refine .within (.alone (.type id ty (some binding) span) flow hafter
        ⟨hkeeps, hflow.joined, hafter.joined⟩) ?_
      simp [Pattern.visits]
  | .record id ty components span, hbinds, flow, hflow => by
    have hinner := (Pattern.analyseAll_passes components (fun bound hbound =>
      hbinds bound (List.mem_cons_of_mem _ hbound)) flow hflow).and
      (Pattern.analyseAll_carries table locals components flow)
    have hframed := Records.snapshot (.record id ty components span) flow hinner
      fun _ h => ⟨h.2.keeps, hflow.joined, h.1.joined⟩
    rw [Pattern.analyse]
    refine .within (hframed.imp fun _ h => h.1) ?_
    intro pattern hpattern
    simp only [Pattern.visits, List.mem_cons, List.mem_append] at hpattern ⊢
    tauto
  | .guarded id [] condition span, _, flow, _ => by
    rw [Pattern.analyse]
    exact .throw _
  | .guarded id (first :: rest) condition span, hbinds, flow, hflow => by
    simp only [Pattern.visits, Pattern.visitsAll, List.mem_cons, List.mem_append] at hbinds
    -- The first sub-pattern comes before both states of the snapshot.
    have hinner : ∀ one : Flow, one.Within known →
        Records (Passes known) (Pattern.visitsAll rest ++ condition.visits) (do
          let flow ← Pattern.analyseAll table locals rest one
          let flow ← condition.analyse table locals flow
          return flow.assumeTrue) fun after =>
            after.Within known ∧ one.joined.AssignedIn after.joined := by
      intro one hone
      refine .and (.bind (Pattern.analyseAll_passes rest (fun bound hbound =>
        hbinds bound (by tauto)) one hone) fun all hall => .map (condition.analyse_passes
          (fun bound hbound => hbinds bound (by tauto)) all hall) fun last hlast =>
            .plain (hlast.half true)) ?_
      refine .bind (Pattern.analyseAll_carries table locals rest one) fun all hall => ?_
      refine .bind (condition.analyse_carries table locals all) fun last hlast => .pure ?_
      exact fun bound hbound => hlast true bound (Or.inl (hall.isAssigned hbound))
    have hframed := Records.bind (first.analyse_passes (fun bound hbound =>
      hbinds bound (by tauto)) flow hflow) fun one hone =>
        (Records.snapshot (.guarded id (first :: rest) condition span) one (hinner one hone)
          fun _ h => ⟨h.2, hone.joined, h.1.joined⟩).imp fun _ h => h.1
    simp only [bind_assoc, pure_bind] at hframed
    rw [Pattern.analyse]
    refine .within hframed fun pattern hpattern => ?_
    simp only [Pattern.visits, Pattern.visitsAll, List.mem_cons, List.mem_append] at hpattern ⊢
    tauto
  | .any id span, _, flow, hflow => by
    rw [Pattern.analyse]
    exact .alone (.any id span) flow hflow
      ⟨(Flow.Carries.refl flow).keeps, hflow.joined, hflow.joined⟩
  | .missing id, _, flow, _ => by
    rw [Pattern.analyse]
    exact .throw _

theorem Pattern.analyseAll_passes : ∀ (patterns : List Pattern),
    (∀ bound, .binding bound ∈ Pattern.visitsAll patterns → known bound) → ∀ flow : Flow,
    flow.Within known → Records (Passes known) (Pattern.visitsAll patterns)
      (Pattern.analyseAll table locals patterns flow) (Flow.Within known)
  | [], _, flow, hflow => by
    rw [Pattern.analyseAll]
    exact .pure hflow
  | pattern :: patterns, hbinds, flow, hflow => by
    rw [Pattern.analyseAll]
    exact .bind (pattern.analyse_passes (fun bound hbound =>
      hbinds bound (List.mem_append_left _ hbound)) flow hflow) fun mid hmid =>
        Pattern.analyseAll_passes patterns (fun bound hbound =>
          hbinds bound (List.mem_append_right _ hbound)) mid hmid

/-- **In the states that an expression leaves, what is assigned was before or is bound in it.** -/
theorem Expr.analyse_passes : ∀ (expr : Expr),
    (∀ bound, .binding bound ∈ expr.visits → known bound) → ∀ flow : Flow, flow.Within known →
    Records (Passes known) expr.visits (expr.analyse table locals flow) (Flow.Within known)
  | .bool id value span, _, flow, hflow => by
    have hnone : ∀ bound, FlowState.unreachable.Holds bound → known bound :=
      fun _ h => by cases h.1
    cases value with
    | true =>
      rw [Expr.analyse]
      exact .cons_expr (.pure (.split hflow.joined hnone))
    | false =>
      rw [Expr.analyse]
      exact .cons_expr (.pure (.split hnone hflow.joined))
  | .int id value span, _, flow, hflow => by
    rw [Expr.analyse]
    exact .cons_expr (.pure hflow)
  | .ident id name span, _, flow, hflow => by
    rw [Expr.analyse]
    exact .cons_expr (.map (.read ..) fun _ _ => hflow)
  | .field id receiver name span, hbinds, flow, hflow => by
    rw [Expr.analyse]
    exact .cons_expr (receiver.analyse_passes (fun bound hbound =>
      hbinds bound (List.mem_cons_of_mem _ hbound)) flow hflow)
  | .unary id .not operand span, hbinds, flow, hflow => by
    rw [Expr.analyse]
    exact .cons_expr (.map (operand.analyse_passes (fun bound hbound =>
      hbinds bound (List.mem_cons_of_mem _ hbound)) flow hflow) fun after hafter bound hbound =>
        hafter bound (Flow.holds_swap hbound))
  | .unary id .neg operand span, hbinds, flow, hflow => by
    rw [Expr.analyse]
    exact .cons_expr (operand.analyse_passes (fun bound hbound =>
      hbinds bound (List.mem_cons_of_mem _ hbound)) flow hflow)
  | .binary id op left right span, hbinds, flow, hflow => by
    simp only [Expr.visits, List.mem_cons, List.mem_append] at hbinds
    have hright := fun mid : Flow =>
      right.analyse_passes (fun bound hbound => hbinds bound (by tauto)) mid
    rw [Expr.analyse]
    refine .cons_expr (.bind (left.analyse_passes (fun bound hbound => hbinds bound (by tauto))
      flow hflow) fun one hone => ?_)
    split
    next =>
      exact .map (hright _ (.plain (hone.half true))) fun two htwo =>
        .split (htwo.half true) (Flow.Within.merge (hone.half false) (htwo.half false))
    next =>
      exact .map (hright _ (.plain (hone.half false))) fun two htwo =>
        .split (Flow.Within.merge (hone.half true) (htwo.half true)) (htwo.half false)
    next => exact .map (hright _ hone.join) fun two htwo => htwo.join
  | .instanceOf id tested pattern span, hbinds, flow, hflow => by
    simp only [Expr.visits, List.mem_cons, List.mem_append] at hbinds
    rw [Expr.analyse]
    refine .cons_expr (.bind (tested.analyse_passes (fun bound hbound =>
      hbinds bound (by tauto)) flow hflow) fun before hbefore => ?_)
    exact .map (pattern.analyse_passes (fun bound hbound => hbinds bound (by tauto))
      before.join hbefore.join) fun matched hmatched =>
        .split (hmatched.half true) hbefore.joined
  | .call id callee args written span, hbinds, flow, hflow => by
    rw [Expr.analyse]
    exact .cons_expr (Expr.analyseAll_passes args (fun bound hbound =>
      hbinds bound (List.mem_cons_of_mem _ hbound)) flow hflow)
  | .missing id, _, flow, _ => by
    rw [Expr.analyse]
    exact .throw _

theorem Expr.analyseAll_passes : ∀ (exprs : List Expr),
    (∀ bound, .binding bound ∈ Expr.visitsAll exprs → known bound) → ∀ flow : Flow,
    flow.Within known → Records (Passes known) (Expr.visitsAll exprs)
      (Expr.analyseAll table locals exprs flow) (Flow.Within known)
  | [], _, flow, hflow => by
    rw [Expr.analyseAll]
    exact .pure hflow
  | expr :: exprs, hbinds, flow, hflow => by
    rw [Expr.analyseAll]
    exact .bind (expr.analyse_passes (fun bound hbound =>
      hbinds bound (List.mem_append_left _ hbound)) flow hflow) fun mid hmid =>
        Expr.analyseAll_passes exprs (fun bound hbound =>
          hbinds bound (List.mem_append_right _ hbound)) mid.join hmid.join

end

theorem Pattern.analyse_records (pattern : Pattern)
    (h : ∀ bound, .binding bound ∈ pattern.visits → known bound) (flow : Flow)
    (hflow : flow.Within known) :
    Records (Fits known) pattern.visits (pattern.analyse table locals flow) (Flow.Within known) :=
  (pattern.analyse_passes table locals h flow hflow).mono (fun _ h => h) fun _ _ hpasses =>
    hpasses.after

theorem Expr.analyse_records (expr : Expr)
    (h : ∀ bound, .binding bound ∈ expr.visits → known bound) (flow : Flow)
    (hflow : flow.Within known) :
    Records (Fits known) expr.visits (expr.analyse table locals flow) (Flow.Within known) :=
  (expr.analyse_passes table locals h flow hflow).mono (fun _ h => h) fun _ _ hpasses =>
    hpasses.after

end

end GuardedMatch
