import GuardedMatch.Proofs.Assignment
import GuardedMatch.Proofs.Ensures
import GuardedMatch.Proofs.References

/-!
# What an analysis records and reports

An analysis that ends has gone through everything below what it was asked for, and has left a
snapshot of every pattern there.  Snapshots are replaced but never taken back.  It offers nothing
but notes on locals that are read before they are assigned, and it stops only at a visit that
blocks, or at a name that means a local which is not declared.  Where identifiers mean visible
locals and these are assigned at the start, they are assigned wherever they are read, so nothing is
reported.

* `Pattern.analyse_walks`, `Expr.analyse_walks`: this, for every tree, and what is assigned after.
* `FlowRecord.Produced.covered`: after analyses one after the other, everything below an analysed
  pattern is covered.
-/

namespace GuardedMatch

namespace FlowRecord

/-- The visited patterns have snapshots, and no visit leads nowhere. -/
structure Covered (visits : List Visit) (record : FlowRecord) : Prop where
  patterns : ∀ pattern, .pattern pattern ∈ visits →
    pattern.id ∈ record.snapshots ∧ ∀ id, pattern ≠ .missing id
  exprs : ∀ id, .expr (.missing id) ∉ visits

/-- Snapshots are kept, the visits are covered, and of other patterns the record says what it said
before. -/
structure Covers (visits : List Visit) (record after : FlowRecord) : Prop where
  kept : ∀ id, id ∈ record.snapshots → id ∈ after.snapshots
  covered : after.Covered visits
  states : ∀ (index : StateIndex) state, record.states[index]? = some state →
    after.states[index]? = some state
  others : ∀ id, (∀ pattern, .pattern pattern ∈ visits → pattern.id ≠ id) →
    after.snapshots[id]? = record.snapshots[id]?

theorem Covered.kept {visits : List Visit} {record after : FlowRecord}
    (h : record.Covered visits) (hkept : ∀ id, id ∈ record.snapshots → id ∈ after.snapshots) :
    after.Covered visits :=
  ⟨fun pattern hpattern => (h.patterns pattern hpattern).imp_left (hkept _), h.exprs⟩

namespace Covers

variable {visits visits' : List Visit} {record mid after : FlowRecord}

theorem refl (record : FlowRecord) : Covers [] record record :=
  ⟨fun _ h => h, ⟨nofun, nofun⟩, fun _ _ h => h, fun _ _ => rfl⟩

theorem trans (h : Covers visits record mid) (h' : Covers visits' mid after) :
    Covers (visits ++ visits') record after := by
  refine ⟨fun id hid => h'.kept id (h.kept id hid), ⟨fun pattern hpattern => ?_, fun id hid => ?_⟩,
    fun index state hstate => h'.states index state (h.states index state hstate),
    fun id hid => ?_⟩
  · rcases List.mem_append.mp hpattern with hfirst | hrest
    · exact (h.covered.kept h'.kept).patterns pattern hfirst
    · exact h'.covered.patterns pattern hrest
  · exact (List.mem_append.mp hid).elim (h.covered.exprs id) (h'.covered.exprs id)
  · have hmid := h.others id fun pattern hpattern => hid pattern (List.mem_append_left _ hpattern)
    rw [← hmid]
    exact h'.others id fun pattern hpattern => hid pattern (List.mem_append_right _ hpattern)

/-- Bindings need no covering, and the order does not matter. -/
theorem mono (hsame : ∀ visit, (∀ id, visit ≠ .binding id) → (visit ∈ visits' ↔ visit ∈ visits))
    (h : Covers visits record after) : Covers visits' record after := by
  have hpatterns : ∀ pattern, .pattern pattern ∈ visits' ↔ .pattern pattern ∈ visits :=
    fun pattern => hsame _ fun _ heq => by cases heq
  have hexprs : ∀ expr, .expr expr ∈ visits' ↔ .expr expr ∈ visits :=
    fun expr => hsame _ fun _ heq => by cases heq
  exact ⟨h.kept, ⟨fun pattern hpattern => h.covered.patterns pattern ((hpatterns _).mp hpattern),
    fun id hid => h.covered.exprs id ((hexprs _).mp hid)⟩, h.states,
    fun id hid => h.others id fun pattern hpattern => hid pattern ((hpatterns _).mpr hpattern)⟩

/-- An expression itself leaves no trace in the record. -/
theorem cons_expr {expr : Expr} (hexpr : ∀ id, expr ≠ .missing id)
    (h : Covers visits record after) : Covers (.expr expr :: visits) record after := by
  refine ⟨h.kept, ⟨fun pattern hpattern => ?_, fun id hid => ?_⟩, h.states, fun id hid => ?_⟩
  · exact h.covered.patterns pattern (by simpa using hpattern)
  · rcases List.mem_cons.mp hid with heq | hmem
    · exact hexpr id (by injection heq with heq; exact heq.symm)
    · exact h.covered.exprs id hmem
  · exact h.others id fun pattern hpattern => hid pattern (List.mem_cons_of_mem _ hpattern)

theorem push (record : FlowRecord) (flow : Flow) : Covers [] record (record.push flow) := by
  refine ⟨fun _ h => h, ⟨nofun, nofun⟩, fun index state hstate => ?_, fun _ _ => rfl⟩
  rw [FlowRecord.push, Array.getElem?_push, if_neg (Array.getElem?_eq_some_iff.mp hstate).1.ne,
    hstate]

theorem setSnapshot {pattern : Pattern} (hpattern : ∀ id, pattern ≠ .missing id)
    (record : FlowRecord) (snapshot : Snapshot) :
    Covers [.pattern pattern] record (record.setSnapshot pattern.id snapshot) := by
  refine ⟨fun id hid => Std.ExtTreeMap.mem_insert.mpr (.inr hid), ⟨fun other hother => ?_, by simp⟩,
    fun _ _ hstate => hstate, fun id hid => ?_⟩
  · obtain rfl : other = pattern := by simpa using hother
    exact ⟨Std.ExtTreeMap.mem_insert.mpr (.inl (Nat.compare_eq_eq.mpr rfl)), hpattern⟩
  · have hne := hid pattern (List.mem_singleton_self _)
    rw [FlowRecord.setSnapshot, Std.ExtTreeMap.getElem?_insert,
      if_neg fun heq => hne (Nat.compare_eq_eq.mp heq)]

end Covers

end FlowRecord

/-! ## Actions -/

/-- A note on a declared local that is not assigned. -/
def Diagnostic.IsUnassigned (locals : Array LocalDecl) (note : Diagnostic) : Prop :=
  ∃ span, ∃ decl ∈ locals, note = Diagnostic.unassignedLocal span decl.name

/-- A name means a local that is not declared. -/
def Resolution.Strays (table : Resolution) (count : Nat) : Prop :=
  ∃ (id : ExprId) (target : LocalId), table.identLocals[id]? = some target ∧ count ≤ target

namespace Analyser

/-- An analysis that covers the visits, if it ends. -/
structure Covers (visits : List Visit) {α : Type} (action : FlowM α) : Prop where
  ensures : ∀ state : Analyser, Ensures action state (fun _ => True) fun _ after =>
    FlowRecord.Covers visits state.record after.record

/-- The action offers notes on unassigned locals only, and stops only where a visit blocks or a name
strays. -/
structure Reports (table : Resolution) (locals : Array LocalDecl) (visits : List Visit) {α : Type}
    (action : FlowM α) : Prop where
  ensures : ∀ state : Analyser, Ensures action state
    (fun _ => (∃ visit ∈ visits, visit.Blocks) ∨ table.Strays locals.size)
    fun _ after => ∃ notes, after.queue = state.queue.addAll notes ∧
      ∀ note ∈ notes, note.IsUnassigned locals

/-- An analysis that goes through the visits: it covers them, answers something of which `post`
holds, offers notes on unassigned locals only, and stops only where a visit blocks or a name strays.
If it is `safe`, no local is read that is not assigned: there are no notes, and no name strays. -/
structure Walks (table : Resolution) (locals : Array LocalDecl) (safe : Prop) (visits : List Visit)
    {α : Type} (action : FlowM α) (post : α → Prop) : Prop where
  ensures : ∀ state : Analyser, Ensures action state
    (fun _ => (∃ visit ∈ visits, visit.Blocks) ∨ ¬ safe ∧ table.Strays locals.size)
    fun answer after => FlowRecord.Covers visits state.record after.record ∧
      (∃ notes, after.queue = state.queue.addAll notes ∧
        ∀ note ∈ notes, ¬ safe ∧ note.IsUnassigned locals) ∧ post answer

theorem Covers.pure {α : Type} (answer : α) : Covers [] (Pure.pure answer : FlowM α) :=
  ⟨fun _ => Ensures.pure (.refl _)⟩

namespace Walks

variable {table : Resolution} {locals : Array LocalDecl} {safe : Prop} {visits visits' : List Visit}
  {α β : Type} {post : α → Prop} {post' : β → Prop} {action : FlowM α}

theorem covers (h : Walks table locals safe visits action post) : Covers visits action :=
  ⟨fun state => (h.ensures state).imp (fun _ _ => trivial) fun _ _ hafter => hafter.1⟩

theorem reports (h : Walks table locals safe visits action post) :
    Reports table locals visits action := by
  refine ⟨fun state => (h.ensures state).imp (fun _ => Or.imp_right And.right) ?_⟩
  rintro _ after ⟨-, ⟨notes, hqueue, hnotes⟩, -⟩
  exact ⟨notes, hqueue, fun note hnote => (hnotes note hnote).2⟩

/-- A safe analysis reports nothing. -/
theorem quiet (h : Walks table locals True visits action post) (state : Analyser) :
    Ensures action state (fun _ => ∃ visit ∈ visits, visit.Blocks)
      fun _ after => after.queue = state.queue := by
  refine (h.ensures state).imp (fun _ herror => herror.resolve_right fun hstrays =>
    hstrays.1 trivial) ?_
  rintro _ after ⟨-, ⟨notes, hqueue, hnotes⟩, -⟩
  have hnone : notes = [] :=
    List.eq_nil_iff_forall_not_mem.mpr fun note hnote => (hnotes note hnote).1 trivial
  rw [hqueue, hnone]
  rfl

/-- What blocks is a pattern or an expression. -/
theorem blocks_mono {strays : Prop}
    (hsub : ∀ visit : Visit, (∀ id, visit ≠ .binding id) → visit ∈ visits → visit ∈ visits') :
    (∃ visit ∈ visits, visit.Blocks) ∨ strays → (∃ visit ∈ visits', visit.Blocks) ∨ strays := by
  refine Or.imp_left ?_
  rintro ⟨visit, hvisit, hblocks⟩
  refine ⟨visit, hsub visit ?_ hvisit, hblocks⟩
  rintro id rfl
  exact hblocks

theorem pure {answer : α} (h : post answer) :
    Walks table locals safe [] (Pure.pure answer : FlowM α) post :=
  ⟨fun state => Ensures.pure ⟨.refl state.record, ⟨[], rfl, nofun⟩, h⟩⟩

theorem throw {visit : Visit} (fault : Fault) (hvisit : visit ∈ visits) (hblocks : visit.Blocks) :
    Walks table locals safe visits (MonadExcept.throw fault : FlowM α) post :=
  ⟨fun _ => Ensures.throw (.inl ⟨visit, hvisit, hblocks⟩)⟩

theorem bind {next : α → FlowM β} (h : Walks table locals safe visits action post)
    (hnext : ∀ answer, post answer → Walks table locals safe visits' (next answer) post') :
    Walks table locals safe (visits ++ visits') (action >>= next) post' := by
  refine ⟨fun state => Ensures.bind ((h.ensures state).imp
    (fun _ => blocks_mono fun _ _ => List.mem_append_left _) ?_)⟩
  rintro answer mid ⟨hmid, ⟨notes, hqueue, hnotes⟩, hanswer⟩
  refine ((hnext answer hanswer).ensures mid).imp
    (fun _ => blocks_mono fun _ _ => List.mem_append_right _) ?_
  rintro _ after ⟨hafter, ⟨more, hqueue', hmore⟩, hpost⟩
  refine ⟨hmid.trans hafter, ⟨notes ++ more, ?_, List.forall_mem_append.mpr ⟨hnotes, hmore⟩⟩, hpost⟩
  rw [hqueue', hqueue, Queue.addAll_append]

theorem mono (h : Walks table locals safe visits action post)
    (hsame : ∀ visit, (∀ id, visit ≠ .binding id) → (visit ∈ visits' ↔ visit ∈ visits)) :
    Walks table locals safe visits' action post :=
  ⟨fun state => (h.ensures state).imp
    (fun _ => blocks_mono fun visit hvisit => (hsame visit hvisit).mpr)
    fun _ _ hafter => hafter.imp_left (·.mono hsame)⟩

theorem weaken {weaker : α → Prop} (h : Walks table locals safe visits action post)
    (hpost : ∀ answer, post answer → weaker answer) :
    Walks table locals safe visits action weaker :=
  ⟨fun state => (h.ensures state).mono fun answer _ hafter =>
    hafter.imp_right (And.imp_right (hpost answer))⟩

theorem cons_expr {expr : Expr} (hexpr : ∀ id, expr ≠ .missing id)
    (h : Walks table locals safe visits action post) :
    Walks table locals safe (.expr expr :: visits) action post :=
  ⟨fun state => (h.ensures state).imp
    (fun _ => blocks_mono fun _ _ => List.mem_cons_of_mem _)
    fun _ _ hafter => hafter.imp_left (·.cons_expr hexpr)⟩

theorem recordState (flow : Flow) :
    Walks table locals safe [] (Analyser.recordState flow) fun _ => True :=
  ⟨fun state => Ensures.get_bind (Ensures.modify_bind (Ensures.pure
    ⟨.push state.record flow, ⟨[], rfl, nofun⟩, trivial⟩))⟩

theorem setSnapshot (pattern : Pattern) (hpattern : ∀ id, pattern ≠ .missing id)
    (suspend resume : StateIndex) :
    Walks table locals safe [.pattern pattern]
      (Analyser.setSnapshot pattern.id suspend resume) fun _ => True :=
  ⟨fun state => Ensures.modifies ⟨.setSnapshot hpattern state.record _, ⟨[], rfl, nofun⟩, trivial⟩⟩

theorem read {id : ExprId} (span : Span) {flow : Flow}
    (h : safe → ∀ target, table.identLocals[id]? = some target → flow.isAssigned target = true) :
    Walks table locals safe [] (Analyser.read table locals id span flow) fun _ => True := by
  rw [Analyser.read.eq_def]
  split
  next => exact pure trivial
  next target htarget =>
    split
    next hunassigned =>
      have hnot : ¬ safe := fun hsafe => by simp [h hsafe target htarget] at hunassigned
      split
      next decl hdecl =>
        refine ⟨fun state => Ensures.modifies
          ⟨.refl state.record, ⟨[.unassignedLocal span decl.name], rfl, ?_⟩, trivial⟩⟩
        rw [List.forall_mem_singleton]
        exact ⟨hnot, span, decl, Array.mem_of_getElem? hdecl, rfl⟩
      next hnone =>
        refine ⟨fun state => Ensures.throw (.inr ⟨hnot, id, target, htarget, ?_⟩)⟩
        exact Array.getElem?_eq_none_iff.mp hnone
    next => exact pure trivial

theorem discard (h : Walks table locals safe visits action post) :
    Walks table locals safe visits (Functor.discard action) fun _ => True :=
  ⟨fun state => Ensures.discards ((h.weaken fun _ _ => trivial).ensures state)⟩

theorem forM {step : α → FlowM PUnit} {visitsOf : α → List Visit} : ∀ (items : List α),
    (∀ item ∈ items, Walks table locals safe (visitsOf item) (step item) fun _ => True) →
    Walks table locals safe (items.flatMap visitsOf) (items.forM step) fun _ => True
  | [], _ => pure trivial
  | item :: items, h => by
    rw [List.forall_mem_cons] at h
    rw [List.flatMap_cons]
    exact bind h.1 fun _ _ => forM items h.2

end Walks

end Analyser

/-! ## Trees -/

section

variable (table : Resolution) (locals : Array LocalDecl)

open Analyser

mutual

/-- **An analysis of a pattern goes through all that is in it, and afterwards what was assigned and
what the pattern binds is assigned.  It is safe if it starts where the visible locals are assigned,
and identifiers mean visible locals.** -/
theorem Pattern.analyse_walks {safe : Prop} :
    ∀ (pattern : Pattern) (visible : List LocalId) {flow : Flow},
      (safe → table.Sees (pattern.reads visible)) →
      (safe → ∀ id ∈ visible, flow.isAssigned id = true) →
      Walks table locals safe pattern.visits (pattern.analyse table locals flow)
        (flow.Carries fun _ => pattern.bindings)
  | .type id ty binds span, visible, flow, _, _ => by
    have hsnapshot : ∀ flow',
        flow.Carries (fun _ => (Pattern.type id ty binds span).bindings) flow' →
        Walks table locals safe [.pattern (.type id ty binds span)] (do
          let before ← recordState flow
          let after ← recordState flow'
          setSnapshot id before after
          return flow') (flow.Carries fun _ => (Pattern.type id ty binds span).bindings) :=
      fun _ hcarries => .bind (.recordState _) fun _ _ => .bind (.recordState _) fun _ _ =>
        .bind (.setSnapshot (.type id ty binds span) nofun _ _) fun _ _ => .pure hcarries
    cases binds with
    | none =>
      rw [Pattern.analyse]
      exact hsnapshot flow (.refl flow)
    | some binding =>
      rw [Pattern.analyse]
      refine .mono (hsnapshot (flow.assign binding) (Flow.carries_of_isAssigned fun other hother =>
        ?_)) fun visit hvisit => ?_
      · rw [Pattern.bindings, List.mem_singleton] at hother
        exact Flow.isAssigned_assign.mpr (hother.symm.imp_left Eq.symm)
      · simp [Pattern.visits, hvisit]
  | .record id ty components span, visible, flow, hsees, hvisible => by
    rw [Pattern.analyse]
    refine .mono (.bind (.recordState _) fun _ _ => .bind (Pattern.analyseAll_walks components
      visible hsees hvisible) fun after hafter => .bind (.recordState _) fun _ _ =>
      .bind (.setSnapshot (.record id ty components span) nofun _ _) fun _ _ => .pure hafter) ?_
    intro visit _
    simp only [Pattern.visits, List.mem_cons, List.mem_append]
    tauto
  | .guarded id [] condition span, visible, flow, _, _ => by
    rw [Pattern.analyse]
    exact .throw _ (Pattern.self_mem_visits _) trivial
  | .guarded id (first :: rest) condition span, visible, flow, hsees, hvisible => by
    simp only [Pattern.reads, Pattern.readsAll, Resolution.sees_append, imp_and] at hsees
    obtain ⟨⟨hfirst, hrest⟩, hcond⟩ := hsees
    rw [Pattern.analyse]
    refine .mono (.bind (first.analyse_walks visible hfirst hvisible) fun one hone =>
      .bind (.recordState _) fun _ _ => .bind (Pattern.analyseAll_walks rest visible hrest
        fun hsafe other hother => hone.isAssigned (hvisible hsafe other hother)) fun all hall =>
      have hboth : flow.Carries (fun _ => Pattern.bindingsAll (first :: rest)) all :=
        hone.trans hall
      .bind (condition.analyse_walks _ hcond fun hsafe other hother => ?_) fun last hlast =>
      .bind (.recordState _) fun _ _ =>
      .bind (.setSnapshot (.guarded id (first :: rest) condition span) nofun _ _) fun _ _ =>
      .pure (hboth.trans (Flow.carries_of_isAssigned (hlast true)))) fun visit _ => ?_
    · rcases List.mem_append.mp hother with hother | hother
      · exact hboth.isAssigned (hvisible hsafe other hother)
      · exact hboth.isAssigned_of_mem hother
    · simp only [Pattern.visits, Pattern.visitsAll, List.mem_cons, List.mem_append]
      clear hfirst hrest hcond hvisible
      tauto
  | .any id span, visible, flow, _, _ => by
    rw [Pattern.analyse]
    exact .bind (.recordState _) fun _ _ => .bind (.recordState _) fun _ _ => .bind (.setSnapshot
      (.any id span) nofun _ _) fun _ _ => .pure (.refl flow)
  | .missing id, visible, flow, _, _ => by
    rw [Pattern.analyse]
    exact .throw _ (Pattern.self_mem_visits _) trivial

theorem Pattern.analyseAll_walks {safe : Prop} :
    ∀ (patterns : List Pattern) (visible : List LocalId) {flow : Flow},
      (safe → table.Sees (Pattern.readsAll patterns visible)) →
      (safe → ∀ id ∈ visible, flow.isAssigned id = true) →
      Walks table locals safe (Pattern.visitsAll patterns)
        (Pattern.analyseAll table locals patterns flow)
        (flow.Carries fun _ => Pattern.bindingsAll patterns)
  | [], visible, flow, _, _ => by
    rw [Pattern.analyseAll]
    exact .pure (.refl flow)
  | pattern :: patterns, visible, flow, hsees, hvisible => by
    simp only [Pattern.readsAll, Resolution.sees_append, imp_and] at hsees
    rw [Pattern.analyseAll, Pattern.visitsAll, Pattern.bindingsAll]
    refine .bind (pattern.analyse_walks visible hsees.1 hvisible) fun mid hmid => ?_
    have hrest := Pattern.analyseAll_walks patterns visible hsees.2 fun hsafe id hid =>
      hmid.isAssigned (hvisible hsafe id hid)
    exact hrest.weaken fun _ hafter => hmid.trans hafter

/-- **An analysis of an expression goes through all that is in it, and afterwards what was assigned
is assigned for both outcomes, and what the expression binds for an outcome is assigned for it.** -/
theorem Expr.analyse_walks {safe : Prop} :
    ∀ (expr : Expr) (visible : List LocalId) {flow : Flow},
      (safe → table.Sees (expr.reads visible)) →
      (safe → ∀ id ∈ visible, flow.isAssigned id = true) →
      Walks table locals safe expr.visits (expr.analyse table locals flow)
        (flow.Carries expr.bindings)
  | .bool id value span, visible, flow, _, _ => by
    cases value with
    | true | false =>
      rw [Expr.analyse]
      refine .cons_expr nofun (.pure fun outcome other hother => ?_)
      have hassigned : flow.isAssigned other = true := hother.resolve_right List.not_mem_nil
      cases outcome <;> first | exact hassigned | rfl
  | .int id value span, visible, flow, _, _ => by
    rw [Expr.analyse]
    exact .cons_expr nofun (.pure (.refl flow))
  | .ident id name span, visible, flow, hsees, hvisible => by
    rw [Expr.analyse]
    refine .cons_expr nofun (.bind (.read span fun hsafe target htarget => ?_) fun _ _ =>
      .pure (.refl flow))
    exact hvisible hsafe target
      (hsees hsafe ⟨id, visible⟩ (List.mem_singleton_self _) target htarget)
  | .field id receiver name span, visible, flow, hsees, hvisible => by
    rw [Expr.analyse]
    exact .cons_expr nofun ((receiver.analyse_walks visible hsees hvisible).weaken
      fun _ hafter => hafter.drop)
  | .unary id .not operand span, visible, flow, hsees, hvisible => by
    rw [Expr.analyse, Expr.visits, ← List.append_nil operand.visits]
    refine .cons_expr nofun (.bind (operand.analyse_walks visible hsees hvisible)
      fun after hafter => .pure fun outcome other hother => ?_)
    rw [Flow.half_swap]
    exact hafter (!outcome) other hother
  | .unary id .neg operand span, visible, flow, hsees, hvisible => by
    rw [Expr.analyse]
    exact .cons_expr nofun ((operand.analyse_walks visible hsees hvisible).weaken
      fun _ hafter => hafter.drop)
  | .binary id op left right span, visible, flow, hsees, hvisible => by
    simp only [Expr.reads, Resolution.sees_append, imp_and] at hsees
    obtain ⟨hleft, hright⟩ := hsees
    rw [Expr.analyse, Expr.visits, ← List.append_nil right.visits]
    refine .cons_expr nofun (.bind (left.analyse_walks visible hleft hvisible) fun one hone => ?_)
    split
    next =>
      refine .bind (right.analyse_walks (visible ++ left.bindings true) hright
        fun hsafe other hother => ?_) fun two htwo => .pure ?_
      · exact hone true other ((List.mem_append.mp hother).imp_left (hvisible hsafe other))
      · exact hone.shortCircuit true htwo rfl rfl (fun _ => Bindings.mem_merge.mp) rfl
    next =>
      refine .bind (right.analyse_walks (visible ++ left.bindings false) hright
        fun hsafe other hother => ?_) fun two htwo => .pure ?_
      · exact hone false other ((List.mem_append.mp hother).imp_left (hvisible hsafe other))
      · exact hone.shortCircuit false htwo rfl rfl (fun _ => Bindings.mem_merge.mp) rfl
    next hand hor =>
      have hstrict : op.isLogical = false := by cases op <;> simp_all [BinaryOp.isLogical]
      have hnone : ∀ outcome, (Expr.binary id op left right span).bindings outcome = [] := by
        cases op <;> simp_all [Expr.bindings]
      rw [if_neg (by simp [hstrict])] at hright
      refine .bind (right.analyse_walks visible hright fun hsafe other hother => ?_)
        fun two htwo => .pure fun outcome other hother => ?_
      · exact hone.isAssigned (hvisible hsafe other hother)
      · rw [hnone] at hother
        have hassigned : two.join.isAssigned other = true :=
          htwo.isAssigned (hone.isAssigned (hother.resolve_right List.not_mem_nil))
        exact Flow.isAssigned_iff.mp hassigned outcome
  | .instanceOf id tested pattern span, visible, flow, hsees, hvisible => by
    simp only [Expr.reads, Resolution.sees_append, imp_and] at hsees
    rw [Expr.analyse, Expr.visits, ← List.append_nil pattern.visits]
    refine .cons_expr nofun (.bind (tested.analyse_walks visible hsees.1 hvisible)
      fun before hbefore => .bind (pattern.analyse_walks visible hsees.2
        fun hsafe other hother => ?_) fun matched hmatched => .pure fun outcome other hother => ?_)
    · exact hbefore.isAssigned (hvisible hsafe other hother)
    · cases outcome with
      | true => exact hmatched true other (hother.imp_left hbefore.isAssigned)
      | false => exact hbefore.isAssigned (hother.resolve_right List.not_mem_nil)
  | .call id callee args written span, visible, flow, hsees, hvisible => by
    rw [Expr.analyse]
    exact .cons_expr nofun (Expr.analyseAll_walks args visible hsees hvisible)
  | .missing id, visible, flow, _, _ => by
    rw [Expr.analyse]
    exact .throw _ (Expr.self_mem_visits _) trivial

theorem Expr.analyseAll_walks {safe : Prop} :
    ∀ (exprs : List Expr) (visible : List LocalId) {flow : Flow},
      (safe → table.Sees (Expr.readsAll exprs visible)) →
      (safe → ∀ id ∈ visible, flow.isAssigned id = true) →
      Walks table locals safe (Expr.visitsAll exprs) (Expr.analyseAll table locals exprs flow)
        (flow.Carries fun _ => [])
  | [], visible, flow, _, _ => by
    rw [Expr.analyseAll]
    exact .pure (.refl flow)
  | expr :: exprs, visible, flow, hsees, hvisible => by
    simp only [Expr.readsAll, Resolution.sees_append, imp_and] at hsees
    rw [Expr.analyseAll, Expr.visitsAll]
    refine .bind (expr.analyse_walks visible hsees.1 hvisible) fun mid hmid => ?_
    have hrest : Walks table locals safe (Expr.visitsAll exprs)
        (Expr.analyseAll table locals exprs mid.join) (mid.join.Carries fun _ => []) :=
      Expr.analyseAll_walks exprs visible hsees.2 fun hsafe id hid =>
        hmid.isAssigned (hvisible hsafe id hid)
    refine hrest.weaken fun after hafter => Flow.carries_of_isAssigned fun id hid => ?_
    exact hafter.isAssigned (hmid.isAssigned (hid.resolve_right List.not_mem_nil))

end

/-! Whatever identifiers mean, an analysis goes through a tree. -/

theorem Pattern.analyse_walks_anyhow (pattern : Pattern) (flow : Flow) :
    Walks table locals False pattern.visits (pattern.analyse table locals flow)
      (flow.Carries fun _ => pattern.bindings) :=
  pattern.analyse_walks table locals [] False.elim False.elim

theorem Pattern.analyseAll_walks_anyhow (patterns : List Pattern) (flow : Flow) :
    Walks table locals False (Pattern.visitsAll patterns)
      (Pattern.analyseAll table locals patterns flow)
      (flow.Carries fun _ => Pattern.bindingsAll patterns) :=
  Pattern.analyseAll_walks table locals patterns [] False.elim False.elim

theorem Expr.analyse_walks_anyhow (expr : Expr) (flow : Flow) :
    Walks table locals False expr.visits (expr.analyse table locals flow)
      (flow.Carries expr.bindings) :=
  expr.analyse_walks table locals [] False.elim False.elim

end

/-! ## Records -/

/-- A record that analyses have made one after the other, and the patterns that were analysed. -/
inductive FlowRecord.Produced (forest : Forest) : List PatternId → FlowRecord → Prop
  | empty : Produced forest [] FlowRecord.empty
  | pattern {log : List PatternId} {record : FlowRecord} {table : Resolution} {id : PatternId}
      {flow : Flow} {analysed : Analysed} (h : Produced forest log record)
      (hrun : forest.analysePattern table record id flow = .ok analysed) :
      Produced forest (id :: log) analysed.record
  | expr {log : List PatternId} {record : FlowRecord} {table : Resolution} {id : ExprId}
      {flow : Flow} {analysed : Analysed} (h : Produced forest log record)
      (hrun : forest.analyseExpr table record id flow = .ok analysed) :
      Produced forest log analysed.record

namespace FlowRecord

theorem exists_of_run {record : FlowRecord} {action : FlowM Flow} {analysed : Analysed}
    (h : record.run action = .ok analysed) :
    ∃ after, EStateM.run action ⟨record, .new .unlimited⟩ = .ok analysed.flow after ∧
      analysed.record = after.record := by
  rw [run] at h
  split at h
  next flow after hrun =>
    cases h
    exact ⟨after, hrun, rfl⟩
  next => cases h

theorem covers_of_run {record : FlowRecord} {visits : List Visit} {action : FlowM Flow}
    {analysed : Analysed} (haction : Analyser.Covers visits action)
    (h : record.run action = .ok analysed) : Covers visits record analysed.record := by
  obtain ⟨after, hrun, hrecord⟩ := exists_of_run h
  rw [hrecord]
  exact (haction.ensures ⟨record, .new .unlimited⟩).of_ok hrun

/-- **What is below an analysed pattern is covered.** -/
theorem Produced.covered {forest : Forest} {log : List PatternId} {record : FlowRecord}
    (h : Produced forest log record) {id : PatternId} (hid : id ∈ log) :
    record.Covered (forest.pattern id).visits := by
  induction h with
  | empty => cases hid
  | @pattern _ _ table other flow _ _ hrun ih =>
    have hcovers := covers_of_run
      ((forest.pattern other).analyse_walks_anyhow table forest.locals flow).covers hrun
    rcases List.mem_cons.mp hid with rfl | hmem
    · exact hcovers.covered
    · exact (ih hmem).kept hcovers.kept
  | @expr _ _ table other flow _ _ hrun ih =>
    have hcovers := covers_of_run
      ((forest.expr other).analyse_walks_anyhow table forest.locals flow).covers hrun
    exact (ih hid).kept hcovers.kept

end FlowRecord

end GuardedMatch
