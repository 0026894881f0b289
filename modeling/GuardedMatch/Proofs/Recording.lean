import GuardedMatch.Proofs.Flowing

/-!
# What is recorded about a local

The states that an analysis records are looked up again when code is planned.  If no pattern is
visited twice, what an analysis records about its patterns stays.  Then the states recorded around
a pattern are those before and after it, and a local that is bound nowhere in an expression is
assigned in the states recorded there only if it was assigned before.

* `Expr.analyse_bounds`: the states recorded in an expression assign no more of a local.
* `Pattern.Recorded`: the states recorded for a pattern and for what is below it.
* `Pattern.analyse_recorded`: what an analysis of a pattern records.
-/

namespace GuardedMatch

/-! ## Visits of different patterns -/

namespace Visit

/-- No pattern is met on both sides. -/
def Apart (visits visits' : List Visit) : Prop :=
  ∀ pattern other, .pattern pattern ∈ visits → .pattern other ∈ visits' → pattern.id ≠ other.id

/-- No node is met twice. -/
def Distinct (visits : List Visit) : Prop := (visits.filterMap node?).Nodup

variable {visits visits' : List Visit} {visit : Visit}

theorem Apart.symm (h : Apart visits visits') : Apart visits' visits :=
  fun pattern other hpattern hother => (h other pattern hother hpattern).symm

theorem Apart.left (h : Apart visits visits') {part : List Visit} (hsub : part ⊆ visits) :
    Apart part visits' := fun pattern other hpattern => h pattern other (hsub hpattern)

theorem Apart.append {more : List Visit} (h : Apart visits visits') (h' : Apart visits more) :
    Apart visits (visits' ++ more) := fun pattern other hpattern hother =>
  (List.mem_append.mp hother).elim (h pattern other hpattern) (h' pattern other hpattern)

theorem Distinct.append (h : Distinct (visits ++ visits')) :
    Distinct visits ∧ Distinct visits' ∧ Apart visits visits' := by
  rw [Distinct, List.filterMap_append, List.nodup_append] at h
  refine ⟨h.1, h.2.1, fun pattern other hpattern hother heq => ?_⟩
  exact h.2.2 (.pattern pattern.id) (List.mem_filterMap.mpr ⟨_, hpattern, rfl⟩) (.pattern other.id)
    (List.mem_filterMap.mpr ⟨_, hother, rfl⟩) (congrArg _ heq)

theorem Distinct.cons (h : Distinct (visit :: visits)) :
    Distinct visits ∧ Apart visits [visit] := by
  have hparts : Distinct ([visit] ++ visits) := h
  exact ⟨hparts.append.2.1, hparts.append.2.2.symm⟩

end Visit

/-! ## Records that are kept -/

namespace FlowRecord

variable {visits visits' : List Visit} {record mid after : FlowRecord} {id : PatternId}

/-- The states recorded for a pattern. -/
def Has (record : FlowRecord) (id : PatternId) (suspend resume : FlowState) : Prop :=
  ∃ snapshot, record.snapshots[id]? = some snapshot ∧
    record.states[snapshot.suspend]? = some suspend ∧ record.states[snapshot.resume]? = some resume

/-- In the states recorded for a pattern a local is assigned only if it is known to be. -/
def Bounds (record : FlowRecord) (bound : LocalId) (known : Prop) (id : PatternId) : Prop :=
  ∃ suspend resume, record.Has id suspend resume ∧ (suspend.Holds bound → known) ∧
    (resume.Holds bound → known)

/-- What was recorded about the visited patterns is still there. -/
structure Kept (visits : List Visit) (record after : FlowRecord) : Prop where
  states : ∀ (index : StateIndex) state, record.states[index]? = some state →
    after.states[index]? = some state
  snapshots : ∀ pattern, .pattern pattern ∈ visits →
    after.snapshots[pattern.id]? = record.snapshots[pattern.id]?

theorem Kept.refl (visits : List Visit) (record : FlowRecord) : Kept visits record record :=
  ⟨fun _ _ h => h, fun _ _ => rfl⟩

theorem Kept.trans (h : Kept visits record mid) (h' : Kept visits mid after) :
    Kept visits record after :=
  ⟨fun index state hstate => h'.states index state (h.states index state hstate),
    fun pattern hpattern => (h'.snapshots pattern hpattern).trans (h.snapshots pattern hpattern)⟩

theorem Kept.mono (h : Kept visits record after)
    (hsub : ∀ pattern, .pattern pattern ∈ visits' → .pattern pattern ∈ visits) :
    Kept visits' record after :=
  ⟨h.states, fun pattern hpattern => h.snapshots pattern (hsub pattern hpattern)⟩

/-- An analysis of other patterns keeps what was recorded. -/
theorem Covers.kept_apart (h : Covers visits' record after) (hapart : Visit.Apart visits visits') :
    Kept visits record after := by
  refine ⟨h.states, fun pattern hpattern => h.others pattern.id fun other hother => ?_⟩
  exact (hapart pattern other hpattern hother).symm

end FlowRecord

/-! ## Analyses that leave a record -/

namespace Analyser

/-- An analysis that covers the visits.  Of its answer and of any record that keeps what it has
recorded `post` holds, if it ends. -/
structure Leaves (visits : List Visit) {α : Type} (action : FlowM α)
    (post : α → FlowRecord → Prop) : Prop where
  ensures : ∀ state : Analyser, Ensures action state (fun _ => True) fun answer after =>
    FlowRecord.Covers visits state.record after.record ∧
    ∀ record, FlowRecord.Kept visits after.record record → post answer record

namespace Leaves

variable {visits visits' : List Visit} {α β : Type} {post : α → FlowRecord → Prop}
  {post' : β → FlowRecord → Prop}

theorem pure {answer : α} (h : ∀ record, post answer record) :
    Leaves [] (Pure.pure answer : FlowM α) post :=
  ⟨fun state => Ensures.pure ⟨.refl state.record, fun record _ => h record⟩⟩

theorem throw (fault : Fault) : Leaves visits (MonadExcept.throw fault : FlowM α) post :=
  ⟨fun _ => Ensures.throw trivial⟩

/-- **One analysis after the other**, if they meet different patterns. -/
theorem bind {action : FlowM α} {next : α → FlowM β} (h : Leaves visits action post)
    (hapart : Visit.Apart visits visits')
    (hnext : ∀ answer, (∃ record, post answer record) → Leaves visits' (next answer)
      fun answer' record => post answer record → post' answer' record) :
    Leaves (visits ++ visits') (action >>= next) post' := by
  refine ⟨fun state => (h.ensures state).seq fun answer mid hmid => ?_⟩
  have hsome : ∃ record, post answer record := ⟨_, hmid.2 _ (.refl visits mid.record)⟩
  refine ((hnext answer hsome).ensures mid).mono fun answer' after hafter => ?_
  refine ⟨hmid.1.trans hafter.1, fun record hkept => ?_⟩
  have hsecond := hkept.mono fun pattern hpattern => List.mem_append_right visits hpattern
  have hfirst := hkept.mono fun pattern hpattern => List.mem_append_left visits' hpattern
  exact hafter.2 record hsecond (hmid.2 record ((hafter.1.kept_apart hapart).trans hfirst))

/-- Bindings need no covering, and the order does not matter. -/
theorem mono {action : FlowM α} {weaker : α → FlowRecord → Prop} (h : Leaves visits action post)
    (hsame : ∀ visit, (∀ id, visit ≠ .binding id) → (visit ∈ visits' ↔ visit ∈ visits))
    (hpost : ∀ answer record, post answer record → weaker answer record) :
    Leaves visits' action weaker := by
  refine ⟨fun state => (h.ensures state).mono fun answer after hafter => ?_⟩
  refine ⟨hafter.1.mono hsame, fun record hkept => hpost answer record (hafter.2 record ?_)⟩
  exact hkept.mono fun pattern => (hsame _ fun _ heq => by cases heq).mpr

theorem imp {action : FlowM α} {weaker : α → FlowRecord → Prop} (h : Leaves visits action post)
    (hpost : ∀ answer record, post answer record → weaker answer record) :
    Leaves visits action weaker := h.mono (fun _ _ => Iff.rfl) hpost

theorem and {action : FlowM α} {facts : α → Prop} (h : Leaves visits action post)
    (hfacts : Answers action facts) :
    Leaves visits action fun answer record => post answer record ∧ facts answer := by
  refine ⟨fun state => ((h.ensures state).and (hfacts state)).mono fun answer after hafter => ?_⟩
  exact ⟨hafter.1.1, fun record hkept => ⟨hafter.1.2 record hkept, hafter.2⟩⟩

theorem of_covers {action : FlowM α} (h : Covers visits action) :
    Leaves visits action fun _ _ => True :=
  ⟨fun state => (h.ensures state).mono fun _ _ hafter => ⟨hafter, fun _ _ => trivial⟩⟩

theorem recordState (flow : Flow) : Leaves [] (Analyser.recordState flow)
    fun index record => record.states[index]? = some flow.joined := by
  refine ⟨fun state => Ensures.get_bind (Ensures.modify_bind (Ensures.pure ?_))⟩
  exact ⟨.push .., fun record hkept => hkept.states _ _ Array.getElem?_push_size⟩

theorem setSnapshot (pattern : Pattern) (hpattern : ∀ id, pattern ≠ .missing id)
    (suspend resume : StateIndex) :
    Leaves [.pattern pattern] (Analyser.setSnapshot pattern.id suspend resume)
      fun _ record => record.snapshots[pattern.id]? = some ⟨suspend, resume⟩ := by
  refine ⟨fun state => Ensures.modifies ⟨.setSnapshot hpattern .., fun record hkept => ?_⟩⟩
  rw [hkept.snapshots pattern (List.mem_singleton_self _)]
  exact Std.ExtTreeMap.getElem?_insert_self

/-- **A pattern is recorded around what is below it.** -/
theorem snapshot (pattern : Pattern) (hpattern : ∀ id, pattern ≠ .missing id) (flow : Flow)
    {inner : FlowM Flow} {post : Flow → FlowRecord → Prop} (hinner : Leaves visits inner post)
    (hapart : Visit.Apart visits [.pattern pattern]) :
    Leaves (visits ++ [.pattern pattern]) (do
      let before ← Analyser.recordState flow
      let flow ← inner
      let after ← Analyser.recordState flow
      Analyser.setSnapshot pattern.id before after
      return flow) fun after record =>
        post after record ∧ record.Has pattern.id flow.joined after.joined := by
  have hnone : ∀ visits : List Visit, Visit.Apart [] visits := fun _ _ _ h => by cases h
  show Leaves ([] ++ (visits ++ ([] ++ ([.pattern pattern] ++ [])))) _ _
  refine .bind (.recordState flow) (hnone _) fun before _ => ?_
  refine .bind hinner hapart fun last _ => ?_
  refine .bind (.recordState last) (hnone _) fun after _ => ?_
  refine .bind (.setSnapshot pattern hpattern before after) (hnone _).symm fun _ _ => .pure ?_
  intro record hsnapshot hafter hpost hbefore
  exact ⟨hpost, _, hsnapshot, hbefore, hafter⟩

theorem alone (pattern : Pattern) (hpattern : ∀ id, pattern ≠ .missing id) (flow after : Flow) :
    Leaves [.pattern pattern] (do
      let before ← Analyser.recordState flow
      let resume ← Analyser.recordState after
      Analyser.setSnapshot pattern.id before resume
      return after) fun answer record =>
        answer = after ∧ record.Has pattern.id flow.joined after.joined := by
  have hinner : Leaves [] (Pure.pure after : FlowM Flow) fun answer _ => answer = after :=
    .pure fun _ => rfl
  refine (snapshot pattern hpattern flow hinner fun _ _ h => by cases h).imp ?_
  rintro answer record ⟨rfl, hhas⟩
  exact ⟨rfl, hhas⟩

end Leaves

end Analyser

/-- **What the analysis of a guarded pattern leaves**, given that of its sub-patterns and of its
condition.  The states recorded are those after the first sub-pattern and after the condition. -/
theorem Analyser.Leaves.guarded {table : Resolution} {locals : Array LocalDecl} {id : PatternId}
    {first : Pattern} {rest : List Pattern} {condition : Expr} {span : Span} {flow : Flow}
    {post : Flow → FlowRecord → Prop} {post' post'' : Flow → Flow → FlowRecord → Prop}
    (hdistinct : Visit.Distinct (Pattern.guarded id (first :: rest) condition span).visits)
    (hfirst : Leaves first.visits (first.analyse table locals flow) post)
    (hrest : ∀ one, (∃ record, post one record) → Leaves (Pattern.visitsAll rest)
      (Pattern.analyseAll table locals rest one) (post' one))
    (hcondition : ∀ one all, (∃ record, post one record) → (∃ record, post' one all record) →
      Leaves condition.visits (condition.analyse table locals all) (post'' all)) :
    Leaves (Pattern.guarded id (first :: rest) condition span).visits
      ((Pattern.guarded id (first :: rest) condition span).analyse table locals flow)
      fun after record => ∃ one all last, post one record ∧ post' one all record ∧
        post'' all last record ∧ after = .plain last.whenTrue ∧
        record.Has id one.joined last.whenTrue := by
  obtain ⟨hbelow, hself⟩ := Visit.Distinct.cons hdistinct
  obtain ⟨hpatterns, -, hapart⟩ := hbelow.append
  obtain ⟨-, -, hapart'⟩ := Visit.Distinct.append hpatterns
  have hnone : ∀ visits : List Visit, Visit.Apart visits [] := fun _ _ _ _ h => by cases h
  have hinner : ∀ one, (∃ record, post one record) →
      Leaves (Pattern.visitsAll rest ++ (condition.visits ++ [])) (do
        let flow ← Pattern.analyseAll table locals rest one
        let flow ← condition.analyse table locals flow
        return flow.assumeTrue) fun after record => ∃ all last, post' one all record ∧
          post'' all last record ∧ after = .plain last.whenTrue := by
    intro one hone
    refine .bind (hrest one hone) ((hapart.left (List.subset_append_right ..)).append (hnone _))
      fun all hall => ?_
    refine .bind (hcondition one all hone hall) (hnone _) fun last _ => .pure ?_
    exact fun record hlast hall => ⟨all, last, hall, hlast, rfl⟩
  have hselfRest : Visit.Apart (Pattern.visitsAll rest ++ (condition.visits ++ []))
      [.pattern (.guarded id (first :: rest) condition span)] := by
    refine hself.left ?_
    rw [Pattern.visitsAll, List.append_assoc, List.append_nil]
    exact List.subset_append_right ..
  have hselfFirst : Visit.Apart first.visits
      [.pattern (.guarded id (first :: rest) condition span)] :=
    hself.left (List.subset_append_of_subset_left _ (List.subset_append_left ..))
  have hall := Leaves.bind hfirst ((hapart'.append ((hapart.left (List.subset_append_left
    ..)).append (hnone _))).append hselfFirst) fun one hone => (snapshot (.guarded id
      (first :: rest) condition span) (fun _ h => by cases h) one (hinner one hone) hselfRest).imp
        fun after record h hpost => (⟨one, hpost, h⟩ : ∃ one, post one record ∧ (∃ all last,
          post' one all record ∧ post'' all last record ∧ after = .plain last.whenTrue) ∧
          record.Has id one.joined after.joined)
  simp only [bind_assoc, pure_bind] at hall
  rw [Pattern.analyse]
  refine hall.mono (fun visit _ => ?_) ?_
  · simp only [Pattern.visits, Pattern.visitsAll, List.mem_cons, List.mem_append]
    tauto
  · rintro after record ⟨one, hone, ⟨all, last, hpost', hpost'', rfl⟩, hhas⟩
    exact ⟨one, all, last, hone, hpost', hpost'', rfl, hhas⟩

/-! ## A local that is not bound -/

namespace Analyser

variable {bound : LocalId} {known : Prop} {visits visits' : List Visit}

/-- The patterns visited are recorded, and a local is assigned in their states and afterwards only
if it is known to be. -/
def Bounded (bound : LocalId) (known : Prop) (visits : List Visit) (action : FlowM Flow) : Prop :=
  Leaves visits action fun after record => (after.Holds bound → known) ∧
    ∀ pattern, .pattern pattern ∈ visits → record.Bounds bound known pattern.id

/-- What an analysis notes stays, since no pattern is met twice. -/
theorem Records.bounded {action : FlowM Flow}
    (h : Records (Passes fun other => other = bound → known) visits action
      (Flow.Within fun other => other = bound → known)) (hcovers : Covers visits action) :
    Bounded bound known visits action := by
  refine ⟨fun state => ((h.ensures state).and (hcovers.ensures state)).mono ?_⟩
  rintro flow after ⟨⟨hnotes, hwithin⟩, hcovered⟩
  refine ⟨hcovered, fun record hkept => ⟨fun hholds => hwithin bound hholds rfl, ?_⟩⟩
  intro pattern hpattern
  obtain ⟨snapshot, suspend, resume, hsnapshot, -, hsuspend, hresume, hpasses⟩ :=
    hnotes.visited pattern hpattern
  exact ⟨suspend, resume, ⟨snapshot, (hkept.snapshots pattern hpattern).trans hsnapshot,
    hkept.states _ _ hsuspend, hkept.states _ _ hresume⟩,
    fun hholds => hpasses.before bound hholds rfl, fun hholds => hpasses.after bound hholds rfl⟩

end Analyser

section

variable (table : Resolution) (locals : Array LocalDecl) {bound : LocalId} {known : Prop}

open Analyser

/-- **A pattern that does not bind a local leaves it as it was.** -/
theorem Pattern.analyse_bounds (pattern : Pattern) (hbound : .binding bound ∉ pattern.visits)
    (flow : Flow) (hflow : flow.Holds bound → known) :
    Bounded bound known pattern.visits (pattern.analyse table locals flow) :=
  Records.bounded (pattern.analyse_passes table locals (by rintro _ h rfl; exact absurd h hbound)
    flow (by rintro _ h rfl; exact hflow h)) (pattern.analyse_walks_anyhow table locals flow).covers

/-- **An expression that does not bind a local leaves it as it was.** -/
theorem Expr.analyse_bounds (expr : Expr) (hbound : .binding bound ∉ expr.visits) (flow : Flow)
    (hflow : flow.Holds bound → known) :
    Bounded bound known expr.visits (expr.analyse table locals flow) :=
  Records.bounded (expr.analyse_passes table locals (by rintro _ h rfl; exact absurd h hbound)
    flow (by rintro _ h rfl; exact hflow h)) (expr.analyse_walks_anyhow table locals flow).covers

end

/-! ## The states around a pattern -/

mutual

/-- What is recorded for a pattern and below it, where `before` is the state in which it is tested
and `after` the state in which it has matched.  The conditions below it do not bind the local. -/
def Pattern.Recorded (record : FlowRecord) (bound : LocalId) :
    Pattern → (before after : FlowState) → Prop
  | .type id ty binds span, before, after =>
    (Pattern.type id ty binds span).outcomes.Backs before (.plain after) ∧
      record.Has id before after
  | .record id ty components span, before, after =>
    (Pattern.record id ty components span).outcomes.Backs before (.plain after) ∧
      record.Has id before after ∧ Pattern.RecordedAll record bound components before after
  | .guarded id (first :: rest) condition span, before, after =>
    (Pattern.guarded id (first :: rest) condition span).outcomes.Backs before (.plain after) ∧
      .binding bound ∉ condition.visits ∧
      ∃ mid last, first.Recorded record bound before mid ∧
        Pattern.RecordedAll record bound rest mid last ∧ record.Has id mid after ∧
        (after.Holds bound → last.Holds bound) ∧
        ∀ pattern, .pattern pattern ∈ condition.visits →
          record.Bounds bound (last.Holds bound) pattern.id
  | .any id span, before, after =>
    (Pattern.any id span).outcomes.Backs before (.plain after) ∧ record.Has id before after
  | .guarded _ [] _ _, _, _ | .missing _, _, _ => False

/-- What is recorded for patterns that are tested one after the other. -/
def Pattern.RecordedAll (record : FlowRecord) (bound : LocalId) :
    List Pattern → (before after : FlowState) → Prop
  | [], before, after => after = before
  | pattern :: patterns, before, after => ∃ mid, pattern.Recorded record bound before mid ∧
      Pattern.RecordedAll record bound patterns mid after

end

section

variable (table : Resolution) (locals : Array LocalDecl) (bound : LocalId)

open Analyser

mutual

/-- **What an analysis of a pattern records.** -/
theorem Pattern.analyse_recorded : ∀ (pattern : Pattern), AppliedIn pattern.visits →
    Visit.Distinct pattern.visits →
    (∀ expr, .expr expr ∈ pattern.visits → .binding bound ∉ expr.visits) → ∀ before : FlowState,
    Leaves pattern.visits (pattern.analyse table locals (.plain before)) fun after record =>
      ∃ state, after = .plain state ∧ pattern.Recorded record bound before state
  | .type id ty binds span, happlied, _, _, before => by
    have hbacks := (Pattern.type id ty binds span).analyse_backed table locals happlied before
    have hpost : ∀ (state : FlowState) after record, (after = .plain state ∧
        record.Has id before state) ∧ (Pattern.type id ty binds span).outcomes.Backs before after →
        ∃ state, after = .plain state ∧ (Pattern.type id ty binds span).Recorded record bound before
          state := by
      rintro state after record ⟨⟨rfl, hhas⟩, hbacks⟩
      exact ⟨state, rfl, by rw [Pattern.Recorded]; exact ⟨hbacks, hhas⟩⟩
    cases binds with
    | none =>
      rw [Pattern.analyse] at hbacks ⊢
      exact ((Leaves.alone (.type id ty none span) nofun (.plain before) (.plain before)).and
        hbacks).imp (hpost before)
    | some binding =>
      rw [Pattern.analyse] at hbacks ⊢
      refine ((Leaves.alone (.type id ty (some binding) span) nofun (.plain before)
        (.plain (before.assign binding))).and hbacks).mono (fun visit hvisit => ?_)
        (hpost (before.assign binding))
      simp [Pattern.visits, hvisit]
  | .record id ty components span, happlied, hdistinct, hbound, before => by
    have hbacks := (Pattern.record id ty components span).analyse_backed table locals happlied
      before
    obtain ⟨hbelow, hapart⟩ := Visit.Distinct.cons hdistinct
    have hcomponents := Pattern.analyseAll_recorded components happlied.cons hbelow
      (fun expr hexpr => hbound expr (List.mem_cons_of_mem _ hexpr)) before
    rw [Pattern.analyse] at hbacks ⊢
    refine ((Leaves.snapshot (.record id ty components span) nofun (.plain before) hcomponents
      hapart).and hbacks).mono (fun visit _ => ?_) ?_
    · simp only [Pattern.visits, List.mem_cons, List.mem_append]
      tauto
    · rintro after record ⟨⟨⟨state, rfl, hstate⟩, hhas⟩, hbacks⟩
      exact ⟨state, rfl, by rw [Pattern.Recorded]; exact ⟨hbacks, hhas, hstate⟩⟩
  | .guarded id [] condition span, _, _, _, before => by
    rw [Pattern.analyse]
    exact .throw _
  | .guarded id (first :: rest) condition span, happlied, hdistinct, hbound, before => by
    have hbacks := (Pattern.guarded id (first :: rest) condition span).analyse_backed table locals
      happlied before
    obtain ⟨hpatterns, hcondition, -⟩ := (Visit.Distinct.cons hdistinct).1.append
    obtain ⟨hfirst, hrest, -⟩ := Visit.Distinct.append hpatterns
    obtain ⟨happlied, -⟩ := happlied.cons.append
    obtain ⟨happliedFirst, happliedRest⟩ := AppliedIn.append happlied
    have hunbound : .binding bound ∉ condition.visits := by
      refine hbound condition ?_
      simp [Pattern.visits, Expr.self_mem_visits]
    have hone := first.analyse_recorded happliedFirst hfirst
      (fun expr hexpr => hbound expr (by simp [Pattern.visits, Pattern.visitsAll, hexpr])) before
    have hall : ∀ one : Flow, (∃ record mid, one = .plain mid ∧
        first.Recorded record bound before mid) → Leaves (Pattern.visitsAll rest)
          (Pattern.analyseAll table locals rest one) fun all record => ∃ mid last,
            one = .plain mid ∧ all = .plain last ∧
            Pattern.RecordedAll record bound rest mid last := by
      rintro _ ⟨_, mid, rfl, -⟩
      refine (Pattern.analyseAll_recorded rest happliedRest hrest (fun expr hexpr => hbound expr (by
        simp [Pattern.visits, Pattern.visitsAll, hexpr])) mid).imp ?_
      rintro _ record ⟨last, rfl, hlast⟩
      exact ⟨mid, last, rfl, rfl, hlast⟩
    have hknown : ∀ one all : Flow, (∃ record mid, one = .plain mid ∧
        first.Recorded record bound before mid) → (∃ record mid last, one = .plain mid ∧
          all = .plain last ∧ Pattern.RecordedAll record bound rest mid last) →
        Leaves condition.visits (condition.analyse table locals all) fun split record => ∃ last,
          all = .plain last ∧ (split.Holds bound → last.Holds bound) ∧ ∀ pattern,
            .pattern pattern ∈ condition.visits →
              record.Bounds bound (last.Holds bound) pattern.id := by
      rintro _ _ - ⟨_, _, last, -, rfl, -⟩
      refine Leaves.imp (condition.analyse_bounds table locals hunbound (.plain last)
        Flow.holds_plain.mp) fun split record hsplit => ⟨last, rfl, hsplit⟩
    refine ((Leaves.guarded hdistinct hone hall hknown).and hbacks).imp ?_
    rintro _ record ⟨⟨_, _, split, ⟨mid, rfl, hmid⟩, ⟨_, last, ⟨⟩, rfl, hlast⟩,
      ⟨_, ⟨⟩, hholds, hbounds⟩, rfl, hhas⟩, hbacks⟩
    refine ⟨_, rfl, ?_⟩
    rw [Pattern.Recorded]
    exact ⟨hbacks, hunbound, mid, last, hmid, hlast, hhas,
      fun h => hholds (Flow.holds_whenTrue h), hbounds⟩
  | .any id span, happlied, _, _, before => by
    have hbacks := (Pattern.any id span).analyse_backed table locals happlied before
    rw [Pattern.analyse] at hbacks ⊢
    refine ((Leaves.alone (.any id span) nofun (.plain before) (.plain before)).and hbacks).imp ?_
    rintro after record ⟨⟨rfl, hhas⟩, hbacks⟩
    exact ⟨before, rfl, by rw [Pattern.Recorded]; exact ⟨hbacks, hhas⟩⟩
  | .missing id, _, _, _, before => by
    rw [Pattern.analyse]
    exact .throw _

theorem Pattern.analyseAll_recorded : ∀ (patterns : List Pattern),
    AppliedIn (Pattern.visitsAll patterns) → Visit.Distinct (Pattern.visitsAll patterns) →
    (∀ expr, .expr expr ∈ Pattern.visitsAll patterns → .binding bound ∉ expr.visits) →
    ∀ before : FlowState, Leaves (Pattern.visitsAll patterns)
      (Pattern.analyseAll table locals patterns (.plain before)) fun after record =>
        ∃ state, after = .plain state ∧ Pattern.RecordedAll record bound patterns before state
  | [], _, _, _, before => by
    rw [Pattern.analyseAll]
    exact .pure fun _ => ⟨before, rfl, by rw [Pattern.RecordedAll]⟩
  | pattern :: patterns, happlied, hdistinct, hbound, before => by
    obtain ⟨hfirst, hrest, hapart⟩ := Visit.Distinct.append hdistinct
    obtain ⟨happliedFirst, happliedRest⟩ := AppliedIn.append happlied
    rw [Pattern.analyseAll]
    refine .bind (pattern.analyse_recorded happliedFirst hfirst
      (fun expr hexpr => hbound expr (List.mem_append_left _ hexpr)) before) hapart ?_
    rintro _ ⟨_, mid, rfl, -⟩
    refine (Pattern.analyseAll_recorded patterns happliedRest hrest
      (fun expr hexpr => hbound expr (List.mem_append_right _ hexpr)) mid).imp ?_
    rintro _ record ⟨last, rfl, hlast⟩ ⟨_, ⟨⟩, hmid⟩
    exact ⟨last, rfl, by rw [Pattern.RecordedAll]; exact ⟨mid, hmid, hlast⟩⟩

end

end

end GuardedMatch
