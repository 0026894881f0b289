import GuardedMatch.Proofs.Assembling
import GuardedMatch.Proofs.Recording

/-!
# Ranges while code is planned

Control comes to what is planned for a test only from where the test starts.  So a local that has
been stored before the test may be live anywhere in it, however control jumps about there.  This
settles conditions that do not bind the local.  A pattern that binds it opens its range where it is
stored, and the else label of a guard is where the range has to be closed again.

* `Pattern.plan_inside`, `Expr.plan_inside`: where a local is not bound, its range is open only if
  it has been stored before.
* `Pattern.plan_stands`: the ranges of a local that only patterns bind, and no condition.
-/

namespace GuardedMatch

/-! ## Where control comes from -/

namespace Fronts

/-- All histories here, and those under way to a label from `base` on, continue one of the entry. -/
structure Below (base : Label) (entry : Set (List Event)) (fronts : Fronts) : Prop where
  here : ∀ history ∈ fronts.here, ∃ before ∈ entry, ∃ more, history = before ++ more
  pending : ∀ label ≥ base, ∀ history ∈ fronts.pending label,
    ∃ before ∈ entry, ∃ more, history = before ++ more

namespace Below

variable {base : Label} {entry : Set (List Event)} {fronts : Fronts}

theorem start (h : fronts.Unused base) : fronts.Below base fronts.here := by
  refine ⟨fun history hhistory => ⟨history, hhistory, [], (List.append_nil _).symm⟩, ?_⟩
  intro label hlabel history hhistory
  rw [h label hlabel] at hhistory
  exact hhistory.elim

theorem step (h : fronts.Below base entry) {instr : Instr}
    (hplaced : ∀ label ∈ instr.placed?, base ≤ label) : (fronts.step instr).Below base entry := by
  have hentering : ∀ history ∈ fronts.entering instr,
      ∃ before ∈ entry, ∃ more, history = before ++ more := by
    intro history hhistory
    rw [entering] at hhistory
    split at hhistory
    next label hlabel =>
      rcases hhistory with hhere | hpending
      · exact h.here history hhere
      · exact h.pending label (hplaced label hlabel) history hpending
    next => exact h.here history hhistory
  constructor
  · rintro history ⟨-, before, hbefore, rfl⟩
    obtain ⟨first, hfirst, more, rfl⟩ := hentering before hbefore
    exact ⟨first, hfirst, _, List.append_assoc ..⟩
  · rintro label hlabel history (hhistory | ⟨-, hhistory⟩)
    · exact h.pending label hlabel history hhistory
    · exact hentering history hhistory

/-- **Code that places only new labels is entered only from its start.** -/
theorem run : ∀ {piece : List Instr} {fronts : Fronts}, fronts.Below base entry →
    (∀ label ∈ placedLabels piece, base ≤ label) → (fronts.run piece).Below base entry := by
  intro piece
  induction piece with
  | nil => exact fun h _ => h
  | cons instr piece ih =>
    intro fronts h hplaced
    refine ih (h.step fun label hlabel => hplaced label ?_) fun label hlabel => hplaced label ?_
    · exact List.mem_filterMap.mpr ⟨instr, List.mem_cons_self, hlabel⟩
    · obtain ⟨other, hother, hlabel⟩ := List.mem_filterMap.mp hlabel
      exact List.mem_filterMap.mpr ⟨other, List.mem_cons_of_mem _ hother, hlabel⟩

end Below

end Fronts

namespace Stream

/-! ## Inside of a test -/

/-- The state of planning inside of a test that was entered with one of the histories of `entry`.
The local is live only if it is known to have been stored before. -/
structure Inside (id : LocalId) (known : Prop) (base : Label) (entry : Set (List Event))
    (stream : Stream) : Prop where
  tabled : stream.Tabled id
  labels : base ≤ stream.labels.size
  below : stream.fronts.Below base entry
  live : stream.isLive id = true → known
  stored : known → ∀ history ∈ entry, .stored id ∈ history

namespace Inside

variable {id : LocalId} {known : Prop} {base : Label} {entry : Set (List Event)}
  {stream after : Stream}

theorem held (h : stream.Inside id known base entry) (hlive : stream.isLive id = true) :
    stream.Stored id := by
  intro history hhistory
  obtain ⟨before, hbefore, more, rfl⟩ := h.below.here history hhistory
  exact List.mem_append_left _ (h.stored (h.live hlive) before hbefore)

theorem congr (h : stream.Inside id known base entry) (hinstrs : after.instrs = stream.instrs)
    (hranges : after.ranges = stream.ranges) (hlive : after.live = stream.live)
    (hlabels : stream.labels.size ≤ after.labels.size) : after.Inside id known base entry := by
  refine ⟨h.tabled.congr hinstrs hranges hlive, h.labels.trans hlabels, ?_, ?_, h.stored⟩
  · rw [fronts, hinstrs]
    exact h.below
  · rw [isLive, hlive]
    exact h.live

theorem emit (h : stream.Inside id known base entry) {instr : Instr}
    (hplaced : ∀ label ∈ instr.placed?, base ≤ label) :
    (stream.emit instr).Inside id known base entry := by
  refine ⟨h.tabled.emit fun _ => h.held, h.labels, ?_, h.live, h.stored⟩
  rw [fronts_emit]
  exact h.below.step hplaced

theorem place (h : stream.Inside id known base entry) {label : Label} (hbase : base ≤ label) :
    (stream.place label).Inside id known base entry := by
  have hmarked : ({ stream with labels := stream.labels.setIfInBounds label true } :
      Stream).Inside id known base entry :=
    h.congr rfl rfl rfl (by rw [Array.size_setIfInBounds])
  refine hmarked.emit fun other hother => ?_
  cases hother
  exact hbase

/-- Bringing ranges into line, if what is newly open is known to be stored. -/
theorem align (h : stream.Inside id known base entry) (hsame : stream.SameCode after)
    (htabled : after.Tabled id) (hlive : after.isLive id = true → stream.isLive id = true ∨ known) :
    after.Inside id known base entry := by
  refine ⟨htabled, hsame.labels ▸ h.labels, ?_, fun hafter => (hlive hafter).elim h.live fun h => h,
    h.stored⟩
  rw [hsame.fronts_eq]
  exact h.below

theorem closeUnassigned (h : stream.Inside id known base entry) (states : Array FlowState)
    (index : StateIndex) : (stream.closeUnassigned states index).Inside id known base entry :=
  h.align (.closeUnassigned ..) (h.tabled.closeUnassigned ..) fun hlive =>
    Or.inl (isLive_closeUnassigned hlive).1

theorem openAssigned (h : stream.Inside id known base entry) {states : Array FlowState}
    {index : StateIndex} (hknown : ∀ state, states[index]? = some state → state.Holds id → known) :
    (stream.openAssigned states index).Inside id known base entry := by
  refine h.align (.openAssigned ..) (h.tabled.openAssigned ..) fun hlive => ?_
  refine (isLive_openAssigned hlive).imp_right ?_
  rintro ⟨state, hstate, hholds⟩
  exact hknown state hstate hholds

/-- A local is given a slot, and a value is stored in it. -/
theorem declare_emit (h : stream.Inside id known base entry) (other : LocalId) (value : ValueId) :
    ((stream.declare other).2.emit (.storeLocal other (stream.declare other).1 value)).Inside id
      known base entry := by
  have hdeclared : (stream.declare other).2.Inside id known base entry := by
    rw [declare]
    split
    next => exact h
    next => exact h.congr rfl rfl rfl le_rfl
  exact hdeclared.emit fun _ hplaced => by cases hplaced

theorem store (h : stream.Inside id known base entry) {other : LocalId} (hother : id ≠ other)
    (value : ValueId) : (stream.store other value).Inside id known base entry := by
  have hemitted := h.declare_emit other value
  refine hemitted.align (.startRange ..) (hemitted.tabled.startRange ..) fun hlive => Or.inl ?_
  exact (isLive_startRange hlive).resolve_left hother

end Inside

theorem lt_newLabel (stream : Stream) : stream.labels.size < stream.newLabel.2.labels.size :=
  Nat.lt_of_lt_of_eq (Nat.lt_succ_self _) (Array.size_push _).symm

end Stream

/-! ## Tests that do not bind the local -/

/-- The visits do not bind the local, and in the states recorded for them it is assigned only if it
is known to be. -/
structure Facts.Bounded (facts : Facts) (id : LocalId) (known : Prop) (visits : List Visit) :
    Prop where
  unbound : .binding id ∉ visits
  bounds : ∀ pattern, .pattern pattern ∈ visits → facts.record.Bounds id known pattern.id

section

variable {facts : Facts} {id : LocalId} {known : Prop} {base : Label} {entry : Set (List Event)}
  {visits visits' : List Visit}

theorem FlowRecord.Bounds.resume {record : FlowRecord} {pattern : PatternId} {snapshot : Snapshot}
    (h : record.Bounds id known pattern) (hsnapshot : record.snapshots[pattern]? = some snapshot) :
    ∀ state, record.states[snapshot.resume]? = some state → state.Holds id → known := by
  obtain ⟨_, resume, ⟨found, hfound, -, hresume⟩, -, hknown⟩ := h
  obtain rfl := Option.some.inj (hsnapshot.symm.trans hfound)
  intro state hstate
  obtain rfl := Option.some.inj (hresume.symm.trans hstate)
  exact hknown

open Planner

/-- What steps do inside of a test that does not bind the local. -/
def Planner.Terms.inside (id : LocalId) (known : Prop) (base : Label) : Terms where
  stores other := id ≠ other
  opens state := state.Holds id → known
  places label := base ≤ label
  fails _ := True

theorem Facts.Bounded.permits (h : facts.Bounded id known visits) :
    facts.Permits (.inside id known base) visits where
  stores other hother := by
    rintro rfl
    exact h.unbound hother
  opens pattern hpattern _ hsnapshot := (h.bounds pattern hpattern).resume hsnapshot
  fails := .inr fun _ => trivial

theorem Stream.Inside.stable :
    Stream.Stable (.inside id known base) (Stream.Inside id known base entry) where
  labels h := h.labels
  newLabel {stream} h := h.congr rfl rfl rfl stream.lt_newLabel.le
  newValue h := h.congr rfl rfl rfl le_rfl
  emit h _ hplaced := h.emit fun label hlabel => by
    rw [hplaced] at hlabel
    cases hlabel
  place h _ hbase _ := h.place hbase
  store h _ hother _ value := h.store hother value
  closeRange h other := h.align (.closeRange ..) (h.tabled.closeRange other) fun hlive =>
    .inl (Stream.isLive_closeRange hlive).2
  closeUnassigned h := h.closeUnassigned
  openAssigned h _ _ hknown := h.openAssigned hknown

theorem Planner.Assembled.inside {ids : List LocalId} {α : Type} {action : PlanM α}
    (h : Assembled (.inside id known base) ids action) {planner : Planner}
    (hinside : planner.stream.Inside id known base entry) :
    Ensures action planner (fun _ => True) fun _ after =>
      after.stream.Inside id known base entry :=
  (h.keeps Stream.Inside.stable).ensures planner hinside

/-- **Where a pattern does not bind the local**, it is live only if it has been stored before. -/
theorem Pattern.plan_inside (pattern : Pattern) (h : facts.Bounded id known pattern.visits)
    (value : ValueId) (static : Ty) (targets : Targets) (enclosing : Enclosing) :
    Keeps (Stream.Inside id known base entry)
      (pattern.plan facts value static targets enclosing) :=
  ⟨fun _ => (pattern.plan_assembled h.permits value static targets enclosing).inside⟩

/-- **Where a condition does not bind the local**, it is live only if it has been stored before. -/
theorem Expr.plan_inside (expr : Expr) (h : facts.Bounded id known expr.visits)
    (targets : Targets) (enclosing : Enclosing) :
    Keeps (Stream.Inside id known base entry) (expr.plan facts targets enclosing) :=
  ⟨fun _ => (expr.plan_assembled h.permits targets enclosing).inside⟩

end

/-! ## Patterns that bind the local -/

/-- When a test comes out true, the local was assigned before or is stored by it. -/
def Outcomes.Stores (outcomes : Outcomes) (before : FlowState) (id : LocalId) : Prop :=
  ∀ events, outcomes events true → before.isAssigned id = true ∨ .stored id ∈ events

namespace Stream

/-- All labels that are jumped to have been handed out. -/
def Targeted (stream : Stream) : Prop :=
  ∀ instr ∈ stream.instrs.toList, ∀ label ∈ instr.target?, label < stream.labels.size

namespace Targeted

variable {stream after : Stream}

theorem unused (h : stream.Targeted) : stream.fronts.Unused stream.labels.size := by
  have hstart : Fronts.start.Unused 0 := fun _ _ => rfl
  exact hstart.run (Nat.zero_le _) h

theorem congr (h : stream.Targeted) (hinstrs : after.instrs = stream.instrs)
    (hlabels : stream.labels.size ≤ after.labels.size) : after.Targeted := by
  rw [Targeted, hinstrs]
  exact fun instr hinstr label hlabel => (h instr hinstr label hlabel).trans_le hlabels

theorem emit (h : stream.Targeted) {instr : Instr}
    (htarget : ∀ label ∈ instr.target?, label < stream.labels.size) :
    (stream.emit instr).Targeted := by
  rw [Targeted, Stream.emit, Array.toList_push]
  intro other hother label hlabel
  rcases List.mem_append.mp hother with hother | hother
  · exact h other hother label hlabel
  · rw [List.mem_singleton.mp hother] at hlabel
    exact htarget label hlabel

theorem emits {base : Label} {value : ValueId} {exits : Exits} {outcomes : Outcomes}
    (h : stream.Targeted) (hemits : Planner.Emits base value () exits outcomes stream after) :
    after.Targeted := by
  obtain ⟨piece, hgrows, -⟩ := hemits
  rw [Targeted, hgrows.appends.instrs]
  intro instr hinstr label hlabel
  rcases List.mem_append.mp hinstr with hinstr | hinstr
  · exact (h instr hinstr label hlabel).trans_le hgrows.appends.labels_le
  · exact hgrows.targets trivial instr hinstr label hlabel

end Targeted

/-- The state of planning where the analysis stands at `state`: the local has been stored while it
is live, and what is assigned was assigned at the origin or has been stored. -/
structure Stands (id : LocalId) (origin state : FlowState) (stream : Stream) : Prop where
  tabled : stream.Tabled id
  targets : stream.Targeted
  held : stream.isLive id = true → stream.Stored id
  backed : ∀ history ∈ stream.fronts.here, state.BackedBy origin history

namespace Stands

variable {id : LocalId} {assigned : LocalSet} {origin before state : FlowState}
  {stream after : Stream}

/-- What is assigned here has been stored, if it was not assigned at the origin. -/
theorem stored (h : stream.Stands id (.reached assigned) state)
    (hassigned : assigned.contains id = false) (hstate : state.isAssigned id = true) :
    stream.Stored id := by
  intro history hhistory
  refine (h.backed history hhistory id hstate).resolve_left ?_
  simp [FlowState.isAssigned, FlowState.reached, hassigned]

theorem inside (h : stream.Stands id origin state) :
    stream.Inside id (stream.Stored id) stream.labels.size stream.fronts.here :=
  ⟨h.tabled, le_rfl, .start h.targets.unused, h.held, fun hstored => hstored⟩

theorem congr (h : stream.Stands id origin state) (hinstrs : after.instrs = stream.instrs)
    (hranges : after.ranges = stream.ranges) (hlive : after.live = stream.live)
    (hlabels : stream.labels.size ≤ after.labels.size) : after.Stands id origin state := by
  refine ⟨h.tabled.congr hinstrs hranges hlive, h.targets.congr hinstrs hlabels, ?_, ?_⟩
  · rw [isLive, hlive, Stored, fronts, hinstrs]
    exact h.held
  · rw [fronts, hinstrs]
    exact h.backed

theorem emit (h : stream.Stands id origin state) {instr : Instr} (hplaced : instr.placed? = none)
    (htarget : ∀ label ∈ instr.target?, label < stream.labels.size) :
    (stream.emit instr).Stands id origin state := by
  have hhere : ∀ history ∈ (stream.emit instr).fronts.here,
      ∃ before ∈ stream.fronts.here, history = before ++ instr.event?.toList := by
    rw [fronts_emit]
    rintro history ⟨-, before, hbefore, rfl⟩
    rw [Fronts.entering, hplaced] at hbefore
    exact ⟨before, hbefore, rfl⟩
  refine ⟨h.tabled.emit fun _ => h.held, h.targets.emit htarget, fun hlive history hhistory => ?_,
    fun history hhistory => ?_⟩
  · obtain ⟨before, hbefore, rfl⟩ := hhere history hhistory
    exact List.mem_append_left _ (h.held hlive before hbefore)
  · obtain ⟨before, hbefore, rfl⟩ := hhere history hhistory
    exact (h.backed before hbefore).mono (List.subset_append_left ..)

/-- **After a match**, given that the local is live only if it was stored before or is stored in
every match. -/
theorem next (h : stream.Stands id (.reached assigned) before)
    (hassigned : assigned.contains id = false) {value : ValueId} {fail : Label}
    {outcomes : Outcomes} (hemits : Planner.Emits stream.labels.size value ()
      (Targets.Exits ⟨none, some fail⟩ none) outcomes stream after)
    (hbacks : outcomes.Backs before (.plain state)) (htabled : after.Tabled id)
    (hlive : after.isLive id = true → stream.Stored id ∨ outcomes.Stores before id) :
    after.Stands id (.reached assigned) state := by
  have htargets := h.targets.emits hemits
  obtain ⟨piece, hgrows, hplays⟩ := hemits
  obtain ⟨_, ⟨⟩, hbacked⟩ := hbacks
  have hhere : ∀ history ∈ after.fronts.here, ∃ first ∈ stream.fronts.here, ∃ events,
      outcomes events true ∧ history = first ++ events := by
    rw [fronts, hgrows.appends.instrs, Fronts.run_append]
    intro history hhistory
    obtain ⟨first, hfirst, events, outcome, hevents, hexit, rfl⟩ :=
      hplays.here stream.fronts h.targets.unused hhistory
    cases outcome with
    | true => exact ⟨first, hfirst, events, hevents, rfl⟩
    | false => cases Targets.exits_none.mp hexit
  refine ⟨htabled, htargets, fun hafter history hhistory => ?_, fun history hhistory => ?_⟩
  · obtain ⟨first, hfirst, events, hevents, rfl⟩ := hhere history hhistory
    rcases hlive hafter with hstored | hstored
    · exact List.mem_append_left _ (hstored first hfirst)
    · rcases hstored events hevents with hbefore | hevent
      · exact List.mem_append_left _ (h.stored hassigned hbefore first hfirst)
      · exact List.mem_append_right _ hevent
  · obtain ⟨first, hfirst, events, hevents, rfl⟩ := hhere history hhistory
    exact (hbacked events hevents).trans (h.backed first hfirst)

end Stands

end Stream

section

variable {pattern : Pattern} {before after : FlowState} {own : PatternId} {planner : Planner}
  {value : ValueId}

variable {facts : Facts} {id : LocalId} {assigned : LocalSet}

open Planner

theorem Pattern.Recorded.backs {record : FlowRecord} (h : pattern.Recorded record id before after) :
    pattern.outcomes.Backs before (.plain after) := by
  cases pattern with
  | type | record | any =>
    rw [Pattern.Recorded] at h
    exact h.1
  | guarded own patterns condition span =>
    cases patterns with
    | nil =>
      rw [Pattern.Recorded] at h
      exact h.elim
    | cons first rest =>
      rw [Pattern.Recorded] at h
      exact h.1
  | missing =>
    rw [Pattern.Recorded] at h
    exact h.elim

/-- Looking up the states of a pattern and bringing ranges into line with one of them. -/
theorem FlowRecord.Has.align {suspend resume : FlowState} (h : facts.record.Has own suspend resume)
    {next : Snapshot → PlanM Unit} {bad : Failure → Prop} {post : Unit → Planner → Prop}
    (hnext : ∀ snapshot, facts.record.states[snapshot.suspend]? = some suspend →
      facts.record.states[snapshot.resume]? = some resume →
      Ensures (next snapshot) planner bad post) :
    Ensures (snapshot facts own >>= next) planner bad post := by
  obtain ⟨found, hfound, hsuspend, hresume⟩ := h
  refine Ensures.bind ?_
  rw [snapshot, hfound]
  exact Ensures.pure (hnext found hsuspend hresume)

/-- The states recorded for a pattern that is not guarded are those around it. -/
theorem Pattern.Recorded.has {record : FlowRecord} (h : pattern.Recorded record id before after)
    (hplain : ∀ own first rest condition span,
      pattern = .guarded own (first :: rest) condition span → False) :
    record.Has pattern.id before after := by
  cases pattern with
  | type | any =>
    rw [Pattern.Recorded] at h
    exact h.2
  | record =>
    rw [Pattern.Recorded] at h
    exact h.2.1
  | guarded own patterns condition span =>
    cases patterns with
    | nil =>
      rw [Pattern.Recorded] at h
      exact h.elim
    | cons first rest => exact (hplain own first rest condition span rfl).elim
  | missing =>
    rw [Pattern.Recorded] at h
    exact h.elim

/-- **What is suspended**: where the local stays live, it is assigned before the pattern. -/
theorem Pattern.suspend_closes (pattern : Pattern)
    (h : pattern.Recorded facts.record id before after) (htabled : planner.stream.Tabled id) :
    Ensures (pattern.suspend facts) planner (fun _ => True) fun _ last => last.stream.Tabled id ∧
      (last.stream.isLive id = true → before.reachable = true →
        before.assigned.contains id = true) := by
  fun_induction Pattern.suspend facts pattern generalizing after planner with
  | case1 own first rest condition span ih =>
    rw [Pattern.Recorded] at h
    obtain ⟨-, -, mid, last, hfirst, -, hhas, -⟩ := h
    refine hhas.align fun snapshot _ _ => Ensures.modify_bind ?_
    exact ih hfirst (htabled.closeUnassigned ..)
  | case2 pattern hplain =>
    refine (h.has hplain).align fun snapshot hsuspend _ => Ensures.modifies ?_
    refine ⟨htabled.closeUnassigned .., fun hlive => ?_⟩
    exact (Stream.isLive_closeUnassigned hlive).2 before hsuspend

/-- Where the local is newly live in the state after a match, it was assigned before the pattern, or
it is stored in every match. -/
theorem Pattern.Recorded.opened (h : pattern.Recorded facts.record id before after)
    {stream : Stream} {index : StateIndex} (hafter : facts.record.states[index]? = some after)
    (hlive : (stream.openAssigned facts.record.states index).isLive id = true) :
    stream.isLive id = true ∨ pattern.outcomes.Stores before id := by
  obtain ⟨_, ⟨⟩, hbacked⟩ := h.backs
  refine (Stream.isLive_openAssigned hlive).imp_right ?_
  rintro ⟨state, hstate, hholds⟩ events hevents
  obtain rfl := Option.some.inj (hafter.symm.trans hstate)
  exact hbacked events hevents id hholds.isAssigned

/-- When a guarded pattern matches, its first sub-pattern has matched. -/
theorem Pattern.outcomes_first {first : Pattern} {rest : List Pattern} {condition : Expr}
    {span : Span} {events : List Event}
    (h : (Pattern.guarded own (first :: rest) condition span).outcomes events true) :
    ∃ front, front ⊆ events ∧ first.outcomes front true := by
  rw [Pattern.outcomes] at h
  rcases h with ⟨hfalse, -⟩ | ⟨matched, others, rfl, hmatched, -⟩
  · cases hfalse
  rw [Pattern.outcomesAll] at hmatched
  rcases hmatched with ⟨hfalse, -⟩ | ⟨front, back, rfl, hfront, -⟩
  · cases hfalse
  exact ⟨front, List.Subset.trans (List.subset_append_left ..) (List.subset_append_left ..), hfront⟩

/-- **What is resumed**: where the local is newly live, it was assigned before the pattern, or it is
stored in every match. -/
theorem Pattern.resume_opens (pattern : Pattern) (h : pattern.Recorded facts.record id before after)
    (htabled : planner.stream.Tabled id) :
    Ensures (pattern.resume facts) planner (fun _ => True) fun _ last => last.stream.Tabled id ∧
      (last.stream.isLive id = true →
        planner.stream.isLive id = true ∨ pattern.outcomes.Stores before id) := by
  fun_induction Pattern.resume facts pattern generalizing after planner with
  | case1 own first rest condition span ih =>
    have hguarded := h
    rw [Pattern.Recorded] at h
    obtain ⟨-, -, mid, last, hfirst, -, hhas, -⟩ := h
    refine hhas.align fun snapshot _ hresume => Ensures.modify_bind ?_
    refine (ih hfirst (htabled.openAssigned ..)).mono fun _ last hlast => ⟨hlast.1, fun hlive => ?_⟩
    rcases hlast.2 hlive with hopened | hmatched
    · exact hguarded.opened hresume hopened
    · refine Or.inr fun events hevents => ?_
      obtain ⟨front, hfront, hmatch⟩ := Pattern.outcomes_first hevents
      exact (hmatched front hmatch).imp_right fun hstored => hfront hstored
  | case2 pattern hplain =>
    refine (h.has hplain).align fun snapshot _ hresume => Ensures.modifies ?_
    exact ⟨htabled.openAssigned .., h.opened hresume⟩

/-! ## Guarded patterns -/

/-- Code that places only new labels is entered only from its start. -/
theorem Planner.Emits.below {base bound : Label} {exits : Exits} {outcomes : Outcomes}
    {entry : Set (List Event)} {stream after : Stream}
    (h : Emits bound value () exits outcomes stream after) (hle : base ≤ bound)
    (hbelow : stream.fronts.Below base entry) :
    after.fronts.Below base entry := by
  obtain ⟨piece, hgrows, -⟩ := h
  rw [Stream.fronts, hgrows.appends.instrs, Fronts.run_append]
  exact hbelow.run fun label hlabel => hle.trans (hgrows.appends.base_le label hlabel)

section

variable {pattern : Pattern} {before after : FlowState} {stream : Stream} {planner : Planner}
  {thenLabel elseLabel : Label} (onFalse : Option Label) (own : PatternId)

/-- **Where control comes to the else label of a guard** the local may be live although it has not
been stored.  It is closed there. -/
theorem Pattern.gather_opens (h : pattern.Recorded facts.record id before after)
    (hstands : stream.Stands id (.reached assigned) before)
    (hassigned : assigned.contains id = false) (htabled : planner.stream.Tabled id)
    (hlabels : stream.labels.size ≤ planner.stream.labels.size)
    (hbelow : planner.stream.fronts.Below stream.labels.size stream.fronts.here)
    (hthen : stream.labels.size ≤ thenLabel) (helse : stream.labels.size ≤ elseLabel) :
    Ensures (do
        place elseLabel
        pattern.suspend facts
        jump onFalse
        place thenLabel
        pattern.resume facts
        setPhase own .emitted) planner (fun _ => True) fun _ last => last.stream.Tabled id ∧
      (last.stream.isLive id = true → stream.Stored id ∨ pattern.outcomes.Stores before id) := by
  have hplace : Ensures (place elseLabel) planner (fun _ => True) fun _ placed =>
      placed.stream = planner.stream.place elseLabel := by
    refine (require_ensures fun _ _ => trivial).seq fun _ same hsame => ?_
    rw [hsame]
    exact Ensures.modifies rfl
  refine hplace.seq fun _ placed hplaced => ?_
  have hfronts : placed.stream.fronts = planner.stream.fronts.step (.placeLabel elseLabel) := by
    rw [hplaced]
    exact Stream.fronts_emit _ _
  have hsuspend := (pattern.suspend_closes h (hplaced ▸ htabled.place elseLabel)).and
    (pattern.suspend_sameCode placed)
  refine hsuspend.seq ?_
  rintro _ closed ⟨⟨hclosed, hlive⟩, hsame⟩
  -- What is still live was assigned before the guard, so it was stored before it.
  have hinside : closed.stream.Inside id (stream.Stored id) stream.labels.size
      stream.fronts.here := by
    refine ⟨hclosed, ?_, ?_, fun hlive' history hhistory => ?_, fun hstored => hstored⟩
    · rw [hsame.labels, hplaced]
      exact hlabels.trans (Array.size_setIfInBounds ▸ le_rfl)
    · rw [hsame.fronts_eq, hfronts]
      refine hbelow.step fun label hlabel => ?_
      cases hlabel
      exact helse
    · have hreachable := (hstands.backed history hhistory).reachable
      refine hstands.stored hassigned ?_ history hhistory
      exact FlowState.Holds.isAssigned ⟨hreachable, hlive hlive' hreachable⟩
  refine ((Assembled.jump onFalse).inside hinside).seq fun _ left hleft => ?_
  refine ((Assembled.place hthen).inside hleft).seq fun _ back hback => ?_
  refine (pattern.resume_opens h hback.tabled).seq fun _ last hlast => ?_
  exact Ensures.modifies ⟨hlast.1, fun hlive' => (hlast.2 hlive').imp_left hback.live⟩

/-- **What follows the condition of a guard.** -/
theorem Pattern.afterNone_opens (h : pattern.Recorded facts.record id before after)
    (hstands : stream.Stands id (.reached assigned) before)
    (hassigned : assigned.contains id = false) {known : Prop} {base : Label}
    {entry : Set (List Event)} {states : Snapshot}
    (hinside : planner.stream.Inside id known base entry)
    (hopen : ∀ state, facts.record.states[states.resume]? = some state → state.Holds id → known)
    (hlabels : stream.labels.size ≤ planner.stream.labels.size)
    (hbelow : planner.stream.fronts.Below stream.labels.size stream.fronts.here)
    (hthen : stream.labels.size ≤ thenLabel) (helse : stream.labels.size ≤ elseLabel) :
    Ensures (do
        change (·.closeUnassigned facts.record.states states.resume)
        change (·.openAssigned facts.record.states states.resume)
        emit (.goto thenLabel)
        place elseLabel
        pattern.suspend facts
        jump onFalse
        place thenLabel
        pattern.resume facts
        setPhase own .emitted) planner (fun _ => True) fun _ last => last.stream.Tabled id ∧
      (last.stream.isLive id = true → stream.Stored id ∨ pattern.outcomes.Stores before id) := by
  have hsame := (Stream.SameCode.closeUnassigned planner.stream facts.record.states
    states.resume).trans (.openAssigned _ facts.record.states states.resume)
  have haligned := (hinside.closeUnassigned facts.record.states states.resume).openAssigned hopen
  have hjumped : (((planner.stream.closeUnassigned facts.record.states states.resume).openAssigned
      facts.record.states states.resume).emit (.goto thenLabel)).fronts.Below stream.labels.size
        stream.fronts.here := by
    rw [Stream.fronts_emit, hsame.fronts_eq]
    exact hbelow.step fun _ hplaced => by cases hplaced
  refine Ensures.modify_bind (Ensures.modify_bind (Ensures.modify_bind ?_))
  refine Pattern.gather_opens onFalse own h hstands hassigned ?_ (hsame.labels ▸ hlabels) hjumped
    hthen helse
  exact (haligned.emit fun _ hplaced => by cases hplaced).tabled

end

section

variable {value : ValueId} {static : Ty} {fail : Label} {enclosing : Enclosing} {planner : Planner}
  {before after : FlowState}

/-- It is enough to know where the local is live after the test of a pattern. -/
theorem Pattern.stands_of_live {pattern : Pattern}
    (h : pattern.Recorded facts.record id before after)
    (hassigned : assigned.contains id = false) (hlt : fail < planner.stream.labels.size)
    (hstands : planner.stream.Stands id (.reached assigned) before)
    (hplan : Ensures (pattern.plan facts value static ⟨none, some fail⟩ enclosing) planner
      (fun _ => True) fun _ last => last.stream.Tabled id ∧ (last.stream.isLive id = true →
        planner.stream.Stored id ∨ pattern.outcomes.Stores before id)) :
    Ensures (pattern.plan facts value static ⟨none, some fail⟩ enclosing) planner (fun _ => True)
      fun _ last => last.stream.Stands id (.reached assigned) after := by
  refine (hplan.and (pattern.plan_emits value static ⟨none, some fail⟩ enclosing planner
    (.of_fail hlt))).mono ?_
  rintro _ last ⟨⟨htabled, hlive⟩, hemits⟩
  rw [Targets.exits_some] at hemits
  exact hstands.next hassigned hemits h.backs htabled hlive

/-- What is planned after the test of a pattern may fail to the same label. -/
theorem Pattern.stands_then {pattern : Pattern} {origin state : FlowState} {next : PlanM Unit}
    {post : Unit → Planner → Prop} (hlt : fail < planner.stream.labels.size)
    (hplan : Ensures (pattern.plan facts value static ⟨none, some fail⟩ enclosing) planner
      (fun _ => True) fun _ mid => mid.stream.Stands id origin state)
    (hnext : ∀ mid : Planner, fail < mid.stream.labels.size → mid.stream.Stands id origin state →
      Ensures next mid (fun _ => True) post) :
    Ensures (do
      pattern.plan facts value static ⟨none, some fail⟩ enclosing
      next) planner (fun _ => True) post := by
  refine (hplan.and (pattern.plan_emits value static ⟨none, some fail⟩ enclosing
    planner (.of_fail hlt))).seq fun _ mid hmid => ?_
  exact hnext mid (hlt.trans_le hmid.2.labels_le) hmid.1

/-- The test of a guarded pattern, given that of its sub-patterns. -/
theorem Pattern.guarded_stands {own : PatternId} {patterns : List Pattern} {condition : Expr}
    {span : Span} (h : (Pattern.guarded own patterns condition span).Recorded facts.record id before
      after) (hassigned : assigned.contains id = false)
    (hall : ∀ (fail : Label) (start : Planner) (last : FlowState),
      Pattern.RecordedAll facts.record id patterns before last → fail < start.stream.labels.size →
      start.stream.Stands id (.reached assigned) before →
      Ensures (Pattern.planAll facts patterns value static fail) start (fun _ => True) fun _ mid =>
        mid.stream.Stands id (.reached assigned) last)
    (hlt : fail < planner.stream.labels.size)
    (hstands : planner.stream.Stands id (.reached assigned) before) :
    Ensures ((Pattern.guarded own patterns condition span).plan facts value static ⟨none, some fail⟩
      enclosing) planner (fun _ => True) fun _ last => last.stream.Stands id (.reached assigned)
        after := by
  refine Pattern.stands_of_live h hassigned hlt hstands ?_
  cases patterns with
  | nil =>
    rw [Pattern.Recorded] at h
    exact h.elim
  | cons first rest =>
  have hguarded := h
  rw [Pattern.Recorded] at h
  obtain ⟨-, hunbound, mid, last, hfirst, hrest, hhas, hholds, hbounds⟩ := h
  have hrecorded : Pattern.RecordedAll facts.record id (first :: rest) before last := by
    rw [Pattern.RecordedAll]
    exact ⟨mid, hfirst, hrest⟩
  rw [Pattern.plan]
  refine hhas.align fun snapshot _ hresume => newLabel_bind (newLabel_bind ?_)
  refine Ensures.modify_bind (Ensures.modify_bind ?_)
  have hthen := planner.stream.lt_newLabel
  have helse := planner.stream.newLabel.2.lt_newLabel
  have hstart : planner.stream.newLabel.2.newLabel.2.Stands id (.reached assigned) before :=
    hstands.congr rfl rfl rfl (hthen.trans helse).le
  refine ((hall _ _ last hrecorded helse hstart).and
    (Pattern.planAll_emits (first :: rest) value static _ _ helse)).seq ?_
  rintro _ tested ⟨htested, hemits⟩
  have hbelow : tested.stream.fronts.Below planner.stream.labels.size planner.stream.fronts.here :=
    hemits.below (hthen.trans helse).le (.start hstands.targets.unused)
  have hlabels : planner.stream.labels.size ≤ tested.stream.labels.size :=
    (hthen.trans helse).le.trans hemits.labels_le
  -- What is assigned after the sub-patterns has been stored when the condition is evaluated.
  have hknown : last.Holds id → tested.stream.Stored id :=
    fun hholds => htested.stored hassigned hholds.isAssigned
  have hbounded : facts.Bounded id (tested.stream.Stored id) condition.visits := by
    refine ⟨hunbound, fun pattern hpattern => ?_⟩
    obtain ⟨suspend, resume, hhas, hsuspend, hresume⟩ := hbounds pattern hpattern
    exact ⟨suspend, resume, hhas, fun h => hknown (hsuspend h), fun h => hknown (hresume h)⟩
  have hopen : ∀ state, facts.record.states[snapshot.resume]? = some state →
      state.Holds id → tested.stream.Stored id := by
    intro state hstate hstateHolds
    obtain rfl := Option.some.inj (hresume.symm.trans hstate)
    exact hknown (hholds hstateHolds)
  have hafter : ∀ {action : PlanM Unit}, Ensures action tested (fun _ => True) (fun _ checked =>
      checked.stream.Inside id (tested.stream.Stored id) tested.stream.labels.size
        tested.stream.fronts.here ∧
      checked.stream.fronts.Below planner.stream.labels.size planner.stream.fronts.here) →
      Ensures (action >>= fun _ => _) tested (fun _ => True) _ := fun haction =>
    haction.seq fun _ checked hchecked => Pattern.afterNone_opens (some fail) own
      hguarded hstands hassigned hchecked.1 hopen (hlabels.trans hchecked.1.labels) hchecked.2
      le_rfl hthen.le
  dsimp only
  split
  next => exact hafter (Ensures.pure ⟨htested.inside, hbelow⟩)
  next =>
    refine hafter (Ensures.modifies ⟨htested.inside.emit fun _ hplaced => ?_, ?_⟩)
    · cases hplaced
    rw [Stream.fronts_emit]
    exact hbelow.step fun _ hplaced => by cases hplaced
  next =>
    have helseTested := helse.trans_le hemits.labels_le
    refine hafter (((condition.plan_inside hbounded _ _).ensures tested htested.inside).and
      (condition.plan_emits 0 ⟨none, some _⟩ ⟨some _, none⟩ tested (.of_fail helseTested)) |>.mono
        ?_)
    rintro _ checked ⟨hinside, hchecked⟩
    exact ⟨hinside, hchecked.below hlabels hbelow⟩

end

theorem Planner.testType_stands {static : Ty} {fail : Label} {origin state : FlowState}
    (hlt : fail < planner.stream.labels.size) (h : planner.stream.Stands id origin state) :
    Ensures (testType facts own value static fail) planner (fun _ => True) fun _ tested =>
      fail < tested.stream.labels.size ∧ tested.stream.Stands id origin state := by
  rw [testType]
  split
  next =>
    refine Ensures.modifies ⟨hlt, h.emit rfl fun label hlabel => ?_⟩
    cases hlabel
    exact hlt
  next => exact Ensures.pure ⟨hlt, h⟩

/-- Where a value is stored for a type pattern, the local is live if it is the one that is bound. -/
theorem Planner.store_opens {known : Prop} {base : Label} {entry : Set (List Event)}
    {binds : Option LocalId} (h : planner.stream.Inside id known base entry) :
    Ensures (store binds value) planner (fun _ => True) fun _ last => last.stream.Tabled id ∧
      (last.stream.isLive id = true → known ∨ id ∈ binds) := by
  cases binds with
  | none => exact Ensures.pure ⟨h.tabled, fun hlive => Or.inl (h.live hlive)⟩
  | some binding =>
    refine (require_ensures fun _ _ => trivial).seq fun _ same hsame => ?_
    rw [hsame]
    have hemitted := h.declare_emit binding value
    refine Ensures.modifies ⟨hemitted.tabled.startRange .., fun hlive => ?_⟩
    rcases Stream.isLive_startRange hlive with rfl | hlive
    · exact Or.inr rfl
    · exact Or.inl (hemitted.live hlive)

mutual

/-- **The ranges of a local that patterns bind**, and no condition: while its range is open it has
been stored, whichever way control has come. -/
theorem Pattern.plan_stands (hassigned : assigned.contains id = false) : ∀ (pattern : Pattern)
    {before after : FlowState}, pattern.Recorded facts.record id before after →
    ∀ (value : ValueId) (static : Ty) (fail : Label) (enclosing : Enclosing) (planner : Planner),
    fail < planner.stream.labels.size → planner.stream.Stands id (.reached assigned) before →
    Ensures (pattern.plan facts value static ⟨none, some fail⟩ enclosing) planner (fun _ => True)
      fun _ last => last.stream.Stands id (.reached assigned) after
  | .type own ty binds span, before, after, h, value, static, fail, enclosing, planner, hlt,
      hstands => by
    refine Pattern.stands_of_live h hassigned hlt hstands ?_
    rw [Pattern.plan]
    refine Ensures.bind (((Assembled.testType ..).inside hstands.inside).seq fun _ tested htested =>
      (store_opens htested).mono fun _ last hlast => Ensures.pure ?_)
    refine ⟨hlast.1, fun hlive => (hlast.2 hlive).imp_right fun hbinds events hevents => ?_⟩
    rw [Pattern.outcomes] at hevents
    rcases hevents with ⟨hfalse, -⟩ | ⟨front, back, rfl, -, rfl, -⟩
    · cases hfalse
    · simp [Option.mem_def.mp hbinds]
  | .record own ty components span, before, after, h, value, static, fail, enclosing, planner, hlt,
      hstands => by
    rw [Pattern.Recorded] at h
    have hboth : ∀ noted : Planner, noted.stream = planner.stream → Ensures (do
          testType facts own value static fail
          Pattern.planComponents facts components 0
            (facts.pool.componentTypes (facts.table.patternType own)) value fail enclosing) noted
        (fun _ => True) fun _ last => last.stream.Stands id (.reached assigned) after := by
      intro noted hsame
      rw [← hsame] at hlt hstands
      exact (testType_stands hlt hstands).seq fun _ tested htested =>
        Pattern.planComponents_stands hassigned components h.2.2 0 _ value fail enclosing tested
          htested.1 htested.2
    rw [Pattern.plan]
    refine Ensures.seq ?_ fun _ last hlast => Ensures.pure hlast
    dsimp only
    split
    next => exact Ensures.modify_bind (hboth _ rfl)
    next => exact hboth _ rfl
  | .any own span, before, after, h, value, static, fail, enclosing, planner, hlt, hstands => by
    refine Pattern.stands_of_live h hassigned hlt hstands ?_
    rw [Pattern.plan]
    exact Ensures.bind (Ensures.pure (Ensures.pure ⟨hstands.tabled, fun hlive =>
      Or.inl (hstands.held hlive)⟩))
  | .guarded own patterns condition span, before, after, h, value, static, fail, enclosing, planner,
      hlt, hstands =>
    Pattern.guarded_stands h hassigned (fun fail start last hlast =>
      Pattern.planAll_stands hassigned patterns hlast value static fail start) hlt hstands
  | .missing own, before, after, h, value, static, fail, enclosing, planner, hlt, hstands => by
    rw [Pattern.Recorded] at h
    exact h.elim

theorem Pattern.planAll_stands (hassigned : assigned.contains id = false) :
    ∀ (patterns : List Pattern) {before after : FlowState},
    Pattern.RecordedAll facts.record id patterns before after → ∀ (value : ValueId) (static : Ty)
      (fail : Label) (planner : Planner), fail < planner.stream.labels.size →
    planner.stream.Stands id (.reached assigned) before →
    Ensures (Pattern.planAll facts patterns value static fail) planner (fun _ => True)
      fun _ last => last.stream.Stands id (.reached assigned) after
  | [], before, after, h, value, static, fail, planner, hlt, hstands => by
    rw [Pattern.RecordedAll] at h
    rw [Pattern.planAll, h]
    exact Ensures.pure hstands
  | pattern :: patterns, before, after, h, value, static, fail, planner, hlt, hstands => by
    rw [Pattern.RecordedAll] at h
    obtain ⟨mid, hfirst, hrest⟩ := h
    rw [Pattern.planAll]
    refine Pattern.stands_then hlt ?_ fun next hnext => Pattern.planAll_stands hassigned patterns
      hrest value static fail next hnext
    exact Pattern.plan_stands hassigned pattern hfirst value static fail .nothing planner hlt
      hstands

theorem Pattern.planComponents_stands (hassigned : assigned.contains id = false) :
    ∀ (patterns : List Pattern) {before after : FlowState},
    Pattern.RecordedAll facts.record id patterns before after → ∀ (position : Nat) (types : List Ty)
      (whole : ValueId) (fail : Label) (enclosing : Enclosing) (planner : Planner),
    fail < planner.stream.labels.size → planner.stream.Stands id (.reached assigned) before →
    Ensures (Pattern.planComponents facts patterns position types whole fail enclosing) planner
      (fun _ => True) fun _ last => last.stream.Stands id (.reached assigned) after
  | [], before, after, h, position, types, whole, fail, enclosing, planner, hlt, hstands => by
    rw [Pattern.RecordedAll] at h
    rw [Pattern.planComponents, h]
    exact Ensures.pure hstands
  | pattern :: patterns, before, after, h, position, types, whole, fail, enclosing, planner, hlt,
      hstands => by
    rw [Pattern.RecordedAll] at h
    obtain ⟨mid, hfirst, hrest⟩ := h
    rw [Pattern.planComponents]
    refine newValue_bind (Ensures.modify_bind ?_)
    have hnew : planner.stream.newValue.2.Stands id (.reached assigned) before :=
      hstands.congr rfl rfl rfl le_rfl
    have hprojected : (planner.stream.newValue.2.emit (.project planner.stream.valueCount whole
        position)).Stands id (.reached assigned) before :=
      hnew.emit rfl fun _ hlabel => by cases hlabel
    refine Pattern.stands_then hlt ?_ fun next hnext => Pattern.planComponents_stands hassigned
      patterns hrest (position + 1) types.tail whole fail enclosing next hnext
    exact Pattern.plan_stands hassigned pattern hfirst _ _ fail enclosing _ hlt hprojected

end

end

end GuardedMatch
