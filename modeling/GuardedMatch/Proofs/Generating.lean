import GuardedMatch.Proofs.Emitting
import GuardedMatch.Proofs.Reading

/-!
# Planned code makes the test it is planned for

Planning hands out labels and values as it goes.  What it appends for a pattern or a condition
jumps forward, computes every value once, and makes the test of the pattern or the condition.  This
holds of everything that is planned and in every reading: nothing is asked of the types or of the
analysis, and what stops planning is never a label.

* `Planner.Emits.both`, `Planner.Emits.jump`, `Planner.Emits.place`: what is appended step by step.
* `Pattern.plan_made`, `Expr.plan_made`: what planning appends makes the test.
* `Pattern.plan_emits`, `Expr.plan_emits`: so it plays what happens during the test.
-/

namespace GuardedMatch

open Machine

namespace Stream

/-- The stream was continued by a piece of code that computes each value it computes once and under
a new number.  If it is strict, it jumps only to labels that were handed out. -/
structure Grows (strict : Prop) (base : Label) (stream after : Stream) (piece : List Instr) :
    Prop where
  appends : stream.Appends base after piece
  targets : strict → ∀ instr ∈ piece, ∀ label ∈ instr.target?, label < after.labels.size
  once : (destinations piece).Nodup
  fresh : ∀ dest ∈ destinations piece, stream.valueCount ≤ dest ∧ dest < after.valueCount

namespace Grows

variable {strict : Prop} {base : Label} {stream mid after : Stream} {piece rest : List Instr}

theorem of_appends (h : stream.Appends base after []) :
    Grows strict base stream after [] := ⟨h, fun _ => nofun, .nil, nofun⟩

theorem of_sameCode (h : SameCode stream after) : Grows strict base stream after [] :=
  of_appends (.of_sameCode h)

theorem refl (stream : Stream) : Grows strict base stream stream [] := of_sameCode (.refl stream)

theorem mono {base' : Label} (hle : base ≤ base') (h : Grows strict base' stream after piece) :
    Grows strict base stream after piece := { h with appends := h.appends.mono hle }

theorem trans (h : Grows strict base stream mid piece) (h' : Grows strict base mid after rest) :
    Grows strict base stream after (piece ++ rest) where
  appends := h.appends.trans h'.appends
  targets := by
    intro hstrict instr hinstr label hlabel
    rcases List.mem_append.mp hinstr with hinstr | hinstr
    · exact (h.targets hstrict instr hinstr label hlabel).trans_le h'.appends.labels_le
    · exact h'.targets hstrict instr hinstr label hlabel
  once := by
    rw [destinations_append, List.nodup_append]
    refine ⟨h.once, h'.once, fun dest hdest other hother heq => ?_⟩
    -- The values of the first piece were handed out by the time the second is planned.
    have hlt := (h.fresh dest hdest).2
    have hle := (h'.fresh other hother).1
    exact absurd (heq ▸ hle) hlt.not_ge
  fresh := by
    intro dest hdest
    rw [destinations_append, List.mem_append] at hdest
    rcases hdest with hdest | hdest
    · have hfresh := h.fresh dest hdest
      exact ⟨hfresh.1, hfresh.2.trans_le h'.appends.values_le⟩
    · have hfresh := h'.fresh dest hdest
      exact ⟨h.appends.values_le.trans hfresh.1, hfresh.2⟩

theorem emit (instr : Instr) (hplaced : instr.placed? = none) (hdest : instr.dest? = none)
    (htarget : strict → ∀ label ∈ instr.target?, label < stream.labels.size) :
    Grows strict base stream (stream.emit instr) [instr] := by
  have hnone : destinations [instr] = [] := by
    rw [destinations, List.filterMap_cons_none hdest, List.filterMap_nil]
  refine ⟨.emit hplaced, ?_, ?_, ?_⟩
  · intro hstrict instr' hinstr
    rw [List.mem_singleton.mp hinstr]
    exact htarget hstrict
  · rw [hnone]
    exact .nil
  · rw [hnone]
    exact List.forall_mem_nil _

theorem compute {instr : Instr} (hplaced : instr.placed? = none) (htarget : instr.target? = none)
    (hdest : instr.dest? = some stream.valueCount) :
    Grows strict base stream (stream.newValue.2.emit instr) [instr] := by
  have hone : destinations [instr] = [stream.valueCount] := by
    rw [destinations, List.filterMap_cons_some hdest, List.filterMap_nil]
  refine ⟨.trans .newValue (.emit hplaced), ?_, ?_, ?_⟩
  · intro _ instr' hinstr
    rw [List.mem_singleton.mp hinstr, htarget]
    exact nofun
  · rw [hone]
    exact List.nodup_singleton _
  · intro dest hmem
    rw [hone, List.mem_singleton] at hmem
    rw [hmem]
    exact ⟨le_rfl, Nat.lt_succ_self _⟩

theorem jumpCode {target : Option Label}
    (htarget : strict → ∀ label ∈ target, label < stream.labels.size)
    (h : stream.Appends base after (Machine.jumpCode target)) :
    Grows strict base stream after (Machine.jumpCode target) := by
  cases target with
  | none => exact of_appends h
  | some label =>
    refine ⟨h, ?_, .nil, nofun⟩
    intro hstrict instr hinstr label' hlabel
    rw [Machine.jumpCode, List.mem_singleton] at hinstr
    rw [hinstr] at hlabel
    exact (htarget hstrict label' hlabel).trans_le h.labels_le

theorem placeLabel {label : Label}
    (h : stream.Appends base after [.placeLabel label]) :
    Grows strict base stream after [.placeLabel label] := by
  refine ⟨h, ?_, .nil, nofun⟩
  intro _ instr hinstr
  rw [List.mem_singleton.mp hinstr]
  exact nofun

theorem kept_open {label : Label} (h : Grows strict base stream after piece) (hlt : label < base)
    (hopen : stream.labels[label]? = some false) : after.labels[label]? = some false :=
  h.appends.kept_of_lt hlt hopen

end Grows

end Stream

namespace Planner

/-- What stops planning is not a label. -/
def Orderly (failure : Failure) : Prop :=
  ∀ label, failure ≠ .faulty (.labelPlacedTwice label) ∧ failure ≠ .faulty (.unknownLabel label)

/-- The stream was continued by a piece that makes a test of what a value holds. -/
def Emits {Held Test : Type} [Reading Held Test] (base : Label) (value : ValueId) (held : Held)
    (exits : Exits) (test : Test) (stream after : Stream) : Prop :=
  ∃ piece, stream.Grows (Reading.Strict Test) base after piece ∧
    Reading.Makes base value held exits test piece

/-- What the action appends makes the test. -/
def Performs {α Held Test : Type} [Reading Held Test] (action : PlanM α) (value : ValueId)
    (held : Held) (exits : Exits) (test : Test) (planner : Planner) : Prop :=
  Ensures action planner Orderly fun _ after =>
    Emits planner.stream.labels.size value held exits test planner.stream after.stream

namespace Emits

variable {Held Test : Type} [Reading Held Test] {base bound label : Label} {value dest : ValueId}
  {held : Held} {exits exits' exits'' : Exits} {test test' : Test} {stream mid after : Stream}

theorem mono (h : Emits base value held exits test stream after)
    (hexits : ∀ outcome exit, exits outcome exit → exits' outcome exit) :
    Emits base value held exits' test stream after := by
  obtain ⟨piece, hgrows, hmakes⟩ := h
  exact ⟨piece, hgrows, Reading.mono hmakes hexits⟩

theorem flip (h : Emits base value held exits test stream after) :
    Emits base value held (fun outcome => exits !outcome) (Reading.flip test) stream after := by
  obtain ⟨piece, hgrows, hmakes⟩ := h
  exact ⟨piece, hgrows, Reading.makes_flip hmakes⟩

theorem labels_le (h : Emits base value held exits test stream after) :
    stream.labels.size ≤ after.labels.size := by
  obtain ⟨piece, hgrows, -⟩ := h
  exact hgrows.appends.labels_le

theorem kept_open (h : Emits base value held exits test stream after) (hlt : label < base)
    (hopen : stream.labels[label]? = some false) : after.labels[label]? = some false := by
  obtain ⟨piece, hgrows, -⟩ := h
  exact hgrows.kept_open hlt hopen

/-- A test may use labels and values that are handed out before it. -/
theorem after_new (hnew : stream.Grows (Reading.Strict Test) base mid []) (hle : base ≤ bound)
    (h : Emits bound value held exits test mid after) :
    Emits base value held exits test stream after := by
  obtain ⟨piece, hgrows, hmakes⟩ := h
  exact ⟨piece, hnew.trans (hgrows.mono hle), Reading.mono_base hmakes hle⟩

theorem before_same (h : Emits base value held exits test stream mid) (hsame : mid.SameCode after) :
    Emits base value held exits test stream after := by
  obtain ⟨piece, hgrows, hmakes⟩ := h
  refine ⟨piece, ?_, hmakes⟩
  have hall := hgrows.trans (Stream.Grows.of_sameCode hsame)
  rwa [List.append_nil] at hall

theorem project {component : Nat}
    (hinstr : stream.Grows (Reading.Strict Test) base mid [.project dest value component])
    (hle : base ≤ bound)
    (h : Emits bound dest (Reading.part Test held component) exits test mid after) :
    Emits base value held exits test stream after := by
  obtain ⟨piece, hgrows, hmakes⟩ := h
  exact ⟨_ :: piece, hinstr.trans (hgrows.mono hle),
    Reading.makes_project (Reading.mono_base hmakes hle)⟩

theorem evaluated {id : ExprId}
    (hinstr : stream.Grows (Reading.Strict Test) base mid [.evalOperand dest id])
    (hle : base ≤ bound) (h : Emits bound dest (Reading.found Test id) exits test mid after) :
    Emits base value held exits (Reading.after id test) stream after := by
  obtain ⟨piece, hgrows, hmakes⟩ := h
  exact ⟨_ :: piece, hinstr.trans (hgrows.mono hle),
    Reading.makes_after (Reading.mono_base hmakes hle)⟩

/-- **Two tests in a row**, the second of which is made if the first comes out true. -/
theorem both (h : Emits base value held exits test stream mid)
    (h' : Emits mid.labels.size value held exits' test' mid after) (hle : base ≤ stream.labels.size)
    (htrue : ∀ exit, exits true exit → exit = none)
    (hfalse : ∀ exit, exits false exit → exit ≠ none ∧ exits'' false exit)
    (hsecond : ∀ outcome exit, exits' outcome exit → exits'' outcome exit) :
    Emits base value held exits'' (Reading.both test test') stream after := by
  obtain ⟨piece, hgrows, hmakes⟩ := h
  obtain ⟨rest, hgrows', hmakes'⟩ := h'
  have hbase := hle.trans hgrows.appends.labels_le
  exact ⟨piece ++ rest, hgrows.trans (hgrows'.mono hbase),
    Reading.makes_both hmakes hmakes' hbase hgrows.targets htrue hfalse hsecond⟩

/-- Two tests in a row, the second of which is made if the first comes out false. -/
theorem orElse (h : Emits base value held exits test stream mid)
    (h' : Emits mid.labels.size value held exits' test' mid after) (hle : base ≤ stream.labels.size)
    (hfalse : ∀ exit, exits false exit → exit = none)
    (htrue : ∀ exit, exits true exit → exit ≠ none ∧ exits'' true exit)
    (hsecond : ∀ outcome exit, exits' outcome exit → exits'' outcome exit) :
    Emits base value held exits'' (Reading.orElse test test') stream after := by
  obtain ⟨piece, hgrows, hmakes⟩ := h
  obtain ⟨rest, hgrows', hmakes'⟩ := h'
  have hbase := hle.trans hgrows.appends.labels_le
  exact ⟨piece ++ rest, hgrows.trans (hgrows'.mono hbase),
    Reading.makes_orElse hmakes hmakes' hbase hgrows.targets hfalse htrue hsecond⟩

theorem jump (h : Emits base value held exits test stream mid) {target : Option Label}
    (hjump : mid.Grows (Reading.Strict Test) base after (jumpCode target))
    (hsome : ∃ outcome, exits outcome none)
    (htarget : ∀ outcome, exits outcome none → exits' outcome target)
    (hother : ∀ outcome label, exits outcome (some label) → exits' outcome (some label)) :
    Emits base value held exits' test stream after := by
  obtain ⟨piece, hgrows, hmakes⟩ := h
  exact ⟨_, hgrows.trans hjump, Reading.makes_jump target hmakes hsome htarget hother⟩

/-- **A label of the test is placed at its end.** -/
theorem place (h : Emits bound value held exits test stream mid)
    (hplace : mid.Grows (Reading.Strict Test) base after [.placeLabel label]) (hbase : base ≤ label)
    (hbound : label < bound) (hhere : ∀ outcome, exits outcome none → exits' outcome none)
    (hother : ∀ outcome other, exits outcome (some other) →
      exits' outcome (some other) ∨ other = label ∧ exits' outcome none)
    (hnew : Reading.Strict Test → ∀ outcome, ¬ exits' outcome (some label)) :
    Emits base value held exits' test stream after := by
  obtain ⟨piece, hgrows, hmakes⟩ := h
  exact ⟨_, (hgrows.mono (hbase.trans hbound.le)).trans hplace,
    Reading.makes_place hmakes hbase hbound hhere hother hnew⟩

end Emits

/-! ## Actions -/

section

variable {Held Test : Type} [Reading Held Test] {planner : Planner} {strict : Prop} {base : Label}
  {value : ValueId} {held : Held} {exits : Exits} {facts : Facts}

theorem snapshot_orderly (id : PatternId) :
    Ensures (snapshot facts id) planner Orderly fun _ after => after = planner := by
  rw [snapshot]
  split
  next => exact Ensures.pure rfl
  next => exact Ensures.throw fun _ => ⟨Failure.noConfusion, Failure.noConfusion⟩

theorem newLabel_grows (strict : Prop) (base : Label) :
    Ensures newLabel planner Orderly fun label after => label = planner.stream.labels.size ∧
      planner.stream.Grows strict base after.stream [] ∧
      after.stream.labels[label]? = some false :=
  (newLabel_ensures base).mono fun _ _ h => ⟨h.1, .of_appends h.2.1, h.2.2⟩

theorem jump_grows {target : Option Label}
    (htarget : strict → ∀ label ∈ target, label < planner.stream.labels.size) :
    Ensures (jump target) planner Orderly fun _ after =>
      planner.stream.Grows strict base after.stream (jumpCode target) :=
  (jump_ensures target).mono fun _ _ h => .jumpCode htarget h

/-- Where the outcome is known, a jump makes the test. -/
theorem jump_emits {target : Option Label} {outcome : Bool}
    (htarget : Reading.Strict Test → ∀ label ∈ target, label < planner.stream.labels.size)
    (hexit : exits outcome target) :
    Ensures (jump target) planner Orderly fun _ after =>
      Emits base value held exits (Reading.known outcome : Test) planner.stream after.stream :=
  (jump_grows htarget).mono fun _ _ hgrows => ⟨_, hgrows, Reading.makes_known hexit⟩

theorem nothing_emits {outcome : Bool} (hexit : exits outcome none) :
    Ensures (pure () : PlanM Unit) planner Orderly fun _ after =>
      Emits base value held exits (Reading.known outcome : Test) planner.stream after.stream := by
  have hjump : Ensures (jump none) planner Orderly fun _ after =>
      Emits base value held exits (Reading.known outcome : Test) planner.stream after.stream :=
    jump_emits (fun _ label hlabel => by cases hlabel) hexit
  exact hjump

theorem place_grows {label : Label} (hbase : base ≤ label)
    (hopen : planner.stream.labels[label]? = some false) :
    Ensures (place label) planner Orderly fun _ after =>
      planner.stream.Grows strict base after.stream [.placeLabel label] :=
  (place_ensures hbase hopen).mono fun _ _ h => .placeLabel h

/-- A value is computed before a test. -/
theorem compute_emits {α : Type} {bad : Failure → Prop} {post : α → Planner → Prop} (strict : Prop)
    (base : Label) (instr : ValueId → Instr) {next : ValueId → PlanM α}
    (hplaced : ∀ value, (instr value).placed? = none)
    (htarget : ∀ value, (instr value).target? = none)
    (hdest : ∀ value, (instr value).dest? = some value)
    (hnext : ∀ (value : ValueId) (mid : Planner), planner.stream.Grows strict base mid.stream
      [instr value] → Ensures (next value) mid bad post) :
    Ensures (do
      let value ← newValue
      emit (instr value)
      next value) planner bad post := by
  refine Ensures.bind ?_
  show Ensures _ _ bad post
  refine Ensures.modify_bind ?_
  exact hnext _ _ (.compute (hplaced _) (htarget _) (hdest _))

theorem testType_emits {id : PatternId} {static : Ty} {fail : Label}
    (hfail : Reading.Strict Test → fail < planner.stream.labels.size) :
    Ensures (testType facts id value static fail) planner Orderly fun _ after =>
      Emits base value held (Targets.Exits ⟨none, some fail⟩ none)
        (Reading.probe facts id static held : Test) planner.stream after.stream := by
  have htest : testType facts id value static fail = (if facts.leavesOpen id static then
      emit (.testType value (facts.table.patternType id) fail) else return ()) := rfl
  rw [htest]
  split
  next hopen =>
    refine Ensures.modifies ⟨_, .emit _ rfl rfl ?_, Reading.makes_probe hopen⟩
    intro hstrict label hlabel
    cases hlabel
    exact hfail hstrict
  next hsettled =>
    rw [Bool.not_eq_true] at hsettled
    exact Ensures.pure ⟨[], .refl _, Reading.makes_settled hsettled⟩

theorem store_emits {binds : Option LocalId} {fail : Option Label} :
    Ensures (store binds value) planner Orderly fun _ after =>
      Emits base value held (Targets.Exits ⟨none, fail⟩ none) (Reading.stored binds : Test)
        planner.stream after.stream := by
  cases binds with
  | none => exact Ensures.pure ⟨[], .refl _, Reading.makes_unbound⟩
  | some id =>
    refine (require_ensures fun fault hfault => ?_).seq fun _ after hafter => ?_
    · rw [Stream.declareFault?] at hfault
      split at hfault <;> cases hfault
      intro label
      constructor <;> (intro h; cases h)
    · rw [hafter]
      refine Ensures.modifies ⟨_, ⟨.store, fun _ => ?_, .nil, List.forall_mem_nil _⟩,
        Reading.makes_stored⟩
      simp [Instr.target?]

theorem branch_grows {targets : Targets} {fallthrough : Option Label}
    (hin : strict → targets.Within fallthrough planner.stream.labels.size) :
    Ensures (branch value targets) planner Orderly fun _ after =>
      planner.stream.Grows strict base after.stream (branchCode value targets) := by
  obtain ⟨onTrue, onFalse⟩ := targets
  have htrue : strict → ∀ label ∈ onTrue, label < planner.stream.labels.size :=
    fun hstrict label hlabel => hin hstrict true label (Or.inl hlabel.symm)
  have hfalse : strict → ∀ label ∈ onFalse, label < planner.stream.labels.size :=
    fun hstrict label hlabel => hin hstrict false label (Or.inl hlabel.symm)
  match onTrue, onFalse with
  | some t, some f =>
    have hcode : planner.stream.Grows strict base _ ([.branchIf value true t] ++ [.goto f]) :=
      (Stream.Grows.emit (.branchIf value true t) rfl rfl htrue).trans (.emit _ rfl rfl hfalse)
    exact Ensures.modify_bind (Ensures.modifies hcode)
  | some t, none => exact Ensures.modifies (.emit _ rfl rfl htrue)
  | none, some f => exact Ensures.modifies (.emit _ rfl rfl hfalse)
  | none, none => exact Ensures.pure (.refl _)

end

/-! ## Tests put together -/

section

variable {Held Test : Type} [Reading Held Test] {planner : Planner} {base bound : Label}
  {value : ValueId} {held : Held} {exits exits' exits'' : Exits} {test test' : Test}
  {stream : Stream} {facts : Facts}

/-- A test may go on with a jump. -/
theorem Emits.jumps (h : Emits base value held exits test stream planner.stream)
    {target : Option Label}
    (hin : Reading.Strict Test → ∀ label ∈ target, label < planner.stream.labels.size)
    (hsome : ∃ outcome, exits outcome none)
    (htarget : ∀ outcome, exits outcome none → exits' outcome target)
    (hother : ∀ outcome label, exits outcome (some label) → exits' outcome (some label)) :
    Ensures (Planner.jump target) planner Orderly fun _ after =>
      Emits base value held exits' test stream after.stream :=
  (jump_grows hin).mono fun _ _ hjump => h.jump hjump hsome htarget hother

/-- What goes on after success may jump instead, wherever it fails to. -/
theorem Emits.jumps_success {fail : Label} {onTrue : Option Label}
    (h : Emits base value held (Targets.Exits ⟨none, some fail⟩ none) test stream planner.stream)
    (hin : Reading.Strict Test → ∀ label ∈ onTrue, label < planner.stream.labels.size) :
    Ensures (Planner.jump onTrue) planner Orderly fun _ after =>
      Emits base value held (Targets.Exits ⟨onTrue, some fail⟩ none) test stream after.stream := by
  refine h.jumps hin ⟨true, Or.inl rfl⟩ (fun outcome hexit => ?_) fun outcome label hexit => ?_
  · cases outcome with
    | true => exact Or.inl rfl
    | false => cases Targets.exits_none.mp hexit
  · cases outcome with
    | true => cases Targets.exits_none.mp hexit
    | false => exact Or.inl (Targets.exits_none.mp hexit)

/-- A label for failure is one to which only failure jumps. -/
theorem Emits.also_failure {fail : Label} {onTrue : Option Label}
    (h : Emits base value held (Targets.Exits ⟨onTrue, some fail⟩ none) test stream after) :
    Emits base value held ((Targets.Exits ⟨onTrue, none⟩ none).also false fail) test stream
      after := by
  refine h.mono fun outcome exit hexit => ?_
  have heq := Targets.exits_none.mp hexit
  cases outcome with
  | true => exact Or.inl (Or.inl heq)
  | false => exact Or.inr ⟨rfl, heq⟩

/-- A label to which only the test has jumped, after one of the outcomes, is placed at its end. -/
theorem Emits.places {outcome : Bool} {label : Label}
    (h : Emits bound value held (exits.also outcome label) test stream planner.stream)
    (hopen : stream.labels[label]? = some false) (hbase : base ≤ label) (hbound : label < bound)
    (hexit : exits outcome none)
    (hnew : Reading.Strict Test → ∀ outcome', ¬ exits outcome' (some label)) :
    Ensures (Planner.place label) planner Orderly fun _ after =>
      Emits base value held exits test stream after.stream := by
  refine (place_grows hbase (h.kept_open hbound hopen)).mono fun _ after hplace =>
    h.place hplace hbase hbound ?_ ?_ hnew
  · rintro outcome' (hnone | ⟨-, hnone⟩)
    · exact hnone
    · cases hnone
  · rintro outcome' other (hother | ⟨rfl, hlabel⟩)
    · exact Or.inl hother
    · exact Or.inr ⟨Option.some.inj hlabel, hexit⟩

/-- After one outcome the test jumps to a new label, which is placed at its end. -/
theorem newLabel_emits (outcome : Bool) {action : Label → PlanM Unit}
    (hin : Reading.Strict Test → ∀ outcome label, exits outcome (some label) →
      label < planner.stream.labels.size)
    (hexit : exits outcome none)
    (haction : ∀ (label : Label) (start : Planner),
      planner.stream.labels.size ≤ start.stream.labels.size → label < start.stream.labels.size →
      Performs (action label) value held (exits.also outcome label) test start) :
    Performs (do
      let label ← newLabel
      action label
      place label) value held exits test planner := by
  refine (newLabel_grows (Reading.Strict Test) planner.stream.labels.size).seq ?_
  rintro label start ⟨hlabel, hnew, hopen⟩
  have hlt : label < start.stream.labels.size := (Array.getElem?_eq_some_iff.mp hopen).1
  refine (haction label start hnew.appends.labels_le hlt).seq fun _ last h => ?_
  refine (h.places hopen hlabel.ge hlt hexit fun hstrict outcome hexit => ?_).mono
    fun _ after h => h.after_new hnew le_rfl
  exact absurd (hin hstrict outcome label hexit) hlabel.ge.not_gt

theorem both_emits {action next : PlanM Unit} {fail : Label}
    (haction : Performs action value held (Targets.Exits ⟨none, some fail⟩ none) test planner)
    (hnext : ∀ mid : Planner, planner.stream.labels.size ≤ mid.stream.labels.size →
      Performs next value held exits test' mid)
    (hexits : ∀ outcome exit, exits outcome exit → exits'' outcome exit)
    (hfail : exits'' false (some fail)) :
    Ensures (action >>= fun _ => next) planner Orderly fun _ after =>
      Emits planner.stream.labels.size value held exits'' (Reading.both test test') planner.stream
        after.stream := by
  refine haction.seq fun _ mid h => ?_
  refine (hnext mid h.labels_le).mono fun _ after h' => ?_
  refine h.both h' le_rfl (fun exit hexit => Targets.exits_none.mp hexit) (fun exit hexit => ?_)
    hexits
  rw [Targets.exits_none.mp hexit]
  exact ⟨nofun, hfail⟩

/-- Two tests in a row succeed to one label. -/
theorem orElse_emits {action next : PlanM Unit} {success : Label}
    (haction : Performs action value held (Targets.Exits ⟨some success, none⟩ none) test planner)
    (hnext : ∀ mid : Planner, planner.stream.labels.size ≤ mid.stream.labels.size →
      Performs next value held exits test' mid)
    (hexits : ∀ outcome exit, exits outcome exit → exits'' outcome exit)
    (hsuccess : exits'' true (some success)) :
    Ensures (action >>= fun _ => next) planner Orderly fun _ after =>
      Emits planner.stream.labels.size value held exits'' (Reading.orElse test test') planner.stream
        after.stream := by
  refine haction.seq fun _ mid h => ?_
  refine (hnext mid h.labels_le).mono fun _ after h' => ?_
  refine h.orElse h' le_rfl (fun exit hexit => Targets.exits_none.mp hexit) (fun exit hexit => ?_)
    hexits
  rw [Targets.exits_none.mp hexit]
  exact ⟨nofun, hsuccess⟩

theorem withFailure_emits {targets : Targets} {enclosing : Enclosing} {action : Label → PlanM Unit}
    (hin : Reading.Strict Test → targets.Within enclosing.fallthrough planner.stream.labels.size)
    (htest : ∀ (fail : Label) (mid : Planner),
      (Reading.Strict Test → fail < mid.stream.labels.size) →
      Performs (action fail) value held (Targets.Exits ⟨none, some fail⟩ none) test mid) :
    Performs (withFailure targets enclosing action) value held
      (targets.Exits enclosing.fallthrough) test planner := by
  obtain ⟨onTrue, onFalse⟩ := targets
  have htrue : Reading.Strict Test → ∀ label ∈ onTrue, label < planner.stream.labels.size :=
    fun hstrict label hlabel => hin hstrict true label (Or.inl hlabel.symm)
  have hlater : ∀ later : Stream, planner.stream.labels.size ≤ later.labels.size →
      Reading.Strict Test → ∀ label ∈ onTrue, label < later.labels.size :=
    fun _ hle hstrict label hlabel => (htrue hstrict label hlabel).trans_le hle
  have hsome : ∀ fail, Targets.Exits ⟨onTrue, onFalse⟩ enclosing.fallthrough false (some fail) →
      Performs (action fail >>= fun _ => jump onTrue) value held
        (Targets.Exits ⟨onTrue, onFalse⟩ enclosing.fallthrough) test planner := by
    intro fail hfail
    refine (htest fail planner fun hstrict => hin hstrict false fail hfail).seq fun _ mid h => ?_
    refine (h.jumps_success (hlater _ h.labels_le)).mono fun _ after h => h.mono ?_
    intro outcome exit hexit
    rw [Targets.exits_none.mp hexit]
    cases outcome with
    | true => exact Or.inl rfl
    | false => exact hfail
  rw [withFailure]
  cases onFalse with
  | some fail => exact hsome fail (Or.inl rfl)
  | none =>
    rw [Option.none_or]
    cases hfall : enclosing.fallthrough with
    | some fail =>
      rw [hfall] at hsome
      exact hsome fail (Or.inr ⟨rfl, rfl, rfl⟩)
    | none =>
      rw [hfall] at hin
      have hplaced := newLabel_emits false hin (Or.inl rfl) fun fail start hle hlt =>
        (htest fail start fun _ => hlt).seq fun _ mid h =>
          (h.jumps_success (hlater _ (hle.trans h.labels_le))).mono fun _ _ h => h.also_failure
      simp only [bind_assoc] at hplaced
      exact hplaced

end

/-! ## Bringing ranges into line -/

theorem align_sameCode {facts : Facts} {planner : Planner} {id : PatternId}
    {step : Snapshot → Stream → Stream}
    (hstep : ∀ states stream, Stream.SameCode stream (step states stream)) :
    Ensures (snapshot facts id >>= fun states => change (step states)) planner Orderly
      fun _ after => planner.stream.SameCode after.stream := by
  refine (snapshot_orderly id).seq ?_
  rintro states _ rfl
  exact Ensures.modifies (hstep states _)

end Planner

open Planner

variable {facts : Facts}

theorem Pattern.suspend_sameCode : ∀ (pattern : Pattern) (planner : Planner),
    Ensures (pattern.suspend facts) planner Orderly fun _ after =>
      planner.stream.SameCode after.stream := by
  intro pattern
  fun_induction Pattern.suspend facts pattern with
  | case1 id first rest condition span ih =>
    intro planner
    refine (snapshot_orderly id).seq ?_
    rintro states _ rfl
    refine Ensures.modify_bind ?_
    exact (ih _).mono fun _ _ h => (Stream.SameCode.closeUnassigned ..).trans h
  | case2 pattern _ => exact fun planner => align_sameCode fun _ _ => .closeUnassigned ..

theorem Pattern.resume_sameCode : ∀ (pattern : Pattern) (planner : Planner),
    Ensures (pattern.resume facts) planner Orderly fun _ after =>
      planner.stream.SameCode after.stream := by
  intro pattern
  fun_induction Pattern.resume facts pattern with
  | case1 id first rest condition span ih =>
    intro planner
    refine (snapshot_orderly id).seq ?_
    rintro states _ rfl
    refine Ensures.modify_bind ?_
    exact (ih _).mono fun _ _ h => (Stream.SameCode.openAssigned ..).trans h
  | case2 pattern _ => exact fun planner => align_sameCode fun _ _ => .openAssigned ..

/-! ## Guarded patterns -/

/-- Whatever is planned for the condition makes its test. -/
def Expr.Made (Test : Type) {Held : Type} [Reading Held Test] (facts : Facts) (expr : Expr) :
    Prop :=
  ∀ (value : ValueId) (held : Held) (targets : Targets) (enclosing : Enclosing)
    (planner : Planner),
    (Reading.Strict Test → targets.Within enclosing.fallthrough planner.stream.labels.size) →
    Performs (expr.plan facts targets enclosing) value held (targets.Exits enclosing.fallthrough)
      (expr.test facts : Test) planner

section

variable {Held Test : Type} [Reading Held Test] {planner : Planner} {base bound elseLabel : Label}
  {value : ValueId} {held : Held} {test : Test} {old stream : Stream}

theorem Pattern.gather_emits {pattern : Pattern} {success : Label} {onFalse : Option Label}
    {next : PlanM Unit} {post : Unit → Planner → Prop}
    (h : Emits bound value held ((Targets.Exits ⟨some success, none⟩ none).also false elseLabel)
      test stream planner.stream)
    (hopen : stream.labels[elseLabel]? = some false) (hbase : base ≤ elseLabel)
    (hbound : elseLabel < bound) (hne : Reading.Strict Test → success ≠ elseLabel)
    (hin : Reading.Strict Test → ∀ label ∈ onFalse, label < stream.labels.size)
    (hnext : ∀ after : Planner, Emits base value held (Targets.Exits ⟨some success, onFalse⟩ none)
      test stream after.stream → Ensures next after Orderly post) :
    Ensures (do
      place elseLabel
      pattern.suspend facts
      jump onFalse
      next) planner Orderly post := by
  have hplace : Ensures (place elseLabel) planner Orderly fun _ after =>
      Emits base value held (Targets.Exits ⟨some success, none⟩ none) test stream after.stream := by
    refine h.places hopen hbase hbound (Or.inl rfl) fun hstrict outcome hexit => ?_
    have heq := Targets.exits_none.mp hexit
    cases outcome with
    | true => exact hne hstrict (Option.some.inj heq).symm
    | false => cases heq
  refine hplace.seq fun _ placed hplaced => ?_
  refine (pattern.suspend_sameCode placed).seq fun _ mid hsame => ?_
  have hmid := hplaced.before_same hsame
  refine Ensures.seq ?_ fun _ after hafter => hnext after hafter
  refine hmid.jumps (fun hstrict label hlabel => (hin hstrict label hlabel).trans_le hmid.labels_le)
    ⟨false, Or.inl rfl⟩ (fun outcome hexit => ?_) fun outcome label hexit => ?_
  · have heq := Targets.exits_none.mp hexit
    cases outcome with
    | true => cases heq
    | false => exact Or.inl rfl
  · have heq := Targets.exits_none.mp hexit
    cases outcome with
    | true => exact Or.inl heq
    | false => cases heq

theorem Pattern.afterSome_emits (facts : Facts) (pattern : Pattern) (id : PatternId)
    (states : Snapshot) {success : Label} {onFalse fallthrough : Option Label}
    (hnew : old.Grows (Reading.Strict Test) base stream [])
    (h : Emits bound value held ((Targets.Exits ⟨some success, none⟩ none).also false elseLabel)
      test stream planner.stream)
    (hopen : stream.labels[elseLabel]? = some false) (hbase : base ≤ elseLabel)
    (hbound : elseLabel < bound)
    (hin : Reading.Strict Test → Targets.Within ⟨some success, onFalse⟩ fallthrough base) :
    Ensures (do
        change (·.closeUnassigned facts.record.states states.resume)
        change (·.openAssigned facts.record.states states.resume)
        place elseLabel
        pattern.suspend facts
        jump onFalse
        setPhase id .emitted) planner Orderly fun _ after =>
      Emits base value held (Targets.Exits ⟨some success, onFalse⟩ fallthrough) test old
        after.stream := by
  have hlt : elseLabel < stream.labels.size := (Array.getElem?_eq_some_iff.mp hopen).1
  refine Ensures.modify_bind (Ensures.modify_bind ?_)
  refine gather_emits (h.before_same ((Stream.SameCode.closeUnassigned ..).trans
    (.openAssigned ..))) hopen hbase hbound (fun hstrict => ?_) (fun hstrict label hlabel => ?_) ?_
  · exact ((hin hstrict true success (Or.inl rfl)).trans_le hbase).ne
  · exact (hin hstrict false label (Or.inl hlabel.symm)).trans (hbase.trans_lt hlt)
  · intro after hafter
    refine Ensures.modifies (.after_new hnew le_rfl (hafter.mono fun outcome exit hexit => ?_))
    exact Or.inl (Targets.exits_none.mp hexit)

/-- What follows the condition of a guard without a true target: on success, the gathered failures
are skipped. -/
theorem Pattern.afterNone_emits (facts : Facts) (pattern : Pattern) (id : PatternId)
    (states : Snapshot) {thenLabel : Label} {onFalse fallthrough : Option Label}
    (hnew : old.Grows (Reading.Strict Test) base stream [])
    (h : Emits bound value held (Targets.Exits ⟨none, some elseLabel⟩ none) test stream
      planner.stream)
    (hthen : stream.labels[thenLabel]? = some false) (hbase : base ≤ thenLabel)
    (helse : stream.labels[elseLabel]? = some false) (hlt : thenLabel < elseLabel)
    (hbound : elseLabel < bound)
    (hin : Reading.Strict Test → Targets.Within ⟨none, onFalse⟩ fallthrough base) :
    Ensures (do
        change (·.closeUnassigned facts.record.states states.resume)
        change (·.openAssigned facts.record.states states.resume)
        emit (.goto thenLabel)
        place elseLabel
        pattern.suspend facts
        jump onFalse
        place thenLabel
        pattern.resume facts
        setPhase id .emitted) planner Orderly fun _ after =>
      Emits base value held (Targets.Exits ⟨none, onFalse⟩ fallthrough) test old after.stream := by
  have hthenLt : thenLabel < stream.labels.size := (Array.getElem?_eq_some_iff.mp hthen).1
  have hfalse : Reading.Strict Test → ∀ label ∈ onFalse, label < base :=
    fun hstrict label hlabel => hin hstrict false label (Or.inl hlabel.symm)
  refine Ensures.modify_bind (Ensures.modify_bind ?_)
  have hsame := h.before_same ((Stream.SameCode.closeUnassigned planner.stream facts.record.states
    states.resume).trans (.openAssigned _ facts.record.states states.resume))
  have hgoto : ∀ aligned : Planner,
      Emits bound value held (Targets.Exits ⟨none, some elseLabel⟩ none) test stream
        aligned.stream →
      Ensures (jump (some thenLabel)) aligned Orderly fun _ after => Emits bound value held
        (Targets.Exits ⟨some thenLabel, some elseLabel⟩ none) test stream after.stream :=
    fun aligned haligned => haligned.jumps_success fun _ label hlabel =>
      Option.some.inj hlabel ▸ hthenLt.trans_le haligned.labels_le
  refine (hgoto _ hsame).seq fun _ jumped hjumped => ?_
  -- The then label comes before the else label, so it still is open when that one is placed.
  refine gather_emits hjumped.also_failure helse hlt hbound (fun _ => hlt.ne)
    (fun hstrict label hlabel => ?_) fun gathered hgathered => ?_
  · exact (hfalse hstrict label hlabel).trans (hbase.trans_lt hthenLt)
  have halso : Emits (thenLabel + 1) value held
      ((Targets.Exits ⟨none, onFalse⟩ fallthrough).also true thenLabel) test stream
      gathered.stream := by
    refine hgathered.mono fun outcome exit hexit => ?_
    have heq := Targets.exits_none.mp hexit
    cases outcome with
    | true => exact Or.inr ⟨rfl, heq⟩
    | false => exact Or.inl (Or.inl heq)
  have hplace := halso.places hthen hbase (Nat.lt_succ_self _) (Or.inl rfl)
    fun hstrict outcome hexit => absurd (hin hstrict outcome thenLabel hexit) hbase.not_gt
  refine hplace.seq fun _ placed hplaced => ?_
  refine (pattern.resume_sameCode placed).seq fun _ last hlast => ?_
  exact Ensures.modifies (.after_new hnew le_rfl (hplaced.before_same hlast))

/-- The test of the condition of a guard is made by its evaluation, or by a jump if it is a constant
that is skipped. -/
theorem Expr.decide_emits {condition : Expr} {onTrue : Option Label} {evaluate : PlanM Unit}
    {exits : Exits} {next : PlanM Unit} {post : Test → Unit → Planner → Prop}
    (hin : Reading.Strict Test → ∀ label ∈ onTrue, label < planner.stream.labels.size)
    (helse : elseLabel < planner.stream.labels.size) (htrue : exits true onTrue)
    (hfalse : exits false (some elseLabel))
    (hevaluate : Performs evaluate value held exits (condition.test facts : Test) planner)
    (hnext : ∀ (test : Test) (last : Planner),
      Emits planner.stream.labels.size value held exits test planner.stream last.stream →
      Ensures next last Orderly (post test)) :
    Ensures (match condition.skippable with
      | some true => jump onTrue >>= fun _ => next
      | some false => emit (.goto elseLabel) >>= fun _ => next
      | none => evaluate >>= fun _ => next) planner Orderly (post (match condition.skippable with
      | some outcome => Reading.known outcome
      | none => condition.test facts)) := by
  cases condition.skippable with
  | some skip =>
    cases skip with
    | true => exact (jump_emits hin htrue).seq fun _ => hnext _
    | false =>
      have hgoto : ∀ label ∈ some elseLabel, label < planner.stream.labels.size :=
        fun label hlabel => Option.some.inj hlabel ▸ helse
      exact (jump_emits (fun _ => hgoto) hfalse).seq fun _ => hnext _
  | none => exact hevaluate.seq fun _ => hnext _

end

theorem Pattern.guarded_emits {Held Test : Type} [Reading Held Test] {id : PatternId}
    {patterns : List Pattern} {condition : Expr} {span : Span} {value : ValueId} {held : Held}
    {static : Ty} {planner : Planner}
    (hall : ∀ (fail : Label) (start : Planner),
      (Reading.Strict Test → fail < start.stream.labels.size) →
      Performs (Pattern.planAll facts patterns value static fail) value held
        (Targets.Exits ⟨none, some fail⟩ none) (Pattern.testAll facts patterns static held : Test)
        start)
    (hcondition : condition.Made Test facts) {targets : Targets} {enclosing : Enclosing}
    (hin : Reading.Strict Test →
      targets.Within enclosing.fallthrough planner.stream.labels.size) :
    Performs
      ((Pattern.guarded id patterns condition span).plan facts value static targets enclosing)
      value held (targets.Exits enclosing.fallthrough)
      ((Pattern.guarded id patterns condition span).test facts static held : Test) planner := by
  rw [Pattern.plan, Pattern.test]
  refine (snapshot_orderly id).seq ?_
  intro states same hsame
  rw [hsame]
  refine (newLabel_grows (Reading.Strict Test) planner.stream.labels.size).seq ?_
  rintro thenLabel first ⟨hthen, hfirst, hthenOpen⟩
  refine (newLabel_grows (Reading.Strict Test) planner.stream.labels.size).seq ?_
  rintro elseLabel second ⟨helse, hsecond, helseOpen⟩
  refine setPhase_ensures.seq fun _ phased hphased => ?_
  refine noteGuard_ensures.seq fun _ start hstart => ?_
  rw [← hphased, ← hstart] at hsecond helseOpen
  have hnew := hfirst.trans hsecond
  have hthenLt : thenLabel < first.stream.labels.size := (Array.getElem?_eq_some_iff.mp hthenOpen).1
  have helseLt : elseLabel < start.stream.labels.size := (Array.getElem?_eq_some_iff.mp helseOpen).1
  have hlt : thenLabel < elseLabel := hthenLt.trans_le helse.ge
  have hbase : planner.stream.labels.size ≤ elseLabel := hthen.ge.trans hlt.le
  have hthenStart : start.stream.labels[thenLabel]? = some false := by
    rw [hsecond.appends.kept thenLabel hthenLt List.not_mem_nil, hthenOpen]
  refine (hall elseLabel start fun _ => helseLt).seq fun _ mid htest => ?_
  have helseMid : elseLabel < mid.stream.labels.size := helseLt.trans_le htest.labels_le
  have hmid : Reading.Strict Test →
      targets.Within enclosing.fallthrough mid.stream.labels.size := fun hstrict =>
    (hin hstrict).mono (hnew.appends.labels_le.trans htest.labels_le)
  -- A false condition and failing sub-patterns lead to the same place.
  have hboth : ∀ {exits : Exits} {test : Test} {last : Planner},
      exits false (some elseLabel) →
      Emits mid.stream.labels.size value held exits test mid.stream last.stream →
      Emits start.stream.labels.size value held exits
        (Reading.both (Pattern.testAll facts patterns static held) test) start.stream
        last.stream := by
    intro exits test last helse h
    refine htest.both h le_rfl (fun exit hexit => Targets.exits_none.mp hexit)
      (fun exit hexit => ?_) fun _ _ h => h
    rw [Targets.exits_none.mp hexit]
    exact ⟨nofun, helse⟩
  obtain ⟨onTrue, onFalse⟩ := targets
  have htrue : Reading.Strict Test → ∀ label ∈ onTrue, label < mid.stream.labels.size :=
    fun hstrict label hlabel => hmid hstrict true label (Or.inl hlabel.symm)
  cases onTrue with
  | some success =>
    have hfalse : (Targets.Exits ⟨some success, none⟩ none).also false elseLabel false
        (some elseLabel) := Or.inr ⟨rfl, rfl⟩
    have hwithin : Reading.Strict Test →
        Targets.Within ⟨some success, none⟩ (some elseLabel) mid.stream.labels.size :=
      fun hstrict => .of_success (htrue hstrict success rfl) fun label hlabel =>
        Option.some.inj hlabel ▸ helseMid
    have hexits : ∀ outcome exit, Targets.Exits ⟨some success, none⟩ (some elseLabel) outcome exit →
        (Targets.Exits ⟨some success, none⟩ none).also false elseLabel outcome exit := by
      rintro outcome exit (hexit | ⟨hfalse, -, hexit⟩)
      · exact Or.inl (Or.inl hexit)
      · exact Or.inr ⟨hfalse, hexit⟩
    have hevaluate := hcondition value held ⟨some success, none⟩ ⟨some elseLabel, some elseLabel⟩
      mid hwithin
    have hplan := Expr.decide_emits htrue helseMid (Or.inl (Or.inl rfl)) hfalse
      (hevaluate.mono fun _ _ h => h.mono hexits) fun test last h =>
        Pattern.afterSome_emits facts (.guarded id patterns condition span) id states hnew
          (hboth hfalse h) helseOpen hbase helseLt hin
    exact hplan
  | none =>
    have hfalse : Targets.Exits ⟨none, some elseLabel⟩ none false (some elseLabel) := Or.inl rfl
    have hevaluate := hcondition value held ⟨none, some elseLabel⟩ ⟨some elseLabel, none⟩ mid
      fun _ => .of_fail helseMid
    have hplan := Expr.decide_emits htrue helseMid (Or.inl rfl) hfalse hevaluate
      fun test last h => Pattern.afterNone_emits facts (.guarded id patterns condition span) id
        states hnew (hboth hfalse h) hthenStart hthen.ge helseOpen hlt helseLt hin
    exact hplan

/-! ## Logical operators -/

theorem Expr.plan_operand {expr : Expr} (h : expr.IsOperand) (targets : Targets)
    (enclosing : Enclosing) : expr.plan facts targets enclosing = (do
      let value ← newValue
      emit (.evalOperand value expr.id)
      branch value targets) := by
  rw [Expr.plan.eq_def]
  split <;> first | cases h | rfl

section

variable {Held Test : Type} [Reading Held Test] {left right : Expr} {id : ExprId} {span : Span}

theorem Expr.operand_made {expr : Expr} (hoperand : expr.IsOperand) : expr.Made Test facts := by
  intro value held targets enclosing planner hin
  rw [Expr.plan_operand hoperand, Expr.test_operand hoperand]
  refine compute_emits (Reading.Strict Test) planner.stream.labels.size (.evalOperand · expr.id)
    (fun _ => rfl) (fun _ => rfl) (fun _ => rfl) ?_
  intro dest mid hgrows
  exact (branch_grows fun hstrict => (hin hstrict).mono hgrows.appends.labels_le).mono
    fun _ after h => ⟨_, hgrows.trans h, Reading.makes_operand targets enclosing.fallthrough⟩

theorem Expr.and_made (hleft : left.Made Test facts) (hright : right.Made Test facts) :
    (Expr.binary id .and left right span).Made Test facts := by
  intro value held targets enclosing planner hin
  obtain ⟨onTrue, onFalse⟩ := targets
  rw [Expr.plan, Expr.test]
  cases left.skippable with
  | some skip =>
    cases skip with
    | true => exact hright value held ⟨onTrue, onFalse⟩ enclosing planner hin
    | false =>
      exact jump_emits (fun hstrict label hlabel => hin hstrict false label (Or.inl hlabel.symm))
        (Or.inl rfl)
  | none =>
    dsimp only
    cases onFalse with
    | some fail =>
      exact both_emits (hleft value held ⟨none, some fail⟩ enclosing.withoutFallthrough planner
        fun hstrict => .of_fail (hin hstrict false fail (Or.inl rfl)))
        (fun mid hle => hright value held ⟨onTrue, some fail⟩ enclosing mid fun hstrict =>
          (hin hstrict).mono hle) (fun _ _ h => h) (Or.inl rfl)
    | none =>
      -- Until the label is placed, a failure may also go there.
      have hboth := newLabel_emits false hin (Or.inl rfl) fun fail start hle hlt =>
        both_emits (hleft value held ⟨none, some fail⟩ enclosing.withoutFallthrough start
          fun _ => .of_fail hlt)
        (fun mid hle' => hright value held ⟨onTrue, none⟩ enclosing mid fun hstrict =>
          (hin hstrict).mono (hle.trans hle')) (fun _ _ => Or.inl) (Or.inr ⟨rfl, rfl⟩)
      simp only [bind_assoc] at hboth
      exact hboth

theorem Expr.or_made (hleft : left.Made Test facts) (hright : right.Made Test facts) :
    (Expr.binary id .or left right span).Made Test facts := by
  intro value held targets enclosing planner hin
  obtain ⟨onTrue, onFalse⟩ := targets
  rw [Expr.plan, Expr.test]
  cases left.skippable with
  | some skip =>
    cases skip with
    | false => exact hright value held ⟨onTrue, onFalse⟩ enclosing planner hin
    | true =>
      exact jump_emits (fun hstrict label hlabel => hin hstrict true label (Or.inl hlabel.symm))
        (Or.inl rfl)
  | none =>
    dsimp only
    cases onTrue with
    | some success =>
      exact orElse_emits (hleft value held ⟨some success, none⟩ enclosing.withoutFallthrough planner
        fun hstrict => .of_success (hin hstrict true success (Or.inl rfl))
          (fun _ hlabel => by cases hlabel))
        (fun mid hle => hright value held ⟨some success, onFalse⟩ enclosing mid fun hstrict =>
          (hin hstrict).mono hle) (fun _ _ h => h) (Or.inl rfl)
    | none =>
      have hboth := newLabel_emits true hin (Or.inl rfl) fun success start hle hlt =>
        orElse_emits (hleft value held ⟨some success, none⟩ enclosing.withoutFallthrough start
          fun _ => .of_success hlt (fun _ hlabel => by cases hlabel))
        (fun mid hle' => hright value held ⟨none, onFalse⟩ enclosing mid fun hstrict =>
          (hin hstrict).mono (hle.trans hle')) (fun _ _ => Or.inl) (Or.inr ⟨rfl, rfl⟩)
      simp only [bind_assoc] at hboth
      exact hboth

end

/-! ## Patterns and conditions -/

section

variable {Held Test : Type} [Reading Held Test]

mutual

/-- **The code planned for a pattern makes its test.** -/
theorem Pattern.plan_made : ∀ (pattern : Pattern) (value : ValueId) (held : Held) (static : Ty)
    (targets : Targets) (enclosing : Enclosing) (planner : Planner),
    (Reading.Strict Test → targets.Within enclosing.fallthrough planner.stream.labels.size) →
    Performs (pattern.plan facts value static targets enclosing) value held
      (targets.Exits enclosing.fallthrough) (pattern.test facts static held : Test) planner
  | .type id ty binds span, value, held, static, targets, enclosing, planner, hin => by
    rw [Pattern.plan, Pattern.test]
    refine withFailure_emits hin fun fail start hlt => ?_
    exact both_emits (testType_emits hlt) (fun mid _ => store_emits) (fun _ _ h => h) (Or.inl rfl)
  | .record id ty components span, value, held, static, targets, enclosing, planner, hin => by
    rw [Pattern.plan, Pattern.test]
    refine withFailure_emits hin fun fail start hlt => ?_
    have hboth : ∀ noted : Planner, noted.stream = start.stream → Ensures (do
          testType facts id value static fail
          Pattern.planComponents facts components 0
            (facts.pool.componentTypes (facts.table.patternType id)) value fail enclosing)
        noted Orderly fun _ after =>
          Emits start.stream.labels.size value held (Targets.Exits ⟨none, some fail⟩ none)
            (Reading.both (Reading.probe facts id static held) (Pattern.testComponents facts
              components 0 (facts.pool.componentTypes (facts.table.patternType id)) held) : Test)
            start.stream after.stream := by
      intro noted hsame
      rw [← hsame] at hlt ⊢
      exact both_emits (testType_emits hlt) (fun mid hle => Pattern.planComponents_made components
        0 _ value held fail enclosing mid fun hstrict => (hlt hstrict).trans_le hle)
        (fun _ _ h => h) (Or.inl rfl)
    dsimp only
    split
    · exact Ensures.modify_bind (hboth _ rfl)
    · exact hboth _ rfl
  | .any id span, value, held, static, targets, enclosing, planner, hin => by
    rw [Pattern.plan, Pattern.test]
    refine withFailure_emits hin fun fail start hlt => ?_
    exact nothing_emits (Or.inl rfl)
  | .guarded id patterns condition span, value, held, static, targets, enclosing, planner, hin =>
    Pattern.guarded_emits (fun fail start hlt => Pattern.planAll_made patterns value held static
      fail start hlt) condition.plan_made hin
  | .missing id, value, held, static, targets, enclosing, planner, hin => by
    rw [Pattern.plan]
    exact Ensures.throw fun _ => ⟨nofun, nofun⟩

theorem Pattern.planAll_made : ∀ (patterns : List Pattern) (value : ValueId) (held : Held)
    (static : Ty) (fail : Label) (planner : Planner),
    (Reading.Strict Test → fail < planner.stream.labels.size) →
    Performs (Pattern.planAll facts patterns value static fail) value held
      (Targets.Exits ⟨none, some fail⟩ none) (Pattern.testAll facts patterns static held : Test)
      planner
  | [], value, held, static, fail, planner, hlt => by
    rw [Pattern.planAll, Pattern.testAll]
    exact nothing_emits (Or.inl rfl)
  | pattern :: patterns, value, held, static, fail, planner, hlt => by
    rw [Pattern.planAll, Pattern.testAll]
    exact both_emits (pattern.plan_made value held static ⟨none, some fail⟩ Enclosing.nothing
      planner fun hstrict => .of_fail (hlt hstrict)) (fun mid hle => Pattern.planAll_made patterns
        value held static fail mid fun hstrict => (hlt hstrict).trans_le hle) (fun _ _ h => h)
        (Or.inl rfl)

theorem Pattern.planComponents_made : ∀ (patterns : List Pattern) (position : Nat)
    (types : List Ty) (whole : ValueId) (held : Held) (fail : Label) (enclosing : Enclosing)
    (planner : Planner), (Reading.Strict Test → fail < planner.stream.labels.size) →
    Performs (Pattern.planComponents facts patterns position types whole fail enclosing) whole held
      (Targets.Exits ⟨none, some fail⟩ none)
      (Pattern.testComponents facts patterns position types held : Test) planner
  | [], position, types, whole, held, fail, enclosing, planner, hlt => by
    rw [Pattern.planComponents, Pattern.testComponents]
    exact nothing_emits (Or.inl rfl)
  | pattern :: patterns, position, types, whole, held, fail, enclosing, planner, hlt => by
    rw [Pattern.planComponents, Pattern.testComponents]
    have hfirst : Performs (do
        let value ← newValue
        emit (.project value whole position)
        pattern.plan facts value (types.headD Ty.error) ⟨none, some fail⟩ enclosing) whole held
        (Targets.Exits ⟨none, some fail⟩ none)
        (pattern.test facts (types.headD Ty.error) (Reading.part Test held position) : Test)
        planner := by
      refine compute_emits (Reading.Strict Test) planner.stream.labels.size
        (.project · whole position) (fun _ => rfl) (fun _ => rfl) (fun _ => rfl) ?_
      intro value mid hgrows
      rw [← Targets.exits_some enclosing.fallthrough]
      have hle := hgrows.appends.labels_le
      exact (pattern.plan_made value _ _ ⟨none, some fail⟩ enclosing mid fun hstrict =>
        .of_fail ((hlt hstrict).trans_le hle)).mono fun _ after h => h.project hgrows hle
    have hboth := both_emits hfirst (fun next hle => Pattern.planComponents_made patterns
      (position + 1) types.tail whole held fail enclosing next fun hstrict =>
        (hlt hstrict).trans_le hle) (fun _ _ h => h) (Or.inl rfl)
    simp only [bind_assoc] at hboth
    exact hboth

/-- **The code planned for a condition makes its test.** -/
theorem Expr.plan_made : ∀ expr : Expr, expr.Made Test facts
  | .bool id value span => by
    intro _ held targets enclosing planner hin
    rw [Expr.plan, Expr.test]
    exact jump_emits (fun hstrict label hlabel => hin hstrict value label (Or.inl hlabel.symm))
      (Or.inl rfl)
  | .unary id .not operand span => by
    intro value held targets enclosing planner hin
    rw [Expr.plan, Expr.test]
    have hswap : ∀ outcome, targets.swap.on outcome = targets.on !outcome := by
      intro outcome
      cases outcome <;> rfl
    have hexits : ∀ outcome exit, targets.swap.Exits none outcome exit →
        targets.Exits enclosing.fallthrough (!outcome) exit := by
      intro outcome exit hexit
      exact Or.inl ((Targets.exits_none.mp hexit).trans (hswap outcome))
    refine (operand.plan_made value held targets.swap enclosing.withoutFallthrough planner
      fun hstrict outcome label hexit => hin hstrict (!outcome) label (hexits _ _ hexit)).mono ?_
    intro _ after h
    refine h.flip.mono fun outcome exit hexit => ?_
    have hnot := hexits (!outcome) exit hexit
    rwa [Bool.not_not] at hnot
  | .binary id op left right span => by
    cases op with
    | and => exact Expr.and_made left.plan_made right.plan_made
    | or => exact Expr.or_made left.plan_made right.plan_made
    | eq | notEq | lt | ltEq | gt | gtEq | add | sub | mul | div | rem =>
      exact Expr.operand_made rfl
  | .instanceOf id tested pattern span => by
    intro value held targets enclosing planner hin
    rw [Expr.plan, Expr.test]
    refine compute_emits (Reading.Strict Test) planner.stream.labels.size (.evalOperand · tested.id)
      (fun _ => rfl) (fun _ => rfl) (fun _ => rfl) ?_
    intro dest mid hgrows
    have hle := hgrows.appends.labels_le
    exact (pattern.plan_made dest _ _ targets enclosing mid fun hstrict =>
      (hin hstrict).mono hle).mono fun _ after h => h.evaluated hgrows hle
  | .missing id => by
    intro value held targets enclosing planner hin
    rw [Expr.plan]
    exact Ensures.throw fun _ => ⟨nofun, nofun⟩
  | .int .. | .ident .. | .field .. | .call .. | .unary _ .neg _ _ => Expr.operand_made trivial

end

/-- **What is generated for a pattern makes its test.** -/
theorem Pattern.generate_made (pattern : Pattern) (value : ValueId) (held : Held) (static : Ty)
    {targets : Targets} {planner : Planner}
    (hin : Reading.Strict Test → targets.Within none planner.stream.labels.size) :
    Performs (pattern.generate facts value static targets) value held (targets.Exits none)
      (pattern.test facts static held : Test) planner := by
  unfold Pattern.generate
  refine (snapshot_orderly pattern.id).seq ?_
  intro _ same hsame
  rw [hsame]
  refine Ensures.modify_bind ?_
  have hplan : ∀ start : Planner, start.stream = planner.stream →
      Ensures (pattern.plan facts value static targets Enclosing.nothing) start Orderly
        fun _ after => Emits planner.stream.labels.size value held (targets.Exits none)
          (pattern.test facts static held : Test) planner.stream after.stream := by
    intro start hstart
    rw [← hstart] at hin ⊢
    exact pattern.plan_made value held static targets Enclosing.nothing start hin
  refine (hplan { planner with emitted := Emitted.empty } rfl).seq ?_
  intro _ after h
  exact Ensures.get_bind (Ensures.modify_bind (Ensures.pure h))

end

/-! ## What happens in planned code -/

theorem Pattern.plan_emits (pattern : Pattern) (value : ValueId) (static : Ty)
    (targets : Targets) (enclosing : Enclosing) (planner : Planner)
    (hin : targets.Within enclosing.fallthrough planner.stream.labels.size) :
    Performs (pattern.plan facts value static targets enclosing) value ()
      (targets.Exits enclosing.fallthrough) pattern.outcomes planner := by
  rw [← pattern.test_eq_outcomes static]
  exact pattern.plan_made value () static targets enclosing planner fun _ => hin

theorem Pattern.planAll_emits (patterns : List Pattern) (value : ValueId) (static : Ty)
    (fail : Label) (planner : Planner) (hlt : fail < planner.stream.labels.size) :
    Performs (Pattern.planAll facts patterns value static fail) value ()
      (Targets.Exits ⟨none, some fail⟩ none) (Pattern.outcomesAll patterns) planner := by
  rw [← Pattern.testAll_eq_outcomes patterns static]
  exact Pattern.planAll_made patterns value () static fail planner fun _ => hlt

theorem Expr.plan_emits (expr : Expr) (value : ValueId) (targets : Targets) (enclosing : Enclosing)
    (planner : Planner) (hin : targets.Within enclosing.fallthrough planner.stream.labels.size) :
    Performs (expr.plan facts targets enclosing) value () (targets.Exits enclosing.fallthrough)
      expr.outcomes planner := by
  rw [← expr.test_eq_outcomes]
  exact expr.plan_made value () targets enclosing planner fun _ => hin

theorem Pattern.generate_emits (pattern : Pattern) (value : ValueId) (static : Ty)
    {targets : Targets} {planner : Planner}
    (hin : targets.Within none planner.stream.labels.size) :
    Performs (pattern.generate facts value static targets) value () (targets.Exits none)
      pattern.outcomes planner := by
  rw [← pattern.test_eq_outcomes static]
  exact pattern.generate_made value () static fun _ => hin

end GuardedMatch
