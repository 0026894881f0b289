import GuardedMatch.Proofs.Compiling
import GuardedMatch.Proofs.Generating

/-!
# The layout of a compiled unit

The code of a unit is the code of its sites and then of its switches.  Each of these places the
labels it jumps to, so control stays in the code until its end.

* `CompilationUnit.planSite_emits`, `CompilationUnit.planSwitch_emits`: a site plays its pattern,
  and a switch plays its cases in order until one of them matches.
* `CompilationUnit.compile_layout`: in compiled code every label that is jumped to is placed once
  and later, and every value is computed once.  So every run ends.
-/

namespace GuardedMatch

open Planner

variable {facts : Facts}

/-! ## Wrapping up -/

mutual

/-- The locals that a pattern binds outside of conditions. -/
def Pattern.ownLocals : Pattern → List LocalId
  | .type _ _ binds _ => binds.toList
  | .record _ _ components _ => Pattern.ownLocalsAll components
  | .guarded _ patterns _ _ => Pattern.ownLocalsAll patterns
  | .any .. | .missing _ => []

def Pattern.ownLocalsAll : List Pattern → List LocalId
  | [] => []
  | pattern :: patterns => pattern.ownLocals ++ Pattern.ownLocalsAll patterns

end

mutual

/-- What is bound in a pattern is bound outside of conditions, or in one. -/
theorem Pattern.mem_ownLocals_or {bound : LocalId} : ∀ (pattern : Pattern),
    .binding bound ∈ pattern.visits → bound ∈ pattern.ownLocals ∨
      ∃ expr, .expr expr ∈ pattern.visits ∧ bound ∈ expr.allLocals
  | .type id ty binds span, h => by
    refine Or.inl ?_
    simpa [Pattern.visits, Pattern.ownLocals] using h
  | .record id ty components span, h => by
    rcases Pattern.mem_ownLocalsAll_or components (by simpa [Pattern.visits] using h) with
      hown | ⟨expr, hexpr, hbound⟩
    · exact Or.inl hown
    · exact Or.inr ⟨expr, List.mem_cons_of_mem _ hexpr, hbound⟩
  | .guarded id patterns condition span, h => by
    simp only [Pattern.visits, List.mem_cons, List.mem_append, reduceCtorEq, false_or] at h
    rcases h with h | h
    · rcases Pattern.mem_ownLocalsAll_or patterns h with hown | ⟨expr, hexpr, hbound⟩
      · exact Or.inl hown
      · exact Or.inr ⟨expr, Visit.left_subset hexpr, hbound⟩
    · refine Or.inr ⟨condition, ?_, condition.mem_allLocals.mpr h⟩
      exact Visit.right_subset condition.self_mem_visits
  | .any id span, h => by simp [Pattern.visits] at h
  | .missing id, h => by simp [Pattern.visits] at h

theorem Pattern.mem_ownLocalsAll_or {bound : LocalId} : ∀ (patterns : List Pattern),
    .binding bound ∈ Pattern.visitsAll patterns → bound ∈ Pattern.ownLocalsAll patterns ∨
      ∃ expr, .expr expr ∈ Pattern.visitsAll patterns ∧ bound ∈ expr.allLocals
  | [], h => by simp [Pattern.visitsAll] at h
  | pattern :: patterns, h => by
    rw [Pattern.visitsAll, List.mem_append] at h
    rcases h with h | h
    · rcases pattern.mem_ownLocals_or h with hown | ⟨expr, hexpr, hbound⟩
      · exact Or.inl (List.mem_append_left _ hown)
      · exact Or.inr ⟨expr, List.mem_append_left _ hexpr, hbound⟩
    · rcases Pattern.mem_ownLocalsAll_or patterns h with hown | ⟨expr, hexpr, hbound⟩
      · exact Or.inl (List.mem_append_right _ hown)
      · exact Or.inr ⟨expr, List.mem_append_right _ hexpr, hbound⟩

end

mutual

/-- Wrapping up ends the ranges of what a pattern binds outside of conditions, one by one. -/
theorem Pattern.wrapUp_folds : ∀ (pattern : Pattern) (planner : Planner),
    Ensures (pattern.wrapUp true) planner
      (fun failure => Orderly failure ∧ ∃ id, .pattern (.missing id) ∈ pattern.visits)
      fun _ after => after =
        { planner with stream := pattern.ownLocals.foldl Stream.closeRange planner.stream }
  | .type id ty binds span, planner => by
    cases binds with
    | none =>
      rw [Pattern.wrapUp]
      exact Ensures.pure rfl
    | some binding =>
      rw [Pattern.wrapUp]
      exact Ensures.modifies rfl
  | .record id ty components span, planner => by
    rw [Pattern.wrapUp]
    refine (Pattern.wrapUpAll_folds components planner).imp ?_ fun _ _ h => h
    rintro _ ⟨horderly, id, hid⟩
    exact ⟨horderly, id, List.mem_cons_of_mem _ hid⟩
  | .guarded id [] condition span, planner => by
    rw [Pattern.wrapUp]
    exact Ensures.pure rfl
  | .guarded id (first :: rest) condition span, planner => by
    rw [Pattern.wrapUp]
    refine (Pattern.wrapUpAll_folds (first :: rest) planner).imp ?_ fun _ _ h => h
    rintro _ ⟨horderly, id, hid⟩
    exact ⟨horderly, id, Visit.left_subset hid⟩
  | .any id span, planner => by
    rw [Pattern.wrapUp]
    exact Ensures.pure rfl
  | .missing id, planner => by
    rw [Pattern.wrapUp]
    exact Ensures.throw ⟨fun _ => ⟨nofun, nofun⟩, id, Pattern.self_mem_visits _⟩

theorem Pattern.wrapUpAll_folds : ∀ (patterns : List Pattern) (planner : Planner),
    Ensures (Pattern.wrapUpAll true patterns) planner
      (fun failure => Orderly failure ∧
        ∃ id, .pattern (.missing id) ∈ Pattern.visitsAll patterns)
      fun _ after => after = { planner with
          stream := (Pattern.ownLocalsAll patterns).foldl Stream.closeRange planner.stream }
  | [], planner => by
    rw [Pattern.wrapUpAll]
    exact Ensures.pure rfl
  | pattern :: patterns, planner => by
    rw [Pattern.wrapUpAll]
    refine Ensures.bind ((pattern.wrapUp_folds planner).imp ?_ fun _ mid hmid => ?_)
    · rintro _ ⟨horderly, id, hid⟩
      exact ⟨horderly, id, List.mem_append_left _ hid⟩
    · refine (Pattern.wrapUpAll_folds patterns mid).imp ?_ fun _ after hafter => ?_
      · rintro _ ⟨horderly, id, hid⟩
        exact ⟨horderly, id, List.mem_append_right _ hid⟩
      · rw [hafter, hmid, Pattern.ownLocalsAll, List.foldl_append]

end

theorem Pattern.wrapUp_sameCode (pattern : Pattern) (planner : Planner) :
    Ensures (pattern.wrapUp true) planner Orderly fun _ after =>
      planner.stream.SameCode after.stream := by
  refine (pattern.wrapUp_folds planner).imp (fun _ h => h.1) fun _ after hafter => ?_
  rw [hafter]
  exact .foldl .closeRange _ _

/-! ## Tests as a whole -/

/-- What happens when patterns are tested one after the other until one of them matches. -/
def Pattern.outcomesAny : List Pattern → Outcomes
  | [] => .known false
  | pattern :: patterns => Outcomes.orElse pattern.outcomes (Pattern.outcomesAny patterns)

/-- Control goes on at the end. -/
def Exits.atEnd : Exits := fun _ exit => exit = none

namespace CompilationUnit

variable {forest : Forest} {planner : Planner}

/-- **The code of a site plays its pattern.** -/
theorem planSite_emits (site : Site) (ty : Ty) :
    Ensures (planSite facts forest site ty) planner Orderly fun _ after =>
      Emits planner.stream.labels.size 0 () .atEnd
        (Outcomes.after (some (.evaluated site.selector)) (forest.pattern site.pattern).outcomes)
        planner.stream after.stream := by
  unfold planSite
  refine compute_emits True planner.stream.labels.size (.evalOperand · site.selector)
    (fun _ => rfl) (fun _ => rfl) (fun _ => rfl) ?_
  intro value mid hgrows
  refine (newLabel_grows True mid.stream.labels.size).seq ?_
  rintro noMatch start ⟨hlabel, hnew, hopen⟩
  have hlt : noMatch < start.stream.labels.size := (Array.getElem?_eq_some_iff.mp hopen).1
  refine Ensures.seq ((forest.pattern site.pattern).generate_emits value ty (.of_fail hlt)) ?_
  intro emitted tested htested
  refine (Pattern.wrapUp_sameCode _ tested).seq fun _ closed hclosed => ?_
  have halso : Emits start.stream.labels.size value () (Exits.atEnd.also false noMatch)
      (forest.pattern site.pattern).outcomes start.stream closed.stream := by
    refine (htested.before_same hclosed).mono fun outcome exit hexit => ?_
    have heq := Targets.exits_none.mp hexit
    cases outcome with
    | true => exact Or.inl heq
    | false => exact Or.inr ⟨rfl, heq⟩
  have hplace := halso.places hopen hlabel.ge hlt rfl fun _ _ hexit => by cases hexit
  refine hplace.seq fun _ after h => Ensures.pure ?_
  exact (h.after_new hnew le_rfl).evaluated hgrows hgrows.appends.labels_le

/-- The code of one case leaves for the end of the switch on a match. -/
theorem planCase_emits {value : ValueId} {ty : Ty} {done : Label} (id : PatternId)
    (hdone : done < planner.stream.labels.size) :
    Ensures (planCase facts forest value ty done id) planner Orderly fun _ after =>
      Emits planner.stream.labels.size value () (Targets.Exits ⟨some done, none⟩ none)
        (forest.pattern id).outcomes planner.stream after.stream := by
  unfold planCase
  refine (newLabel_grows True planner.stream.labels.size).seq ?_
  rintro next start ⟨hlabel, hnew, hopen⟩
  have hlt : next < start.stream.labels.size := (Array.getElem?_eq_some_iff.mp hopen).1
  refine ((forest.pattern id).generate_emits value ty (.of_fail hlt)).seq ?_
  intro emitted tested htested
  refine (Pattern.wrapUp_sameCode _ tested).seq fun _ closed hclosed => ?_
  have htest := htested.before_same hclosed
  have hjump : Ensures (jump (some done)) closed Orderly fun _ after =>
      Emits start.stream.labels.size value ()
        ((Targets.Exits ⟨some done, none⟩ none).also false next) (forest.pattern id).outcomes
        start.stream after.stream := by
    refine htest.jumps ?_ ⟨true, Or.inl rfl⟩ (fun outcome hexit => ?_) fun outcome label hexit => ?_
    · intro _ label hmem
      cases hmem
      exact hdone.trans_le (hnew.appends.labels_le.trans htest.labels_le)
    · have heq := Targets.exits_none.mp hexit
      cases outcome with
      | true => exact Or.inl (Or.inl rfl)
      | false => cases heq
    · have heq := Targets.exits_none.mp hexit
      cases outcome with
      | true => cases heq
      | false => exact Or.inr ⟨rfl, heq⟩
  refine hjump.seq fun _ left hleft => ?_
  have hplace := hleft.places hopen hlabel.ge hlt (Or.inl rfl) fun _ outcome hexit => by
    have heq := Targets.exits_none.mp hexit
    cases outcome with
    | true => exact absurd (Option.some.inj heq) (hdone.trans_le hlabel.ge).ne'
    | false => cases heq
  exact hplace.seq fun _ after h => Ensures.pure (h.after_new hnew le_rfl)

/-- The code of the cases plays them in order, and leaves at the first match. -/
theorem planCases_emits {value : ValueId} {ty : Ty} {done : Label} (ids : List PatternId) :
    ∀ planner : Planner, done < planner.stream.labels.size →
    Ensures (ids.mapM (planCase facts forest value ty done)) planner Orderly fun _ after =>
      Emits planner.stream.labels.size value () (Targets.Exits ⟨some done, none⟩ none)
        (Pattern.outcomesAny (ids.map forest.pattern)) planner.stream after.stream := by
  induction ids with
  | nil =>
    intro planner _
    exact Ensures.pure ⟨[], .refl _, .nothing false ⟨rfl, rfl⟩ (Or.inl rfl)⟩
  | cons id ids ih =>
    intro planner hdone
    rw [List.mapM_cons, List.map_cons, Pattern.outcomesAny]
    refine (planCase_emits id hdone).seq fun emitted mid h => ?_
    refine (ih mid (hdone.trans_le h.labels_le)).seq fun rest after h' => ?_
    refine Ensures.pure (h.orElse h' le_rfl ?_ (fun exit hexit => ⟨?_, hexit⟩) fun _ _ h => h)
    · exact fun exit hexit => Targets.exits_none.mp hexit
    · rw [Targets.exits_none.mp hexit]
      exact nofun

/-- **The code of a switch plays its cases** in order, until one of them matches. -/
theorem planSwitch_emits (switch : Switch) (ty : Ty) :
    Ensures (planSwitch facts forest switch ty) planner Orderly fun _ after =>
      Emits planner.stream.labels.size 0 () .atEnd
        (Outcomes.after (some (.evaluated switch.selector))
          (Pattern.outcomesAny (switch.cases.map forest.pattern)))
        planner.stream after.stream := by
  unfold planSwitch
  refine compute_emits True planner.stream.labels.size (.evalOperand · switch.selector)
    (fun _ => rfl) (fun _ => rfl) (fun _ => rfl) ?_
  intro value mid hgrows
  refine (newLabel_grows True mid.stream.labels.size).seq ?_
  rintro done start ⟨hlabel, hnew, hopen⟩
  have hlt : done < start.stream.labels.size := (Array.getElem?_eq_some_iff.mp hopen).1
  refine (planCases_emits switch.cases start hlt).seq fun emitted tested h => ?_
  have halso : Emits start.stream.labels.size value () (Exits.atEnd.also true done)
      (Pattern.outcomesAny (switch.cases.map forest.pattern)) start.stream tested.stream := by
    refine h.mono fun outcome exit hexit => ?_
    have heq := Targets.exits_none.mp hexit
    cases outcome with
    | true => exact Or.inr ⟨rfl, heq⟩
    | false => exact Or.inl heq
  have hplace := halso.places hopen hlabel.ge hlt rfl fun _ _ hexit => by cases hexit
  refine hplace.seq fun _ after h => Ensures.pure ?_
  exact (h.after_new hnew le_rfl).evaluated hgrows hgrows.appends.labels_le

/-! ## Units -/

/-- The stream was continued by code that places all labels it jumps to. -/
def Seals (stream after : Stream) : Prop :=
  ∃ piece, stream.Grows True 0 after piece ∧ Machine.JumpsForward (fun _ => False) piece

theorem Seals.refl (stream : Stream) : Seals stream stream := ⟨[], .refl stream, nofun⟩

theorem Seals.emits {stream mid after : Stream} {base : Label} {value : ValueId}
    {outcomes : Outcomes} (h : Seals stream mid)
    (h' : Emits base value () .atEnd outcomes mid after) : Seals stream after := by
  obtain ⟨piece, hgrows, hjumps⟩ := h
  obtain ⟨rest, hgrows', hplays⟩ := h'
  refine ⟨piece ++ rest, hgrows.trans (hgrows'.mono (Nat.zero_le _)), ?_⟩
  have hrest : Machine.JumpsForward (fun _ => False) rest := by
    intro position instr label hinstr htarget
    rcases hplays.jumps position instr label hinstr htarget with ⟨outcome, hexit⟩ | hlater
    · cases hexit
    · exact Or.inr hlater
  exact hjumps.append hrest fun _ => False.elim

/-- The code of a unit places all labels it jumps to. -/
theorem plan_seals (unit : CompilationUnit) (cancelled : Bool) (siteTypes switchTypes : List Ty) :
    Ensures (unit.plan facts forest cancelled siteTypes switchTypes) planner Orderly fun _ after =>
      Seals planner.stream after.stream := by
  have hproceed : ∀ {α : Type} {action : PlanM α} {start : Planner} {post : α → Planner → Prop},
      Ensures action start Orderly post →
      Ensures (proceed cancelled action) start Orderly post := by
    intro α action start post h
    cases cancelled with
    | false => exact h
    | true => exact Ensures.throw fun label => ⟨nofun, nofun⟩
  unfold plan
  refine Ensures.seq (Ensures.mapM (fun after => Seals planner.stream after.stream) _
    (fun root _ start hstart => ?_) planner (.refl _)) fun _ mid hmid => ?_
  · exact hproceed ((planSite_emits root.1 root.2).mono fun _ _ h => hstart.emits h)
  refine Ensures.seq (Ensures.mapM (fun after => Seals planner.stream after.stream) _
    (fun root _ start hstart => ?_) mid hmid) fun _ after hafter => Ensures.pure hafter
  exact hproceed ((planSwitch_emits root.1 root.2).mono fun _ _ h => hstart.emits h)

/-- Compiled code is what planning has collected at its end. -/
theorem seals_of_compile {unit : CompilationUnit} {pool : Pool} {config : Config}
    {cancelled : Bool} {compiled : Compiled}
    (h : unit.compile pool config cancelled = .ok compiled) :
    ∃ after : Stream,
      Seals (Stream.new config.localTable) after ∧ compiled.code = after.finish := by
  obtain ⟨passed, offered, hpasses, hcode, -⟩ := passes_of_compile h
  obtain ⟨types, _, _, _, planner, -, -, -, hplan, -, hpassed⟩ := exists_of_passes hpasses
  exact ⟨planner.stream, (unit.plan_seals _ types.1 types.2).of_ok hplan, hcode.trans hpassed⟩

/-- Code that a unit starts with is laid out in order. -/
theorem Seals.forward {tracking : Bool} {after : Stream} (h : Seals (Stream.new tracking) after) :
    Machine.Forward (fun _ => False) after.instrs.toList ∧
      (destinations after.instrs.toList).Nodup := by
  obtain ⟨piece, hgrows, hjumps⟩ := h
  have hcode : after.instrs.toList = piece := hgrows.appends.instrs
  rw [hcode]
  exact ⟨⟨hgrows.appends.nodup, hjumps, fun _ _ hfalse => hfalse⟩, hgrows.once⟩

/-- **Compiled code is laid out in order.**  Planning never stops because of a label.  In the code
of a compiled unit no label is placed twice, every label that is jumped to is placed, once and after
the jump, and no value is computed twice.  So there is no way to take steps forever. -/
theorem compile_layout (unit : CompilationUnit) (pool : Pool) (config : Config)
    (cancelled : Bool) :
    (∀ facts forest siteTypes switchTypes failure after label,
      EStateM.run (unit.plan facts forest cancelled siteTypes switchTypes)
        (Planner.new config.localTable) = .error failure after →
      failure ≠ .faulty (.labelPlacedTwice label) ∧ failure ≠ .faulty (.unknownLabel label)) ∧
    ∀ compiled, unit.compile pool config cancelled = .ok compiled →
      (placedLabels compiled.code.instrs.toList).Nodup ∧
      (∀ (position : Nat) instr label, compiled.code.instrs.toList[position]? = some instr →
        instr.target? = some label → ∃ later > position, ∀ other : Nat,
          compiled.code.instrs.toList[other]? = some (.placeLabel label) ↔ other = later) ∧
      (destinations compiled.code.instrs.toList).Nodup ∧
      ∀ (model : ValueModel pool) (env : Env model),
        WellFounded fun after before : Nat × Machine.Cells model.Value =>
          Machine.Step env compiled.code.instrs.toList before.1 before.2
            (.next after.1 after.2) := by
  constructor
  · intro facts forest siteTypes switchTypes failure after label hrun
    exact (unit.plan_seals cancelled siteTypes switchTypes).of_error hrun label
  · intro compiled hcompile
    obtain ⟨after, hseals, hcode⟩ := seals_of_compile hcompile
    obtain ⟨hforward, hvalues⟩ := hseals.forward
    rw [hcode]
    refine ⟨hforward.once, ?_, hvalues, fun model env => hforward.wellFounded_step⟩
    intro position instr label hinstr htarget
    rcases hforward.jumps position instr label hinstr htarget with hfalse | ⟨later, hlt, hplace⟩
    · exact hfalse.elim
    · refine ⟨later, hlt, fun other => ⟨fun hother => ?_, fun heq => heq ▸ hplace⟩⟩
      exact eq_of_placed_once hforward.once hother hplace

/-- The pattern that looks into a box in a box at two sites, and twice as a case of a switch. -/
def innerBoxes : CompilationUnit :=
  { innerBox with
    sites := innerBox.sites ++ innerBox.sites
    switches := [⟨5, [4, 1, 4], ⟨[⟨"shape", 0, ⟨32⟩⟩]⟩, Span.none⟩] }

theorem compile_layout_innerBoxes :
    ∃ compiled, innerBoxes.compile Pool.shapes ⟨.unlimited, true⟩ false = .ok compiled ∧
      (placedLabels compiled.code.instrs.toList).Nodup ∧
      (∀ (position : Nat) instr label, compiled.code.instrs.toList[position]? = some instr →
        instr.target? = some label → ∃ later > position, ∀ other : Nat,
          compiled.code.instrs.toList[other]? = some (.placeLabel label) ↔ other = later) ∧
      (destinations compiled.code.instrs.toList).Nodup ∧
      ∀ (model : ValueModel Pool.shapes) (env : Env model),
        WellFounded fun after before : Nat × Machine.Cells model.Value =>
          Machine.Step env compiled.code.instrs.toList before.1 before.2
            (.next after.1 after.2) := by
  have hok : (innerBoxes.compile Pool.shapes ⟨.unlimited, true⟩ false).isOk = true := by
    decide +kernel
  cases hcompile : innerBoxes.compile Pool.shapes ⟨.unlimited, true⟩ false with
  | error failure =>
    rw [hcompile] at hok
    cases hok
  | ok compiled =>
    exact ⟨compiled, rfl, (compile_layout innerBoxes Pool.shapes _ false).2 compiled hcompile⟩

end CompilationUnit

end GuardedMatch
