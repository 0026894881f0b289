import GuardedMatch.Proofs.Generating
import GuardedMatch.Proofs.Owning

/-!
# Which pattern a type test is made for

A type test in the code does not say for which pattern it is made, but the tests come in the order
of the patterns.  So what planning appends can be read as a log: the patterns whose types are
tested, each with the label to which the test fails, the labels of guarded patterns, and the record
patterns that fail to the label of their guard.

* `Pattern.tested`: the patterns whose types are tested, in order.
* `Pattern.unguarded`: a pattern and its components, down to guarded patterns.
* `PlanLog.Sound`: the log agrees with the guards that record patterns belong to.
* `Pattern.plan_logged`: what planning a pattern logs is sound.
* `else_targets_owned`: resolution and planning agree on where record patterns fail to.
-/

namespace GuardedMatch

variable {forest : Forest}

/-! ## Tests -/

/-- The type that is tested and the label to which the test fails. -/
def Instr.test? : Instr → Option (Ty × Label)
  | testType _ ty onFail => some (ty, onFail)
  | _ => none

namespace Stream

/-- The type tests in a stream, in order. -/
def tests (stream : Stream) : List (Ty × Label) := stream.instrs.toList.filterMap Instr.test?

theorem tests_of_appends {stream after : Stream} {piece : List Instr}
    (h : after.instrs.toList = stream.instrs.toList ++ piece) :
    after.tests = stream.tests ++ piece.filterMap Instr.test? := by
  rw [tests, h, List.filterMap_append, tests]

theorem tests_emit (stream : Stream) (instr : Instr) :
    (stream.emit instr).tests = stream.tests ++ [instr].filterMap Instr.test? :=
  tests_of_appends Array.toList_push

end Stream

mutual

/-- The patterns whose types are tested when a value is tested against a pattern, in the order of
the tests. -/
def Pattern.tested (facts : Facts) : Pattern → (static : Ty) → List PatternId
  | .type id _ _ _, static => if facts.leavesOpen id static then [id] else []
  | .record id _ components _, static =>
    (if facts.leavesOpen id static then [id] else []) ++ Pattern.testedComponents facts components
      (facts.pool.componentTypes (facts.table.patternType id))
  | .guarded _ patterns condition _, static =>
    Pattern.testedAll facts patterns static ++
      (if condition.skippable.isSome then [] else condition.tested facts)
  | .any .., _ | .missing _, _ => []

def Pattern.testedAll (facts : Facts) : List Pattern → (static : Ty) → List PatternId
  | [], _ => []
  | pattern :: patterns, static =>
    pattern.tested facts static ++ Pattern.testedAll facts patterns static

def Pattern.testedComponents (facts : Facts) : List Pattern → List Ty → List PatternId
  | [], _ => []
  | pattern :: patterns, types =>
    pattern.tested facts (types.headD Ty.error) ++
      Pattern.testedComponents facts patterns types.tail

/-- The patterns whose types are tested on the way through a condition. -/
def Expr.tested (facts : Facts) : Expr → List PatternId
  | .unary _ .not operand _ => operand.tested facts
  | .binary _ .and left right _ =>
    match left.skippable with
    | some true => right.tested facts
    | some false => []
    | none => left.tested facts ++ right.tested facts
  | .binary _ .or left right _ =>
    match left.skippable with
    | some false => right.tested facts
    | some true => []
    | none => left.tested facts ++ right.tested facts
  | .instanceOf _ tested pattern _ =>
    pattern.tested facts (facts.table.exprTypes[tested.id]?.getD Ty.object)
  | _ => []

end

mutual

/-- A pattern and its components, down to guarded patterns. -/
def Pattern.unguarded : Pattern → List PatternId
  | .type id _ _ _ | .any id _ => [id]
  | .record id _ components _ => id :: Pattern.unguardedAll components
  | .guarded .. | .missing _ => []

def Pattern.unguardedAll : List Pattern → List PatternId
  | [] => []
  | pattern :: patterns => pattern.unguarded ++ Pattern.unguardedAll patterns

end

/-- A pattern with this number is met. -/
def Visit.Met (visits : List Visit) (id : PatternId) : Prop :=
  ∃ pattern, .pattern pattern ∈ visits ∧ pattern.id = id

/-- The number of a guarded pattern. -/
def Visit.guarded? : Visit → Option PatternId
  | pattern (.guarded id _ _ _) => some id
  | _ => none

namespace Visit

variable {visits visits' : List Visit} {id : PatternId}

theorem Met.mono (h : Met visits id) (hsub : visits ⊆ visits') : Met visits' id := by
  obtain ⟨pattern, hpattern, heq⟩ := h
  exact ⟨pattern, hsub hpattern, heq⟩

theorem Apart.not_met (h : Apart visits visits') (hmet : Met visits id) : ¬ Met visits' id := by
  rintro ⟨other, hother, heq'⟩
  obtain ⟨pattern, hpattern, heq⟩ := hmet
  exact h pattern other hpattern hother (heq.trans heq'.symm)

/-- The guarded patterns among visits of different nodes are different. -/
theorem Distinct.guards (h : Distinct visits) : (visits.filterMap guarded?).Nodup := by
  refine h.nodup_filterMap fun visit id hid => ?_
  cases visit with
  | pattern pattern =>
    cases pattern with
    | guarded => exact congrArg (fun id : PatternId => some (Node.pattern id)) (Option.some.inj hid)
    | type | record | any | missing => cases hid
  | expr | binding => cases hid

end Visit

mutual

theorem Pattern.met_of_unguarded : ∀ (pattern : Pattern) {id : PatternId}, id ∈ pattern.unguarded →
    Visit.Met pattern.visits id
  | .type own ty binds span, id, h => by
    rw [Pattern.unguarded, List.mem_singleton] at h
    exact ⟨_, Pattern.self_mem_visits _, h.symm⟩
  | .any own span, id, h => by
    rw [Pattern.unguarded, List.mem_singleton] at h
    exact ⟨_, Pattern.self_mem_visits _, h.symm⟩
  | .record own ty components span, id, h => by
    rw [Pattern.unguarded, List.mem_cons] at h
    rcases h with rfl | h
    · exact ⟨_, Pattern.self_mem_visits _, rfl⟩
    · exact (Pattern.met_of_unguardedAll components h).mono (List.subset_cons_self ..)
  | .guarded .., id, h | .missing _, id, h => by simp [Pattern.unguarded] at h

theorem Pattern.met_of_unguardedAll : ∀ (patterns : List Pattern) {id : PatternId},
    id ∈ Pattern.unguardedAll patterns → Visit.Met (Pattern.visitsAll patterns) id
  | [], id, h => by simp [Pattern.unguardedAll] at h
  | pattern :: patterns, id, h => by
    rw [Pattern.unguardedAll, List.mem_append] at h
    rw [Pattern.visitsAll]
    rcases h with h | h
    · exact (pattern.met_of_unguarded h).mono (List.subset_append_left ..)
    · exact (Pattern.met_of_unguardedAll patterns h).mono (List.subset_append_right ..)

end

/-! ## Logs -/

/-- What is logged while planning. -/
structure PlanLog where
  /-- The patterns whose types are tested, and the labels to which the tests fail. -/
  tests : List (PatternId × Label)
  guards : List GuardPlan
  /-- The record patterns that fail to the label of a guard. -/
  notes : List (PatternId × Label)

namespace PlanLog

variable {fail : Label} {ids : List PatternId}

def append (log log' : PlanLog) : PlanLog :=
  ⟨log.tests ++ log'.tests, log.guards ++ log'.guards, log.notes ++ log'.notes⟩

instance : Append PlanLog := ⟨append⟩

def nothing : PlanLog := ⟨[], [], []⟩

/-- A pattern is tested, if its type is left open. -/
def probe (facts : Facts) (id : PatternId) (static : Ty) (fail : Label) : PlanLog :=
  ⟨if facts.leavesOpen id static then [(id, fail)] else [], [], []⟩

theorem map_fst_probe (facts : Facts) (id : PatternId) (static : Ty) (fail : Label) :
    (probe facts id static fail).tests.map Prod.fst =
      if facts.leavesOpen id static then [id] else [] := by
  rw [probe]
  split <;> rfl

theorem map_fst_append (log log' : PlanLog) : (log ++ log').tests.map Prod.fst =
    log.tests.map Prod.fst ++ log'.tests.map Prod.fst := List.map_append ..

theorem append_nothing (log : PlanLog) : log ++ nothing = log := by
  cases log
  exact congr (congr (congrArg mk (List.append_nil _)) (List.append_nil _)) (List.append_nil _)

/-- The tests of some patterns fail to a label. -/
def FailsTo (fail : Label) (ids : List PatternId) (log : PlanLog) : Prop :=
  ∀ test ∈ log.tests, test.1 ∈ ids → test.2 = fail

theorem FailsTo.probe {facts : Facts} {id : PatternId} {static : Ty} :
    FailsTo fail ids (probe facts id static fail) := by
  intro test htest _
  rw [PlanLog.probe] at htest
  split at htest
  · rw [List.mem_singleton.mp htest]
  · cases htest

/-- A record pattern that fails to a label, before components that fail to it. -/
theorem FailsTo.record {facts : Facts} {id : PatternId} {static : Ty} {log : PlanLog}
    (h : log.FailsTo fail ids) (hfresh : ∀ test ∈ log.tests, test.1 ≠ id) :
    (PlanLog.probe facts id static fail ++ log).FailsTo fail (id :: ids) := by
  intro test htest hid
  have hsides : test ∈ (PlanLog.probe facts id static fail).tests ++ log.tests := htest
  rcases List.mem_append.mp hsides with htest | htest
  · exact FailsTo.probe test htest hid
  · exact h test htest ((List.mem_cons.mp hid).resolve_left (hfresh test htest))

theorem FailsTo.append {ids' : List PatternId} {log log' : PlanLog} (h : log.FailsTo fail ids)
    (h' : log'.FailsTo fail ids') (hlog : ∀ test ∈ log.tests, test.1 ∉ ids')
    (hlog' : ∀ test ∈ log'.tests, test.1 ∉ ids) :
    (log ++ log').FailsTo fail (ids ++ ids') := by
  intro test htest hid
  rcases List.mem_append.mp htest with htest | htest
  · exact h test htest ((List.mem_append.mp hid).resolve_right (hlog test htest))
  · exact h' test htest ((List.mem_append.mp hid).resolve_left (hlog' test htest))

/-- The log of what is planned for the visits agrees with the guards that record patterns belong
to, where `outer` is the label of the guard around and `records` belong to it. -/
structure Sound (forest : Forest) (visits : List Visit) (outer : Option Label)
    (records : List PatternId) (log : PlanLog) : Prop where
  guards : (log.guards.map (·.pattern)).Sublist (visits.filterMap Visit.guarded?)
  tested : ∀ test ∈ log.tests, Visit.Met visits test.1
  noted : ∀ note ∈ log.notes, outer = some note.2 ∧ note.1 ∈ records ∨
    ∃ plan ∈ log.guards, plan.elseLabel = note.2 ∧ Visit.Owned visits note.1 plan.pattern
  inside : ∀ note ∈ log.notes, ∀ id ∈ (forest.pattern note.1).unguarded, Visit.Met visits id
  agree : ∀ note ∈ log.notes, log.FailsTo note.2 (forest.pattern note.1).unguarded

namespace Sound

variable {id : PatternId}

variable {forest : Forest} {visits visits' : List Visit} {outer : Option Label}
  {records records' : List PatternId} {log log' : PlanLog}

theorem nothing : Sound forest visits outer records nothing :=
  ⟨List.nil_sublist _, nofun, nofun, nofun, nofun⟩

theorem mono (h : Sound forest visits outer records log) (hvisits : visits.Sublist visits')
    (hrecords : records ⊆ records') : Sound forest visits' outer records' log where
  guards := h.guards.trans (hvisits.filterMap _)
  tested test htest := (h.tested test htest).mono hvisits.subset
  noted note hnote := (h.noted note hnote).imp (And.imp_right (hrecords ·))
    fun ⟨plan, hplan, hlabel, howned⟩ => ⟨plan, hplan, hlabel, howned.mono hvisits.subset⟩
  inside note hnote id hid := (h.inside note hnote id hid).mono hvisits.subset
  agree := h.agree

theorem append (h : Sound forest visits outer records log)
    (h' : Sound forest visits' outer records' log') (hapart : Visit.Apart visits visits') :
    Sound forest (visits ++ visits') outer (records ++ records') (log ++ log') where
  guards := by
    rw [List.filterMap_append]
    exact (List.map_append ..) ▸ h.guards.append h'.guards
  tested test htest := by
    rcases List.mem_append.mp htest with htest | htest
    · exact (h.tested test htest).mono (List.subset_append_left ..)
    · exact (h'.tested test htest).mono (List.subset_append_right ..)
  noted note hnote := by
    rcases List.mem_append.mp hnote with hnote | hnote
    · rcases h.noted note hnote with ⟨houter, hrecord⟩ | ⟨plan, hplan, hlabel, howned⟩
      · exact .inl ⟨houter, List.mem_append_left _ hrecord⟩
      · exact .inr ⟨plan, List.mem_append_left _ hplan, hlabel,
          howned.mono (List.subset_append_left ..)⟩
    · rcases h'.noted note hnote with ⟨houter, hrecord⟩ | ⟨plan, hplan, hlabel, howned⟩
      · exact .inl ⟨houter, List.mem_append_right _ hrecord⟩
      · exact .inr ⟨plan, List.mem_append_right _ hplan, hlabel,
          howned.mono (List.subset_append_right ..)⟩
  inside note hnote id hid := by
    rcases List.mem_append.mp hnote with hnote | hnote
    · exact (h.inside note hnote id hid).mono (List.subset_append_left ..)
    · exact (h'.inside note hnote id hid).mono (List.subset_append_right ..)
  -- A test on one side is of a pattern that is not met on the other.
  agree note hnote test htest hid := by
    rcases List.mem_append.mp hnote with hnote | hnote <;>
      rcases List.mem_append.mp htest with htest | htest
    · exact h.agree note hnote test htest hid
    · exact absurd (h'.tested test htest) (hapart.not_met (h.inside note hnote _ hid))
    · exact absurd (h'.inside note hnote _ hid) (hapart.not_met (h.tested test htest))
    · exact h'.agree note hnote test htest hid

theorem probe {facts : Facts} {static : Ty} {fail : Label} (h : Visit.Met visits id) :
    Sound forest visits outer records (probe facts id static fail) := by
  refine ⟨List.nil_sublist _, fun test htest => ?_, nofun, nofun, nofun⟩
  rw [PlanLog.probe] at htest
  split at htest
  · rw [List.mem_singleton.mp htest]
    exact h
  · cases htest

theorem record {facts : Facts} {ty : TypeRef} {components : List Pattern} {span : Span}
    {static : Ty} {fail : Label} (hown : forest.pattern id = .record id ty components span)
    (h : Sound forest (Pattern.visitsAll components) outer (Pattern.guardRecordsAll components) log)
    (hfails : log.FailsTo fail (Pattern.unguardedAll components))
    (hapart : Visit.Apart (Pattern.visitsAll components)
      [.pattern (.record id ty components span)]) :
    Sound forest (Pattern.record id ty components span).visits outer
      (Pattern.record id ty components span).guardRecords
      (⟨[], [], if outer = some fail then [(id, fail)] else []⟩ ++
        (PlanLog.probe facts id static fail ++ log)) := by
  have hself : Visit.Met [.pattern (.record id ty components span)] id :=
    ⟨_, List.mem_singleton_self _, rfl⟩
  have hfresh : ∀ test ∈ log.tests, test.1 ≠ id := fun test htest heq =>
    hapart.not_met (h.tested test htest) (heq ▸ hself)
  have htests : Sound forest ([.pattern (.record id ty components span)] ++
      Pattern.visitsAll components) outer ([] ++ Pattern.guardRecordsAll components)
      (PlanLog.probe facts id static fail ++ log) := (probe hself).append h hapart.symm
  have hnotes : ∀ {note}, note ∈ (if outer = some fail then [(id, fail)] else []) ++ log.notes →
      outer = some fail ∧ note = (id, fail) ∨ note ∈ log.notes := by
    intro note hnote
    refine (List.mem_append.mp hnote).imp_left fun hown => ?_
    split at hown
    next houter => exact ⟨houter, List.mem_singleton.mp hown⟩
    next => cases hown
  refine ⟨htests.guards, htests.tested, fun note hnote => ?_, fun note hnote part hpart => ?_,
    fun note hnote test htest hpart => ?_⟩
  · rcases hnotes hnote with ⟨houter, rfl⟩ | hnote
    · exact .inl ⟨houter, List.mem_cons_self⟩
    · exact (htests.noted note hnote).imp_left (And.imp_right (List.mem_cons_of_mem _))
  · rcases hnotes hnote with ⟨-, rfl⟩ | hnote
    · rw [hown] at hpart
      exact Pattern.met_of_unguarded _ hpart
    · exact htests.inside note hnote part hpart
  · rcases hnotes hnote with ⟨-, rfl⟩ | hnote
    · rw [hown] at hpart
      exact hfails.record hfresh test htest hpart
    · exact htests.agree note hnote test htest hpart

/-- Where there is no guard around, it does not matter which record patterns belong to it. -/
theorem of_none (h : Sound forest visits none records log) :
    Sound forest visits outer records' log :=
  { h with noted := fun note hnote => .inr ((h.noted note hnote).resolve_left fun hnone => by
      cases hnone.1) }

/-- The record patterns in a condition fail to the label of its guard. -/
theorem guarded {patterns : List Pattern} {condition : Expr} {span : Span}
    {thenLabel elseLabel : Label} {own : List PatternId}
    (hpatterns : Sound forest (Pattern.visitsAll patterns) none own log)
    (hcondition : Sound forest condition.visits (some elseLabel) condition.guardRecords log')
    (hapart : Visit.Apart (Pattern.visitsAll patterns) condition.visits) :
    Sound forest (Pattern.guarded id patterns condition span).visits outer records
      (⟨[], [⟨id, thenLabel, elseLabel⟩], []⟩ ++ (log ++ log')) := by
  have hboth : Sound forest (Pattern.visitsAll patterns ++ condition.visits) (some elseLabel)
      ([] ++ condition.guardRecords) (log ++ log') := hpatterns.of_none.append hcondition hapart
  have hall := hboth.mono
    (List.sublist_cons_self (.pattern (.guarded id patterns condition span)) _) (List.Subset.refl _)
  refine ⟨hboth.guards.cons_cons id, hall.tested, fun note hnote => .inr ?_, hall.inside,
    hall.agree⟩
  rcases hall.noted note hnote with ⟨hlabel, hrecord⟩ | ⟨plan, hplan, hlabel, howned⟩
  · exact ⟨_, List.mem_cons_self, Option.some.inj hlabel, patterns, condition, span,
      List.mem_cons_self, hrecord⟩
  · exact ⟨plan, List.mem_cons_of_mem _ hplan, hlabel, howned⟩

end Sound

/-- What is logged for a pattern, where `onFalse` is its false target. -/
structure ForPattern (forest : Forest) (facts : Facts) (pattern : Pattern) (static : Ty)
    (outer onFalse : Option Label) (log : PlanLog) : Prop where
  tests : log.tests.map Prod.fst = pattern.tested facts static
  sound : log.Sound forest pattern.visits outer pattern.guardRecords
  fails : ∀ fail, onFalse = some fail → log.FailsTo fail pattern.unguarded

/-- What is logged for a condition. -/
structure ForCondition (forest : Forest) (facts : Facts) (expr : Expr) (outer : Option Label)
    (log : PlanLog) : Prop where
  tests : log.tests.map Prod.fst = expr.tested facts
  sound : log.Sound forest expr.visits outer expr.guardRecords

section

variable {forest : Forest} {facts : Facts} {id : PatternId} {span : Span} {static : Ty}
  {outer onFalse : Option Label} {log log' : PlanLog}

theorem ForPattern.record {ty : TypeRef} {components : List Pattern} {fail : Label}
    (hown : forest.pattern id = .record id ty components span)
    (htests : log.tests.map Prod.fst = Pattern.testedComponents facts components
      (facts.pool.componentTypes (facts.table.patternType id)))
    (hsound : log.Sound forest (Pattern.visitsAll components) outer
      (Pattern.guardRecordsAll components))
    (hfails : log.FailsTo fail (Pattern.unguardedAll components))
    (hapart : Visit.Apart (Pattern.visitsAll components) [.pattern (.record id ty components span)])
    (hfail : ∀ label, onFalse = some label → label = fail) :
    ForPattern forest facts (.record id ty components span) static outer onFalse
      (⟨[], [], if outer = some fail then [(id, fail)] else []⟩ ++
        (.probe facts id static fail ++ log)) := by
  refine ⟨?_, .record hown hsound hfails hapart, fun label hlabel => ?_⟩
  · rw [map_fst_append, map_fst_append, map_fst_probe, htests]
    rfl
  · rw [hfail label hlabel]
    exact hfails.record fun test htest heq => hapart.not_met (hsound.tested test htest)
      ⟨_, List.mem_singleton_self _, heq.symm⟩

theorem ForPattern.guarded {patterns : List Pattern} {condition : Expr}
    {thenLabel elseLabel : Label} {own : List PatternId}
    (htests : log.tests.map Prod.fst = Pattern.testedAll facts patterns static)
    (hsound : log.Sound forest (Pattern.visitsAll patterns) none own)
    (htests' : log'.tests.map Prod.fst =
      if condition.skippable.isSome then [] else condition.tested facts)
    (hsound' : log'.Sound forest condition.visits (some elseLabel) condition.guardRecords)
    (hapart : Visit.Apart (Pattern.visitsAll patterns) condition.visits) :
    ForPattern forest facts (.guarded id patterns condition span) static outer onFalse
      (⟨[], [⟨id, thenLabel, elseLabel⟩], []⟩ ++ (log ++ log')) := by
  refine ⟨?_, .guarded hsound hsound' hapart, fun _ _ _ _ hpart => ?_⟩
  · rw [map_fst_append, map_fst_append, htests, htests']
    rfl
  · rw [Pattern.unguarded] at hpart
    cases hpart

end

end PlanLog

/-! ## Actions that log -/

namespace Planner

/-- A log of what was planned. -/
structure Logs (facts : Facts) (log : PlanLog) (planner after : Planner) : Prop where
  tests : after.stream.tests = planner.stream.tests ++
    log.tests.map fun test => (facts.table.patternType test.1, test.2)
  guards : after.emitted.guards.toList = planner.emitted.guards.toList ++ log.guards
  notes : after.emitted.elseTargets.toList = planner.emitted.elseTargets.toList ++ log.notes

theorem Logs.trans {facts : Facts} {log log' : PlanLog} {planner mid after : Planner}
    (h : Logs facts log planner mid) (h' : Logs facts log' mid after) :
    Logs facts (log ++ log') planner after := by
  refine ⟨?_, ?_, ?_⟩
  · rw [h'.tests, h.tests, List.append_assoc, ← List.map_append]
    rfl
  · rw [h'.guards, h.guards, List.append_assoc]
    rfl
  · rw [h'.notes, h.notes, List.append_assoc]
    rfl

/-- An action that logs something of which `post` holds. -/
structure Logged (facts : Facts) (post : PlanLog → Prop) {α : Type} (action : PlanM α) : Prop where
  ensures : ∀ planner, Ensures action planner (fun _ => True) fun _ after =>
    ∃ log, Logs facts log planner after ∧ post log

/-- An action that logs nothing. -/
structure Silent {α : Type} (action : PlanM α) : Prop where
  ensures : ∀ planner, Ensures action planner (fun _ => True) fun _ after =>
    after.stream.tests = planner.stream.tests ∧ after.emitted = planner.emitted

namespace Silent

variable {α β : Type}

theorem pure (answer : α) : Silent (Pure.pure answer : PlanM α) :=
  ⟨fun _ => Ensures.pure ⟨rfl, rfl⟩⟩

theorem bind {action : PlanM α} {next : α → PlanM β} (h : Silent action)
    (hnext : ∀ answer, Silent (next answer)) : Silent (action >>= next) :=
  ⟨fun planner => (h.ensures planner).seq fun answer mid hmid =>
    ((hnext answer).ensures mid).mono fun _ _ hafter =>
      ⟨hafter.1.trans hmid.1, hafter.2.trans hmid.2⟩⟩

theorem change {step : Stream → Stream} (h : ∀ stream, (step stream).tests = stream.tests) :
    Silent (Planner.change step) :=
  ⟨fun _ => Ensures.modifies ⟨h _, rfl⟩⟩

theorem aligns {step : Stream → Stream} (h : ∀ stream, Stream.SameCode stream (step stream)) :
    Silent (Planner.change step) :=
  change fun stream => by rw [Stream.tests, (h stream).instrs, Stream.tests]

theorem emit {instr : Instr} (h : instr.test? = none) : Silent (Planner.emit instr) :=
  change fun stream => by
    rw [Stream.tests_emit, List.filterMap_cons_none h, List.filterMap_nil, List.append_nil]

theorem goto (label : Label) : Silent (Planner.emit (.goto label)) := emit rfl

theorem newLabel : Silent Planner.newLabel := ⟨fun _ => ⟨rfl, rfl⟩⟩

theorem newValue : Silent Planner.newValue := ⟨fun _ => ⟨rfl, rfl⟩⟩

theorem require (fault? : Stream → Option Fault) : Silent (Planner.require fault?) := by
  refine ⟨fun planner => Ensures.get_bind ?_⟩
  split
  next => exact Ensures.throw trivial
  next => exact Ensures.pure ⟨rfl, rfl⟩

theorem place (label : Label) : Silent (Planner.place label) :=
  bind (require _) fun _ => change fun _ =>
    (Stream.tests_emit _ (.placeLabel label)).trans (List.append_nil _)

theorem setPhase (id : PatternId) (phase : Phase) : Silent (Planner.setPhase id phase) :=
  ⟨fun _ => Ensures.modifies ⟨rfl, rfl⟩⟩

theorem snapshot (facts : Facts) (id : PatternId) : Silent (Planner.snapshot facts id) := by
  rw [Planner.snapshot.eq_def]
  split
  next => exact pure _
  next => exact ⟨fun _ => Ensures.throw trivial⟩

theorem jump (target : Option Label) : Silent (Planner.jump target) := by
  cases target with
  | none => exact pure _
  | some label => exact goto label

theorem branch (value : ValueId) : ∀ targets : Targets, Silent (Planner.branch value targets)
  | ⟨some _, some _⟩ => bind (emit rfl) fun _ => emit rfl
  | ⟨some _, none⟩ | ⟨none, some _⟩ => emit rfl
  | ⟨none, none⟩ => pure _

theorem store (binds : Option LocalId) (value : ValueId) : Silent (Planner.store binds value) := by
  cases binds with
  | none => exact pure _
  | some id =>
    refine bind (require _) fun _ => change fun stream => ?_
    have hstore : stream.Appends 0 (stream.store id value) _ := .store
    exact (Stream.tests_of_appends hstore.instrs).trans (List.append_nil _)

theorem suspend (facts : Facts) (pattern : Pattern) : Silent (pattern.suspend facts) := by
  fun_induction Pattern.suspend facts pattern with
  | case1 _ first _ _ _ ih =>
    exact bind (snapshot ..) fun _ => bind (aligns fun _ => .closeUnassigned ..) fun _ => ih
  | case2 pattern _ => exact bind (snapshot ..) fun _ => aligns fun _ => .closeUnassigned ..

theorem resume (facts : Facts) (pattern : Pattern) : Silent (pattern.resume facts) := by
  fun_induction Pattern.resume facts pattern with
  | case1 _ first _ _ _ ih =>
    exact bind (snapshot ..) fun _ => bind (aligns fun _ => .openAssigned ..) fun _ => ih
  | case2 pattern _ => exact bind (snapshot ..) fun _ => aligns fun _ => .openAssigned ..

end Silent

namespace Logged

variable {action : PlanM α} {next : α → PlanM β}

variable {facts : Facts} {post post' : PlanLog → Prop} {α β : Type}

theorem mono (h : Logged facts post action) (hpost : ∀ log, post log → post' log) :
    Logged facts post' action :=
  ⟨fun planner => (h.ensures planner).mono fun _ _ hafter => hafter.imp fun log hlog =>
    ⟨hlog.1, hpost log hlog.2⟩⟩

theorem silent (h : Silent action) (hpost : post .nothing) :
    Logged facts post action := by
  refine ⟨fun planner => (h.ensures planner).mono fun _ after hafter => ⟨.nothing, ?_, hpost⟩⟩
  refine ⟨?_, ?_, ?_⟩
  · rw [hafter.1]
    exact (List.append_nil _).symm
  · rw [hafter.2]
    exact (List.append_nil _).symm
  · rw [hafter.2]
    exact (List.append_nil _).symm

theorem bind (h : Logged facts post action) (hnext : ∀ answer log, post log →
      Logged facts (fun rest => post' (log ++ rest)) (next answer)) :
    Logged facts post' (action >>= next) := by
  refine ⟨fun planner => (h.ensures planner).seq fun answer mid hmid => ?_⟩
  obtain ⟨log, hlog, hpost⟩ := hmid
  refine ((hnext answer log hpost).ensures mid).mono fun _ after hafter => ?_
  obtain ⟨rest, hrest, hpost'⟩ := hafter
  exact ⟨log ++ rest, hlog.trans hrest, hpost'⟩

theorem after (h : Silent action) (hnext : ∀ answer, Logged facts post (next answer)) :
    Logged facts post (action >>= next) := by
  have hnothing : Logged facts (fun log => log = .nothing) action := silent h rfl
  refine bind hnothing fun answer log hlog => ?_
  rw [hlog]
  exact hnext answer

theorem before (h : Logged facts post action) (hnext : ∀ answer, Silent (next answer)) :
    Logged facts post (action >>= next) := by
  refine bind h fun answer log hlog => silent (hnext answer) ?_
  rwa [PlanLog.append_nothing]

theorem throw (failure : Failure) : Logged facts post (MonadExcept.throw failure : PlanM α) :=
  ⟨fun _ => Ensures.throw trivial⟩

theorem noteGuard (plan : GuardPlan) :
    Logged facts (fun log => log = ⟨[], [plan], []⟩) (Planner.noteGuard plan) :=
  ⟨fun _ => Ensures.modifies ⟨_, ⟨(List.append_nil _).symm, Array.toList_push,
    (List.append_nil _).symm⟩, rfl⟩⟩

theorem noteElseTarget (id : PatternId) (label : Label) :
    Logged facts (fun log => log = ⟨[], [], [(id, label)]⟩) (Planner.noteElseTarget id label) :=
  ⟨fun _ => Ensures.modifies ⟨_, ⟨(List.append_nil _).symm, (List.append_nil _).symm,
    Array.toList_push⟩, rfl⟩⟩

theorem testType (id : PatternId) (value : ValueId) (static : Ty) (fail : Label) :
    Logged facts (fun log => log = .probe facts id static fail)
      (Planner.testType facts id value static fail) := by
  rw [Planner.testType]
  split
  next hopen =>
    have hlog : PlanLog.probe facts id static fail = ⟨[(id, fail)], [], []⟩ := by
      rw [PlanLog.probe, if_pos]
      exact hopen
    refine ⟨fun planner => Ensures.modifies ⟨_, ⟨?_, ?_, ?_⟩, rfl⟩⟩
    · rw [hlog]
      exact Stream.tests_emit ..
    · rw [hlog]
      exact (List.append_nil _).symm
    · rw [hlog]
      exact (List.append_nil _).symm
  next hclosed =>
    refine silent (.pure _) ?_
    rw [PlanLog.probe, if_neg]
    · rfl
    · exact hclosed

/-- A test is planned with the label to which it fails, which is the false target if there is
one. -/
theorem withFailure (targets : Targets) (enclosing : Enclosing) {test : Label → PlanM Unit}
    (htest : ∀ fail, (∀ label, targets.whenFalse = some label → label = fail) →
      Logged facts post (test fail)) :
    Logged facts post (Planner.withFailure targets enclosing test) := by
  rw [Planner.withFailure]
  split
  next fail hfail =>
    refine before (htest fail fun label hlabel => ?_) fun _ => .jump _
    rw [hlabel] at hfail
    exact Option.some.inj hfail
  next hnone =>
    refine after .newLabel fun fail => before (htest fail fun label hlabel => ?_) fun _ =>
      .bind (.jump _) fun _ => .place _
    rw [hlabel] at hnone
    cases hnone

end Logged

end Planner

/-! ## Planning -/

theorem Expr.tested_operand {facts : Facts} {expr : Expr} (h : expr.IsOperand) :
    expr.tested facts = [] := by
  rw [Expr.tested.eq_def]
  split <;> first | cases h | rfl

open Planner in
/-- An operand is evaluated as a whole. -/
theorem Expr.operand_logged {facts : Facts} {expr : Expr} (h : expr.IsOperand) (targets : Targets)
    (enclosing : Enclosing) :
    Logged facts (PlanLog.ForCondition forest facts expr enclosing.guardElse)
      (expr.plan facts targets enclosing) := by
  rw [Expr.plan_operand h]
  exact .after .newValue fun value => .after (.emit rfl) fun _ =>
    .silent (.branch value targets) ⟨(Expr.tested_operand h).symm, .nothing⟩

open Planner in
mutual

theorem Pattern.plan_logged (facts : Facts) : ∀ (pattern : Pattern),
    (∀ visit ∈ pattern.visits, forest.Owns visit) → Visit.Distinct pattern.visits →
      ∀ (value : ValueId) (static : Ty) (targets : Targets) (enclosing : Enclosing),
    Logged facts
      (PlanLog.ForPattern forest facts pattern static enclosing.guardElse targets.whenFalse)
      (pattern.plan facts value static targets enclosing)
  | .type id ty binds span, _, _, value, static, targets, enclosing => by
    rw [Pattern.plan]
    refine .withFailure targets enclosing fun fail hfail => ?_
    refine .before ((Logged.testType id value static fail).mono ?_) fun _ => .store ..
    rintro log rfl
    refine ⟨PlanLog.map_fst_probe .., .probe ⟨_, Pattern.self_mem_visits _, rfl⟩, ?_⟩
    intro label hlabel
    rw [hfail label hlabel]
    exact .probe
  | .record id ty components span, howns, hdistinct, value, static, targets, enclosing => by
    obtain ⟨hcomponents, hapart⟩ := Visit.Distinct.cons hdistinct
    have hown : forest.pattern id = .record id ty components span :=
      howns _ (Pattern.self_mem_visits _)
    rw [Pattern.plan]
    refine .withFailure targets enclosing fun fail hfail => ?_
    have hrest : Logged facts (fun rest => PlanLog.ForPattern forest facts
        (.record id ty components span) static enclosing.guardElse targets.whenFalse
        (⟨[], [], if enclosing.guardElse = some fail then [(id, fail)] else []⟩ ++ rest)) (do
        testType facts id value static fail
        Pattern.planComponents facts components 0
          (facts.pool.componentTypes (facts.table.patternType id)) value fail enclosing) := by
      refine .bind (.testType id value static fail) fun _ own hlog => ?_
      rw [hlog]
      refine (Pattern.planComponents_logged facts components (fun visit hvisit =>
        howns visit (List.mem_cons_of_mem _ hvisit)) hcomponents 0 _ value fail enclosing).mono ?_
      rintro log ⟨htests, hsound, hfails⟩
      exact .record hown htests hsound hfails hapart hfail
    split
    next houter =>
      refine .bind (.noteElseTarget id fail) fun _ own hlog => ?_
      rw [hlog]
      rw [if_pos houter] at hrest
      exact hrest
    next houter =>
      rw [if_neg houter] at hrest
      exact hrest
  | .any id span, _, _, value, static, targets, enclosing => by
    rw [Pattern.plan]
    exact .withFailure targets enclosing fun fail _ =>
      .silent (.pure _) ⟨rfl, .nothing, fun _ _ => nofun⟩
  | .guarded id patterns condition span, howns, hdistinct, value, static, targets, enclosing => by
    obtain ⟨hpatterns, hcondition, hapart⟩ := (Visit.Distinct.cons hdistinct).1.append
    rw [Pattern.plan]
    refine .after (.snapshot ..) fun states => .after .newLabel fun thenLabel =>
      .after .newLabel fun elseLabel => .after (.setPhase ..) fun _ =>
      .bind (.noteGuard ⟨id, thenLabel, elseLabel⟩) fun _ own hown => ?_
    rw [hown]
    refine .bind (Pattern.planAll_logged facts patterns (fun visit hvisit =>
      howns visit (Visit.left_subset hvisit)) hpatterns value static
      elseLabel) fun _ log hlog => ?_
    have hskipped : ∀ {outcome : Bool} {exit : PlanM Unit}, condition.skippable = some outcome →
        Silent exit → Logged facts (fun rest => PlanLog.ForPattern forest facts
          (.guarded id patterns condition span) static enclosing.guardElse targets.whenFalse
          (⟨[], [⟨id, thenLabel, elseLabel⟩], []⟩ ++ (log ++ rest))) exit := by
      intro outcome exit hskip hexit
      refine .silent hexit (.guarded hlog.1 hlog.2 ?_ .nothing hapart)
      rw [hskip]
      rfl
    have hplanned : condition.skippable = none → ∀ targets' fallthrough, Logged facts (fun rest =>
        PlanLog.ForPattern forest facts (.guarded id patterns condition span) static
          enclosing.guardElse targets.whenFalse
          (⟨[], [⟨id, thenLabel, elseLabel⟩], []⟩ ++ (log ++ rest)))
        (condition.plan facts targets' ⟨some elseLabel, fallthrough⟩) := by
      intro hskip targets' fallthrough
      refine (condition.plan_logged facts (fun visit hvisit => howns visit
        (Visit.right_subset hvisit)) hcondition targets'
        ⟨some elseLabel, fallthrough⟩).mono fun rest hrest => ?_
      refine .guarded hlog.1 hlog.2 ?_ hrest.sound hapart
      rw [hskip]
      exact hrest.tests
    have htail : ∀ {exit : PlanM Unit}, Silent exit → Silent (do
        change (·.closeUnassigned facts.record.states states.resume)
        change (·.openAssigned facts.record.states states.resume)
        exit) := fun hexit =>
      .bind (.aligns fun _ => .closeUnassigned ..) fun _ =>
        .bind (.aligns fun _ => .openAssigned ..) fun _ => hexit
    obtain ⟨onTrue, onFalse⟩ := targets
    cases onTrue with
    | some success =>
      have hexit := htail (.bind (.place elseLabel) fun _ =>
        .bind (.suspend facts (.guarded id patterns condition span)) fun _ =>
          .bind (.jump onFalse) fun _ => .setPhase id .emitted)
      dsimp only
      split
      next hskip => exact hskipped hskip (.bind (.jump _) fun _ => hexit)
      next hskip => exact hskipped hskip (.bind (.goto _) fun _ => hexit)
      next hskip => exact .before (hplanned hskip _ _) fun _ => hexit
    | none =>
      have hexit := htail (.bind (.goto thenLabel) fun _ =>
        .bind (.place elseLabel) fun _ =>
        .bind (.suspend facts (.guarded id patterns condition span)) fun _ =>
          .bind (.jump onFalse) fun _ => .bind (.place thenLabel) fun _ =>
          .bind (.resume facts (.guarded id patterns condition span)) fun _ =>
          .setPhase id .emitted)
      dsimp only
      split
      next hskip => exact hskipped hskip (.bind (.jump _) fun _ => hexit)
      next hskip => exact hskipped hskip (.bind (.goto _) fun _ => hexit)
      next hskip => exact .before (hplanned hskip _ _) fun _ => hexit
  | .missing id, _, _, value, static, targets, enclosing => by
    rw [Pattern.plan]
    exact .throw _

theorem Pattern.planAll_logged (facts : Facts) : ∀ (patterns : List Pattern),
    (∀ visit ∈ Pattern.visitsAll patterns, forest.Owns visit) →
      Visit.Distinct (Pattern.visitsAll patterns) →
      ∀ (value : ValueId) (static : Ty) (fail : Label),
    Logged facts (fun log => log.tests.map Prod.fst = Pattern.testedAll facts patterns static ∧
        log.Sound forest (Pattern.visitsAll patterns) none (Pattern.guardRecordsAll patterns))
      (Pattern.planAll facts patterns value static fail)
  | [], _, _, value, static, fail => by
    rw [Pattern.planAll]
    exact .silent (.pure _) ⟨rfl, .nothing⟩
  | pattern :: patterns, howns, hdistinct, value, static, fail => by
    obtain ⟨hfirst, hrest, hapart⟩ := Visit.Distinct.append hdistinct
    rw [Pattern.planAll]
    refine .bind (pattern.plan_logged facts (fun visit hvisit =>
      howns visit (List.mem_append_left _ hvisit)) hfirst value static ⟨none, some fail⟩ .nothing)
      fun _ log hlog => ?_
    refine (Pattern.planAll_logged facts patterns (fun visit hvisit =>
      howns visit (List.mem_append_right _ hvisit)) hrest value static fail).mono ?_
    rintro rest ⟨htests, hsound⟩
    refine ⟨?_, hlog.sound.append hsound hapart⟩
    rw [PlanLog.map_fst_append, hlog.tests, htests]
    rfl

theorem Pattern.planComponents_logged (facts : Facts) :
    ∀ (patterns : List Pattern), (∀ visit ∈ Pattern.visitsAll patterns, forest.Owns visit) →
      Visit.Distinct (Pattern.visitsAll patterns) →
      ∀ (position : Nat) (types : List Ty) (whole : ValueId) (fail : Label) (enclosing : Enclosing),
    Logged facts (fun log =>
        log.tests.map Prod.fst = Pattern.testedComponents facts patterns types ∧
        log.Sound forest (Pattern.visitsAll patterns) enclosing.guardElse
          (Pattern.guardRecordsAll patterns) ∧
        log.FailsTo fail (Pattern.unguardedAll patterns))
      (Pattern.planComponents facts patterns position types whole fail enclosing)
  | [], _, _, position, types, whole, fail, enclosing => by
    rw [Pattern.planComponents]
    exact .silent (.pure _) ⟨rfl, .nothing, nofun⟩
  | pattern :: patterns, howns, hdistinct, position, types, whole, fail, enclosing => by
    obtain ⟨hfirst, hrest, hapart⟩ := Visit.Distinct.append hdistinct
    rw [Pattern.planComponents]
    refine .after .newValue fun part => .after (.emit rfl) fun _ => ?_
    refine .bind (pattern.plan_logged facts (fun visit hvisit =>
      howns visit (List.mem_append_left _ hvisit)) hfirst part _ ⟨none, some fail⟩ enclosing)
      fun _ log hlog => ?_
    refine (Pattern.planComponents_logged facts patterns (fun visit hvisit =>
      howns visit (List.mem_append_right _ hvisit)) hrest (position + 1) types.tail whole fail
      enclosing).mono ?_
    rintro rest ⟨htests, hsound, hfails⟩
    refine ⟨?_, hlog.sound.append hsound hapart, (hlog.fails fail rfl).append hfails ?_ ?_⟩
    · rw [PlanLog.map_fst_append, hlog.tests, htests]
      rfl
    · exact fun test htest hpart => hapart.not_met (hlog.sound.tested test htest)
        (Pattern.met_of_unguardedAll patterns hpart)
    · exact fun test htest hpart => hapart.not_met (pattern.met_of_unguarded hpart)
        (hsound.tested test htest)

theorem Expr.plan_logged (facts : Facts) : ∀ (expr : Expr),
    (∀ visit ∈ expr.visits, forest.Owns visit) → Visit.Distinct expr.visits →
      ∀ (targets : Targets) (enclosing : Enclosing),
    Logged facts (PlanLog.ForCondition forest facts expr enclosing.guardElse)
      (expr.plan facts targets enclosing)
  | .bool id value span, _, _, targets, enclosing => by
    rw [Expr.plan]
    exact .silent (.jump _) ⟨rfl, .nothing⟩
  | .unary id .not operand span, howns, hdistinct, targets, enclosing => by
    rw [Expr.plan]
    refine (operand.plan_logged facts (fun visit hvisit =>
      howns visit (List.mem_cons_of_mem _ hvisit)) hdistinct.cons.1 targets.swap
      enclosing.withoutFallthrough).mono ?_
    rintro log ⟨htests, hsound⟩
    exact ⟨htests, hsound.mono (List.sublist_cons_self ..) (List.Subset.refl _)⟩
  | .binary id op left right span, howns, hdistinct, targets, enclosing => by
    obtain ⟨hleft, hright, hapart⟩ := hdistinct.cons.1.append
    have hsecond := right.plan_logged facts (fun visit hvisit => howns visit
      (Visit.right_subset hvisit)) hright targets enclosing
    have honly : (Expr.binary id op left right span).tested facts = right.tested facts →
        Logged facts (PlanLog.ForCondition forest facts (.binary id op left right span)
          enclosing.guardElse) (right.plan facts targets enclosing) := by
      intro htested
      refine hsecond.mono fun log hlog => ⟨hlog.tests.trans htested.symm, hlog.sound.mono ?_ ?_⟩
      · exact .cons _ (List.sublist_append_right ..)
      · exact List.subset_append_right ..
    have hboth : (Expr.binary id op left right span).tested facts =
          left.tested facts ++ right.tested facts → ∀ first : Targets,
        Logged facts (PlanLog.ForCondition forest facts (.binary id op left right span)
          enclosing.guardElse) (do
          left.plan facts first enclosing.withoutFallthrough
          right.plan facts targets enclosing) := by
      intro htested first
      refine .bind (left.plan_logged facts (fun visit hvisit => howns visit
        (Visit.left_subset hvisit)) hleft first
        enclosing.withoutFallthrough) fun _ log hlog => hsecond.mono fun rest hrest => ?_
      refine ⟨?_, (hlog.sound.append hrest.sound hapart).mono (List.sublist_cons_self ..)
        (List.Subset.refl _)⟩
      rw [PlanLog.map_fst_append, hlog.tests, hrest.tests, htested]
    cases op with
    | and =>
      rw [Expr.tested] at honly hboth
      rw [Expr.plan]
      cases hskip : left.skippable with
      | some outcome =>
        cases outcome with
        | true =>
          rw [hskip] at honly
          exact honly rfl
        | false =>
          refine .silent (.jump _) ⟨?_, .nothing⟩
          rw [Expr.tested, hskip]
          rfl
      | none =>
        rw [hskip] at hboth
        dsimp only
        split
        next => exact hboth rfl _
        next =>
          refine .after .newLabel fun fail => ?_
          rw [← bind_assoc]
          exact .before (hboth rfl _) fun _ => .place fail
    | or =>
      rw [Expr.tested] at honly hboth
      rw [Expr.plan]
      cases hskip : left.skippable with
      | some outcome =>
        cases outcome with
        | false =>
          rw [hskip] at honly
          exact honly rfl
        | true =>
          refine .silent (.jump _) ⟨?_, .nothing⟩
          rw [Expr.tested, hskip]
          rfl
      | none =>
        rw [hskip] at hboth
        dsimp only
        split
        next => exact hboth rfl _
        next =>
          refine .after .newLabel fun success => ?_
          rw [← bind_assoc]
          exact .before (hboth rfl _) fun _ => .place success
    | eq | notEq | lt | ltEq | gt | gtEq | add | sub | mul | div | rem =>
      refine Expr.operand_logged ?_ targets enclosing
      rfl
  | .instanceOf id tested pattern span, howns, hdistinct, targets, enclosing => by
    rw [Expr.plan]
    refine .after .newValue fun value => .after (.emit rfl) fun _ =>
      (pattern.plan_logged facts (fun visit hvisit => howns visit (List.mem_cons_of_mem _
        (List.mem_append_right _ hvisit))) hdistinct.cons.1.append.2.1 value _ targets
        enclosing).mono ?_
    rintro log ⟨htests, hsound, -⟩
    exact ⟨htests, hsound.mono (.cons _ (List.sublist_append_right ..))
      (List.subset_append_right ..)⟩
  | .missing id, _, _, targets, enclosing => by
    rw [Expr.plan]
    exact .throw _
  | .int .., _, _, targets, enclosing | .ident .., _, _, targets, enclosing
  | .field .., _, _, targets, enclosing | .call .., _, _, targets, enclosing
  | .unary _ .neg _ _, _, _, targets, enclosing => by
    refine Expr.operand_logged ?_ targets enclosing
    trivial

end

/-! ## Agreement -/

/-- A plan is found by its guarded pattern, if there are no two plans for one pattern. -/
theorem Emitted.planOf?_eq_some {emitted : Emitted} {plan : GuardPlan}
    (h : (emitted.guards.toList.map (·.pattern)).Nodup) (hplan : plan ∈ emitted.guards.toList) :
    emitted.planOf? plan.pattern = some plan := by
  rw [planOf?, ← Array.find?_toList]
  cases hfind : emitted.guards.toList.find? (·.pattern == plan.pattern) with
  | none =>
    have hnone := List.find?_eq_none.mp hfind plan hplan
    simp at hnone
  | some found =>
    have hpattern : found.pattern = plan.pattern := by simpa using List.find?_some hfind
    rw [List.inj_on_of_nodup_map h (List.mem_of_find?_eq_some hfind) hplan hpattern]

/-- What a call generates is logged, and the answer is this part of the log. -/
theorem Pattern.generate_logged (facts : Facts) {pattern : Pattern}
    (howns : ∀ visit ∈ pattern.visits, forest.Owns visit)
    (hdistinct : Visit.Distinct pattern.visits) (value : ValueId) (static : Ty) (targets : Targets)
    (planner : Planner) :
    Ensures (pattern.generate facts value static targets) planner (fun _ => True)
      fun emitted after => ∃ log : PlanLog,
        log.ForPattern forest facts pattern static none targets.whenFalse ∧
        after.stream.tests = planner.stream.tests ++
          log.tests.map (fun test => (facts.table.patternType test.1, test.2)) ∧
        emitted.guards.toList = log.guards ∧ emitted.elseTargets.toList = log.notes := by
  refine ((Planner.Silent.snapshot ..).ensures planner).seq fun _ start hstart => ?_
  refine Ensures.modify_bind ?_
  refine ((pattern.plan_logged facts howns hdistinct value static targets
    .nothing).ensures _).seq fun _ after hafter => ?_
  obtain ⟨log, hlogs, hlog⟩ := hafter
  refine Ensures.get_bind (Ensures.modify_bind (Ensures.pure ⟨log, hlog, ?_, ?_, ?_⟩))
  · rw [← hstart.1]
    exact hlogs.tests
  · exact hlogs.guards
  · exact hlogs.notes

/-- **Resolution and planning agree on where record patterns in conditions fail to.**  If each node
of an arena is referred to once, a resolved record pattern is noted for the innermost guarded
pattern with it in its condition.  The tests in the code generated for a pattern belong to patterns
in order.  If a record pattern is noted with a label in this call, the label is the else label of
the guarded pattern for which resolution noted it, and every test that belongs to the record pattern
or to its components, down to guarded patterns, fails to this label. -/
theorem else_targets_owned {arena : Arena} {pool : Pool} {id : PatternId} {expected : Ty}
    {scope : Scope} {resolved : Resolved} {record : FlowRecord} {flow : Flow} {analysed : Analysed}
    (honce : (arena.references []).Nodup)
    (hresolved : arena.forest.resolvePattern pool .empty id expected scope = .ok resolved)
    (hanalysed : arena.forest.analysePattern resolved.table record id flow = .ok analysed) :
    (∀ part owner, resolved.table.elseOwners[part]? = some owner ↔ ∃ patterns condition span,
      .pattern (.guarded owner patterns condition span) ∈ (arena.forest.pattern id).visits ∧
      part ∈ condition.visits.filterMap Visit.record? ∧
      ∀ inner, .pattern inner ∈ condition.visits → ¬ inner.Guards part) ∧
    ∀ (planner : Planner) (value : ValueId) (static : Ty) (targets : Targets) (emitted : Emitted)
      (after : Planner), EStateM.run ((arena.forest.pattern id).generate
        ⟨pool, resolved.table, analysed.record⟩ value static targets) planner = .ok emitted after →
      ∃ tests : List (PatternId × Label),
        tests.map Prod.fst = (arena.forest.pattern id).tested
          ⟨pool, resolved.table, analysed.record⟩ static ∧
        after.stream.tests = planner.stream.tests ++
          tests.map (fun test => (resolved.table.patternType test.1, test.2)) ∧
        ∀ part label, (part, label) ∈ emitted.elseTargets → ∃ owner plan,
          resolved.table.elseOwners[part]? = some owner ∧
          emitted.planOf? owner = some plan ∧ plan.elseLabel = label ∧
          ∀ test ∈ tests, test.1 ∈ (arena.forest.pattern part).unguarded → test.2 = label := by
  have hunbroken : Unbroken (arena.forest.visitsOf (.pattern id)) :=
    (FlowRecord.covers_of_run ((arena.forest.pattern id).analyse_walks_anyhow resolved.table
      arena.forest.locals flow).covers hanalysed).covered.unbroken
  have hdistinct : Visit.Distinct (arena.forest.pattern id).visits :=
    (arena.grounded_of_unbroken hunbroken).nodup_nodesOf honce
  refine ⟨Resolution.elseOwners_iff hdistinct hresolved, ?_⟩
  intro planner value static targets emitted after hgenerated
  obtain ⟨log, hlog, htests, hguards, hnotes⟩ :=
    (Pattern.generate_logged ⟨pool, resolved.table, analysed.record⟩
      (arena.owns_of_unbroken hunbroken) hdistinct value static targets planner).of_ok hgenerated
  refine ⟨log.tests, hlog.tests, htests, fun part label hpart => ?_⟩
  have hnote : (part, label) ∈ log.notes := hnotes ▸ hpart.val
  rcases hlog.sound.noted _ hnote with ⟨hnone, -⟩ | ⟨plan, hplan, hlabel, howned⟩
  · cases hnone
  · have hnodup : (emitted.guards.toList.map (·.pattern)).Nodup :=
      hguards ▸ List.Nodup.sublist hlog.sound.guards hdistinct.guards
    exact ⟨plan.pattern, plan,
      (Resolution.elseOwners_iff_owned hdistinct hresolved part plan.pattern).mpr howned,
      Emitted.planOf?_eq_some hnodup (hguards ▸ hplan), hlabel, hlog.sound.agree _ hnote⟩

/-- `Box(Object content) && content instanceof Box(Object inner) && inner instanceof
(Box(Object last) && last instanceof Box(Dot()))`. -/
def boxesInBoxes : Arena where
  patterns := #[.type ⟨some "Object", Span.none⟩ (some 0) Span.none,
    .record ⟨some "Box", Span.none⟩ [0] Span.none,
    .type ⟨some "Object", Span.none⟩ (some 1) Span.none,
    .record ⟨some "Box", Span.none⟩ [2] Span.none,
    .type ⟨some "Object", Span.none⟩ (some 2) Span.none,
    .record ⟨some "Box", Span.none⟩ [4] Span.none, .record ⟨some "Dot", Span.none⟩ [] Span.none,
    .record ⟨some "Box", Span.none⟩ [6] Span.none, .guarded [5] 1 Span.none,
    .guarded [1] 6 Span.none]
  exprs := #[.ident "last" Span.none, .instanceOf 0 7 Span.none, .ident "inner" Span.none,
    .instanceOf 2 8 Span.none, .ident "content" Span.none, .instanceOf 4 3 Span.none,
    .binary .and 5 3 Span.none]
  locals := #[⟨"content", Span.none⟩, ⟨"inner", Span.none⟩, ⟨"last", Span.none⟩]

/-- The box with the dot belongs to the inner guard, and its tests fail to the else label of this
guard. -/
theorem else_targets_owned_boxesInBoxes : (boxesInBoxes.references []).Nodup ∧
    ∃ resolved analysed emitted after,
      boxesInBoxes.forest.resolvePattern Pool.shapes .empty 9 Ty.object .empty = .ok resolved ∧
      boxesInBoxes.forest.analysePattern resolved.table .empty 9 (.initial []) = .ok analysed ∧
      EStateM.run ((boxesInBoxes.forest.pattern 9).generate
        ⟨Pool.shapes, resolved.table, analysed.record⟩ 0 Ty.object ⟨none, none⟩)
        (Planner.new true) = .ok emitted after ∧
      emitted.elseTargets = #[(3, 1), (7, 3), (6, 3)] ∧
      ∃ tests : List (PatternId × Label), tests.map Prod.fst = [1, 3, 5, 7, 6] ∧
        after.stream.tests = tests.map (fun test => (resolved.table.patternType test.1, test.2)) ∧
        (∀ test ∈ tests, test.1 ∈ [7, 6] → test.2 = 3) ∧
        ∃ plan, resolved.table.elseOwners[7]? = some 8 ∧ emitted.planOf? 8 = some plan ∧
          plan.elseLabel = 3 := by
  have honce : (boxesInBoxes.references []).Nodup := by decide
  have hruns : (do
      let resolved ← (boxesInBoxes.forest.resolvePattern Pool.shapes .empty 9 Ty.object
        .empty).toOption
      let analysed ← (boxesInBoxes.forest.analysePattern resolved.table .empty 9
        (.initial [])).toOption
      let emitted ← EStateM.run' ((boxesInBoxes.forest.pattern 9).generate
        ⟨Pool.shapes, resolved.table, analysed.record⟩ 0 Ty.object ⟨none, none⟩) (Planner.new true)
      return (emitted.elseTargets, resolved.table.elseOwners[(7 : PatternId)]?,
        (boxesInBoxes.forest.pattern 9).tested ⟨Pool.shapes, resolved.table, analysed.record⟩
          Ty.object)) = some (#[(3, 1), (7, 3), (6, 3)], some 8, [1, 3, 5, 7, 6]) := by
    decide +kernel
  cases hresolved : boxesInBoxes.forest.resolvePattern Pool.shapes .empty 9 Ty.object .empty with
  | error fault => simp [hresolved, Except.toOption] at hruns
  | ok resolved =>
    rw [hresolved, Except.toOption, Option.bind_eq_bind, Option.bind_some] at hruns
    cases hanalysed : boxesInBoxes.forest.analysePattern resolved.table .empty 9 (.initial []) with
    | error fault => simp [hanalysed, Except.toOption] at hruns
    | ok analysed =>
      rw [hanalysed, Except.toOption, Option.bind_eq_bind, Option.bind_some] at hruns
      delta EStateM.run' at hruns
      cases hgenerated : EStateM.run ((boxesInBoxes.forest.pattern 9).generate
          ⟨Pool.shapes, resolved.table, analysed.record⟩ 0 Ty.object ⟨none, none⟩)
          (Planner.new true) with
      | error failure after => simp [hgenerated] at hruns
      | ok emitted after =>
        rw [hgenerated] at hruns
        obtain ⟨hnotes, howner, htested⟩ : emitted.elseTargets = _ ∧ _ ∧ _ := by
          simpa using hruns
        obtain ⟨tests, htests, hstream, hparts⟩ :=
          (else_targets_owned honce hresolved hanalysed).2 _ _ _ _ _ _ hgenerated
        have hseven : (boxesInBoxes.forest.pattern 7).unguarded = [7, 6] := by decide +kernel
        obtain ⟨owner, plan, howner', hplan, hlabel, hfail⟩ := hparts 7 3 (by simp [hnotes])
        cases howner.symm.trans howner'
        rw [hseven] at hfail
        exact ⟨honce, resolved, analysed, emitted, after, rfl, hanalysed, hgenerated, hnotes, tests,
          htests.trans htested, hstream, hfail, plan, howner, hplan, hlabel⟩

end GuardedMatch
