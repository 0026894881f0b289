import GuardedMatch.Proofs.Tracking

/-!
# The local table of a compiled unit

The roots of a unit are planned one after the other.  The ranges of the locals that the patterns of
a root bind are ended before the next root starts, but not those of locals that conditions bind.

* `CompilationUnit.analyse_rooted`: what the analysis of a unit leaves for the planning of its
  roots.
* `Pattern.wrapUp_closes`: which ranges are ended with a root.
* `CompilationUnit.ranges_stored`: the ranges of a local that no condition binds cover only code
  that comes after a store of it.
* `CompilationUnit.range_unstored_stringOrFlag`: the range of a local that a condition binds may
  cover more.
-/

namespace GuardedMatch

/-! ## Roots as they are analysed -/

namespace Analyser.Leaves

variable {visits : List Visit} {α : Type} {post post' : α → FlowRecord → Prop}

theorem both {action : FlowM α} (h : Leaves visits action post) (h' : Leaves visits action post') :
    Leaves visits action fun answer record => post answer record ∧ post' answer record := by
  refine ⟨fun state => ((h.ensures state).and (h'.ensures state)).mono ?_⟩
  intro answer after hafter
  exact ⟨hafter.1.1, fun record hkept => ⟨hafter.1.2 record hkept, hafter.2.2 record hkept⟩⟩

theorem discard {action : FlowM α} {left : FlowRecord → Prop}
    (h : Leaves visits action fun _ => left) :
    Leaves visits (Functor.discard action) fun _ => left :=
  ⟨fun state => Ensures.discards ((h.ensures state).mono fun _ _ hafter => hafter)⟩

/-- What is left for each item, if no two of them meet a pattern. -/
theorem forM {step : α → FlowM PUnit} {visitsOf : α → List Visit} {left : α → FlowRecord → Prop} :
    ∀ (items : List α), Visit.Distinct (items.flatMap visitsOf) →
    (∀ item ∈ items, Visit.Distinct (visitsOf item) →
      Leaves (visitsOf item) (step item) fun _ => left item) →
    Leaves (items.flatMap visitsOf) (items.forM step) fun _ record =>
      ∀ item ∈ items, left item record
  | [], _, _ => .pure fun _ _ hitem => by cases hitem
  | item :: items, hdistinct, h => by
    rw [List.flatMap_cons] at hdistinct
    obtain ⟨hfirst, hrest, hapart⟩ := hdistinct.append
    rw [List.forall_mem_cons] at h
    refine .bind (h.1 hfirst) hapart fun _ _ => (forM items hrest h.2).imp ?_
    intro _ record hitems hitem
    exact List.forall_mem_cons.mpr ⟨hitem, hitems⟩

end Analyser.Leaves

/-- What is recorded for a root that starts where the local is not assigned. -/
structure Pattern.Rooted (pattern : Pattern) (bound : LocalId) (record : FlowRecord) : Prop where
  recorded : ∃ (assigned : LocalSet) (before after : FlowState), assigned.contains bound = false ∧
    before.BackedBy (.reached assigned) [] ∧ pattern.Recorded record bound before after
  bounds : .binding bound ∉ pattern.visits → ∀ other, .pattern other ∈ pattern.visits →
    record.Bounds bound False other.id

section

variable {table : Resolution} {locals : Array LocalDecl} {bound : LocalId} {assigned : LocalSet}

open Analyser

theorem FlowState.BackedBy.not_holds {before : FlowState}
    (h : before.BackedBy (.reached assigned) []) (hassigned : assigned.contains bound = false) :
    ¬ before.Holds bound := by
  intro hholds
  rcases h bound hholds.isAssigned with hreached | hstored
  · simp [FlowState.isAssigned, FlowState.reached, hassigned] at hreached
  · cases hstored

/-- The flow after a selector is plain, and nothing has been assigned. -/
theorem Expr.analyse_selector (expr : Expr) (happlied : AppliedIn expr.visits)
    (hselector : ¬ expr.IsCondition) :
    Leaves expr.visits (expr.analyse table locals (.plain (.reached assigned))) fun after _ =>
      ∃ before, after = .plain before ∧ before.BackedBy (.reached assigned) [] := by
  refine ((Leaves.of_covers (expr.analyse_walks_anyhow table locals _).covers).and
    (expr.analyse_backed table locals happlied _)).imp ?_
  rintro after record ⟨-, hbacks⟩
  obtain ⟨before, rfl⟩ := hbacks.plain hselector
  exact ⟨before, rfl, hbacks.joined⟩

theorem Pattern.analyse_rooted (pattern : Pattern) (happlied : AppliedIn pattern.visits)
    (hdistinct : Visit.Distinct pattern.visits)
    (hbound : ∀ expr, .expr expr ∈ pattern.visits → .binding bound ∉ expr.visits)
    (hassigned : assigned.contains bound = false) {before : FlowState}
    (hbefore : before.BackedBy (.reached assigned) []) :
    Leaves pattern.visits (pattern.analyse table locals (.plain before)) fun _ =>
      pattern.Rooted bound := by
  have hrecorded := pattern.analyse_recorded table locals bound happlied hdistinct hbound before
  by_cases hbinds : .binding bound ∈ pattern.visits
  · refine hrecorded.imp ?_
    rintro _ record ⟨after, rfl, hafter⟩
    exact ⟨⟨assigned, before, after, hassigned, hbefore, hafter⟩, fun hnot => absurd hbinds hnot⟩
  · have hbounds : Bounded bound False pattern.visits
        (pattern.analyse table locals (.plain before)) :=
      pattern.analyse_bounds table locals hbinds _ fun hholds =>
        hbefore.not_holds hassigned (Flow.holds_plain.mp hholds)
    refine (hrecorded.both hbounds).imp ?_
    rintro _ record ⟨⟨after, rfl, hafter⟩, -, hvisits⟩
    exact ⟨⟨assigned, before, after, hassigned, hbefore, hafter⟩, fun _ => hvisits⟩

end

namespace CompilationUnit

open Analyser

/-- Where nothing is referred to twice, a unit meets no node twice. -/
theorem distinct_visits {unit : CompilationUnit} (hacyclic : unit.arena.Acyclic)
    (honce : (unit.arena.references unit.roots).Nodup) :
    Visit.Distinct (unit.visits unit.arena.forest) := by
  rw [Visit.Distinct, visits, List.filterMap_flatMap]
  exact hacyclic.nodup_roots honce

section

variable {unit : CompilationUnit} {forest : Forest} {bound : LocalId} {table : Resolution}
  (happlied : AppliedIn (unit.visits forest))
  (hselectors : ∀ id scope, (.expr id, scope) ∈ unit.entries → ¬ (forest.expr id).IsCondition)
  (hscopes : ∀ entry ∈ unit.entries, bound ∉ entry.2.locals)
  (hbound : ∀ expr, .expr expr ∈ unit.visits forest → bound ∉ expr.allLocals)

include happlied hselectors in
theorem selector_leaves {id : ExprId} {scope : Scope}
    (hentry : (.expr id, scope) ∈ unit.entries) :
    Leaves (forest.expr id).visits
      ((forest.expr id).analyse table forest.locals (Flow.initial scope.locals)) fun after _ =>
        ∃ before, after = .plain before ∧
          before.BackedBy (.reached (LocalSet.ofList scope.locals)) [] :=
  (forest.expr id).analyse_selector (happlied.mono (visitsOf_subset hentry))
    (hselectors id scope hentry)

include happlied hscopes hbound in
theorem pattern_leaves {id : PatternId} {scope : Scope}
    (hentry : (.pattern id, scope) ∈ unit.entries)
    (hdistinct : Visit.Distinct (forest.pattern id).visits) {before : FlowState}
    (hbefore : before.BackedBy (.reached (LocalSet.ofList scope.locals)) []) :
    Leaves (forest.pattern id).visits
      ((forest.pattern id).analyse table forest.locals (.plain before)) fun _ =>
        (forest.pattern id).Rooted bound := by
  have hsub : (forest.pattern id).visits ⊆ unit.visits forest := visitsOf_subset hentry
  refine (forest.pattern id).analyse_rooted (happlied.mono hsub) hdistinct (fun expr hexpr => ?_) ?_
    hbefore
  · rw [← Expr.mem_allLocals]
    exact hbound expr (hsub hexpr)
  · rw [← Bool.not_eq_true, LocalSet.contains_ofList]
    exact hscopes _ hentry

include happlied hselectors hscopes hbound in
/-- **What the analysis of a unit leaves for the planning of its roots.** -/
theorem analyse_rooted (hdistinct : Visit.Distinct (unit.visits forest)) :
    Leaves (unit.visits forest) (unit.analyseAll table forest) fun _ record =>
      (∀ site ∈ unit.sites, (forest.pattern site.pattern).Rooted bound record) ∧
      ∀ switch ∈ unit.switches, ∀ id ∈ switch.cases, (forest.pattern id).Rooted bound record := by
  rw [visits_eq] at hdistinct ⊢
  obtain ⟨hsites, hswitches, hapart⟩ := hdistinct.append
  rw [analyseAll]
  refine .bind (.forM _ hsites fun site hsite hdistinct => ?_) hapart fun _ _ =>
    (Leaves.forM _ hswitches fun switch hswitch hdistinct => ?_).imp fun _ record h h' => ⟨h', h⟩
  · obtain ⟨hselector, hpattern⟩ := mem_entries_of_site hsite
    obtain ⟨-, hrest, hapart⟩ := hdistinct.append
    refine .bind (selector_leaves happlied hselectors hselector) hapart ?_
    rintro _ ⟨_, before, rfl, hbefore⟩
    exact (pattern_leaves happlied hscopes hbound hpattern hrest hbefore).discard.imp
      fun _ record h _ => h
  · obtain ⟨hselector, hcases⟩ := mem_entries_of_switch hswitch
    obtain ⟨-, hrest, hapart⟩ := hdistinct.append
    refine .bind (selector_leaves happlied hselectors hselector) hapart ?_
    rintro _ ⟨_, before, rfl, hbefore⟩
    refine (Leaves.forM _ hrest fun id hid hdistinct => ?_).imp fun _ record h _ => h
    exact (pattern_leaves happlied hscopes hbound (hcases id hid) hdistinct hbefore).discard

end

end CompilationUnit

/-! ## Roots as they are planned -/

namespace Stream

/-- The state of planning between two roots: no range of the local is open. -/
structure Idle (id : LocalId) (stream : Stream) : Prop where
  tabled : stream.Tabled id
  targets : stream.Targeted
  closed : stream.isLive id = false

namespace Idle

variable {id : LocalId} {stream after : Stream}

theorem congr (h : stream.Idle id) (hinstrs : after.instrs = stream.instrs)
    (hranges : after.ranges = stream.ranges) (hlive : after.live = stream.live)
    (hlabels : stream.labels.size ≤ after.labels.size) : after.Idle id := by
  refine ⟨h.tabled.congr hinstrs hranges hlive, h.targets.congr hinstrs hlabels, ?_⟩
  rw [isLive, hlive]
  exact h.closed

theorem emit (h : stream.Idle id) {instr : Instr}
    (htarget : ∀ label ∈ instr.target?, label < stream.labels.size) :
    (stream.emit instr).Idle id := by
  refine ⟨h.tabled.emit fun _ hlive => ?_, h.targets.emit htarget, h.closed⟩
  rw [h.closed] at hlive
  cases hlive

theorem place (h : stream.Idle id) (label : Label) : (stream.place label).Idle id := by
  have hmarked : ({ stream with labels := stream.labels.setIfInBounds label true } :
      Stream).Idle id := h.congr rfl rfl rfl (by rw [Array.size_setIfInBounds])
  exact hmarked.emit fun _ hlabel => by cases hlabel

theorem newLabel (h : stream.Idle id) : stream.newLabel.2.Idle id :=
  h.congr rfl rfl rfl stream.lt_newLabel.le

theorem evaluate (h : stream.Idle id) (expr : ExprId) :
    (stream.newValue.2.emit (.evalOperand stream.valueCount expr)).Idle id := by
  have hnew : stream.newValue.2.Idle id := h.congr rfl rfl rfl le_rfl
  exact hnew.emit fun _ hlabel => by cases hlabel

/-- A root starts with what is assigned at the origin. -/
theorem stands (h : stream.Idle id) {origin before : FlowState}
    (hbefore : before.BackedBy origin []) : stream.Stands id origin before := by
  refine ⟨h.tabled, h.targets, fun hlive => ?_, fun _ _ => hbefore.of_nil⟩
  rw [h.closed] at hlive
  cases hlive

theorem inside (h : stream.Idle id) :
    stream.Inside id False stream.labels.size stream.fronts.here := by
  refine ⟨h.tabled, le_rfl, .start h.targets.unused, fun hlive => ?_, False.elim⟩
  rw [h.closed] at hlive
  cases hlive

end Idle

end Stream

section

variable {facts : Facts} {id : LocalId}

open Planner

/-- **Which ranges are ended with a root.**  Conditions are not looked into. -/
theorem Pattern.wrapUp_closes (pattern : Pattern)
    (hbound : ∀ expr, .expr expr ∈ pattern.visits → .binding id ∉ expr.visits) {planner : Planner}
    (htabled : planner.stream.Tabled id) :
    Ensures (pattern.wrapUp true) planner (fun _ => True) fun _ after => after.stream.Tabled id ∧
      (after.stream.isLive id = true →
        planner.stream.isLive id = true ∧ .binding id ∉ pattern.visits) := by
  refine (pattern.wrapUp_folds planner).imp (fun _ _ => trivial) fun _ after hafter => ?_
  rw [hafter]
  refine ⟨.foldl (fun _ other h => h.closeRange other) _ htabled, fun hlive => ?_⟩
  obtain ⟨hown, hlive⟩ := Stream.isLive_foldl_closeRange _ hlive
  refine ⟨hlive, fun hbinds => ?_⟩
  obtain ⟨expr, hexpr, hlocal⟩ := (pattern.mem_ownLocals_or hbinds).resolve_left hown
  exact hbound expr hexpr (expr.mem_allLocals.mp hlocal)

/-- What is generated is what is planned. -/
theorem Pattern.generate_ensures {pattern : Pattern} {value : ValueId} {static : Ty}
    {targets : Targets} {planner : Planner} (post : Stream → Prop)
    (h : ∀ start : Planner, start.stream = planner.stream →
      Ensures (pattern.plan facts value static targets .nothing) start (fun _ => True) fun _ last =>
        post last.stream) :
    Ensures (pattern.generate facts value static targets) planner (fun _ => True) fun _ last =>
      post last.stream := by
  unfold Pattern.generate
  refine Ensures.bind ((snapshot_orderly pattern.id).imp (fun _ _ => trivial) ?_)
  intro _ same hsame
  rw [hsame]
  refine Ensures.modify_bind ((h { planner with emitted := Emitted.empty }
    rfl).seq fun _ last hlast => ?_)
  exact Ensures.get_bind (Ensures.modify_bind (Ensures.pure hlast))

/-- **A root is tested, and its ranges are ended.** -/
theorem Pattern.test_idle {pattern : Pattern} (hrooted : pattern.Rooted id facts.record)
    (hbound : ∀ expr, .expr expr ∈ pattern.visits → .binding id ∉ expr.visits) {α : Type}
    {value : ValueId} {static : Ty} {fail : Label} {next : Emitted → PlanM α} {planner : Planner}
    {post : α → Planner → Prop} (hlt : fail < planner.stream.labels.size)
    (hidle : planner.stream.Idle id)
    (hnext : ∀ (emitted : Emitted) (closed : Planner), closed.stream.Idle id →
      planner.stream.labels.size ≤ closed.stream.labels.size →
      Ensures (next emitted) closed (fun _ => True) post) :
    Ensures (do
      let emitted ← pattern.generate facts value static ⟨none, some fail⟩
      pattern.wrapUp true
      next emitted) planner (fun _ => True) post := by
  have htested : Ensures (pattern.generate facts value static ⟨none, some fail⟩) planner
      (fun _ => True) fun _ tested => tested.stream.Tabled id ∧
        (tested.stream.isLive id = true → .binding id ∈ pattern.visits) := by
    refine Pattern.generate_ensures (fun stream => stream.Tabled id ∧
      (stream.isLive id = true → .binding id ∈ pattern.visits)) fun start hstart => ?_
    rw [← hstart] at hlt hidle
    by_cases hbinds : .binding id ∈ pattern.visits
    · obtain ⟨assigned, before, after, hassigned, hbefore, hrecorded⟩ := hrooted.recorded
      exact (pattern.plan_stands hassigned hrecorded value static fail .nothing start hlt
        (hidle.stands hbefore)).mono fun _ last hlast => ⟨hlast.tabled, fun _ => hbinds⟩
    · exact ((pattern.plan_inside ⟨hbinds, hrooted.bounds hbinds⟩ value static _ .nothing).ensures
        start hidle.inside).mono fun _ last hlast => ⟨hlast.tabled, fun hlive =>
          (hlast.live hlive).elim⟩
  refine (htested.and (pattern.generate_emits value static (.of_fail hlt))).seq ?_
  rintro emitted tested ⟨⟨htabled, hlive⟩, hemits⟩
  refine ((pattern.wrapUp_closes hbound htabled).and
    (pattern.wrapUp_sameCode tested)).seq ?_
  rintro _ closed ⟨⟨htabled, hclosed⟩, hsame⟩
  have hlabels := (congrArg Array.size hsame.labels).ge
  refine hnext emitted closed ⟨htabled, ?_, ?_⟩ (hemits.labels_le.trans hlabels)
  · exact (hidle.targets.emits hemits).congr hsame.instrs hlabels
  · rw [← Bool.not_eq_true]
    intro hopen
    obtain ⟨hopen, hunbound⟩ := hclosed hopen
    exact hunbound (hlive hopen)

end

namespace CompilationUnit

open Planner

section

variable {facts : Facts} {forest : Forest} {bound : LocalId} {planner : Planner}

theorem place_idle (label : Label) (hidle : planner.stream.Idle bound) :
    Ensures (place label) planner (fun _ => True) fun _ after =>
      after.stream.Idle bound ∧ after.stream.labels.size = planner.stream.labels.size := by
  refine (require_ensures fun _ _ => trivial).seq fun _ same hsame => ?_
  rw [hsame]
  exact Ensures.modifies ⟨hidle.place label, Array.size_setIfInBounds⟩

theorem planSite_idle {site : Site} (ty : Ty)
    (hrooted : (forest.pattern site.pattern).Rooted bound facts.record)
    (hbound : ∀ expr, .expr expr ∈ (forest.pattern site.pattern).visits →
      .binding bound ∉ expr.visits) (hidle : planner.stream.Idle bound) :
    Ensures (planSite facts forest site ty) planner (fun _ => True) fun _ after =>
      after.stream.Idle bound := by
  unfold planSite
  refine newValue_bind (Ensures.modify_bind (newLabel_bind ?_))
  refine Pattern.test_idle hrooted hbound (Stream.lt_newLabel _) (hidle.evaluate _).newLabel
    fun emitted closed hclosed _ => ?_
  exact (place_idle _ hclosed).seq fun _ after hafter => Ensures.pure hafter.1

theorem planCase_idle {value : ValueId} {ty : Ty} {done : Label} {id : PatternId}
    (hrooted : (forest.pattern id).Rooted bound facts.record)
    (hbound : ∀ expr, .expr expr ∈ (forest.pattern id).visits → .binding bound ∉ expr.visits)
    (hidle : planner.stream.Idle bound) (hdone : done < planner.stream.labels.size) :
    Ensures (planCase facts forest value ty done id) planner (fun _ => True) fun _ after =>
      after.stream.Idle bound ∧ done < after.stream.labels.size := by
  unfold planCase
  refine newLabel_bind (Pattern.test_idle hrooted hbound (Stream.lt_newLabel _) hidle.newLabel
    fun emitted closed hclosed hlabels => Ensures.modify_bind ?_)
  have hlt : done < closed.stream.labels.size :=
    hdone.trans ((Stream.lt_newLabel _).trans_le hlabels)
  have hleft : (closed.stream.emit (.goto done)).Idle bound :=
    hclosed.emit fun label hlabel => Option.some.inj hlabel ▸ hlt
  refine (place_idle _ hleft).seq fun _ after hafter => Ensures.pure ?_
  exact ⟨hafter.1, hafter.2 ▸ hlt⟩

theorem planSwitch_idle {switch : Switch} (ty : Ty)
    (hrooted : ∀ id ∈ switch.cases, (forest.pattern id).Rooted bound facts.record)
    (hbound : ∀ id ∈ switch.cases, ∀ expr, .expr expr ∈ (forest.pattern id).visits →
      .binding bound ∉ expr.visits) (hidle : planner.stream.Idle bound) :
    Ensures (planSwitch facts forest switch ty) planner (fun _ => True) fun _ after =>
      after.stream.Idle bound := by
  unfold planSwitch
  refine newValue_bind (Ensures.modify_bind (newLabel_bind (Ensures.bind ?_)))
  refine (Ensures.mapM (fun after => after.stream.Idle bound ∧ _ < after.stream.labels.size) _
    (fun id hid start hstart => planCase_idle (hrooted id hid) (hbound id hid) hstart.1 hstart.2) _
    ⟨(hidle.evaluate _).newLabel, Stream.lt_newLabel _⟩).mono fun _ tested htested => ?_
  exact (place_idle _ htested.1).seq fun _ after hafter => Ensures.pure hafter.1

/-- **The ranges of the local are ended with each root**, and they cover only code after a store. -/
theorem plan_idle {unit : CompilationUnit} (siteTypes switchTypes : List Ty)
    (hsites : ∀ site ∈ unit.sites, (forest.pattern site.pattern).Rooted bound facts.record)
    (hswitches : ∀ switch ∈ unit.switches, ∀ id ∈ switch.cases,
      (forest.pattern id).Rooted bound facts.record)
    (hbound : ∀ expr, .expr expr ∈ unit.visits forest → bound ∉ expr.allLocals)
    (hidle : planner.stream.Idle bound) :
    Ensures (unit.plan facts forest false siteTypes switchTypes) planner (fun _ => True)
      fun _ after => after.stream.Idle bound := by
  have hunbound : ∀ {id : PatternId} {scope : Scope}, (.pattern id, scope) ∈ unit.entries →
      ∀ expr, .expr expr ∈ (forest.pattern id).visits → .binding bound ∉ expr.visits := by
    intro id scope hentry expr hexpr
    rw [← Expr.mem_allLocals]
    exact hbound expr (visitsOf_subset hentry hexpr)
  unfold plan
  refine Ensures.seq (Ensures.mapM (fun after => after.stream.Idle bound) _
    (fun root hroot start hstart => ?_) planner hidle) fun _ mid hmid => ?_
  · have hsite := (List.of_mem_zip hroot).1
    exact planSite_idle root.2 (hsites _ hsite) (hunbound (mem_entries_of_site hsite).2) hstart
  refine Ensures.seq (Ensures.mapM (fun after => after.stream.Idle bound) _
    (fun root hroot start hstart => ?_) mid hmid) fun _ after hafter => Ensures.pure hafter
  have hswitch := (List.of_mem_zip hroot).1
  exact planSwitch_idle root.2 (hswitches _ hswitch)
    (fun id hid => hunbound ((mem_entries_of_switch hswitch).2 id hid)) hstart

end

open Machine in
/-- **The table of local ranges is right about what patterns bind.**  Take a compiled unit in which
nothing is referred to twice, no field is read of a condition, no condition is negated as a number
and no selector is a condition, and a local that is in no scope and that no expression binds.
Wherever a range of the local covers an instruction that does not place a label, every path through
the code to that instruction stores the local. -/
theorem ranges_stored {unit : CompilationUnit} (hacyclic : unit.arena.Acyclic)
    (honce : (unit.arena.references unit.roots).Nodup)
    (happlied : AppliedIn (unit.visits unit.arena.forest))
    (hselectors : ∀ id scope, (.expr id, scope) ∈ unit.entries →
      ¬ (unit.arena.forest.expr id).IsCondition) {bound : LocalId}
    (hscopes : ∀ entry ∈ unit.entries, bound ∉ entry.2.locals)
    (hbound : ∀ expr, .expr expr ∈ unit.visits unit.arena.forest → bound ∉ expr.allLocals)
    {pool : Pool} {config : Config} {cancelled : Bool} {compiled : Compiled}
    (hcompile : unit.compile pool config cancelled = .ok compiled) :
    ∀ range ∈ compiled.code.ranges, range.id = bound → ∀ (position : Nat) instr,
      range.Contains position → compiled.code.instrs[position]? = some instr →
      instr.placed? = none → ∀ executed, Path compiled.code.instrs.toList executed position →
        ∃ slot value, .storeLocal bound slot value ∈ executed := by
  obtain ⟨passed, offered, hpasses, hcode, -⟩ := passes_of_compile hcompile
  obtain ⟨types, resolved, analysed, checks, planner, -, hanalysed, -, hplan, -, hpassed⟩ :=
    exists_of_passes hpasses
  obtain ⟨-, hleft⟩ := ((analyse_rooted happlied hselectors hscopes hbound
    (distinct_visits hacyclic honce)).ensures _).of_ok hanalysed
  obtain ⟨hsites, hswitches⟩ := hleft _ (.refl _ analysed.record)
  have hstart : (Stream.new config.localTable).Idle bound :=
    ⟨Stream.tabled_new bound _, fun _ hinstr => (List.not_mem_nil hinstr).elim, rfl⟩
  have hidle := (plan_idle types.1 types.2 hsites hswitches hbound hstart).of_ok hplan
  obtain ⟨hforward, -⟩ := ((unit.plan_seals _ types.1 types.2).of_ok hplan).forward
  rw [hcode, hpassed]
  intro range hrange hid position instr hcontains hinstr hplaced executed hpath
  rw [← mem_events_stored]
  refine hidle.tabled.stored range hrange hid position instr hcontains hinstr hplaced _ ?_
  have hentering := (hforward.mem_entering hpath).1 instr (Array.getElem?_toList.trans hinstr)
  rwa [Fronts.entering, hplaced] at hentering

/-! ## A range that goes too far -/

/-- One site, `v instanceof (Object x && (x instanceof String s || flag))`. -/
def stringOrFlag : CompilationUnit where
  name := "StringOrFlag"
  arena :=
    { patterns := #[.type ⟨some "Object", Span.none⟩ (some 2) Span.none,
        .type ⟨some "String", Span.none⟩ (some 3) Span.none, .guarded [0] 3 Span.none]
      exprs := #[.ident "x" Span.none, .instanceOf 0 1 Span.none, .ident "flag" Span.none,
        .binary .or 1 2 Span.none, .ident "v" Span.none]
      locals := #[⟨"v", Span.none⟩, ⟨"flag", Span.none⟩, ⟨"x", Span.none⟩, ⟨"s", Span.none⟩] }
  sites := [⟨2, 4, ⟨[⟨"v", 0, Ty.object⟩, ⟨"flag", 1, Ty.boolean⟩]⟩⟩]
  switches := []

theorem acyclic_stringOrFlag : stringOrFlag.arena.Acyclic :=
  Arena.acyclic_of_rank (Node.rank (fun id => 5 * (id / 2)) fun id => id) (by decide)

/-- Its code.  Both `x` and `s` are live while `flag` is evaluated. -/
def stringOrFlagCode : Code where
  instrs := #[.evalOperand 0 4, .storeLocal 2 0 0, .evalOperand 1 0, .testType 1 Ty.string 4,
    .storeLocal 3 1 1, .goto 3, .placeLabel 4, .evalOperand 2 2, .branchIf 2 false 2,
    .placeLabel 3, .goto 1, .placeLabel 2, .goto 0, .placeLabel 1, .placeLabel 0]
  ranges := #[⟨2, 0, 2, some 12⟩, ⟨3, 1, 5, some 10⟩, ⟨2, 0, 14, some 14⟩]
  slotCount := 2

theorem compile_stringOrFlag : ∃ compiled,
    stringOrFlag.compile Pool.builtin ⟨.unlimited, true⟩ false = .ok compiled ∧
    compiled.diagnostics = [] ∧ compiled.code.instrs = stringOrFlagCode.instrs ∧
    compiled.code.ranges = stringOrFlagCode.ranges := by
  have hok : (stringOrFlag.compile Pool.builtin ⟨.unlimited, true⟩ false).toOption.any
      (fun compiled => decide (compiled.diagnostics = [] ∧
        compiled.code.instrs = stringOrFlagCode.instrs ∧
        compiled.code.ranges = stringOrFlagCode.ranges)) = true := by
    decide +kernel
  cases hcompile : stringOrFlag.compile Pool.builtin ⟨.unlimited, true⟩ false with
  | error failure => simp [hcompile, Except.toOption] at hok
  | ok compiled =>
    rw [hcompile, Except.toOption, Option.any_some, decide_eq_true_eq] at hok
    exact ⟨compiled, rfl, hok⟩

theorem selector_stringOrFlag :
    stringOrFlag.arena.forest.expr 4 = .ident 4 "v" Span.none := by
  with_unfolding_all rfl

/-- The expressions in it.  Those that bind a local bind `s`. -/
theorem expr_mem_stringOrFlag {expr : Expr}
    (h : .expr expr ∈ stringOrFlag.visits stringOrFlag.arena.forest) :
    (∃ id name, expr = .ident id name Span.none) ∨
      (∃ id left right, expr = .binary id .or left right Span.none ∧ expr.allLocals = [3]) ∨
      ∃ id tested pattern, expr = .instanceOf id tested pattern Span.none ∧
        expr.allLocals = [3] := by
  have hpattern : stringOrFlag.arena.forest.pattern 2 =
      .guarded 2 [.type 0 ⟨some "Object", Span.none⟩ (some 2) Span.none]
        (.binary 3 .or (.instanceOf 1 (.ident 0 "x" Span.none)
          (.type 1 ⟨some "String", Span.none⟩ (some 3) Span.none) Span.none)
          (.ident 2 "flag" Span.none) Span.none) Span.none := by
    with_unfolding_all rfl
  have hvisits : stringOrFlag.visits stringOrFlag.arena.forest =
      (stringOrFlag.arena.forest.expr 4).visits ++
        (stringOrFlag.arena.forest.pattern 2).visits := by
    rw [visits_eq]
    simp [stringOrFlag]
  rw [hvisits, selector_stringOrFlag, hpattern] at h
  simp only [Pattern.visits, Pattern.visitsAll, Expr.visits, List.mem_append, List.mem_cons,
    Visit.expr.injEq, reduceCtorEq, List.not_mem_nil, List.mem_map, false_or, or_false, and_false,
    exists_false] at h
  rcases h with rfl | rfl | (rfl | rfl) | rfl
  · exact Or.inl ⟨_, _, rfl⟩
  · exact Or.inr (Or.inl ⟨_, _, _, rfl, rfl⟩)
  · exact Or.inr (Or.inr ⟨_, _, _, rfl, rfl⟩)
  · exact Or.inl ⟨_, _, rfl⟩
  · exact Or.inl ⟨_, _, rfl⟩

open Machine in
/-- While `flag` is evaluated `x` is live, and wherever it is live it has been stored. -/
theorem ranges_stored_stringOrFlag : ∃ compiled,
    stringOrFlag.compile Pool.builtin ⟨.unlimited, true⟩ false = .ok compiled ∧
    (∃ range ∈ compiled.code.ranges, range.id = 2 ∧ range.Contains 7) ∧
    ∀ range ∈ compiled.code.ranges, range.id = 2 → ∀ (position : Nat) instr,
      range.Contains position → compiled.code.instrs[position]? = some instr →
      instr.placed? = none → ∀ executed, Path compiled.code.instrs.toList executed position →
        ∃ slot value, .storeLocal 2 slot value ∈ executed := by
  obtain ⟨compiled, hcompile, -, -, hranges⟩ := compile_stringOrFlag
  refine ⟨compiled, hcompile, ⟨⟨2, 0, 2, some 12⟩, ?_, rfl, by decide⟩, ?_⟩
  · simp [hranges, stringOrFlagCode]
  refine ranges_stored acyclic_stringOrFlag (by decide) (fun expr hexpr => ?_)
    (fun id scope hentry => ?_) (by decide) (fun expr hexpr => ?_) hcompile
  · obtain ⟨_, _, rfl⟩ | ⟨_, _, _, rfl, -⟩ | ⟨_, _, _, rfl, -⟩ := expr_mem_stringOrFlag hexpr <;>
      trivial
  · obtain ⟨rfl, -⟩ : id = 4 ∧ _ := by simpa [entries, stringOrFlag] using hentry
    rw [selector_stringOrFlag]
    exact id
  · obtain ⟨_, _, rfl⟩ | ⟨_, _, _, -, hlocals⟩ | ⟨_, _, _, -, hlocals⟩ :=
      expr_mem_stringOrFlag hexpr
    · simp [Expr.allLocals, Expr.visits, Visit.binding?]
    · simp [hlocals]
    · simp [hlocals]

open Machine in
/-- **The range of a local that a condition binds may go too far.**  While `flag` is evaluated `s`
is live too, but control comes there when the test for a string has failed, and nothing was
stored. -/
theorem range_unstored_stringOrFlag : ∃ compiled,
    stringOrFlag.compile Pool.builtin ⟨.unlimited, true⟩ false = .ok compiled ∧
    compiled.diagnostics = [] ∧
    ∃ range ∈ compiled.code.ranges, range.id = 3 ∧ range.Contains 7 ∧
      compiled.code.instrs[7]? = some (.evalOperand 2 2) ∧
      ∃ executed, Path compiled.code.instrs.toList executed 7 ∧
        ∀ slot value, .storeLocal 3 slot value ∉ executed := by
  obtain ⟨compiled, hcompile, hquiet, hinstrs, hranges⟩ := compile_stringOrFlag
  have hfailed : Path stringOrFlagCode.instrs.toList [.evalOperand 0 4, .storeLocal 2 0 0,
      .evalOperand 1 0, .testType 1 Ty.string 4, .placeLabel 4] 7 := by
    have htest : Path stringOrFlagCode.instrs.toList [.evalOperand 0 4, .storeLocal 2 0 0,
        .evalOperand 1 0] 3 :=
      .step (.step (.step .start rfl (.next rfl rfl)) rfl (.next rfl rfl)) rfl (.next rfl rfl)
    exact .step (.step htest rfl (.jump rfl rfl rfl)) rfl (.next rfl rfl)
  refine ⟨compiled, hcompile, hquiet, ⟨3, 1, 5, some 10⟩, ?_, rfl, by decide, ?_, ?_⟩
  · simp [hranges, stringOrFlagCode]
  · rw [hinstrs]
    rfl
  · rw [hinstrs]
    exact ⟨_, hfailed, by simp⟩

end CompilationUnit

end GuardedMatch
