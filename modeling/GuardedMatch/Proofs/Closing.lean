import GuardedMatch.Proofs.Flowing
import GuardedMatch.Proofs.History

/-!
# The end of ranges

When a root has been tested, the ranges of the locals that it binds are ended.  Conditions are not
looked into for that, so what only a condition binds stays open, and so does a local that is in
scope and is opened again with the states of a later root.  All other ranges are closed when a unit
has been compiled, even if roots share patterns: the states recorded for a pattern are those of the
last root that it belongs to, and that root is still to be wrapped up.

* `Pattern.wrapUp_ends`: which ranges are ended with a root.
* `CompilationUnit.analyse_settles`: what is assigned in the states recorded for the roots.
* `CompilationUnit.plan_awaits`: what is still live between two roots.
* `bindings_ended`: what is live after wrapping up, and which ranges of a compiled unit are closed.
* `ranges_open`: two ways in which a range stays open.
-/

namespace GuardedMatch

/-! ## Wrapping up -/

/-- **Wrapping up ends the ranges of what a pattern binds outside of conditions**, and does nothing
else. -/
theorem Pattern.wrapUp_ends (pattern : Pattern) (planner : Planner) :
    Ensures (pattern.wrapUp true) planner (fun _ => ∃ id, .pattern (.missing id) ∈ pattern.visits)
      fun _ after => after =
        { planner with stream := pattern.ownLocals.foldl Stream.closeRange planner.stream } :=
  (pattern.wrapUp_folds planner).imp (fun _ h => h.2) fun _ _ h => h

/-- What is live after wrapping up. -/
theorem Pattern.isLive_wrapUp {pattern : Pattern} {planner after : Planner}
    (h : after = { planner with
      stream := pattern.ownLocals.foldl Stream.closeRange planner.stream }) {bound : LocalId} :
    after.stream.isLive bound = true ↔
      planner.stream.isLive bound = true ∧ bound ∉ pattern.ownLocals := by
  rw [h]
  exact (Stream.isLive_foldl_closeRange_iff _).trans and_comm

/-! ## What is left to be wrapped up -/

namespace CompilationUnit

variable (unit : CompilationUnit) (forest : Forest)

/-- Some expression of the unit binds the local, or it is in scope somewhere. -/
def Aside (bound : LocalId) : Prop :=
  (∃ expr, .expr expr ∈ unit.visits forest ∧ bound ∈ expr.allLocals) ∨
    ∃ entry ∈ unit.entries, bound ∈ entry.2.locals

/-- The local is aside, or one of the roots binds it and ends its ranges. -/
def Later (roots : List PatternId) (bound : LocalId) : Prop :=
  unit.Aside forest bound ∨ ∃ id ∈ roots, bound ∈ (forest.pattern id).ownLocals

/-- The states recorded for the roots before the rest.  What is assigned in them is bound by the
root, by one after it, or aside, even if a root after it has patterns in common with it. -/
structure Settled (rest : List PatternId) (record : FlowRecord) : Prop where
  suffix : rest <:+ unit.patterns
  noted : ∀ id tail, (id :: tail) <:+ unit.patterns → rest.length ≤ tail.length →
    ∀ pattern, .pattern pattern ∈ (forest.pattern id).visits →
      record.Noted (Fits (unit.Later forest (id :: tail))) pattern.id

/-- Before the rest of the roots, what is live is bound by one of them or aside. -/
structure Awaits (rest : List PatternId) (stream : Stream) : Prop where
  suffix : rest <:+ unit.patterns
  live : ∀ bound, stream.isLive bound = true → unit.Later forest rest bound

section

variable {unit forest} {rest : List PatternId} {id : PatternId} {bound : LocalId}

theorem Later.mono {roots : List PatternId} (h : unit.Later forest rest bound)
    (hsub : rest ⊆ roots) : unit.Later forest roots bound :=
  h.imp_right fun ⟨id, hid, hbound⟩ => ⟨id, hsub hid, hbound⟩

theorem later_nil : unit.Later forest [] bound ↔ unit.Aside forest bound := by simp [Later]

theorem exists_entry_of_pattern (h : id ∈ unit.patterns) :
    ∃ scope, (.pattern id, scope) ∈ unit.entries := by
  rw [patterns, List.mem_append, List.mem_map, List.mem_flatMap] at h
  rcases h with ⟨site, hsite, rfl⟩ | ⟨switch, hswitch, hid⟩
  · exact ⟨site.scope, (mem_entries_of_site hsite).2⟩
  · exact ⟨switch.scope, (mem_entries_of_switch hswitch).2 id hid⟩

/-- What a root binds is awaited until it is wrapped up. -/
theorem later_of_binding (hsuffix : (id :: rest) <:+ unit.patterns)
    (hbound : .binding bound ∈ (forest.pattern id).visits) :
    unit.Later forest (id :: rest) bound := by
  rcases (forest.pattern id).mem_ownLocals_or hbound with hown | ⟨expr, hexpr, hlocal⟩
  · exact Or.inr ⟨id, List.mem_cons_self, hown⟩
  · obtain ⟨scope, hentry⟩ := exists_entry_of_pattern (hsuffix.subset List.mem_cons_self)
    exact Or.inl (Or.inl ⟨expr, visitsOf_subset hentry hexpr, hlocal⟩)

theorem aside_of_selector {id : ExprId} {scope : Scope} (hentry : (.expr id, scope) ∈ unit.entries)
    (hbound : .binding bound ∈ (forest.expr id).visits) : unit.Aside forest bound :=
  Or.inl ⟨_, visitsOf_subset hentry (Expr.self_mem_visits _), (Expr.mem_allLocals _).mpr hbound⟩

/-! ## Roots as they are analysed -/

theorem settled_patterns (record : FlowRecord) :
    unit.Settled forest unit.patterns record := by
  refine ⟨List.suffix_refl _, fun id tail hsuffix hlength => ?_⟩
  have := hsuffix.length_le
  rw [List.length_cons] at this
  omega

/-- A selector assigns only what is aside. -/
theorem Settled.kept {record after : FlowRecord} {visits : List Visit}
    (h : unit.Settled forest rest record)
    (hafter : FlowRecord.Notes (Fits (unit.Aside forest)) visits record after) :
    unit.Settled forest rest after := by
  refine ⟨h.suffix, fun id tail hsuffix hlength pattern hpattern => ?_⟩
  have hnotes : FlowRecord.Notes (Fits (unit.Later forest (id :: tail))) [] record after :=
    hafter.mono (fun _ hnil => absurd hnil List.not_mem_nil) fun _ _ hfits bound hbound =>
      Or.inl (hfits bound hbound)
  exact (h.noted id tail hsuffix hlength pattern hpattern).kept hnotes

/-- A root replaces what was recorded for its patterns. -/
theorem Settled.next {record after : FlowRecord} (h : unit.Settled forest (id :: rest) record)
    (hafter : FlowRecord.Notes (Fits (unit.Later forest (id :: rest)))
      (forest.pattern id).visits record after) : unit.Settled forest rest after := by
  refine ⟨(List.suffix_cons id rest).trans h.suffix, fun other tail hsuffix hlength => ?_⟩
  have hlonger : (id :: rest) <:+ (other :: tail) :=
    List.suffix_of_suffix_length_le h.suffix hsuffix (Nat.succ_le_succ hlength)
  rcases hlength.eq_or_lt with heq | hlt
  · obtain ⟨rfl, rfl⟩ := List.cons.inj (hlonger.eq_of_length (congrArg Nat.succ heq))
    exact hafter.visited
  · intro pattern hpattern
    have hnotes : FlowRecord.Notes (Fits (unit.Later forest (other :: tail))) [] record after :=
      hafter.mono (fun _ hnil => absurd hnil List.not_mem_nil) fun _ _ hfits bound hbound =>
        (hfits bound hbound).mono hlonger.subset
    exact (h.noted other tail hsuffix hlt pattern hpattern).kept hnotes

variable {table : Resolution} {state : Analyser}

theorem selector_settles {id : ExprId} {scope : Scope} (hentry : (.expr id, scope) ∈ unit.entries)
    (h : unit.Settled forest rest state.record) :
    Ensures ((forest.expr id).analyse table forest.locals (Flow.initial scope.locals)) state
      (fun _ => True) fun entry after =>
        entry.Within (unit.Aside forest) ∧ unit.Settled forest rest after.record := by
  have hscope : (Flow.initial scope.locals).Within (unit.Aside forest) := by
    refine .plain fun bound hbound => Or.inr ⟨_, hentry, ?_⟩
    exact LocalSet.contains_ofList.mp hbound.2
  have hrecords := (forest.expr id).analyse_records table forest.locals
    (fun bound hbound => aside_of_selector hentry hbound) _ hscope
  exact (hrecords.ensures state).mono fun _ _ hafter => ⟨hafter.2, h.kept hafter.1⟩

theorem root_settles {entry : Flow} (hwithin : entry.Within (unit.Aside forest))
    (h : unit.Settled forest (id :: rest) state.record) :
    Ensures (Functor.discard ((forest.pattern id).analyse table forest.locals entry)) state
      (fun _ => True) fun _ after => unit.Settled forest rest after.record := by
  have hrecords := (forest.pattern id).analyse_records table forest.locals
    (fun bound hbound => later_of_binding h.suffix hbound) entry
    fun bound hbound => Or.inl (hwithin bound hbound)
  exact Ensures.discards ((hrecords.ensures state).mono fun _ _ hafter => h.next hafter.1)

theorem site_settles {site : Site} (hsite : site ∈ unit.sites)
    (h : unit.Settled forest (site.pattern :: rest) state.record) :
    Ensures (do
      let entry ← (forest.expr site.selector).analyse table forest.locals
        (Flow.initial site.scope.locals)
      discard ((forest.pattern site.pattern).analyse table forest.locals entry)) state
      (fun _ => True) fun _ after => unit.Settled forest rest after.record := by
  refine (selector_settles (mem_entries_of_site hsite).1 h).seq ?_
  exact fun entry mid hmid => root_settles hmid.1 hmid.2

theorem switch_settles {switch : Switch} (hswitch : switch ∈ unit.switches)
    (h : unit.Settled forest (switch.cases ++ rest) state.record) :
    Ensures (do
      let entry ← (forest.expr switch.selector).analyse table forest.locals
        (Flow.initial switch.scope.locals)
      switch.cases.forM fun id =>
        discard ((forest.pattern id).analyse table forest.locals entry)) state
      (fun _ => True) fun _ after => unit.Settled forest rest after.record := by
  refine (selector_settles (mem_entries_of_switch hswitch).1 h).seq ?_
  intro entry mid hmid
  exact Ensures.forM (fun (cases : List PatternId) (state : Analyser) =>
    unit.Settled forest (cases ++ rest) state.record) (fun id cases state h =>
      root_settles hmid.1 h) switch.cases mid hmid.2

/-- **What is assigned in the states recorded for a root** is bound by it, by a later one, or
aside. -/
theorem analyse_settles :
    Ensures (unit.analyseAll table forest) ⟨FlowRecord.empty, .new .unlimited⟩ (fun _ => True)
      fun _ after => unit.Settled forest [] after.record := by
  rw [analyseAll]
  refine (Ensures.forM (fun (sites : List Site) (state : Analyser) =>
    sites ⊆ unit.sites ∧ unit.Settled forest
      (sites.map (·.pattern) ++ unit.switches.flatMap (·.cases)) state.record)
    (fun site sites state h => ?_) unit.sites _ ⟨fun _ => id, settled_patterns _⟩).seq
    fun _ mid hmid => ?_
  · rw [List.cons_subset] at h
    exact (site_settles h.1.1 h.2).mono fun _ _ hafter => ⟨h.1.2, hafter⟩
  · have hstart : unit.Settled forest (unit.switches.flatMap (·.cases)) mid.record := hmid.2
    refine (Ensures.forM (fun (switches : List Switch) (state : Analyser) =>
      switches ⊆ unit.switches ∧ unit.Settled forest (switches.flatMap (·.cases)) state.record)
      (fun switch switches state h => ?_) unit.switches mid ⟨fun _ => id, hstart⟩).mono
        fun _ _ hafter => hafter.2
    rw [List.cons_subset, List.flatMap_cons] at h
    exact (switch_settles h.1.1 h.2).mono fun _ _ hafter => ⟨h.1.2, hafter⟩

/-! ## Roots as they are planned -/

/-- The steps store and open only what is known. -/
def holding (known : LocalId → Prop) : Planner.Terms where
  stores := known
  opens state := ∀ bound, state.Holds bound → known bound
  places _ := True
  fails _ := True

theorem Settled.permits {facts : Facts} (h : unit.Settled forest [] facts.record)
    (hsuffix : (id :: rest) <:+ unit.patterns) :
    facts.Permits (holding (unit.Later forest (id :: rest))) (forest.pattern id).visits := by
  refine ⟨fun bound hbound => later_of_binding hsuffix hbound, fun pattern hpattern => ?_,
    .inr fun _ => trivial⟩
  obtain ⟨found, _, resume, hfound, -, -, hresume, hfits⟩ :=
    h.noted id rest hsuffix (Nat.zero_le _) pattern hpattern
  intro snapshot hsnapshot state hstate
  obtain rfl := Option.some.inj (hfound.symm.trans hsnapshot)
  obtain rfl := Option.some.inj (hresume.symm.trans hstate)
  exact hfits

/-- Planning opens only ranges of what may be stored or is assigned in a state that may be
opened. -/
theorem stable_live (known : LocalId → Prop) :
    Stream.Stable (holding known) fun stream =>
      ∀ bound, stream.isLive bound = true → known bound where
  labels _ := trivial
  newLabel h := h
  newValue h := h
  emit h _ _ := h
  place h _ _ _ := h
  store h _ hid _ _ bound hbound := by
    rcases Stream.isLive_store hbound with rfl | hbound
    · exact hid
    · exact h bound hbound
  closeRange h _ bound hbound := h bound (Stream.isLive_closeRange hbound).2
  closeUnassigned h _ _ bound hbound := h bound (Stream.isLive_closeUnassigned hbound).1
  openAssigned h _ _ hopen bound hbound := by
    rcases Stream.isLive_openAssigned hbound with hbound | ⟨state, hstate, hholds⟩
    · exact h bound hbound
    · exact hopen state hstate bound hholds

variable {facts : Facts} {planner : Planner} {α : Type}

open Planner

theorem Awaits.place (label : Label) (h : unit.Awaits forest rest planner.stream) :
    Ensures (place label) planner (fun _ => True) fun _ after =>
      unit.Awaits forest rest after.stream :=
  (((Assembled.place trivial).keeps (stable_live _)).ensures planner h.live).mono fun _ _ hafter =>
    ⟨h.suffix, hafter⟩

theorem Awaits.test {post : α → Planner → Prop} {value : ValueId} {static : Ty} {targets : Targets}
    {next : Emitted → PlanM α} (hsettled : unit.Settled forest [] facts.record)
    (h : unit.Awaits forest (id :: rest) planner.stream)
    (hnext : ∀ emitted closed, unit.Awaits forest rest closed.stream →
      Ensures (next emitted) closed (fun _ => True) post) :
    Ensures (do
      let emitted ← (forest.pattern id).generate facts value static targets
      (forest.pattern id).wrapUp true
      next emitted) planner (fun _ => True) post := by
  have htest := Pattern.generate_assembled (hsettled.permits h.suffix) value static targets
  refine ((htest.keeps (stable_live _)).ensures planner h.live).seq ?_
  intro emitted tested htested
  refine Ensures.bind (((forest.pattern id).wrapUp_ends tested).imp (fun _ _ => trivial) ?_)
  intro _ closed hclosed
  refine hnext emitted closed ⟨(List.suffix_cons id rest).trans h.suffix, fun bound hbound => ?_⟩
  obtain ⟨hlive, hnot⟩ := (Pattern.isLive_wrapUp hclosed).mp hbound
  refine (htested bound hlive).imp_right fun ⟨other, hother, hown⟩ => ?_
  rcases List.mem_cons.mp hother with rfl | hother
  · exact absurd hown hnot
  · exact ⟨other, hother, hown⟩

theorem planSite_awaits {site : Site} (ty : Ty) (hsettled : unit.Settled forest [] facts.record)
    (h : unit.Awaits forest (site.pattern :: rest) planner.stream) :
    Ensures (planSite facts forest site ty) planner (fun _ => True) fun _ after =>
      unit.Awaits forest rest after.stream := by
  unfold planSite
  refine newValue_bind (Ensures.modify_bind (newLabel_bind ?_))
  refine Awaits.test hsettled ⟨h.suffix, h.live⟩ fun emitted closed hclosed => ?_
  exact (hclosed.place _).seq fun _ _ hafter => Ensures.pure hafter

theorem planCase_awaits {value : ValueId} {ty : Ty} {done : Label}
    (hsettled : unit.Settled forest [] facts.record)
    (h : unit.Awaits forest (id :: rest) planner.stream) :
    Ensures (planCase facts forest value ty done id) planner (fun _ => True) fun _ after =>
      unit.Awaits forest rest after.stream := by
  unfold planCase
  refine newLabel_bind (Awaits.test hsettled ⟨h.suffix, h.live⟩ fun emitted closed hclosed => ?_)
  have hleft : unit.Awaits forest rest (closed.stream.emit (.goto done)) :=
    ⟨hclosed.suffix, hclosed.live⟩
  refine Ensures.modify_bind ((hleft.place _).seq ?_)
  exact fun _ _ hafter => Ensures.pure hafter

theorem planSwitch_awaits {switch : Switch} (ty : Ty)
    (hsettled : unit.Settled forest [] facts.record)
    (h : unit.Awaits forest (switch.cases ++ rest) planner.stream) :
    Ensures (planSwitch facts forest switch ty) planner (fun _ => True) fun _ after =>
      unit.Awaits forest rest after.stream := by
  unfold planSwitch
  refine newValue_bind (Ensures.modify_bind (newLabel_bind (Ensures.bind ?_)))
  refine Ensures.mono (Ensures.mapM_rest (fun (cases : List PatternId) (planner : Planner) =>
    unit.Awaits forest (cases ++ rest) planner.stream) ?_ _ _ ⟨h.suffix, h.live⟩) ?_
  · exact fun id cases start hstart => planCase_awaits hsettled hstart
  · intro _ tested htested
    exact (Awaits.place _ htested.1).seq fun _ _ hafter => Ensures.pure hafter

/-- **Each root ends what it awaits**, so that at the end only what is aside is live. -/
theorem plan_awaits {siteTypes switchTypes : List Ty}
    (hsites : siteTypes.length = unit.sites.length)
    (hswitches : switchTypes.length = unit.switches.length)
    (hsettled : unit.Settled forest [] facts.record)
    (h : unit.Awaits forest unit.patterns planner.stream) :
    Ensures (unit.plan facts forest false siteTypes switchTypes) planner (fun _ => True)
      fun _ after => unit.Awaits forest [] after.stream := by
  have hfirst : ((unit.sites.zip siteTypes).map fun item => item.1.pattern) =
      unit.sites.map (·.pattern) := by
    conv_rhs => rw [← List.map_fst_zip hsites.ge, List.map_map]
    rfl
  have hsecond : ((unit.switches.zip switchTypes).flatMap fun item => item.1.cases) =
      unit.switches.flatMap (·.cases) := by
    conv_rhs => rw [← List.map_fst_zip hswitches.ge, List.flatMap_map]
  rw [patterns, ← hfirst, ← hsecond] at h
  unfold plan
  refine Ensures.seq (Ensures.mapM_rest (fun (items : List (Site × Ty))
    (planner : Planner) => unit.Awaits forest (items.map (fun item => item.1.pattern) ++
      (unit.switches.zip switchTypes).flatMap fun item => item.1.cases) planner.stream)
    (fun item items start hstart => planSite_awaits item.2 hsettled hstart) _ planner h) ?_
  intro _ mid hmid
  have hrest : unit.Awaits forest
    ((unit.switches.zip switchTypes).flatMap fun item => item.1.cases) mid.stream := hmid.1
  refine Ensures.seq (Ensures.mapM_rest (fun (items : List (Switch × Ty))
    (planner : Planner) => unit.Awaits forest (items.flatMap fun item => item.1.cases)
      planner.stream) (fun item items start hstart => ?_) _ mid hrest) ?_
  · rw [List.flatMap_cons] at hstart
    exact planSwitch_awaits item.2 hsettled hstart
  · exact fun _ _ hafter => Ensures.pure hafter.1

end

/-! ## Compiled units -/

variable {unit : CompilationUnit} {pool : Pool}

/-- Every selector gets a type. -/
theorem resolve_lengths (forest : Forest) (state : Resolver) :
    Ensures (unit.resolveAll pool forest) state (fun _ => True) fun types _ =>
      types.1.length = unit.sites.length ∧ types.2.length = unit.switches.length := by
  rw [resolveAll]
  refine Ensures.seq (Ensures.mapM_rest (fun _ _ => True)
    (fun _ _ _ _ => Ensures.always fun _ _ => trivial) _ state trivial) ?_
  intro siteTypes mid hsites
  refine Ensures.seq (Ensures.mapM_rest (fun _ _ => True)
    (fun _ _ _ _ => Ensures.always fun _ _ => trivial) _ mid trivial) ?_
  exact fun switchTypes after hswitches => Ensures.pure ⟨hsites.2, hswitches.2⟩

/-- What is open in the end is aside. -/
theorem aside_of_open {config : Config} {cancelled : Bool} {compiled : Compiled}
    (hcompile : unit.compile pool config cancelled = .ok compiled) :
    ∀ range ∈ compiled.code.ranges,
      (∃ stop, range.stop = some stop ∧ range.start ≤ stop ∧ stop ≤ compiled.code.instrs.size) ∨
        range.stop = none ∧ unit.Aside unit.arena.forest range.id := by
  obtain ⟨passed, offered, hpasses, hcode, -⟩ := passes_of_compile hcompile
  obtain ⟨types, resolved, analysed, checks, planner, hresolved, hanalysed, -, hplan, -, hpassed⟩ :=
    exists_of_passes hpasses
  obtain ⟨hsites, hswitches⟩ := (resolve_lengths _ _).of_ok hresolved
  have hstart : unit.Awaits unit.arena.forest unit.patterns (Stream.new config.localTable) :=
    ⟨List.suffix_refl _, fun bound hbound => by simp [Stream.new, Stream.isLive] at hbound⟩
  have hsettled := analyse_settles.of_ok hanalysed
  have hawaits := (plan_awaits hsites hswitches hsettled hstart).of_ok hplan
  have hsound := (((plan_assembled (fun _ _ => .everything _ _) types.1 types.2).keeps
    (Stream.stable_sound config.localTable)).ensures _ (Stream.sound_new _)).of_ok hplan
  rw [hcode, hpassed]
  intro range hrange
  cases hstop : range.stop with
  | some stop =>
    have hordered := hsound.starts range hrange
    rw [hstop] at hordered
    exact Or.inl ⟨stop, rfl, hordered, hsound.stops range hrange stop hstop⟩
  | none =>
    have hlive := hsound.isLive_iff.mpr ⟨range, hrange, rfl, hstop⟩
    exact Or.inr ⟨rfl, later_nil.mp (hawaits.live _ hlive)⟩

end CompilationUnit

/-- **Wrapping up a pattern ends just the ranges of the locals that it binds outside of
conditions.**  So no local that is bound when the pattern matches is live any more, unless a
condition binds it, and when a unit has been compiled every range is closed, unless some expression
binds its local or the local is in scope somewhere. -/
theorem bindings_ended (unit : CompilationUnit) :
    (unit.arena.Acyclic → unit.arena.InRange → ∀ id, .pattern id ∈ unit.arena.nodes →
      ∀ planner : Planner, ∃ after,
        EStateM.run ((unit.arena.forest.pattern id).wrapUp true) planner = .ok () after ∧
        (∀ bound, after.stream.isLive bound = true ↔ planner.stream.isLive bound = true ∧
          bound ∉ (unit.arena.forest.pattern id).ownLocals) ∧
        ∀ bound ∈ (unit.arena.forest.pattern id).bindings,
          (∀ expr, .expr expr ∈ (unit.arena.forest.pattern id).visits → bound ∉ expr.allLocals) →
            after.stream.isLive bound = false) ∧
    ∀ (pool : Pool) (config : Config) (cancelled : Bool) (compiled : Compiled),
      unit.compile pool config cancelled = .ok compiled → ∀ range ∈ compiled.code.ranges,
        (∃ stop, range.stop = some stop ∧ range.start ≤ stop ∧
          stop ≤ compiled.code.instrs.size) ∨
        range.stop = none ∧ unit.Aside unit.arena.forest range.id := by
  refine ⟨fun hacyclic hrange id hid planner => ?_,
    fun pool config cancelled compiled => CompilationUnit.aside_of_open⟩
  have hfound : ∀ failure : Failure,
      ¬ ∃ other, .pattern (.missing other) ∈ (unit.arena.forest.pattern id).visits := by
    rintro _ ⟨other, hmissing⟩
    exact hacyclic.not_lost hrange hid _ hmissing trivial
  obtain ⟨_, after, hrun, hafter⟩ :=
    ((unit.arena.forest.pattern id).wrapUp_ends planner).exists_ok hfound
  refine ⟨after, hrun, fun bound => Pattern.isLive_wrapUp hafter, ?_⟩
  intro bound hbound hconditions
  rw [← Bool.not_eq_true, Pattern.isLive_wrapUp hafter]
  rintro ⟨-, hnot⟩
  rcases Pattern.mem_ownLocals_or _ (Pattern.binding_mem_visits _ hbound) with
    hown | ⟨expr, hexpr, hlocal⟩
  · exact hnot hown
  · exact hconditions expr hexpr hlocal

namespace CompilationUnit

/-- One site, `v instanceof (Object x && x instanceof String s)`. -/
def objectAsString : CompilationUnit where
  name := "ObjectAsString"
  arena :=
    { patterns := #[.type ⟨some "Object", Span.none⟩ (some 1) Span.none,
        .type ⟨some "String", Span.none⟩ (some 2) Span.none, .guarded [0] 1 Span.none]
      exprs := #[.ident "x" Span.none, .instanceOf 0 1 Span.none, .ident "v" Span.none]
      locals := #[⟨"v", Span.none⟩, ⟨"x", Span.none⟩, ⟨"s", Span.none⟩] }
  sites := [⟨2, 2, ⟨[⟨"v", 0, Ty.object⟩]⟩⟩]
  switches := []

/-- Two sites, `v instanceof String s` and, with `s` in scope, `v instanceof (Object x && flag)`. -/
def stringThenFlag : CompilationUnit where
  name := "StringThenFlag"
  arena :=
    { patterns := #[.type ⟨some "String", Span.none⟩ (some 2) Span.none,
        .type ⟨some "Object", Span.none⟩ (some 3) Span.none, .guarded [1] 0 Span.none]
      exprs := #[.ident "flag" Span.none, .ident "v" Span.none, .ident "v" Span.none]
      locals := #[⟨"v", Span.none⟩, ⟨"flag", Span.none⟩, ⟨"s", Span.none⟩, ⟨"x", Span.none⟩] }
  sites := [⟨0, 1, ⟨[⟨"v", 0, Ty.object⟩, ⟨"flag", 1, Ty.boolean⟩]⟩⟩,
    ⟨2, 2, ⟨[⟨"v", 0, Ty.object⟩, ⟨"flag", 1, Ty.boolean⟩, ⟨"s", 2, Ty.string⟩]⟩⟩]
  switches := []

theorem exists_compiled (unit : CompilationUnit) (pool : Pool) (config : Config)
    (holds : Compiled → Prop) [DecidablePred holds]
    (h : (unit.compile pool config false).toOption.any (fun compiled => holds compiled) = true) :
    ∃ compiled, unit.compile pool config false = .ok compiled ∧ holds compiled := by
  cases hcompile : unit.compile pool config false with
  | error failure => simp [hcompile, Except.toOption] at h
  | ok compiled =>
    rw [hcompile, Except.toOption, Option.any_some, decide_eq_true_eq] at h
    exact ⟨compiled, rfl, h⟩

theorem pattern_objectAsString : objectAsString.arena.forest.pattern 2 =
    .guarded 2 [.type 0 ⟨some "Object", Span.none⟩ (some 1) Span.none]
      (.instanceOf 1 (.ident 0 "x" Span.none)
        (.type 1 ⟨some "String", Span.none⟩ (some 2) Span.none) Span.none) Span.none := by
  with_unfolding_all rfl

/-- A planner with open ranges of `x` and `s`. -/
def bothOpen : Planner :=
  { Planner.new true with stream := ((Stream.new true).openRange 1).openRange 2 }

end CompilationUnit

open CompilationUnit in
/-- Both `x` and `s` are bound.  Wrapping up ends the range of `x`. -/
theorem bindings_ended_objectAsString :
    (∃ after, EStateM.run ((objectAsString.arena.forest.pattern 2).wrapUp true) bothOpen =
        .ok () after ∧ bothOpen.stream.isLive 1 = true ∧ after.stream.isLive 1 = false) ∧
    ∃ compiled, objectAsString.compile Pool.builtin ⟨.unlimited, true⟩ false = .ok compiled ∧
      0 < compiled.code.ranges.size ∧ ∀ range ∈ compiled.code.ranges,
        (∃ stop, range.stop = some stop ∧ range.start ≤ stop ∧
          stop ≤ compiled.code.instrs.size) ∨
        range.stop = none ∧ objectAsString.Aside objectAsString.arena.forest range.id := by
  have hacyclic : objectAsString.arena.Acyclic :=
    Arena.acyclic_of_rank (Node.rank (fun id => 3 * (id / 2)) fun id => 2 * (id % 2)) (by decide)
  obtain ⟨after, hrun, -, hended⟩ := (bindings_ended objectAsString).1 hacyclic
    (Arena.inRange_of_nodes (by decide)) 2 (by decide) bothOpen
  obtain ⟨compiled, hcompile, hranges⟩ := exists_compiled objectAsString Pool.builtin
    ⟨.unlimited, true⟩ (fun compiled => 0 < compiled.code.ranges.size) (by decide +kernel)
  refine ⟨⟨after, hrun, by decide +kernel, hended 1 ?_ ?_⟩, compiled, hcompile, hranges,
    (bindings_ended objectAsString).2 _ _ _ _ hcompile⟩
  · rw [pattern_objectAsString]
    decide
  · rw [pattern_objectAsString]
    intro expr hexpr
    simp only [Pattern.visits, Pattern.visitsAll, Expr.visits, List.mem_append, List.mem_cons,
      Visit.expr.injEq, reduceCtorEq, List.not_mem_nil, List.mem_map, false_or, or_false, and_false,
      exists_false] at hexpr
    rcases hexpr with rfl | rfl <;>
      simp [Expr.allLocals, Expr.visits, Pattern.visits, Visit.binding?]

open CompilationUnit in
/-- **A range may stay open.**  Wrapping up leaves `s` live, which the condition binds, and when the
unit has been compiled its range has no end.  The same happens to a local that no condition binds,
if it is in scope at a later site. -/
theorem ranges_open :
    (2 ∈ (objectAsString.arena.forest.pattern 2).bindings ∧
      ∃ after, EStateM.run ((objectAsString.arena.forest.pattern 2).wrapUp true) bothOpen =
        .ok () after ∧ after.stream.isLive 2 = true) ∧
    (∃ compiled, objectAsString.compile Pool.builtin ⟨.unlimited, true⟩ false = .ok compiled ∧
      compiled.diagnostics = [] ∧ ⟨2, 1, 9, none⟩ ∈ compiled.code.ranges) ∧
    ∃ compiled, stringThenFlag.compile Pool.builtin ⟨.unlimited, true⟩ false = .ok compiled ∧
      compiled.diagnostics = [] ∧ ⟨2, 0, 8, none⟩ ∈ compiled.code.ranges := by
  refine ⟨⟨?_, ?_⟩, ?_, ?_⟩
  · rw [pattern_objectAsString]
    decide
  · rw [pattern_objectAsString]
    exact ⟨_, rfl, by decide +kernel⟩
  · exact exists_compiled objectAsString Pool.builtin ⟨.unlimited, true⟩
      (fun compiled => compiled.diagnostics = [] ∧ ⟨2, 1, 9, none⟩ ∈ compiled.code.ranges)
      (by decide +kernel)
  · exact exists_compiled stringThenFlag Pool.builtin ⟨.unlimited, true⟩
      (fun compiled => compiled.diagnostics = [] ∧ ⟨2, 0, 8, none⟩ ∈ compiled.code.ranges)
      (by decide +kernel)

end GuardedMatch
