import GuardedMatch.Proofs.Refusal
import GuardedMatch.Proofs.Sincerity
import GuardedMatch.Proofs.Unbroken

/-!
# Filtering never hides that a unit is wrong

A queue may drop what follows from an earlier mistake, what repeats a diagnostic, and what comes
after the limit.  It never drops the first diagnostic that is no follow-on.  And if a unit has
anything to report, there is such a diagnostic: as long as resolution reports nothing, no type is an
error, so what is reported first, in resolution or later, mentions none.

* `Queue.exists_mem_addAll`: a queue accepts something, if something is no follow-on.
* `CompilationUnit.exists_firstHand`: there is such a diagnostic, if there are any.
* `CompilationUnit.filtered_reports`: what the default queue lists is not empty.
-/

namespace GuardedMatch

/-! ## Queues -/

namespace Queue

theorem mem_accept (queue : Queue) (diagnostic : Diagnostic) :
    diagnostic ∈ (queue.accept diagnostic).diagnostics := by
  obtain ⟨-, -, markers, hwaiting, -⟩ := queue.accept_spec diagnostic
  simp [diagnostics, hwaiting]

/-- A queue that has accepted nothing drops nothing but follow-ons. -/
theorem mem_add_self {queue : Queue} (hcount : queue.errorCount = 0) (hempty : queue.waiting = #[])
    {diagnostic : Diagnostic} (hfirst : diagnostic.isFollowOn = false) :
    diagnostic ∈ (queue.add diagnostic).2.diagnostics := by
  have hlimit : queue.limitReached = false := by
    rw [limitReached, hcount]
    cases queue.config.limit <;> rfl
  have hadd : queue.add diagnostic = (true, queue.accept diagnostic) := by
    simp [add, hlimit, isDuplicate, hempty, hfirst]
  rw [hadd]
  exact queue.mem_accept diagnostic

/-- A queue accepts something, if something that is offered is no follow-on. -/
theorem exists_mem_addAll {queue : Queue} (hcount : queue.errorCount = 0)
    (hempty : queue.waiting = #[]) {offered : List Diagnostic}
    (h : ∃ diagnostic ∈ offered, diagnostic.isFollowOn = false) :
    ∃ diagnostic, diagnostic ∈ (queue.addAll offered).diagnostics := by
  induction offered with
  | nil =>
    obtain ⟨diagnostic, hmem, -⟩ := h
    cases hmem
  | cons first rest ih =>
    rcases add_cases queue first with hadd | hadd
    · obtain ⟨diagnostic, hmem, hfirst⟩ := h
      rcases List.mem_cons.mp hmem with rfl | hmem
      · exact ⟨diagnostic, mem_addAll_of_mem (mem_add_self hcount hempty hfirst) rest⟩
      · -- What is dropped leaves the queue as it is.
        have hrest := ih ⟨diagnostic, hmem, hfirst⟩
        rwa [show queue.addAll (first :: rest) = (queue.add first).2.addAll rest from rfl, hadd]
    · have hmem : first ∈ (queue.add first).2.diagnostics := by
        rw [hadd]
        exact queue.mem_accept first
      exact ⟨first, mem_addAll_of_mem hmem rest⟩

theorem flush_ne_nil {config : QueueConfig} {offered : List Diagnostic}
    (h : ∃ diagnostic ∈ offered, diagnostic.isFollowOn = false) :
    ((new config).addAll offered).flush.1 ≠ [] := by
  have hsome : ∃ diagnostic, diagnostic ∈ ((new config).addAll offered).diagnostics :=
    exists_mem_addAll rfl rfl h
  obtain ⟨diagnostic, hmem⟩ := hsome
  exact List.ne_nil_of_mem (mem_flush.mpr hmem)

end Queue

/-! ## The words of a unit -/

def PatternNode.words : PatternNode → List String
  | type written _ _ | record written _ _ => written.name.toList
  | guarded .. | any _ => []

def ExprNode.words : ExprNode → List String
  | ident name _ | field _ name _ => [name]
  | call callee _ written _ => callee :: written.name.toList
  | bool .. | int .. | binary .. | unary .. | instanceOf .. => []

namespace CompilationUnit

variable {unit : CompilationUnit} {pool : Pool}

def scopes (unit : CompilationUnit) : List Scope :=
  unit.sites.map (·.scope) ++ unit.switches.map (·.scope)

/-- All names that are used in a unit. -/
def words (unit : CompilationUnit) : List String :=
  unit.name :: (unit.arena.patterns.toList.flatMap PatternNode.words ++
    (unit.arena.exprs.toList.flatMap ExprNode.words ++
      (unit.arena.locals.toList.map (·.name) ++
        unit.scopes.flatMap fun scope => scope.entries.map (·.name))))

/-- The names that are used in a unit are plain, and every call names the type of its answer. -/
structure Worded (unit : CompilationUnit) : Prop where
  words : ∀ word ∈ unit.words, Plain word
  calls : ∀ callee args written span, .call callee args written span ∈ unit.arena.exprs →
    written.name ≠ none

/-- What is met in a tree without gaps is ready to be resolved. -/
theorem Worded.fresh (h : unit.Worded) {node : Node}
    (hunbroken : Unbroken (unit.arena.forest.visitsOf node)) :
    ∀ visit ∈ unit.arena.forest.visitsOf node, visit.Fresh unit.arena.forest [] := by
  have hpatterns : ∀ found ∈ unit.arena.patterns, ∀ word ∈ found.words, Plain word := by
    intro found hfound word hword
    refine h.words word (List.mem_cons_of_mem _ (List.mem_append_left _ ?_))
    exact List.mem_flatMap.mpr ⟨found, hfound.val, hword⟩
  have hexprs : ∀ found ∈ unit.arena.exprs, ∀ word ∈ found.words, Plain word := by
    intro found hfound word hword
    refine h.words word (List.mem_cons_of_mem _ (List.mem_append_right _
      (List.mem_append_left _ ?_)))
    exact List.mem_flatMap.mpr ⟨found, hfound.val, hword⟩
  intro visit hvisit
  refine ⟨Arena.owns_of_unbroken hunbroken visit hvisit, ?_, fun _ _ => List.not_mem_nil⟩
  cases visit with
  | binding id => trivial
  | pattern pattern =>
    obtain ⟨found, hfound, heq⟩ := Arena.exists_patternNode_of_unbroken hunbroken hvisit
    have hplain := hpatterns found (Array.mem_of_getElem? hfound)
    rw [heq]
    cases found with
    | type | record => exact fun name hname => hplain name (Option.mem_toList.mpr hname)
    | guarded | any => trivial
  | expr expr =>
    obtain ⟨found, hfound, heq⟩ := Arena.exists_exprNode_of_unbroken hunbroken hvisit
    have hmem := Array.mem_of_getElem? hfound
    have hplain := hexprs found hmem
    rw [heq]
    cases found with
    | ident | field => exact hplain _ (List.mem_singleton_self _)
    | call callee args written span =>
      obtain ⟨name, hname⟩ := Option.ne_none_iff_exists'.mp (h.calls callee args written span hmem)
      exact ⟨name, hname, hplain name (List.mem_cons_of_mem _ (Option.mem_toList.mpr hname))⟩
    | bool | int | binary | unary | instanceOf => trivial

theorem resolve_honest {forest : Forest} (hpool : pool.Proper)
    (hfresh : ∀ entry ∈ unit.entries, ∀ visit ∈ forest.visitsOf entry.1, visit.Fresh forest [])
    (hscopes : ∀ scope ∈ unit.scopes, scope.Proper pool) :
    Resolver.Honest pool forest [] True [] (unit.resolveAll pool forest) []
      fun types => ∀ ty ∈ types.2, pool.isError ty = false := by
  have hscope : ∀ site ∈ unit.sites, site.scope.Proper pool := fun site hsite =>
    hscopes _ (List.mem_append_left _ (List.mem_map_of_mem hsite))
  have hscope' : ∀ switch ∈ unit.switches, switch.scope.Proper pool := fun switch hswitch =>
    hscopes _ (List.mem_append_right _ (List.mem_map_of_mem hswitch))
  have hsites : ∀ site ∈ unit.sites, Resolver.Honest pool forest [] True [] (do
      let ty ← (forest.expr site.selector).resolve pool forest.locals site.scope
      let _ ← (forest.pattern site.pattern).resolve pool forest.locals ty site.scope
      return ty) [] fun ty => pool.isError ty = false := by
    intro site hsite
    obtain ⟨hselector, hpattern⟩ := mem_entries_of_site hsite
    exact .leaving (.bind (Expr.resolve_honest forest.locals hpool _ (hfresh _ hselector)
      fun _ => hscope site hsite) fun ty => .before (Pattern.resolve_honest forest.locals hpool _
      (hfresh _ hpattern) fun hpre => ⟨hpre.2, hscope site hsite⟩) fun _ => .pure fun hpre =>
      hpre.1.2) (by simp)
  have hswitches : ∀ {pre : Prop}, ∀ switch ∈ unit.switches,
      Resolver.Honest pool forest [] pre [] (do
        let ty ← (forest.expr switch.selector).resolve pool forest.locals switch.scope
        switch.cases.forM fun id =>
          discard ((forest.pattern id).resolve pool forest.locals ty switch.scope)
        return ty) [] fun ty => pool.isError ty = false := by
    intro pre switch hswitch
    obtain ⟨hselector, hcases⟩ := mem_entries_of_switch hswitch
    refine .leaving (.bind (Expr.resolve_honest forest.locals hpool _ (hfresh _ hselector)
      fun _ => hscope' switch hswitch) fun ty => .after (.forM _ fun id hid => ?_) fun _ =>
      .pure fun hpre => hpre.1.2) (by simp)
    exact .leaving (.discard (Pattern.resolve_honest forest.locals hpool _
      (hfresh _ (hcases id hid)) fun hpre => ⟨hpre.2, hscope' switch hswitch⟩)) (by simp)
  rw [resolveAll]
  exact .after (.mapM _ hsites) fun _ => .after (.mapM _ hswitches) fun types =>
    .pure fun hpre => hpre.2

/-! ## What is reported first -/

/-- A unit that was analysed has no gaps. -/
theorem unbroken_of_analysed {table : Resolution} {analysed : Analyser}
    (h : EStateM.run (unit.analyseAll table unit.arena.forest) ⟨FlowRecord.empty, .new .unlimited⟩ =
      .ok () analysed) {entry : Node × Scope} (hentry : entry ∈ unit.entries) :
    Unbroken (unit.arena.forest.visitsOf entry.1) := by
  have hcovers := ((unit.analyse_walks_anyhow table unit.arena.forest).covers.ensures _).of_ok h
  exact hcovers.covered.unbroken.sub (visitsOf_subset hentry)

/-- If there is anything to report, something is no follow-on. -/
theorem exists_firstHand (hpool : pool.Proper) (hworded : unit.Worded)
    (hscopes : ∀ scope ∈ unit.scopes, scope.Proper pool) {localTable : Bool} {compiled : Compiled}
    {offered : List Diagnostic} (h : unit.passesApart pool localTable = .ok (compiled, offered))
    (hsome : offered ≠ []) : ∃ diagnostic ∈ offered, diagnostic.isFollowOn = false := by
  obtain ⟨types, resolved, analysed, checks, -, hresolved, hanalysed, hchecks, -, rfl, -⟩ :=
    exists_of_passes h
  have hstart : Resolver.Fine pool unit.arena.forest [] ⟨Resolution.empty, .new .unlimited⟩ := by
    refine ⟨Queue.isSilent_new, fun id ty hty => ?_, fun id ty hty => ?_, fun id hid => ?_⟩
    · simp [Resolution.empty] at hty
    · simp [Resolution.empty] at hty
    · simp [Resolution.empty] at hid
  have hhonest := resolve_honest hpool
    (fun entry hentry => hworded.fresh (unbroken_of_analysed hanalysed hentry)) hscopes
  rcases (hhonest.fine trivial _ hstart (by simp [Resolution.Bound])).of_ok hresolved with
    ⟨diagnostic, hmem, hfirst⟩ | ⟨hfine, -, htypes⟩
  · exact ⟨diagnostic, by simp [hmem], hfirst⟩
  -- Resolution was silent, so any report will do.
  obtain ⟨diagnostic, hmem⟩ := List.exists_mem_of_ne_nil _ hsome
  refine ⟨diagnostic, hmem, ?_⟩
  rw [(Queue.isSilent_iff hfine.silent.1).1 hfine.silent, List.append_assoc, List.nil_append,
    List.mem_append] at hmem
  rcases hmem with hmem | hmem
  · obtain ⟨notes, heq, hnotes⟩ :=
      ((unit.analyse_walks_anyhow resolved.table unit.arena.forest).reports.ensures _).of_ok
        hanalysed
    rw [heq, Queue.diagnostics_addAll rfl] at hmem
    obtain ⟨span, decl, hdecl, rfl⟩ := hnotes diagnostic hmem
    rw [(Arena.isForest_forest unit.arena).locals] at hdecl
    refine (Diagnostic.isFollowOn_unassignedLocal span decl.name).mpr (hworded.words _ ?_)
    exact List.mem_cons_of_mem _ (List.mem_append_right _ (List.mem_append_right _
      (List.mem_append_left _ (List.mem_map_of_mem hdecl.val))))
  · rcases check_isOnCases hchecks diagnostic hmem with ⟨span, earlier, rfl⟩ | ⟨span, ty, hty, rfl⟩
    · exact Diagnostic.isFollowOn_dominatedCase span earlier
    · exact (Diagnostic.isFollowOn_notExhaustive ..).mpr (hpool.display (htypes ty hty))

/-- **Filtering never hides that a unit is wrong**: where everything is listed and there is
something, the default queue lists something as well. -/
theorem filtered_reports (hpool : pool.Declared fun _ _ => True)
    (hnames : ∀ entry ∈ pool.names, Plain entry.1)
    (hcomponents : ∀ ty, ∀ part ∈ pool.componentTypes ty, pool.isError part = false)
    (hworded : unit.Worded)
    (hscopes : ∀ scope ∈ unit.scopes, ∀ entry ∈ scope.entries, pool.isError entry.ty = false)
    {localTable cancelled : Bool} {compiled : Compiled}
    (h : unit.compile pool ⟨.unlimited, localTable⟩ cancelled = .ok compiled)
    (hsome : compiled.diagnostics ≠ []) :
    ∃ filtered, unit.compile pool ⟨.default, localTable⟩ cancelled = .ok filtered ∧
      filtered.diagnostics ≠ [] := by
  have hstays : unit.refusal? cancelled = none := by
    cases hrefusal : unit.refusal? cancelled with
    | none => rfl
    | some reason =>
      rw [compile_eq, hrefusal] at h
      cases h
  obtain ⟨passed, offered, hpassed, -, hlisted⟩ := passes_of_compile h
  have hoffered : offered ≠ [] := by
    rintro rfl
    exact hsome (hlisted.trans (by simp [Queue.flush, Queue.addAll, Queue.new]))
  have hfirst := exists_firstHand (hpool.proper hnames hcomponents) hworded hscopes hpassed hoffered
  rw [compile_eq, hstays]
  dsimp only
  rw [hpassed]
  exact ⟨_, rfl, Queue.flush_ne_nil hfirst⟩

/-- One site, `value instanceof (Object whole && nowhere && 1)`.  The name means nothing, so the
complaint about `&&` follows from that. -/
def nowhereAndOne : CompilationUnit where
  name := "NowhereAndOne"
  arena :=
    { patterns := #[.type ⟨some "Object", Span.none⟩ (some 0) Span.none, .guarded [0] 2 Span.none]
      exprs := #[.ident "nowhere" Span.none, .int 1 Span.none, .binary .and 0 1 Span.none,
        .ident "value" Span.none]
      locals := #[⟨"whole", Span.none⟩, ⟨"value", Span.none⟩] }
  sites := [⟨1, 3, ⟨[⟨"value", 1, Ty.object⟩]⟩⟩]
  switches := []

theorem worded_nowhereAndOne : nowhereAndOne.Worded where
  words := by decide
  calls callee args written span h := by simp [nowhereAndOne] at h

theorem filtered_reports_nowhereAndOne :
    Pool.shapes.Declared (fun _ _ => True) ∧ nowhereAndOne.Worded ∧
    (∃ compiled, nowhereAndOne.compile Pool.shapes ⟨.unlimited, true⟩ false = .ok compiled ∧
      compiled.diagnostics ≠ []) ∧
    ∃ filtered, nowhereAndOne.compile Pool.shapes ⟨.default, true⟩ false = .ok filtered ∧
      filtered.diagnostics ≠ [] := by
  have hrefusal : nowhereAndOne.refusal? false = none := by decide +kernel
  have hoffered : (nowhereAndOne.passesApart Pool.shapes true).toOption.map
      (fun passed => passed.2.map (·.isFollowOn)) = some [false, true] := by decide +kernel
  have hlisted : ∃ compiled,
      nowhereAndOne.compile Pool.shapes ⟨.unlimited, true⟩ false = .ok compiled ∧
        compiled.diagnostics ≠ [] := by
    rw [compile_eq, hrefusal]
    dsimp only
    cases hpassed : nowhereAndOne.passesApart Pool.shapes true with
    | error failure =>
      rw [hpassed] at hoffered
      cases hoffered
    | ok passed =>
      rw [hpassed] at hoffered
      have heq : passed.2.map (·.isFollowOn) = [false, true] := Option.some.inj hoffered
      have hmem : false ∈ passed.2.map (·.isFollowOn) := by
        rw [heq]
        decide
      obtain ⟨diagnostic, hdiagnostic, hfirst⟩ := List.mem_map.mp hmem
      exact ⟨_, rfl, Queue.flush_ne_nil ⟨diagnostic, hdiagnostic, hfirst⟩⟩
  refine ⟨Pool.declared_shapes, worded_nowhereAndOne, hlisted, ?_⟩
  obtain ⟨compiled, hcompile, hsome⟩ := hlisted
  exact filtered_reports Pool.declared_shapes (by decide) Pool.regular_shapes.components
    worded_nowhereAndOne (by decide) hcompile hsome

end CompilationUnit

end GuardedMatch
