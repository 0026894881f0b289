import GuardedMatch.Proofs.Exhaustive
import GuardedMatch.Proofs.Expecting

/-!
# A dominated case never matches first

If a pattern dominates another, it matches every value that the other matches, whatever the
guards say that are not constant.  The argument looks at the other pattern below its guards: a
pattern that names a type has tested it, and one that names none has been given the type that its
value is known to have, if it is tested against one type only.

* `matches_of_dominates`: a pattern matches what it dominates.
* `mem_dominatedCases`: a case is reported where an earlier one dominates it.
* `dominated_not_first`: domination is sound, and a dominated case is never the first to match.
-/

namespace GuardedMatch

/-! ## Patterns that are tested against one type -/

/-- A tree of the forest that is tested against no other type. -/
structure Forest.TestsOnly (forest : Forest) (pool : Pool) (places : List (PatternId × Ty))
    (pattern : Pattern) (ty : Ty) : Prop where
  owns : ∀ visit ∈ pattern.visits, forest.Owns visit
  only : ∀ {other : Ty}, forest.Expects pool places pattern.id other → other = ty

namespace Arena

variable {arena : Arena} {pool : Pool} {places : List (PatternId × Ty)} {ty : Ty}

section

variable (hacyclic : arena.Acyclic)
  (honce : (arena.patternReferences (places.map Prod.fst)).Nodup)

include hacyclic honce

theorem testsOnly_place {id : PatternId} (hplace : (id, ty) ∈ places) :
    arena.forest.TestsOnly pool places (arena.forest.pattern id) ty := by
  refine ⟨hacyclic.closed (.pattern id), fun hexpects => ?_⟩
  rw [hacyclic.id_pattern] at hexpects
  exact eq_of_expects_place hacyclic honce hplace hexpects

theorem testsOnly_component {id : PatternId} {written : TypeRef} {components : List Pattern}
    {span : Span}
    (h : arena.forest.TestsOnly pool places (.record id written components span) ty)
    {position : Nat} {pattern : Pattern} (hpattern : components[position]? = some pattern) :
    arena.forest.TestsOnly pool places pattern
      ((pool.recordParts written).2.getD position Ty.error) := by
  have hnode : arena.forest.pattern id = .record id written components span :=
    h.owns _ (Pattern.self_mem_visits _)
  refine ⟨fun visit hvisit => h.owns visit ?_, fun hexpects => ?_⟩
  · rw [Pattern.visits, Pattern.visitsAll_eq]
    exact List.mem_cons_of_mem _
      (List.mem_flatMap.2 ⟨pattern, List.mem_of_getElem? hpattern, hvisit⟩)
  · exact eq_of_expects_component hacyclic honce hnode hpattern hexpects

theorem testsOnly_sub {id : PatternId} {patterns : List Pattern} {condition : Expr} {span : Span}
    (h : arena.forest.TestsOnly pool places (.guarded id patterns condition span) ty)
    {pattern : Pattern} (hpattern : pattern ∈ patterns) :
    arena.forest.TestsOnly pool places pattern ty := by
  have hnode : arena.forest.pattern id = .guarded id patterns condition span :=
    h.owns _ (Pattern.self_mem_visits _)
  refine ⟨fun visit hvisit => h.owns visit ?_, fun hexpects => ?_⟩
  · rw [Pattern.visits, Pattern.visitsAll_eq]
    exact List.mem_cons_of_mem _
      (List.mem_append_left _ (List.mem_flatMap.2 ⟨pattern, hpattern, hvisit⟩))
  · exact h.only (expects_of_sub hacyclic honce hnode hpattern hexpects)

end

end Arena

/-! ## What a dominated pattern says about a value -/

/-- A table for the patterns of an arena that are each referred to once. -/
structure Arena.ResolvedAt (arena : Arena) (pool : Pool) (places : List (PatternId × Ty))
    (table : Resolution) : Prop where
  error : pool.isError Ty.error = true
  acyclic : arena.Acyclic
  once : (arena.patternReferences (places.map Prod.fst)).Nodup
  faithful : table.Faithful arena.forest pool places

section

variable {arena : Arena} {pool : Pool} {places : List (PatternId × Ty)} {table : Resolution}
  {model : ValueModel pool} {holds holds' : Expr → model.Value → Prop}

/-- A value that a pattern matches is matched by what is below the guards. -/
theorem matches_core (hresolved : arena.ResolvedAt pool places table) :
    ∀ (pattern : Pattern) {core : Pattern} {ty : Ty} {value : model.Value},
      pattern.core = some core → arena.forest.TestsOnly pool places pattern ty →
      pattern.MatchesUnder model table holds value →
      arena.forest.TestsOnly pool places core ty ∧ core.MatchesUnder model table holds value ∧
        ∀ id patterns condition span, core ≠ .guarded id patterns condition span
  | .type .., core, ty, value, hcore, htests, hmatches => by
    cases hcore
    exact ⟨htests, hmatches, by simp⟩
  | .record .., core, ty, value, hcore, htests, hmatches => by
    cases hcore
    exact ⟨htests, hmatches, by simp⟩
  | .guarded id [] condition span, core, ty, value, hcore, _, _ => by cases hcore
  | .guarded id (first :: rest) condition span, core, ty, value, hcore, htests, hmatches => by
    rw [Pattern.core] at hcore
    rw [Pattern.MatchesUnder, Pattern.AllMatchUnder] at hmatches
    exact matches_core hresolved first hcore
      (Arena.testsOnly_sub hresolved.acyclic hresolved.once htests (by simp)) hmatches.1.1
  | .any .., core, ty, value, hcore, htests, hmatches => by
    cases hcore
    exact ⟨htests, hmatches, by simp⟩
  | .missing _, core, ty, value, _, _, hmatches => hmatches.elim

/-- The table has the type that a pattern without guards lets through. -/
theorem inst_patternType (hresolved : arena.ResolvedAt pool places table) {core : Pattern} {ty : Ty}
    {value : model.Value} (htests : arena.forest.TestsOnly pool places core ty)
    (hguarded : ∀ id patterns condition span, core ≠ .guarded id patterns condition span)
    (hmatches : core.MatchesUnder model table holds value)
    (hvalue : pool.isError ty = false → model.inst value ty)
    (hknown : pool.isError (table.patternType core.id) = false) :
    model.inst value (table.patternType core.id) := by
  cases core with
  | type => exact hmatches
  | record => exact hmatches.1
  | guarded id patterns condition span => exact absurd rfl (hguarded id patterns condition span)
  | any id span =>
    have hnode : arena.forest.pattern id = .any id span :=
      htests.owns _ (Pattern.self_mem_visits _)
    rw [Pattern.id, Resolution.patternType] at hknown ⊢
    cases hty : table.patternTypes[id]? with
    | none =>
      rw [hty, Option.getD_none, hresolved.error] at hknown
      cases hknown
    | some found =>
      rw [hty, Option.getD_some] at hknown
      obtain rfl := htests.only (hresolved.faithful.any hnode hty)
      exact hvalue hknown
  | missing => exact hmatches.elim

/-- The types of the components that a record pattern is matched against are those of its type. -/
theorem recordParts_of_known (hresolved : arena.ResolvedAt pool places table) {id : PatternId}
    {written : TypeRef} {components : List Pattern} {span : Span} {ty : Ty}
    (htests : arena.forest.TestsOnly pool places (.record id written components span) ty)
    (hknown : pool.isError (table.patternType id) = false) :
    (pool.recordParts written).2 = pool.componentTypes (table.patternType id) := by
  have hnode : arena.forest.pattern id = .record id written components span :=
    htests.owns _ (Pattern.self_mem_visits _)
  rw [Resolution.patternType] at hknown ⊢
  cases hty : table.patternTypes[id]? with
  | none =>
    rw [hty, Option.getD_none, hresolved.error] at hknown
    cases hknown
  | some found =>
    rw [hty, Option.getD_some] at hknown
    rw [Option.getD_some]
    obtain rfl := hresolved.faithful.record hnode hty
    rw [Pool.recordParts] at hknown ⊢
    split
    next hnone => simp [hnone, hresolved.error] at hknown
    next name hname =>
      simp only [hname] at hknown
      dsimp only
      split
      next hbad => simp [hbad, hresolved.error] at hknown
      next => rfl

mutual

/-- **A pattern matches what the patterns match that it dominates**, whatever the guards say that
are not constant. -/
theorem matches_of_dominates
    (hresolved : arena.ResolvedAt pool places table)
    (hconstant : ∀ (condition : Expr) value, condition.truth = some true → holds' condition value) :
    ∀ (pattern other : Pattern) {ty : Ty} {value : model.Value}, pattern.Each Visit.Single →
      pattern.dominates pool table other = .ok true →
      arena.forest.TestsOnly pool places other ty →
      (pool.isError ty = false → model.inst value ty) →
      other.MatchesUnder model table holds value → pattern.MatchesUnder model table holds' value
  | .type id written binds span, other, ty, value, _, h, htests, hvalue, hmatches => by
    rw [Pattern.dominates.eq_def] at h
    dsimp only at h
    split at h
    next => cases h
    next core _ hcore =>
      obtain ⟨htests, hmatches, hguarded⟩ := matches_core hresolved other hcore htests hmatches
      have hincludes := Except.ok.inj h
      rw [Bool.and_eq_true, Bool.not_eq_true'] at hincludes
      rw [Pattern.MatchesUnder]
      exact inst_of_includes hincludes.1 hincludes.2
        (inst_patternType hresolved htests hguarded hmatches hvalue hincludes.1)
    next => cases h
  | .record id written components span, other, ty, value, hsingle, h, htests, hvalue,
      hmatches => by
    rw [Pattern.dominates.eq_def] at h
    dsimp only at h
    split at h
    next => cases h
    next id' written' components' span' hcore =>
      obtain ⟨htests, hmatches, _⟩ := matches_core hresolved other hcore htests hmatches
      split at h
      next hsame =>
        obtain ⟨hknown, hty, hlength⟩ := hsame
        rw [Bool.not_eq_true'] at hknown
        rw [Pattern.MatchesUnder] at hmatches ⊢
        rw [hty] at hknown ⊢
        refine ⟨hmatches.1, components_match_of_dominateEach hresolved hconstant components
          components' 0 (fun _ => hsingle.component) hlength h (fun position pattern hpattern => ?_)
          hmatches.2⟩
        refine ⟨_, Arena.testsOnly_component hresolved.acyclic hresolved.once htests hpattern,
          fun hpart => ?_⟩
        -- A component that is tested against a known type has that type in the value.
        rw [recordParts_of_known hresolved htests hknown] at hpart ⊢
        rw [List.getD_eq_getElem?_getD] at hpart ⊢
        cases hfound : (pool.componentTypes (table.patternType id'))[position]? with
        | none =>
          rw [hfound, Option.getD_none, hresolved.error] at hpart
          cases hpart
        | some found =>
          rw [Option.getD_some, Nat.zero_add]
          exact model.inst_proj hmatches.1 hfound
      next => cases h
    next => cases h
  | .any .., other, ty, value, _, _, _, _, _ => by
    rw [Pattern.MatchesUnder]
    trivial
  | .guarded id patterns condition span, other, ty, value, hsingle, h, htests, hvalue,
      hmatches => by
    have hlength : patterns.length = 1 :=
      hsingle (.pattern (.guarded id patterns condition span)) (Pattern.self_mem_visits _)
    rw [Pattern.dominates, Check.andThen_eq_true] at h
    rw [Pattern.MatchesUnder]
    exact ⟨all_match_of_someDominates hresolved hconstant patterns other (fun _ => hsingle.sub)
      hlength h.2 htests hvalue hmatches, hconstant _ _ ((Expr.isVacuous_eq_ok h.1).1 rfl)⟩
  | .missing _, other, ty, value, _, h, _, _, _ => by cases h

/-- The same for the components of records, from a position on. -/
theorem components_match_of_dominateEach
    (hresolved : arena.ResolvedAt pool places table)
    (hconstant : ∀ (condition : Expr) value, condition.truth = some true → holds' condition value) :
    ∀ (patterns others : List Pattern) (start : Nat) {value : model.Value},
      (∀ pattern ∈ patterns, pattern.Each Visit.Single) → patterns.length = others.length →
      Pattern.dominateEach pool table patterns others = .ok true →
      (∀ (position : Nat) other, others[position]? = some other →
        ∃ ty, arena.forest.TestsOnly pool places other ty ∧
          (pool.isError ty = false → model.inst (model.proj value (start + position)) ty)) →
      Pattern.ComponentsMatchUnder model table holds others start value →
      Pattern.ComponentsMatchUnder model table holds' patterns start value
  | [], others, start, value, _, _, _, _, _ => by
    rw [Pattern.ComponentsMatchUnder]
    trivial
  | pattern :: patterns, [], start, value, _, hlength, _, _, _ => by simp at hlength
  | pattern :: patterns, other :: others, start, value, hsingle, hlength, h, htests, hmatches => by
    rw [Pattern.dominateEach, Check.andThen_eq_true] at h
    rw [Pattern.ComponentsMatchUnder] at hmatches ⊢
    obtain ⟨ty, hother, hvalue⟩ := htests 0 other rfl
    refine ⟨matches_of_dominates hresolved hconstant pattern other (hsingle pattern (by simp)) h.1
      hother hvalue hmatches.1, ?_⟩
    refine components_match_of_dominateEach hresolved hconstant patterns others (start + 1)
      (fun pattern hpattern => hsingle pattern (by simp [hpattern])) (by simpa using hlength) h.2
      (fun position other hother => ?_) hmatches.2
    obtain ⟨ty, hother, hvalue⟩ := htests (position + 1) other hother
    refine ⟨ty, hother, fun hpart => ?_⟩
    rw [Nat.add_right_comm]
    exact hvalue hpart

/-- The same for the one pattern below a guard. -/
theorem all_match_of_someDominates
    (hresolved : arena.ResolvedAt pool places table)
    (hconstant : ∀ (condition : Expr) value, condition.truth = some true → holds' condition value) :
    ∀ (patterns : List Pattern) (other : Pattern) {ty : Ty} {value : model.Value},
      (∀ pattern ∈ patterns, pattern.Each Visit.Single) →
      patterns.length = 1 → Pattern.someDominates pool table patterns other = .ok true →
      arena.forest.TestsOnly pool places other ty →
      (pool.isError ty = false → model.inst value ty) →
      other.MatchesUnder model table holds value →
      Pattern.AllMatchUnder model table holds' patterns value
  | [], other, ty, value, _, hlength, _, _, _, _ => by cases hlength
  | pattern :: patterns, other, ty, value, hsingle, hlength, h, htests, hvalue, hmatches => by
    obtain rfl : patterns = [] := by simpa using hlength
    rw [Pattern.someDominates, Check.orElse_eq_true, Pattern.someDominates] at h
    rw [Pattern.AllMatchUnder, Pattern.AllMatchUnder]
    have hdominates : pattern.dominates pool table other = .ok true := by
      rcases h with h | ⟨_, h⟩
      · exact h
      · cases h
    exact ⟨matches_of_dominates hresolved hconstant pattern other (hsingle pattern (by simp))
      hdominates htests hvalue hmatches, trivial⟩

end

end

/-! ## Dominated cases -/

section

variable {pool : Pool} {table : Resolution}

/-- The first dominator stands where it is said to stand. -/
theorem dominates_of_firstDominator {later : Pattern} : ∀ (patterns : List Pattern)
    (start found : Nat), firstDominator pool table later start patterns = .ok (some found) →
      ∃ offset earlier, found = start + offset ∧ patterns[offset]? = some earlier ∧
        earlier.dominates pool table later = .ok true := by
  intro patterns
  induction patterns with
  | nil =>
    intro start found h
    cases h
  | cons pattern patterns ih =>
    intro start found h
    rw [firstDominator] at h
    obtain ⟨answer, hanswer, h⟩ := ok_of_bind h
    cases answer with
    | true =>
      cases h
      exact ⟨0, pattern, rfl, rfl, hanswer⟩
    | false =>
      obtain ⟨offset, earlier, hfound, hearlier, hdominates⟩ := ih (start + 1) found h
      exact ⟨offset + 1, earlier, by omega, hearlier, hdominates⟩

/-- **A case is reported where an earlier one dominates it.** -/
theorem mem_dominatedCases : ∀ (patterns before : List Pattern) {found : List DominatedCase},
    dominatedCases pool table before patterns = .ok found → ∀ dominated ∈ found,
      ∃ earlier later, dominated.earlier < dominated.position ∧
        (before ++ patterns)[dominated.earlier]? = some earlier ∧
        (before ++ patterns)[dominated.position]? = some later ∧
        earlier.dominates pool table later = .ok true := by
  intro patterns
  induction patterns with
  | nil =>
    intro before found h dominated hmem
    cases h
    cases hmem
  | cons pattern patterns ih =>
    intro before found h dominated hmem
    rw [dominatedCases] at h
    obtain ⟨dominator, hdominator, h⟩ := ok_of_bind h
    obtain ⟨others, hothers, h⟩ := ok_of_bind h
    cases h
    rcases List.mem_append.1 hmem with hmem | hmem
    · obtain ⟨position, rfl, rfl⟩ : ∃ position, dominator = some position ∧
          dominated = ⟨before.length, position⟩ := by
        cases dominator with
        | none => cases hmem
        | some position => exact ⟨position, rfl, by simpa using hmem⟩
      obtain ⟨offset, earlier, rfl, hearlier, hdominates⟩ :=
        dominates_of_firstDominator before 0 position hdominator
      have hlt : offset < before.length := (List.getElem?_eq_some_iff.1 hearlier).1
      refine ⟨earlier, pattern, by simpa using hlt, ?_, by simp, hdominates⟩
      rw [Nat.zero_add, List.getElem?_append_left hlt, hearlier]
    · have h := ih (before ++ [pattern]) hothers dominated hmem
      rwa [List.append_assoc, List.singleton_append] at h

theorem dominatedCases_of_checkSwitch {forest : Forest} {cases : List PatternId} {selector : Ty}
    {span : Span} {report : SwitchReport} {offered : List Diagnostic}
    (h : forest.checkSwitch pool table cases selector span = .ok (report, offered)) :
    dominatedCases pool table [] (cases.map forest.pattern) = .ok report.dominated := by
  rw [Forest.checkSwitch_eq, Forest.findings] at h
  obtain ⟨dominated, hdominated, h⟩ := ok_of_bind h
  obtain ⟨_, _, h⟩ := ok_of_bind h
  obtain ⟨exhaustive, _, h⟩ := ok_of_bind h
  cases h
  exact hdominated

end

/-- The case at a position is the first that matches a value. -/
def IsFirstMatch {pool : Pool} (model : ValueModel pool) (table : Resolution)
    (holds : Expr → model.Value → Prop) (patterns : List Pattern) (position : Nat)
    (value : model.Value) : Prop :=
  (∃ pattern, patterns[position]? = some pattern ∧ pattern.MatchesUnder model table holds value) ∧
    ∀ earlier < position, ∀ pattern, patterns[earlier]? = some pattern →
      ¬ pattern.MatchesUnder model table holds value

/-- **Domination is sound.**  Let every pattern be referred to once and every guard stand on one
pattern.  Of two patterns that are tested against the same type, the one that dominates the other
matches every value of the type that the other matches under some outcome of its guards, under
every outcome of those that are not constant.  So a case that is reported as dominated is never
the first that matches. -/
theorem dominated_not_first {pool : Pool} (hpool : pool.Declared fun _ _ => True) {arena : Arena}
    (hacyclic : arena.Acyclic) (hguards : arena.GuardsOne) {places : List (PatternId × Ty)}
    (honce : (arena.patternReferences (places.map Prod.fst)).Nodup) {table : Resolution}
    (htable : table.Asked arena.forest pool places) (model : ValueModel pool) {expected : Ty} :
    (∀ earlier later : PatternId, (later, expected) ∈ places →
      (arena.forest.pattern earlier).dominates pool table (arena.forest.pattern later) = .ok true →
      ∀ holds holds' : Expr → model.Value → Prop,
        (∀ (condition : Expr) value answer, condition.truth = some answer →
          (holds' condition value ↔ answer = true)) →
        ∀ value, model.inst value expected →
          (arena.forest.pattern later).MatchesUnder model table holds value →
          (arena.forest.pattern earlier).MatchesUnder model table holds' value) ∧
    ∀ (cases : List PatternId) (span : Span) (report : SwitchReport) (offered : List Diagnostic),
      (∀ case ∈ cases, (case, expected) ∈ places) →
      arena.forest.checkSwitch pool table cases expected span = .ok (report, offered) →
      ∀ dominated ∈ report.dominated, ∀ holds : Expr → model.Value → Prop,
        (∀ (condition : Expr) value answer, condition.truth = some answer →
          (holds condition value ↔ answer = true)) →
        ∀ value, model.inst value expected →
          ¬ IsFirstMatch model table holds (cases.map arena.forest.pattern) dominated.position
            value := by
  have hresolved : arena.ResolvedAt pool places table :=
    ⟨hpool.isError_error.2, hacyclic, honce, htable.faithful hacyclic⟩
  have hsound : ∀ earlier later : PatternId, (later, expected) ∈ places →
      (arena.forest.pattern earlier).dominates pool table (arena.forest.pattern later) = .ok true →
      ∀ holds holds' : Expr → model.Value → Prop,
        (∀ (condition : Expr) value answer, condition.truth = some answer →
          (holds' condition value ↔ answer = true)) →
        ∀ value, model.inst value expected →
          (arena.forest.pattern later).MatchesUnder model table holds value →
          (arena.forest.pattern earlier).MatchesUnder model table holds' value := by
    intro earlier later hlater hdominates holds holds' hconstant value hvalue hmatches
    exact matches_of_dominates hresolved
      (fun condition value htruth => (hconstant condition value true htruth).2 rfl) _ _
      (hguards.each hacyclic earlier) hdominates (Arena.testsOnly_place hacyclic honce hlater)
      (fun _ => hvalue) hmatches
  refine ⟨hsound, ?_⟩
  intro cases span report offered hcases hcheck dominated hmem holds hconstant value hvalue hfirst
  obtain ⟨earlier, later, hlt, hearlier, hlater, hdominates⟩ :=
    mem_dominatedCases _ [] (dominatedCases_of_checkSwitch hcheck) dominated hmem
  rw [List.nil_append] at hearlier hlater
  obtain ⟨⟨pattern, hpattern, hmatches⟩, hnone⟩ := hfirst
  obtain rfl : later = pattern := Option.some.inj (hlater.symm.trans hpattern)
  refine hnone dominated.earlier hlt earlier hearlier ?_
  obtain ⟨earlierId, _, rfl⟩ := List.mem_map.1 (List.mem_of_getElem? hearlier)
  obtain ⟨laterId, hlaterId, rfl⟩ := List.mem_map.1 (List.mem_of_getElem? hlater)
  exact hsound earlierId laterId (hcases laterId hlaterId) hdominates holds holds hconstant value
    hvalue hmatches

/-- Boxes that hold an object, and after them boxes that pass a test. -/
def boxCases : Arena where
  patterns := #[.type ⟨some "Object", Span.none⟩ none Span.none,
    .record ⟨some "Box", Span.none⟩ [0] Span.none, .any Span.none,
    .record ⟨some "Box", Span.none⟩ [2] Span.none, .guarded [3] 0 Span.none]
  exprs := #[.call "test" [] ⟨some "boolean", Span.none⟩ Span.none]
  locals := #[]

/-- What resolution finds out about the boxes that hold an object. -/
def plainBoxTable : Resolution :=
  (Resolution.empty.setPatternType 0 Ty.object).setPatternType 1 ⟨34⟩

/-- What it finds out about the tested boxes after that. -/
def boxTable : Resolution :=
  (((plainBoxTable.setPatternType 2 Ty.object).setPatternType 3 ⟨34⟩).setPatternType 4
    ⟨34⟩).setExprType 0 Ty.boolean

theorem acyclic_boxCases : boxCases.Acyclic :=
  Arena.acyclic_of_rank (Node.rank (fun id => id + 1) fun _ => 0) (by decide)

theorem guardsOne_boxCases : boxCases.GuardsOne := by
  rintro (_ | _ | _ | _ | _ | id) patterns condition span h <;> simp [boxCases] at h
  rw [← h.1, List.length_singleton]

theorem asked_boxTable : boxTable.Asked boxCases.forest Pool.shapes [(1, ⟨32⟩), (4, ⟨32⟩)] := by
  have hplain : boxCases.forest.resolvePattern Pool.shapes Resolution.empty 1 ⟨32⟩ Scope.empty =
      .ok ⟨⟨34⟩, plainBoxTable, []⟩ := by with_unfolding_all rfl
  have htested : boxCases.forest.resolvePattern Pool.shapes plainBoxTable 4 ⟨32⟩ Scope.empty =
      .ok ⟨⟨34⟩, boxTable, []⟩ := by with_unfolding_all rfl
  exact .pattern (.pattern .empty (by simp) hplain) (by simp) htested

/-- A box in a box passes the test, but it was matched before, as it is if all tests fail. -/
theorem dominated_boxedBox :
    boxCases.forest.checkSwitch Pool.shapes boxTable [1, 4] ⟨32⟩ Span.none =
      .ok (⟨[⟨1, 0⟩], false⟩, [Diagnostic.dominatedCase Span.none Span.none,
        Diagnostic.notExhaustive Span.none "Shape"]) ∧
    (boxCases.forest.pattern 4).MatchesUnder Pool.topDown_shapes.layered.model boxTable
      (fun _ _ => True) boxedBox ∧
    (boxCases.forest.pattern 1).MatchesUnder Pool.topDown_shapes.layered.model boxTable
      (fun condition _ => condition.truth = some true) boxedBox ∧
    ¬ IsFirstMatch Pool.topDown_shapes.layered.model boxTable
      (fun condition _ => condition.truth ≠ some false)
      ([1, 4].map boxCases.forest.pattern) 1 boxedBox := by
  have hcheck : boxCases.forest.checkSwitch Pool.shapes boxTable [1, 4] ⟨32⟩ Span.none =
      .ok (⟨[⟨1, 0⟩], false⟩, [Diagnostic.dominatedCase Span.none Span.none,
        Diagnostic.notExhaustive Span.none "Shape"]) := by with_unfolding_all rfl
  have hdominates : (boxCases.forest.pattern 1).dominates Pool.shapes boxTable
      (boxCases.forest.pattern 4) = .ok true := by with_unfolding_all rfl
  have htested : boxCases.forest.pattern 4 = .guarded 4
      [.record 3 ⟨some "Box", Span.none⟩ [.any 2 Span.none] Span.none]
      (.call 0 "test" [] ⟨some "boolean", Span.none⟩ Span.none) Span.none := by
    with_unfolding_all rfl
  have hmatches : (boxCases.forest.pattern 4).MatchesUnder Pool.topDown_shapes.layered.model
      boxTable (fun _ _ => True) boxedBox := by
    obtain ⟨hty, hcomponents, _, _⟩ := inhabits_boxedBox
    have hbox : Pool.shapes.Inhabits boxedBox (boxTable.patternType 3) :=
      ⟨hty, hcomponents, by decide, by decide⟩
    rw [htested]
    simpa [Pattern.MatchesUnder, Pattern.AllMatchUnder, Pattern.ComponentsMatchUnder] using hbox
  obtain ⟨hsound, hfirst⟩ := dominated_not_first Pool.declared_shapes acyclic_boxCases
    guardsOne_boxCases (by decide) asked_boxTable Pool.topDown_shapes.layered.model
  refine ⟨hcheck, hmatches, ?_, ?_⟩
  · exact hsound 1 4 (by simp) hdominates (fun _ _ => True) _
      (fun _ _ _ htruth => by simp [htruth]) boxedBox inhabits_boxedBox hmatches
  · refine hfirst [1, 4] Span.none _ _ (by simp) hcheck ⟨1, 0⟩ (by simp) _ ?_ boxedBox
      inhabits_boxedBox
    intro condition value answer htruth
    cases answer <;> simp [htruth]

end GuardedMatch
