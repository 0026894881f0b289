import GuardedMatch.Proofs.Resolving

/-!
# Types of expressions

Every expression below a resolved pattern has a type in the table.  A guarded pattern that has a
type is not resolved again, wherever it is met, so along with it we show that such a pattern was
resolved to the end.

* `Resolver.Course.fills`: resolving gives a type to every expression it visits, if the guarded
  patterns among the visits that have a type are settled.
* `Resolution.Produced.typed`: after resolutions one after the other, what is below a resolved
  pattern has types.
-/

namespace GuardedMatch

variable {condition : Expr} {id : PatternId} {patterns : List Pattern} {span : Span}

namespace Resolution

/-- The expressions among the visits have types. -/
def Typed (table : Resolution) (visits : List Visit) : Prop :=
  ∀ expr, .expr expr ∈ visits → expr.id ∈ table.exprTypes

/-- The guarded patterns among the visits that have a type were resolved to the end. -/
def Settled (table : Resolution) (visits : List Visit) : Prop :=
  ∀ id patterns condition span, .pattern (.guarded id patterns condition span) ∈ visits →
    id ∈ table.patternTypes → table.Typed (Pattern.guarded id patterns condition span).visits

/-- Expressions keep having types, new types of patterns are given to visited ones, and the visited
expressions have types. -/
structure Fills (visits : List Visit) (table after : Resolution) : Prop where
  exprs : ∀ id, id ∈ table.exprTypes → id ∈ after.exprTypes
  patterns : ∀ id, id ∈ after.patternTypes → id ∈ table.patternTypes ∨
    ∃ pattern, .pattern pattern ∈ visits ∧ pattern.id = id
  typed : after.Typed visits

variable {forest : Forest} {table mid after : Resolution} {visits first rest : List Visit}

theorem Fills.refl (table : Resolution) : Fills [] table table :=
  ⟨fun _ h => h, fun _ h => .inl h, nofun⟩

theorem Fills.trans (h : Fills first table mid) (h' : Fills rest mid after) :
    Fills (first ++ rest) table after := by
  refine ⟨fun id hid => h'.exprs id (h.exprs id hid), fun id hid => ?_, fun expr hexpr => ?_⟩
  · rcases h'.patterns id hid with hmid | ⟨pattern, hpattern, heq⟩
    · rcases h.patterns id hmid with htable | ⟨pattern, hpattern, heq⟩
      · exact .inl htable
      · exact .inr ⟨pattern, List.mem_append_left _ hpattern, heq⟩
    · exact .inr ⟨pattern, List.mem_append_right _ hpattern, heq⟩
  · rcases List.mem_append.mp hexpr with hfirst | hrest
    · exact h'.exprs _ (h.typed expr hfirst)
    · exact h'.typed expr hrest

theorem Fills.perm {visits' : List Visit} (h : Fills visits table after)
    (hperm : visits.Perm visits') : Fills visits' table after :=
  ⟨h.exprs, fun id hid => (h.patterns id hid).imp_right fun ⟨pattern, hpattern, heq⟩ =>
    ⟨pattern, hperm.subset hpattern, heq⟩, fun expr hexpr => h.typed expr (hperm.symm.subset hexpr)⟩

/-- What counts of the table after is which patterns and which expressions have types. -/
theorem Fills.of_eq (h : Fills visits table mid) (hexprs : after.exprTypes = mid.exprTypes)
    (hpatterns : after.patternTypes = mid.patternTypes) : Fills visits table after :=
  ⟨fun id hid => hexprs ▸ h.exprs id hid, fun id hid => h.patterns id (hpatterns ▸ hid),
    fun expr hexpr => hexprs ▸ h.typed expr hexpr⟩

theorem Fills.setPatternType (pattern : Pattern) (ty : Ty) (table : Resolution) :
    Fills [.pattern pattern] table (table.setPatternType pattern.id ty) := by
  refine ⟨fun _ h => h, fun id hid => ?_, fun expr hexpr => by simp at hexpr⟩
  rcases Std.ExtTreeMap.mem_insert.mp hid with heq | hmem
  · exact .inr ⟨pattern, List.mem_singleton_self _, Nat.compare_eq_eq.mp heq⟩
  · exact .inl hmem

theorem Fills.setExprType (expr : Expr) (ty : Ty) (table : Resolution) :
    Fills [.expr expr] table (table.setExprType expr.id ty) := by
  refine ⟨fun id hid => Std.ExtTreeMap.mem_insert.mpr (.inr hid), fun _ h => .inl h, ?_⟩
  intro other hother
  obtain rfl : other = expr := by simpa using hother
  exact Std.ExtTreeMap.mem_insert.mpr (.inl (Nat.compare_eq_eq.mpr rfl))

theorem Settled.mono (h : table.Settled visits) (hsub : first ⊆ visits) : table.Settled first :=
  fun id patterns condition span hvisit => h id patterns condition span (hsub hvisit)

/-- What is filled along the way is settled. -/
theorem Settled.fills (h : table.Settled visits) (hfills : Fills first table after)
    (hvisits : ∀ visit ∈ visits, forest.Owns visit) (hfirst : ∀ visit ∈ first, forest.Owns visit)
    (hwhole : Visit.Whole first) : after.Settled visits := by
  intro id patterns condition span hvisit hid expr hexpr
  rcases hfills.patterns id hid with htable | ⟨pattern, hpattern, heq⟩
  · exact hfills.exprs _ (h id patterns condition span hvisit htable expr hexpr)
  · have hown : forest.pattern pattern.id = pattern := hfirst _ hpattern
    have hown' : forest.pattern id = .guarded id patterns condition span := hvisits _ hvisit
    have hsame : pattern = .guarded id patterns condition span := by rw [← hown, heq, hown']
    exact hfills.typed expr (hwhole id patterns condition span (hsame ▸ hpattern) hexpr)

end Resolution

/-- No condition holds the guarded pattern whose condition it is. -/
theorem Expr.guarded_not_mem_visits :
    .pattern (.guarded id patterns condition span) ∉ condition.visits := by
  intro h
  have hlength := (condition.below_sublist h).length_le
  rw [Visit.below, Pattern.visits, List.length_cons, List.length_append] at hlength
  omega

/-- No sub-pattern holds the guarded pattern that it is a part of. -/
theorem Pattern.guarded_not_mem_visitsAll :
    .pattern (.guarded id patterns condition span) ∉ Pattern.visitsAll patterns := by
  intro h
  have hlength := (Pattern.below_sublist_all patterns h).length_le
  rw [Visit.below, Pattern.visits, List.length_cons, List.length_append] at hlength
  omega

/-- A guarded pattern that gets a type does not count for its condition, which does not hold it. -/
theorem Resolution.Settled.setPatternType {forest : Forest} {table : Resolution}
    (h : table.Settled condition.visits)
    (hown : forest.Owns (.pattern (.guarded id patterns condition span)))
    (howns : ∀ visit ∈ condition.visits, forest.Owns visit) (ty : Ty) :
    (table.setPatternType id ty).Settled condition.visits := by
  intro id' patterns' condition' span' hvisit hid'
  rcases Std.ExtTreeMap.mem_insert.mp hid' with heq | hmem
  · obtain rfl : id' = id := (Nat.compare_eq_eq.mp heq).symm
    have hsame : Pattern.guarded id' patterns' condition' span' =
        .guarded id' patterns condition span := (howns _ hvisit).symm.trans hown
    exact absurd (hsame ▸ hvisit) Expr.guarded_not_mem_visits
  · exact h id' patterns' condition' span' hvisit hmem

/-! ## Courses -/

namespace Resolver

variable {forest : Forest} {pool : Pool} {locals : Array LocalDecl} {outer : Scope}
  {visits : List Visit} {reads : List Read}

/-- **A resolution gives types to all expressions that it meets.** -/
theorem Course.fills {state after : Resolver}
    (h : Course pool locals outer visits reads state after)
    (howns : ∀ visit ∈ visits, forest.Owns visit) (hsettled : state.table.Settled visits) :
    Resolution.Fills visits state.table after.table := by
  induction h with
  | refl state => exact .refl _
  | @change state change hchange =>
    cases change with
    | report | conversion => exact (Resolution.Fills.refl state.table).of_eq rfl rfl
    | patternType | exprType | localType | identLocal => exact hchange.elim
  | binding state id ty => exact ⟨fun _ h => h, fun _ h => .inl h, by simp [Resolution.Typed]⟩
  | pattern state _ ty => exact .setPatternType _ ty state.table
  | expr state expr reads ty => exact .setExprType expr ty state.table
  | @ident state id name span _ target _ ty =>
    exact (Resolution.Fills.setExprType (.ident id name span) ty state.table).of_eq rfl rfl
  | trans hfirst _ ih ih' =>
    rw [List.forall_mem_append] at howns
    have hmid := ih howns.1 (hsettled.mono (List.subset_append_left ..))
    refine hmid.trans (ih' howns.2 ?_)
    exact (hsettled.mono (List.subset_append_right ..)).fills hmid howns.2 howns.1 hfirst.whole
  | perm _ hperm ih =>
    exact (ih (fun visit hvisit => howns visit (hperm.subset hvisit))
      (hsettled.mono hperm.subset)).perm hperm
  | skip state patterns condition span reads hid =>
    exact ⟨fun _ h => h, fun _ h => .inl h,
      hsettled _ patterns condition span (Pattern.self_mem_visits _) hid⟩
  | @enter id patterns condition span ty _ _ state mid last hid hcourse _ ih ih' =>
    rw [Pattern.visits, List.forall_mem_cons, List.forall_mem_append] at howns
    obtain ⟨hown, hpatterns, hcondition⟩ := howns
    have hmid := ih hpatterns (hsettled.mono
      Visit.left_subset)
    have htyped := hmid.trans (.setPatternType (.guarded id patterns condition span) ty _)
    have hsettled' := (hsettled.mono (List.subset_cons_of_subset _
      (List.subset_append_right ..))).fills hmid hcondition hpatterns hcourse.whole
    have hready := hsettled'.setPatternType hown hcondition ty
    have hperm : (Pattern.visitsAll patterns ++
        [Visit.pattern (.guarded id patterns condition span)] ++ condition.visits).Perm
        (Pattern.guarded id patterns condition span).visits := by
      rw [List.append_assoc, Pattern.visits]
      exact List.perm_middle
    refine ((htyped.trans (ih' hcondition hready)).perm hperm).of_eq ?_ ?_
    · exact tagged_keeps (·.exprTypes) (fun _ _ => rfl) (fun _ _ _ => rfl) id condition last
    · exact tagged_keeps (·.patternTypes) (fun _ _ => rfl) (fun _ _ _ => rfl) id condition last

end Resolver

/-- An action that fills in types for the visits, where what has a type already is settled. -/
structure Resolver.Fills (visits : List Visit) {α : Type} (action : ResolveM α) : Prop where
  ensures : ∀ state : Resolver, state.table.Settled visits →
    Ensures action state (fun _ => True) fun _ after =>
      Resolution.Fills visits state.table after.table

theorem Expr.resolveGuard_fills {forest : Forest} (pool : Pool) (locals : Array LocalDecl)
    (howns : ∀ visit ∈ condition.visits, forest.Owns visit) (scope : Scope) :
    Resolver.Fills condition.visits (condition.resolveGuard pool locals scope) :=
  ⟨fun state hstate => ((condition.resolveGuard_follows pool locals scope).ensures state).imp
    (fun _ _ => trivial) fun _ _ hcourse => hcourse.fills howns hstate⟩

/-! ## Tables -/

namespace Resolution

variable {pool : Pool} {table : Resolution}

variable {forest : Forest}

/-- All guarded patterns of the forest that have a type were resolved to the end. -/
def SettledIn (forest : Forest) (table : Resolution) : Prop :=
  ∀ visits : List Visit, (∀ visit ∈ visits, forest.Owns visit) → table.Settled visits

theorem SettledIn.run {outer : Scope} {visits : List Visit} {reads : List Read}
    {action : ResolveM Ty} {resolved : Resolved} (hsettled : table.SettledIn forest)
    (haction : Resolver.Follows pool forest.locals outer visits reads action)
    (howns : ∀ visit ∈ visits, forest.Owns visit) (h : table.run action = .ok resolved) :
    resolved.table.SettledIn forest ∧ Fills visits table resolved.table := by
  obtain ⟨after, hrun, htable, -⟩ := exists_of_run h
  have hcourse := (haction.ensures ⟨table, .new .unlimited⟩).of_ok hrun
  have hfills := hcourse.fills howns (hsettled visits howns)
  rw [htable]
  exact ⟨fun visits' hvisits' => (hsettled visits' hvisits').fills hfills hvisits' howns
    hcourse.whole, hfills⟩

theorem Produced.settledIn_typed (hforest : forest.Closed) {log : List PatternId}
    {offered : List Diagnostic} (h : Produced forest pool log offered table) :
    table.SettledIn forest ∧ ∀ id ∈ log, table.Typed (forest.pattern id).visits := by
  induction h with
  | empty => exact ⟨fun _ _ _ _ _ _ _ hid => by simp [Resolution.empty] at hid, nofun⟩
  | @pattern _ _ _ id expected scope _ _ hrun ih =>
    obtain ⟨hsettled, hfills⟩ := ih.1.run ((forest.pattern id).resolve_follows pool expected
      (.refl forest.locals scope)) (hforest (.pattern id)) hrun
    refine ⟨hsettled, List.forall_mem_cons.mpr ⟨hfills.typed, ?_⟩⟩
    exact fun other hother expr hexpr => hfills.exprs _ (ih.2 other hother expr hexpr)
  | @expr _ _ _ id scope _ _ hrun ih =>
    obtain ⟨hsettled, hfills⟩ := ih.1.run ((forest.expr id).resolve_follows pool
      (.refl forest.locals scope)) (hforest (.expr id)) hrun
    exact ⟨hsettled, fun other hother expr hexpr => hfills.exprs _ (ih.2 other hother expr hexpr)⟩
  | @guard _ _ _ id scope _ _ hrun ih =>
    obtain ⟨hsettled, hfills⟩ := ih.1.run ((forest.expr id).resolveGuard_follows pool
      forest.locals scope) (hforest (.expr id)) hrun
    exact ⟨hsettled, fun other hother expr hexpr => hfills.exprs _ (ih.2 other hother expr hexpr)⟩

/-- **What is below a resolved pattern has types.** -/
theorem Produced.typed (hforest : forest.Closed) {log : List PatternId} {offered : List Diagnostic}
    (h : Produced forest pool log offered table) {id : PatternId} (hid : id ∈ log) :
    table.Typed (forest.pattern id).visits :=
  (h.settledIn_typed hforest).2 id hid

end Resolution

end GuardedMatch
