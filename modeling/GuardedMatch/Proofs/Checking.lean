import GuardedMatch.Proofs.Data
import GuardedMatch.Proofs.Matrix
import GuardedMatch.Proofs.Resolving

/-!
# The check of a switch ends with an answer

Relations between patterns look at no more of a pattern than they need, and stop at a missing node.
In trees without missing nodes they always have an answer.  The coverage check also takes types
apart, down from the type of the selector.  If no type contains itself, the types on the way down
are all different, so the way is no longer than the pool is large, and the budget is never used up.

* `total_covered`: adding a column to a check that always answers.
* `Forest.findings_succeeds`: the check of a switch over existing patterns has an answer.
-/

namespace GuardedMatch

/-- There is an answer, and no fault. -/
def Succeeds {α : Type} (action : Except Fault α) : Prop := ∃ answer, action = .ok answer

namespace Succeeds

variable {α β : Type}

theorem ok (answer : α) : Succeeds (.ok answer : Except Fault α) := ⟨answer, rfl⟩

theorem bind {action : Except Fault α} {next : α → Except Fault β} (h : Succeeds action)
    (hnext : ∀ answer, action = .ok answer → Succeeds (next answer)) :
    Succeeds (action >>= next) := by
  obtain ⟨answer, rfl⟩ := h
  exact hnext answer rfl

theorem mapM {action : α → Except Fault β} : ∀ {as : List α}, (∀ a ∈ as, Succeeds (action a)) →
    Succeeds (as.mapM action) := by
  intro as
  induction as with
  | nil => exact fun _ => ok []
  | cons a as ih =>
    intro h
    rw [List.forall_mem_cons] at h
    rw [List.mapM_cons]
    exact bind h.1 fun _ _ => bind (ih h.2) fun _ _ => ok _

theorem andThen {first : Check} {second : Unit → Check} (h : Succeeds first)
    (h' : Succeeds (second ())) : Succeeds (first.andThen second) := by
  obtain ⟨answer, rfl⟩ := h
  cases answer with
  | true => exact h'
  | false => exact ok false

theorem orElse {first : Check} {second : Unit → Check} (h : Succeeds first)
    (h' : Succeeds (second ())) : Succeeds (first.orElse second) := by
  obtain ⟨answer, rfl⟩ := h
  cases answer with
  | true => exact ok true
  | false => exact h'

theorem all {check : α → Check} : ∀ {as : List α}, (∀ a ∈ as, Succeeds (check a)) →
    Succeeds (Check.all check as) := by
  intro as
  induction as with
  | nil => exact fun _ => ok true
  | cons a as ih =>
    intro h
    rw [List.forall_mem_cons] at h
    rw [Check.all]
    exact andThen h.1 (ih h.2)

theorem keepRows {step : Row → Except Fault (Option Row)} {rows : List Row}
    (h : ∀ row ∈ rows, Succeeds (step row)) : Succeeds (keepRows step rows) := by
  obtain ⟨found, hfound⟩ := mapM h
  rw [keepRows_eq, hfound]
  exact ok _

theorem expandRows {rows : List Row} (h : ∀ row ∈ rows, Succeeds row.expand) :
    Succeeds (expandRows rows) := by
  obtain ⟨found, hfound⟩ := mapM h
  rw [expandRows_eq, hfound]
  exact ok _

end Succeeds

/-! ## Relations -/

/-- A reference that leads somewhere, when `count` locals are declared. -/
def Visit.Leads (count : Nat) (visit : Visit) : Prop := ¬ visit.Lost count

variable {pool : Pool} {table : Resolution} {count : Nat}

/-- Folding comes across no missing operand. -/
theorem Expr.foldFault_eq_none : ∀ (expr : Expr), (∀ visit ∈ expr.visits, visit.Leads count) →
    expr.foldFault = none
  | .unary id op operand span, h => by
    rw [foldFault]
    exact foldFault_eq_none operand fun visit hvisit => h visit (by simp [visits, hvisit])
  | .binary id op left right span, h => by
    rw [foldFault, foldFault_eq_none left fun visit hvisit => h visit (by simp [visits, hvisit]),
      foldFault_eq_none right fun visit hvisit => h visit (by simp [visits, hvisit])]
    rfl
  | .missing id, h => absurd trivial (h _ (self_mem_visits _))
  | .bool .., _ | .int .., _ | .ident .., _ | .field .., _ | .instanceOf .., _ | .call .., _ => rfl

theorem Expr.isVacuous_succeeds {condition : Expr}
    (h : ∀ visit ∈ condition.visits, visit.Leads count) : Succeeds condition.isVacuous := by
  rw [isVacuous, foldFault_eq_none condition h]
  exact .ok _

theorem Pattern.Each.condition {property : Visit → Prop} {id : PatternId} {patterns : List Pattern}
    {condition : Expr} {span : Span}
    (h : (Pattern.guarded id patterns condition span).Each property) :
    ∀ visit ∈ condition.visits, property visit :=
  fun visit hvisit => h visit (by simp [Pattern.visits, hvisit])

theorem Pattern.Each.not_missing {id : PatternId} :
    ¬ (Pattern.missing id).Each (Visit.Leads count) :=
  fun h => h _ (Pattern.self_mem_visits _) trivial

mutual

theorem Pattern.covers_succeeds : ∀ (pattern : Pattern) (ty : Ty),
    pattern.Each (Visit.Leads count) → Succeeds (pattern.covers pool table ty)
  | .type id written binds span, ty, _ => by
    rw [Pattern.covers]
    split <;> exact .ok _
  | .record id written components span, ty, h => by
    rw [Pattern.covers]
    have heach := Pattern.coverEach_succeeds components
      (pool.componentTypes (table.patternType id)) fun _ => h.component
    split
    next => exact .ok _
    next =>
      split
      next => exact .ok _
      next =>
        split
        next => exact .ok _
        next => exact heach
  | .any id span, ty, _ => by
    rw [Pattern.covers]
    split <;> exact .ok _
  | .guarded id patterns condition span, ty, h => by
    rw [Pattern.covers]
    split
    next => exact .ok _
    next =>
      exact .andThen (Expr.isVacuous_succeeds h.condition)
        (Pattern.someCovers_succeeds patterns ty fun _ => h.sub)
  | .missing id, ty, h => absurd h Pattern.Each.not_missing

theorem Pattern.coverEach_succeeds : ∀ (patterns : List Pattern) (types : List Ty),
    (∀ pattern ∈ patterns, pattern.Each (Visit.Leads count)) →
      Succeeds (Pattern.coverEach pool table patterns types)
  | [], types, _ => by
    rw [Pattern.coverEach]
    · exact .ok _
    · intro _ _ _ _ h
      cases h
  | pattern :: patterns, [], _ => by
    rw [Pattern.coverEach]
    · exact .ok _
    · intro _ _ _ _ _ h
      cases h
  | pattern :: patterns, ty :: types, h => by
    rw [List.forall_mem_cons] at h
    rw [Pattern.coverEach]
    exact .andThen (Pattern.covers_succeeds pattern ty h.1)
      (Pattern.coverEach_succeeds patterns types h.2)

theorem Pattern.someCovers_succeeds : ∀ (patterns : List Pattern) (ty : Ty),
    (∀ pattern ∈ patterns, pattern.Each (Visit.Leads count)) →
      Succeeds (Pattern.someCovers pool table patterns ty)
  | [], ty, _ => by
    rw [Pattern.someCovers]
    exact .ok _
  | pattern :: patterns, ty, h => by
    rw [List.forall_mem_cons] at h
    rw [Pattern.someCovers]
    exact .orElse (Pattern.covers_succeeds pattern ty h.1)
      (Pattern.someCovers_succeeds patterns ty h.2)

end

/-- The pattern that decides what a pattern matches at most is met in it. -/
theorem Pattern.core_mem_visits : ∀ (pattern : Pattern) {core : Pattern},
    pattern.core = some core → .pattern core ∈ pattern.visits
  | .guarded id [] condition span, core, h => by cases h
  | .guarded id (first :: rest) condition span, core, h => by
    rw [Pattern.core] at h
    simp [Pattern.visits, Pattern.visitsAll, core_mem_visits first h]
  | .type .., core, h | .record .., core, h | .any .., core, h | .missing _, core, h => by
    cases h
    exact self_mem_visits _

/-- What a pattern is compared with is not missing. -/
theorem Pattern.Each.core {other : Pattern} (h : other.Each (Visit.Leads count)) {id : PatternId} :
    other.core ≠ some (.missing id) :=
  fun hcore => h _ (other.core_mem_visits hcore) trivial

mutual

theorem Pattern.dominates_succeeds : ∀ (pattern other : Pattern),
    pattern.Each (Visit.Leads count) → other.Each (Visit.Leads count) →
      Succeeds (pattern.dominates pool table other)
  | .type id written binds span, other, _, hother => by
    rw [Pattern.dominates]
    split
    next hcore => exact absurd hcore hother.core
    next => exact .ok _
    next => exact .ok _
  | .record id written components span, other, h, hother => by
    rw [Pattern.dominates]
    split
    next hcore => exact absurd hcore hother.core
    next id' written' components' span' hcore =>
      split
      next =>
        have hcomponents : ∀ component ∈ components', component.Each (Visit.Leads count) :=
          fun _ => (hother.of_visit (other.core_mem_visits hcore)).component
        exact Pattern.dominateEach_succeeds components components' (fun _ => h.component)
          hcomponents
      next => exact .ok _
    next => exact .ok _
  | .any id span, other, _, _ => by
    rw [Pattern.dominates]
    exact .ok _
  | .guarded id patterns condition span, other, h, hother => by
    rw [Pattern.dominates]
    exact .andThen (Expr.isVacuous_succeeds h.condition)
      (Pattern.someDominates_succeeds patterns other (fun _ => h.sub) hother)
  | .missing id, other, h, _ => absurd h Pattern.Each.not_missing

theorem Pattern.dominateEach_succeeds : ∀ (patterns others : List Pattern),
    (∀ pattern ∈ patterns, pattern.Each (Visit.Leads count)) →
      (∀ other ∈ others, other.Each (Visit.Leads count)) →
      Succeeds (Pattern.dominateEach pool table patterns others)
  | [], others, _, _ => by
    rw [Pattern.dominateEach]
    · exact .ok _
    · intro _ _ _ _ h
      cases h
  | pattern :: patterns, [], _, _ => by
    rw [Pattern.dominateEach]
    · exact .ok _
    · intro _ _ _ _ _ h
      cases h
  | pattern :: patterns, other :: others, h, hothers => by
    rw [List.forall_mem_cons] at h hothers
    rw [Pattern.dominateEach]
    exact .andThen (Pattern.dominates_succeeds pattern other h.1 hothers.1)
      (Pattern.dominateEach_succeeds patterns others h.2 hothers.2)

theorem Pattern.someDominates_succeeds : ∀ (patterns : List Pattern) (other : Pattern),
    (∀ pattern ∈ patterns, pattern.Each (Visit.Leads count)) → other.Each (Visit.Leads count) →
      Succeeds (Pattern.someDominates pool table patterns other)
  | [], other, _, _ => by
    rw [Pattern.someDominates]
    exact .ok _
  | pattern :: patterns, other, h, hother => by
    rw [List.forall_mem_cons] at h
    rw [Pattern.someDominates]
    exact .orElse (Pattern.dominates_succeeds pattern other h.1 hother)
      (Pattern.someDominates_succeeds patterns other h.2 hother)

end

/-! ## Dominated cases -/

theorem firstDominator_succeeds {later : Pattern} (hlater : later.Each (Visit.Leads count)) :
    ∀ (patterns : List Pattern) (position : Nat),
      (∀ pattern ∈ patterns, pattern.Each (Visit.Leads count)) →
      Succeeds (firstDominator pool table later position patterns) := by
  intro patterns
  induction patterns with
  | nil => exact fun _ _ => .ok _
  | cons pattern patterns ih =>
    intro position h
    rw [List.forall_mem_cons] at h
    rw [firstDominator]
    refine .bind (Pattern.dominates_succeeds pattern later h.1 hlater) fun answer _ => ?_
    cases answer with
    | true => exact .ok _
    | false => exact ih (position + 1) h.2

theorem dominatedCases_succeeds : ∀ (patterns before : List Pattern),
    (∀ pattern ∈ patterns, pattern.Each (Visit.Leads count)) →
      (∀ pattern ∈ before, pattern.Each (Visit.Leads count)) →
      Succeeds (dominatedCases pool table before patterns) := by
  intro patterns
  induction patterns with
  | nil => exact fun _ _ _ => .ok _
  | cons pattern patterns ih =>
    intro before h hbefore
    rw [List.forall_mem_cons] at h
    have hnext : ∀ other ∈ before ++ [pattern], other.Each (Visit.Leads count) :=
      List.forall_mem_append.mpr ⟨hbefore, List.forall_mem_singleton.mpr h.1⟩
    rw [dominatedCases]
    exact .bind (firstDominator_succeeds h.1 before 0 hbefore) fun _ _ =>
      .bind (ih (before ++ [pattern]) h.2 hnext) fun _ _ => .ok _

theorem caseSpan_succeeds {cases : List Pattern}
    (h : ∀ pattern ∈ cases, pattern.Each (Visit.Leads count)) (position : Nat) :
    Succeeds (caseSpan cases position) := by
  rw [caseSpan]
  split
  next id hcase => exact absurd (h _ (List.mem_of_getElem? hcase)) Pattern.Each.not_missing
  next => exact .ok _
  next => exact .ok _

/-! ## Coverage -/

mutual

theorem Pattern.alternatives_succeeds : ∀ (pattern : Pattern), pattern.Each (Visit.Leads count) →
    Succeeds pattern.alternatives
  | .guarded id patterns condition span, h => by
    obtain ⟨answer, hvacuous⟩ := Expr.isVacuous_succeeds h.condition
    rw [Pattern.alternatives, hvacuous]
    cases answer with
    | true => exact Pattern.alternativesAll_succeeds patterns fun _ => h.sub
    | false => exact .ok _
  | .missing id, h => absurd h Pattern.Each.not_missing
  | .type .., _ | .record .., _ | .any .., _ => by
    rw [Pattern.alternatives]
    · exact .ok _
    · intro _ _ _ _ h
      cases h
    · intro _ h
      cases h

theorem Pattern.alternativesAll_succeeds : ∀ (patterns : List Pattern),
    (∀ pattern ∈ patterns, pattern.Each (Visit.Leads count)) →
      Succeeds (Pattern.alternativesAll patterns)
  | [], _ => by
    rw [Pattern.alternativesAll]
    exact .ok _
  | pattern :: patterns, h => by
    rw [List.forall_mem_cons] at h
    rw [Pattern.alternativesAll]
    exact .bind (Pattern.alternatives_succeeds pattern h.1) fun _ _ =>
      .bind (Pattern.alternativesAll_succeeds patterns h.2) fun _ _ => .ok _

end

namespace Row.Fits

variable {width : Nat} {row : Row}

theorem expand_succeeds (h : row.Fits (Visit.Leads count) width) : Succeeds row.expand := by
  match row, h with
  | some pattern :: cells, h =>
    rw [Row.expand]
    exact .bind (Pattern.alternatives_succeeds pattern h.head) fun _ _ => .ok _
  | none :: cells, _ | [], _ => exact .ok _

theorem default_succeeds (pool : Pool) (table : Resolution) (ty : Ty)
    (h : row.Fits (Visit.Leads count) width) : Succeeds (row.default? pool table ty) := by
  match row, h with
  | some pattern :: cells, h =>
    rw [Row.default?]
    refine .bind (Pattern.covers_succeeds pattern ty h.head) fun answer _ => ?_
    cases answer <;> exact .ok _
  | none :: cells, _ | [], _ => exact .ok _

theorem specialize_succeeds (pool : Pool) (table : Resolution) (ty : Ty)
    (h : row.Fits (Visit.Leads count) width) : Succeeds (row.specialize? pool table ty) := by
  have hcovers : ∀ pattern cells, row = some pattern :: cells →
      Succeeds (do
        if ← pattern.covers pool table ty then
          return some (List.replicate (pool.components ty).length none ++ cells)
        else return none) := by
    rintro pattern cells rfl
    refine .bind (Pattern.covers_succeeds pattern ty h.head) fun answer _ => ?_
    cases answer <;> exact .ok _
  match row with
  | some (.record id written components span) :: cells =>
    rw [Row.specialize?]
    split
    next => exact .ok _
    next => exact hcovers _ _ rfl
  | some (.type ..) :: cells | some (.guarded ..) :: cells | some (.any ..) :: cells
  | some (.missing ..) :: cells => exact hcovers _ _ rfl
  | none :: cells | [] => exact .ok _

end Row.Fits

/-- The check has an answer for all rows of a width that have no missing nodes. -/
def TotalFor (count width : Nat) (check : List Row → Check) : Prop :=
  ∀ rows, (∀ row ∈ rows, Row.Fits (Visit.Leads count) width row) → Succeeds (check rows)

/-- Columns are added one after another. -/
theorem TotalFor.foldr {step : Ty → (List Row → Check) → List Row → Check} {width : Nat}
    {rest : List Row → Check} (h : TotalFor count width rest) : ∀ types : List Ty,
      (∀ ty ∈ types, ∀ width rest, TotalFor count width rest →
        TotalFor count (width + 1) (step ty rest)) →
      TotalFor count (types.length + width) (types.foldr step rest) := by
  intro types
  induction types with
  | nil =>
    intro _
    simpa using h
  | cons ty types ih =>
    intro hstep
    rw [List.forall_mem_cons] at hstep
    have htotal := hstep.1 _ _ (ih hstep.2)
    rwa [List.length_cons, Nat.add_right_comm]

/-- **Adding a column to a check that always answers.**  The types that were taken apart on the way
to this one are different from each other, and what is left of the budget allows for the others. -/
theorem total_covered (hacyclic : ∀ ty, ¬ Relation.TransGen pool.Contains ty ty) :
    ∀ (budget : Nat) (ty : Ty) (path : Finset Ty), pool.Above path ty →
      pool.size < path.card + budget → ∀ width rest, TotalFor count width rest →
      TotalFor count (width + 1) (covered pool table budget ty rest) := by
  intro budget
  induction budget with
  | zero =>
    intro ty path hpath hcard
    have hle := hpath.card_le
    omega
  | succ budget ih =>
    intro ty path hpath hcard width rest hrest rows hrows
    have hstep : ∀ part, pool.Contains ty part → ∀ width rest, TotalFor count width rest →
        TotalFor count (width + 1) (covered pool table budget part rest) := by
      intro part hpart
      obtain ⟨hinsert, hnext⟩ := hpath.insert hacyclic hpart
      exact ih part (insert ty path) hinsert (by omega)
    obtain ⟨expanded, hexpand⟩ := Succeeds.expandRows fun row hrow =>
      (hrows row hrow).expand_succeeds
    have hexpanded := Row.Fits.expandRows hexpand hrows
    rw [covered, hexpand]
    dsimp only
    split
    next => exact .ok _
    next =>
    split
    next hrecord =>
      obtain ⟨kept, hkept⟩ := Succeeds.keepRows fun row hrow =>
        (hexpanded row hrow).specialize_succeeds pool table ty
      rw [hkept]
      refine TotalFor.foldr hrest _ (fun part hpart => hstep part (.inl ⟨hrecord, hpart⟩)) kept ?_
      intro row hrow
      obtain ⟨before, hbefore, hrow⟩ := (mem_keepRows hkept).2 row hrow
      rw [Pool.componentTypes, List.length_map]
      exact (hexpanded before hbefore).specialize hrow
    next =>
      obtain ⟨kept, hkept⟩ := Succeeds.keepRows fun row hrow =>
        (hexpanded row hrow).default_succeeds pool table ty
      rw [hkept]
      refine .orElse (hrest kept fun row hrow => ?_) ?_
      · obtain ⟨before, hbefore, hrow⟩ := (mem_keepRows hkept).2 row hrow
        exact (hexpanded before hbefore).default hrow
      · split
        next hsealed =>
          simp only [Bool.and_eq_true] at hsealed
          refine .all fun sub hsub => ?_
          exact hstep sub (.inr ⟨hsealed.1.1, hsealed.1.2, hsub⟩) width rest hrest expanded
            hexpanded
        next => exact .ok _

theorem size_lt_coverageBudget (pool : Pool) (depth : Nat) :
    pool.size < coverageBudget pool depth := by
  have hle : pool.size + 2 ≤ (depth + pool.size + 2) * (pool.size + 2) :=
    Nat.le_mul_of_pos_left _ (by omega)
  rw [coverageBudget]
  omega

theorem isExhaustive_succeeds (hacyclic : ∀ ty, ¬ Relation.TransGen pool.Contains ty ty)
    {cases : List Pattern} (h : ∀ pattern ∈ cases, pattern.Each (Visit.Leads count)) (depth : Nat)
    (selector : Ty) : Succeeds (isExhaustive pool table depth cases selector) := by
  rw [isExhaustive]
  split
  next => exact .ok _
  next =>
    have hbudget : pool.size < (∅ : Finset Ty).card + coverageBudget pool depth := by
      rw [Finset.card_empty, Nat.zero_add]
      exact size_lt_coverageBudget pool depth
    have hrest : TotalFor count 0 fun rows => .ok !rows.isEmpty := fun _ _ => .ok _
    refine total_covered hacyclic _ selector ∅ (by simp [Pool.Above]) hbudget 0 _ hrest _
      fun row hrow => ?_
    obtain ⟨pattern, hpattern, rfl⟩ := List.mem_map.mp hrow
    exact Row.Fits.cons ⟨rfl, by simp⟩ (h pattern hpattern)

/-- **The check of a switch over existing patterns has an answer**, if no type contains itself. -/
theorem Forest.findings_succeeds (hacyclic : ∀ ty, ¬ Relation.TransGen pool.Contains ty ty)
    {forest : Forest} {cases : List PatternId}
    (h : ∀ id ∈ cases, (forest.pattern id).Each (Visit.Leads count)) (selector : Ty) (span : Span) :
    Succeeds (forest.findings pool table cases selector span) := by
  have hcases : ∀ pattern ∈ cases.map forest.pattern, pattern.Each (Visit.Leads count) := by
    intro pattern hpattern
    obtain ⟨id, hid, rfl⟩ := List.mem_map.mp hpattern
    exact h id hid
  rw [Forest.findings]
  refine .bind (dominatedCases_succeeds _ [] hcases (by simp)) fun dominated _ => ?_
  refine .bind (.mapM fun one _ => ?_) fun offered _ => ?_
  · exact .bind (caseSpan_succeeds hcases _) fun _ _ => .bind (caseSpan_succeeds hcases _)
      fun _ _ => .ok _
  · exact .bind (isExhaustive_succeeds hacyclic hcases _ selector) fun answer _ => .ok _

end GuardedMatch
