import GuardedMatch.Coverage.Relations
import GuardedMatch.Proofs.References

/-!
# Values and what patterns match

A value model says which values there are, of which types each of them is, and what the components
of a value are.  All that the passes rely on is that types are closed upward under subtyping and
that the components of a record have the types it declares.

Whether a guarded pattern matches depends on its condition.  `Pattern.MatchesUnder` leaves open
how conditions come out: it is told by a predicate on conditions and values.
-/

namespace GuardedMatch

structure ValueModel (pool : Pool) where
  Value : Type
  /-- A value is of a type. -/
  inst : Value → Ty → Prop
  /-- The component of a value at a position. -/
  proj : Value → Nat → Value
  inst_mono : ∀ {value sub sup}, inst value sub → pool.isError sub = false →
    pool.isError sup = false → pool.isSubtype sub sup = true → inst value sup
  /-- Only records list components. -/
  inst_proj : ∀ {value ty position component}, inst value ty →
    (pool.componentTypes ty)[position]? = some component → inst (proj value position) component

/-- A value of a sealed abstract type is a value of one of its permitted subtypes. -/
def ValueModel.Sealed {pool : Pool} (model : ValueModel pool) : Prop :=
  ∀ value ty, pool.isSealed ty = true → pool.isAbstract ty = true → model.inst value ty →
    ∃ sub ∈ pool.permittedSubtypes ty, model.inst value sub

section

variable {pool : Pool} (model : ValueModel pool) (table : Resolution)
  (holds : Expr → model.Value → Prop)

mutual

/-- A pattern matches a value, where `holds` says which conditions hold for which values. -/
def Pattern.MatchesUnder : Pattern → model.Value → Prop
  | .type id .., value => model.inst value (table.patternType id)
  | .record id _ components _, value =>
    model.inst value (table.patternType id) ∧ Pattern.ComponentsMatchUnder components 0 value
  | .guarded _ patterns condition _, value =>
    Pattern.AllMatchUnder patterns value ∧ holds condition value
  | .any .., _ => True
  | .missing _, _ => False

/-- All patterns match one value. -/
def Pattern.AllMatchUnder : List Pattern → model.Value → Prop
  | [], _ => True
  | pattern :: patterns, value =>
    pattern.MatchesUnder value ∧ Pattern.AllMatchUnder patterns value

/-- The patterns match the components of a value, from a position on. -/
def Pattern.ComponentsMatchUnder : List Pattern → (position : Nat) → model.Value → Prop
  | [], _, _ => True
  | pattern :: patterns, position, value =>
    pattern.MatchesUnder (model.proj value position) ∧
      Pattern.ComponentsMatchUnder patterns (position + 1) value

end

end

/-! ## Guards on one pattern -/

/-- A guarded pattern has exactly one sub-pattern. -/
def Visit.Single : Visit → Prop
  | pattern (.guarded _ patterns _ _) => patterns.length = 1
  | _ => True

/-- A property of all visits of a pattern. -/
def Pattern.Each (property : Visit → Prop) (pattern : Pattern) : Prop :=
  ∀ visit ∈ pattern.visits, property visit

namespace Pattern.Each

variable {property : Visit → Prop}

theorem of_visit {pattern other : Pattern} (h : pattern.Each property)
    (hother : Visit.pattern other ∈ pattern.visits) : other.Each property :=
  fun visit hvisit => h visit ((pattern.below_sublist hother).subset hvisit)

theorem component {id : PatternId} {ty : TypeRef} {components : List Pattern} {span : Span}
    (h : (Pattern.record id ty components span).Each property) {component : Pattern}
    (hcomponent : component ∈ components) : component.Each property := by
  intro visit hvisit
  refine h visit ?_
  rw [visits, visitsAll_eq, List.mem_cons, List.mem_flatMap]
  exact Or.inr ⟨component, hcomponent, hvisit⟩

theorem sub {id : PatternId} {patterns : List Pattern} {condition : Expr} {span : Span}
    (h : (Pattern.guarded id patterns condition span).Each property) {pattern : Pattern}
    (hpattern : pattern ∈ patterns) : pattern.Each property := by
  intro visit hvisit
  refine h visit ?_
  rw [visits, visitsAll_eq, List.mem_cons, List.mem_append, List.mem_flatMap]
  exact Or.inr (Or.inl ⟨pattern, hpattern, hvisit⟩)

end Pattern.Each

/-- Every guarded pattern has exactly one sub-pattern. -/
def Arena.GuardsOne (arena : Arena) : Prop :=
  ∀ (id : PatternId) patterns condition span,
    arena.patterns[id]? = some (PatternNode.guarded patterns condition span) → patterns.length = 1

theorem Arena.GuardsOne.each {arena : Arena} (h : arena.GuardsOne) (hacyclic : arena.Acyclic)
    (id : PatternId) : (arena.forest.pattern id).Each Visit.Single := by
  intro visit hvisit
  cases visit with
  | expr | binding => trivial
  | pattern pattern =>
    rcases @Acyclic.exists_patternNode _ hacyclic (.pattern id) _ hvisit with
      ⟨_, heq⟩ | ⟨found, hfound, heq⟩
    · rw [heq]
      trivial
    · rw [heq]
      cases found with
      | type | record | any => trivial
      | guarded patterns condition span =>
        rw [PatternNode.tree, Visit.Single, List.length_map]
        exact h _ _ _ _ hfound

end GuardedMatch
