import GuardedMatch.Proofs.Data

/-!
# Climbing the hierarchy

Whatever declarations list as supertypes, be it types that come later, types that lead back, one
type twice or numbers of no type at all, the search for a supertype ends, and subtyping is
reachability.  `Object` never gets a supertype, so the shortcut for it does not break transitivity.
Two types can be subtypes of each other only if some declaration lists a type that comes later.

* `Pool.Searches`: the search as it goes on when nothing bounds its steps.
* `Pool.Searches.iff_reaches`: it ends, with the answer of the bounded search.
* `Pool.isSubtype_iff_reachable`: subtyping in pools made by any declarations.
-/

namespace GuardedMatch.Pool

variable {pool : Pool} {goal : Ty}

/-! ## The search without a bound -/

/-- A search from the types in `work` ends and has found a type that lists the goal, or has found
none.  Types in `seen` are done; the last supertype that a type lists comes first. -/
inductive Searches (pool : Pool) (goal : Ty) : (work : List Ty) → (seen : IdSet) → Bool → Prop
  | exhausted (seen : IdSet) : Searches pool goal [] seen false
  | again {ty : Ty} {work : List Ty} {seen : IdSet} {found : Bool} (hseen : ty.index ∈ seen)
      (h : Searches pool goal work seen found) : Searches pool goal (ty :: work) seen found
  | lists {ty : Ty} {seen : IdSet} (work : List Ty) (hnew : ty.index ∉ seen)
      (hgoal : pool.Lists ty goal) : Searches pool goal (ty :: work) seen true
  | climb {ty : Ty} {work : List Ty} {seen : IdSet} {found : Bool} (hnew : ty.index ∉ seen)
      (hgoal : ¬ pool.Lists ty goal)
      (h : Searches pool goal ((pool.supertypes ty).reverse ++ work) (seen.insert ty.index) found) :
      Searches pool goal (ty :: work) seen found

namespace Searches

variable {work : List Ty} {seen : IdSet} {found other : Bool}

theorem unique (h : Searches pool goal work seen found) (h' : Searches pool goal work seen other) :
    found = other := by
  induction h with
  | exhausted =>
    cases h'
    rfl
  | again hseen _ ih =>
    cases h' with
    | again _ h' => exact ih h'
    | lists _ hnew => exact absurd hseen hnew
    | climb hnew => exact absurd hseen hnew
  | lists _ hnew hgoal =>
    cases h' with
    | again hseen => exact absurd hseen hnew
    | lists => rfl
    | climb _ hgoal' => exact absurd hgoal hgoal'
  | climb hnew hgoal _ ih =>
    cases h' with
    | again hseen => exact absurd hseen hnew
    | lists _ _ hgoal' => exact absurd hgoal' hgoal
    | climb _ _ h' => exact ih h'

/-- A type is taken off `work` at each step and puts its supertypes there only once.  So as many
steps suffice as there are types in `work` and supertypes listed by types that are not done. -/
theorem of_reaches : ∀ (steps : Nat) (work : List Ty) (seen : IdSet),
    work.length + pool.edgesOutside seen ≤ steps →
      Searches pool goal work seen (pool.reaches goal steps work seen) := by
  intro steps
  induction steps with
  | zero =>
    intro work seen hsteps
    obtain rfl : work = [] := List.length_eq_zero_iff.1 (by omega)
    exact exhausted seen
  | succ steps ih =>
    intro work seen hsteps
    cases work with
    | nil => exact exhausted seen
    | cons ty work =>
      rw [List.length_cons] at hsteps
      rw [reaches]
      by_cases hseen : ty.index ∈ seen
      · rw [if_pos (Std.ExtTreeSet.contains_iff_mem.2 hseen)]
        exact again hseen (ih work seen (by omega))
      · rw [if_neg (mt Std.ExtTreeSet.contains_iff_mem.1 hseen)]
        by_cases hgoal : goal ∈ pool.supertypes ty
        · rw [if_pos hgoal]
          exact lists work hseen hgoal
        · rw [if_neg hgoal]
          have hedges : pool.edgesOutside (seen.insert ty.index) + (pool.supertypes ty).length =
              pool.edgesOutside seen := edgesOutside_insert hseen
          refine climb hseen hgoal (ih _ _ ?_)
          rw [List.length_append, List.length_reverse]
          omega

/-- **The search ends**, in any pool, with the answer of the search that is bounded by the number of
supertypes listed. -/
theorem iff_reaches {sub : Ty} : Searches pool goal [sub] ∅ found ↔
    found = pool.reaches goal (pool.edgeCount + 1) [sub] ∅ := by
  have hends : Searches pool goal [sub] ∅ (pool.reaches goal (pool.edgeCount + 1) [sub] ∅) := by
    apply of_reaches
    rw [edgesOutside_empty, List.length_singleton, Nat.add_comm]
  constructor
  · intro h
    exact h.unique hends
  · intro h
    rw [h]
    exact hends

end Searches

/-! ## What any declarations leave alone -/

namespace Declared

variable {allowed : Pool → Ty → Prop}

/-- Nothing is above `Object`. -/
theorem supertypes_object (h : Declared allowed pool) : pool.supertypes Ty.object = [] := by
  refine h.induction_behind (motive := fun pool => pool.supertypes Ty.object = []) (by decide) ?_
  intro pool entry hsize ih _ _
  have hold : Ty.object.index ≠ pool.size := (lt_of_lt_of_le (by decide) hsize).ne
  rw [supertypes_declare, if_neg hold]
  exact ih

/-- If declarations list only types of the pool, supertypes have lower numbers. -/
theorem index_lt_of_lists (h : Declared (fun pool ty => ty.index < pool.size) pool) {sub sup : Ty}
    (hlists : pool.Lists sub sup) : sup.index < sub.index := by
  refine h.induction_behind (motive := fun pool => ∀ sub sup, pool.Lists sub sup →
    sup.index < sub.index) ?_ ?_ sub sup hlists
  · have hbuiltin : ∀ sub, ∀ sup ∈ Pool.builtin.supertypes sub, sup.index < sub.index :=
      forall_of_size Pool.builtin (by decide) fun ty hty sup h => by simp [supertypes, hty] at h
    exact hbuiltin
  · intro pool entry hsize ih _ hsup sub sup hlists
    rw [Lists, supertypes_declare] at hlists
    by_cases hnew : sub.index = pool.size
    · rw [if_pos hnew] at hlists
      rw [hnew]
      rcases hsup sup hlists with rfl | hlt
      · exact lt_of_lt_of_le (by decide) hsize
      · exact hlt
    · rw [if_neg hnew] at hlists
      exact ih sub sup hlists

theorem index_lt_of_path (h : Declared (fun pool ty => ty.index < pool.size) pool) {sub sup : Ty}
    (hpath : Relation.TransGen pool.Lists sub sup) : sup.index < sub.index := by
  induction hpath with
  | single hlists => exact h.index_lt_of_lists hlists
  | tail _ hlists ih => exact lt_trans (h.index_lt_of_lists hlists) ih

/-- **Two types are not subtypes of each other**, if declarations list only types of the pool. -/
theorem isSubtype_antisymm (h : Declared (fun pool ty => ty.index < pool.size) pool)
    {one other : Ty} (hone : pool.isError one = false) (hother : pool.isError other = false)
    (hle : pool.isSubtype one other = true) (hge : pool.isSubtype other one = true) :
    one = other := by
  -- There is no path from `Object`, and no path leads back.
  have hobject : ∀ {ty}, ¬ Relation.TransGen pool.Lists Ty.object ty := by
    intro ty hpath
    obtain ⟨next, hlists, _⟩ := Relation.TransGen.head'_iff.1 hpath
    rw [Lists, h.supertypes_object] at hlists
    cases hlists
  rcases (isSubtype_iff hone hother).1 hle with heq | ⟨_, _, rfl | hup⟩
  · exact heq
  · rcases (isSubtype_iff hother hone).1 hge with heq | ⟨_, _, rfl | hdown⟩
    · exact heq.symm
    · rfl
    · exact absurd hdown hobject
  · rcases (isSubtype_iff hother hone).1 hge with heq | ⟨_, _, rfl | hdown⟩
    · exact heq.symm
    · exact absurd hup hobject
    · have hlt := h.index_lt_of_path hup
      have hgt := h.index_lt_of_path hdown
      omega

end Declared

/-! ## Subtyping -/

theorem isSubtype_of_isError {sub sup : Ty}
    (h : pool.isError sub = true ∨ pool.isError sup = true) : pool.isSubtype sub sup = true := by
  rw [isSubtype, if_pos (Or.inr h)]

/-- **Subtyping is reachability in pools made by any declarations.**  The search for a supertype
ends.  Apart from errors, which are below and above everything, a type is a subtype of itself, of
`Object` and of what its supertypes lead to, where primitive types are subtypes of themselves only.
So among types that are no errors, subtyping is reflexive and transitive, and it is antisymmetric if
declarations list only types of the pool. -/
theorem isSubtype_iff_reachable (h : pool.Declared fun _ _ => True) :
    (∀ sub sup : Ty,
      (∀ found, pool.Searches sup [sub] ∅ found ↔
        found = pool.reaches sup (pool.edgeCount + 1) [sub] ∅) ∧
      (pool.isSubtype sub sup = true ↔
        sub = sup ∨ pool.isError sub = true ∨ pool.isError sup = true ∨
          pool.isPrimitive sub = false ∧ pool.isPrimitive sup = false ∧
            (sup = Ty.object ∨ Relation.TransGen pool.Lists sub sup))) ∧
    (∀ ty, pool.isError ty = false → pool.isSubtype ty ty = true) ∧
    (∀ sub mid sup, pool.isError sub = false → pool.isError mid = false →
      pool.isError sup = false → pool.isSubtype sub mid = true → pool.isSubtype mid sup = true →
      pool.isSubtype sub sup = true) ∧
    (pool.Declared (fun pool ty => ty.index < pool.size) →
      ∀ one other, pool.isError one = false → pool.isError other = false →
        pool.isSubtype one other = true → pool.isSubtype other one = true → one = other) := by
  refine ⟨fun sub sup => ⟨fun found => Searches.iff_reaches, ?_⟩, ?_, ?_, ?_⟩
  · by_cases hsub : pool.isError sub = true
    · simp [hsub, isSubtype_of_isError]
    by_cases hsup : pool.isError sup = true
    · simp [hsup, isSubtype_of_isError]
    rw [Bool.not_eq_true] at hsub hsup
    rw [isSubtype_iff hsub hsup, hsub, hsup]
    simp
  · intro ty _
    exact pool.isSubtype_refl ty
  · intro sub mid sup hsub hmid hsup hleft hright
    exact isSubtype_trans_of_object h.supertypes_object hsub hmid hsup hleft hright
  · intro hpool one other hone hother hle hge
    exact hpool.isSubtype_antisymm hone hother hle hge

/-- A class that lists one declared after it, which lists the first one twice, a number of no type
and a primitive type. -/
def tangled : Pool :=
  let (_, pool) := Pool.builtin.declareClass "Knot" [⟨33⟩] 0
  (pool.declareClass "Loop" [⟨32⟩, ⟨32⟩, ⟨99⟩, Ty.int] 0).2

theorem isSubtype_iff_reachable_tangled :
    (tangled.isSubtype ⟨32⟩ ⟨32⟩ = true ∧ tangled.isSubtype ⟨32⟩ ⟨33⟩ = true ∧
      tangled.isSubtype ⟨33⟩ ⟨32⟩ = true ∧ tangled.isSubtype ⟨32⟩ Ty.int = false) ∧
    shapes.isSubtype ⟨33⟩ ⟨32⟩ = true ∧ shapes.isSubtype ⟨32⟩ ⟨33⟩ = false := by
  have htangled : tangled.Declared fun _ _ => True := by
    refine .declareClass "Loop" 0 (.declareClass "Knot" 0 .builtin ?_) ?_ <;> simp
  have hshapes : shapes.Declared fun pool ty => ty.index < pool.size := by
    refine .declareRecord "Box" [⟨"content", Ty.object⟩] (.declareRecord "Dot" []
      (.declareInterface "Shape" true .builtin ?_) ?_) ?_ <;> decide
  have hknot : (⟨33⟩ : Ty) ∈ tangled.supertypes ⟨32⟩ := by decide
  have hloop : (⟨32⟩ : Ty) ∈ tangled.supertypes ⟨33⟩ := by decide
  obtain ⟨hreach, hrefl, -, -⟩ := isSubtype_iff_reachable htangled
  refine ⟨⟨hrefl ⟨32⟩ (by decide), ?_, ?_, ?_⟩, ?_, ?_⟩
  · rw [(hreach ⟨32⟩ ⟨33⟩).2]
    exact Or.inr (Or.inr (Or.inr ⟨by decide, by decide, Or.inr (.single hknot)⟩))
  · rw [(hreach ⟨33⟩ ⟨32⟩).2]
    exact Or.inr (Or.inr (Or.inr ⟨by decide, by decide, Or.inr (.single hloop)⟩))
  · rw [← Bool.not_eq_true, (hreach ⟨32⟩ Ty.int).2]
    rintro (heq | herror | herror | ⟨-, hprimitive, -⟩)
    · exact absurd heq (by decide)
    · exact absurd herror (by decide)
    · exact absurd herror (by decide)
    · exact absurd hprimitive (by decide)
  · decide
  · rw [← Bool.not_eq_true]
    intro hle
    have heq := (isSubtype_iff_reachable declared_shapes).2.2.2 hshapes ⟨32⟩ ⟨33⟩ (by decide)
      (by decide) hle (by decide)
    exact absurd heq (by decide)

end GuardedMatch.Pool
