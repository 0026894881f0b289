import GuardedMatch.Proofs.Hierarchy
import GuardedMatch.Proofs.Values

/-!
# Data

The values of a regular pool as trees: a datum has a most specific type among those declared, and
components.  It need not be made from a declared class: a type that is abstract and neither
sealed nor final may have subclasses that the pool does not know, and a datum of such a type
stands for a value of one of them.

A pool is regular if it is declared from the top down, each type can have values, and no type
contains itself.

* `Pool.Layered.model`: data form a value model, in which sealed types are closed.
* `Pool.Regular.exists_datum`: each type that is no error has a datum.
-/

namespace GuardedMatch

/-- A value with its most specific type and its components. -/
inductive Datum
  /-- What stands where there is no component. -/
  | void
  | object (ty : Ty) (component : Nat → Datum)

namespace Datum

def component : Datum → Nat → Datum
  | void, _ => void
  | object _ component, position => component position

end Datum

namespace Pool

/-- A type that can be the most specific declared type of a value. -/
structure Instantiable (pool : Pool) (ty : Ty) : Prop where
  error : pool.isError ty = false
  /-- Then the value belongs to an undeclared subclass. -/
  extensible : pool.isAbstract ty = true → pool.isSealed ty = false ∧ pool.isFinal ty = false

/-- A datum is well formed and of a type. -/
inductive Inhabits (pool : Pool) : Datum → Ty → Prop
  | intro {ty : Ty} {component : Nat → Datum} {sup : Ty} (hty : pool.Instantiable ty)
      (hcomponents : ∀ position part, (pool.componentTypes ty)[position]? = some part →
        pool.Inhabits (component position) part)
      (hsup : pool.isError sup = false) (hle : pool.isSubtype ty sup = true) :
      pool.Inhabits (.object ty component) sup

variable {pool : Pool}

theorem isSubtype_refl (pool : Pool) (ty : Ty) : pool.isSubtype ty ty = true := by
  simp [isSubtype]

theorem Layered.final_of_component (h : pool.Layered) {ty part : Ty} {position : Nat}
    (hpart : (pool.componentTypes ty)[position]? = some part) : pool.isFinal ty = true := by
  refine h.record (h.components fun hnone => ?_)
  simp [componentTypes, hnone] at hpart

/-- Data form a value model. -/
abbrev Layered.model (h : pool.Layered) : ValueModel pool where
  Value := Datum
  inst := pool.Inhabits
  proj := Datum.component
  inst_mono := by
    rintro value sub sup ⟨hty, hcomponents, _, hle⟩ hsub hsup hsubtype
    exact ⟨hty, hcomponents, hsup, h.isSubtype_trans hty.error hsub hsup hle hsubtype⟩
  inst_proj := by
    rintro value ty position part ⟨hty, hcomponents, herror, hle⟩ hpart
    -- A type with components is final, so the datum is of this very type.
    obtain rfl := h.eq_of_isSubtype_final hty.error herror (h.final_of_component hpart) hle
    exact hcomponents position part hpart

theorem Layered.sealed_model (h : pool.Layered) : h.model.Sealed := by
  rintro value ty hsealed habstract (@⟨least, component, _, hty, hcomponents, herror, hle⟩)
  have hne : least ≠ ty := by
    rintro rfl
    rw [(hty.extensible habstract).1] at hsealed
    cases hsealed
  obtain ⟨sub, hsub, hsubtype⟩ := h.linked.exists_permitted h.object.2.2.1 hty.error herror
    hsealed hne hle
  exact ⟨sub, hsub, ⟨hty, hcomponents, (h.isSubtype_of_permitted hsub).1, hsubtype⟩⟩

end Pool

/-- A value of any type has a most specific one that can have values, and is of the supertypes of
that type and of nothing else. -/
def ValueModel.Nominal {pool : Pool} (model : ValueModel pool) : Prop :=
  ∀ value ty, model.inst value ty → ∃ least, pool.Instantiable least ∧
    ∀ sup, model.inst value sup ↔ pool.isError sup = false ∧ pool.isSubtype least sup = true

namespace Pool

variable {pool : Pool}

theorem Layered.nominal_model (h : pool.Layered) : h.model.Nominal := by
  rintro value ty ⟨hty, hcomponents, _, _⟩
  refine ⟨_, hty, fun sup => ⟨?_, fun hsup => ⟨hty, hcomponents, hsup.1, hsup.2⟩⟩⟩
  rintro ⟨_, _, hsup, hle⟩
  exact ⟨hsup, hle⟩

/-- A value of one type contains, or may be, a value of another. -/
def Contains (pool : Pool) (ty part : Ty) : Prop :=
  pool.isRecord ty = true ∧ part ∈ pool.componentTypes ty ∨
    pool.isSealed ty = true ∧ pool.isAbstract ty = true ∧ part ∈ pool.permittedSubtypes ty

/-- Only types of the pool contain something. -/
theorem Contains.index_lt {ty part : Ty} (h : pool.Contains ty part) : ty.index < pool.size := by
  by_contra hout
  have hnone := entry_eq_none hout
  rcases h with ⟨_, hpart⟩ | ⟨_, _, hpart⟩
  · simp [componentTypes, Pool.components, hnone] at hpart
  · simp [permittedSubtypes, hnone] at hpart

/-- If no type contains itself, types are taken apart only finitely often. -/
theorem wellFounded_contains (h : ∀ ty, ¬ Relation.TransGen pool.Contains ty ty) :
    WellFounded fun part ty => pool.Contains ty part := by
  refine wellFounded_of_acyclic ((Finset.range pool.size).image Ty.mk) (fun ty part hpart => ?_) h
  exact Finset.mem_image.2 ⟨ty.index, Finset.mem_range.2 hpart.index_lt, rfl⟩

/-- Types that were taken apart on the way to a type. -/
def Above (pool : Pool) (path : Finset Ty) (ty : Ty) : Prop :=
  ∀ other ∈ path, other.index < pool.size ∧ Relation.TransGen pool.Contains other ty

/-- There are no more types on the way than there are in the pool. -/
theorem Above.card_le {path : Finset Ty} {ty : Ty} (h : pool.Above path ty) :
    path.card ≤ pool.size := by
  have hsub : path.image Ty.index ⊆ Finset.range pool.size := by
    intro index hindex
    obtain ⟨other, hother, rfl⟩ := Finset.mem_image.mp hindex
    exact Finset.mem_range.mpr (h other hother).1
  have hinj : Function.Injective Ty.index := by
    rintro ⟨one⟩ ⟨two⟩ rfl
    rfl
  have hle := Finset.card_le_card hsub
  rwa [Finset.card_image_of_injective path hinj, Finset.card_range] at hle

theorem Above.insert (hacyclic : ∀ ty, ¬ Relation.TransGen pool.Contains ty ty)
    {path : Finset Ty} {ty part : Ty} (h : pool.Above path ty) (hpart : pool.Contains ty part) :
    pool.Above (insert ty path) part ∧ (insert ty path).card = path.card + 1 := by
  refine ⟨fun other hother => ?_, Finset.card_insert_of_notMem fun hmem => ?_⟩
  · rcases Finset.mem_insert.mp hother with rfl | hother
    · exact ⟨hpart.index_lt, .single hpart⟩
    · exact ⟨(h other hother).1, (h other hother).2.tail hpart⟩
  · exact hacyclic ty (h ty hmem).2

/-- A pool declared from the top down, in which every type can have values and none contains
itself. -/
structure Regular (pool : Pool) : Prop where
  topDown : pool.TopDown
  extensible : ∀ ty, pool.isFinal ty = true → pool.isAbstract ty = false
  permitted : ∀ ty, pool.isSealed ty = true → pool.isAbstract ty = true →
    pool.permittedSubtypes ty ≠ []
  components : ∀ ty, ∀ part ∈ pool.componentTypes ty, pool.isError part = false
  acyclic : ∀ ty, ¬ Relation.TransGen pool.Contains ty ty

namespace Regular

theorem layered (h : pool.Regular) : pool.Layered := h.topDown.layered

theorem wellFounded (h : pool.Regular) : WellFounded fun part ty => pool.Contains ty part :=
  wellFounded_contains h.acyclic

theorem instantiable (h : pool.Regular) {ty : Ty} (herror : pool.isError ty = false)
    (hopen : ¬ (pool.isSealed ty = true ∧ pool.isAbstract ty = true)) : pool.Instantiable ty := by
  refine ⟨herror, fun habstract => ⟨?_, ?_⟩⟩
  · by_contra hsealed
    exact hopen ⟨by simpa using hsealed, habstract⟩
  · by_contra hfinal
    rw [h.extensible ty (by simpa using hfinal)] at habstract
    cases habstract

/-- **Each type that is no error has a datum.** -/
theorem exists_datum (h : pool.Regular) {ty : Ty} (herror : pool.isError ty = false) :
    ∃ datum, pool.Inhabits datum ty := by
  induction ty using h.wellFounded.induction with
  | _ ty ih =>
    by_cases hsplit : pool.isSealed ty = true ∧ pool.isAbstract ty = true
    · obtain ⟨sub, hsub⟩ := List.exists_mem_of_ne_nil _ (h.permitted ty hsplit.1 hsplit.2)
      obtain ⟨hsubError, hle⟩ := h.layered.isSubtype_of_permitted hsub
      obtain ⟨datum, hdatum⟩ := ih sub (Or.inr ⟨hsplit.1, hsplit.2, hsub⟩) hsubError
      exact ⟨datum, h.layered.model.inst_mono hdatum hsubError herror hle⟩
    · have hparts : ∀ position : Nat, ∃ datum, ∀ part,
          (pool.componentTypes ty)[position]? = some part →
          pool.Inhabits datum part := by
        intro position
        cases hpart : (pool.componentTypes ty)[position]? with
        | none => exact ⟨.void, by simp⟩
        | some part =>
          have hmem := List.mem_of_getElem? hpart
          have hrecord : pool.isRecord ty = true := h.layered.components fun hnone => by
            simp [componentTypes, hnone] at hmem
          obtain ⟨datum, hdatum⟩ := ih part (Or.inl ⟨hrecord, hmem⟩) (h.components ty part hmem)
          exact ⟨datum, fun _ heq => Option.some.inj heq ▸ hdatum⟩
      choose component hcomponent using hparts
      exact ⟨.object ty component, h.instantiable herror hsplit, hcomponent, herror,
        pool.isSubtype_refl ty⟩

end Regular

/-! ## A pool of shapes -/

/-- A sealed interface with two records below it, one with a component. -/
def shapes : Pool :=
  let (shape, pool) := Pool.builtin.declareInterface "Shape" [] true
  let (_, pool) := pool.declareRecord "Dot" [] [shape]
  (pool.declareRecord "Box" [⟨"content", Ty.object⟩] [shape]).2

theorem topDown_shapes : shapes.TopDown := by
  refine .declareRecord "Box" [⟨"content", Ty.object⟩] (.declareRecord "Dot" []
    (.declareInterface "Shape" true .builtin ?_) ?_) ?_ <;> decide

theorem declared_shapes : shapes.Declared fun _ _ => True := by
  refine .declareRecord "Box" [⟨"content", Ty.object⟩] (.declareRecord "Dot" []
    (.declareInterface "Shape" true .builtin ?_) ?_) ?_ <;> decide

theorem regular_shapes : shapes.Regular where
  topDown := topDown_shapes
  extensible := forall_of_size shapes (by decide) fun ty hty h => by
    simp [isFinal, flags, hty, Flags.none] at h
  permitted := forall_of_size shapes (by decide) fun ty hty h => by
    simp [isSealed, flags, hty, Flags.none] at h
  components := forall_of_size shapes (by decide) fun ty hty part hpart => by
    simp [componentTypes, Pool.components, hty] at hpart
  acyclic := by
    refine not_transGen_of_rank (fun ty => if ty.index = 32 then 2 else if 32 < ty.index then 1
      else 0) (forall_of_size shapes ?_ fun ty hty part hpart => ?_)
    · have hall : ∀ index < shapes.size,
          ∀ part ∈ shapes.componentTypes ⟨index⟩ ++ shapes.permittedSubtypes ⟨index⟩,
            (if part.index = 32 then 2 else if 32 < part.index then 1 else 0) <
              if index = 32 then 2 else if 32 < index then 1 else 0 := by decide
      intro index hindex part hpart
      refine hall index hindex part (List.mem_append.2 ?_)
      exact hpart.imp (fun hpart => hpart.2) fun hpart => hpart.2.2
    · rcases hpart with ⟨_, hpart⟩ | ⟨_, _, hpart⟩
      · simp [componentTypes, Pool.components, hty] at hpart
      · simp [permittedSubtypes, hty] at hpart

end Pool

end GuardedMatch
