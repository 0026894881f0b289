import GuardedMatch.Types.Subtyping
import Mathlib.Algebra.BigOperators.Group.Finset.Basic
import Mathlib.Logic.Relation

/-!
# The type hierarchy

The search behind `Pool.isSubtype` finds exactly the types that lists of supertypes lead to, since
its steps suffice for a search that adds the supertypes of a type once.

A pool is made by declarations.  What they list as supertypes decides what the hierarchy is like:
where every supertype is already there, and is neither final nor an error, subtyping is
transitive, a final type has no subtype but itself, and below a sealed type there are only its
permitted subtypes and what is below them.

* `Pool.reaches_iff`: the search answers reachability.
* `Pool.Layered.isSubtype_trans`, `Pool.Layered.eq_of_isSubtype_final`,
  `Pool.Linked.exists_permitted`: the three facts above.
-/

namespace GuardedMatch.Pool

variable {ty goal sub sup : Ty} {allowed : Pool → Ty → Prop}

variable {pool : Pool}

/-! ## Search is reachability -/

/-- One type lists another as a supertype. -/
def Lists (pool : Pool) (sub sup : Ty) : Prop := sup ∈ pool.supertypes sub

/-- The supertypes listed by types that a search has not left behind. -/
def edgesOutside (pool : Pool) (seen : IdSet) : Nat :=
  ∑ index ∈ (Finset.range pool.size).filter (· ∉ seen), (pool.supertypes ⟨index⟩).length

theorem entry_eq_none (h : ¬ ty.index < pool.size) : pool.entry? ty = none :=
  Array.getElem?_eq_none (Nat.le_of_not_lt h)

/-- What holds of all types of a pool and of numbers that are no types holds of all numbers. -/
theorem forall_of_size (pool : Pool) {property : Ty → Prop}
    (hin : ∀ index < pool.size, property ⟨index⟩)
    (hout : ∀ ty, pool.entry? ty = none → property ty) (ty : Ty) : property ty := by
  by_cases hlt : ty.index < pool.size
  · exact hin ty.index hlt
  · exact hout ty (entry_eq_none hlt)

theorem edgesOutside_empty (pool : Pool) : pool.edgesOutside ∅ = pool.edgeCount := by
  have hfold : ∀ (entries : List TypeEntry) (count : Nat),
      entries.foldl (fun count entry => count + entry.supertypes.length) count =
        count + (entries.map fun entry => entry.supertypes.length).sum := by
    intro entries
    induction entries with
    | nil => simp
    | cons entry entries ih =>
      intro count
      rw [List.foldl_cons, ih, List.map_cons, List.sum_cons, Nat.add_assoc]
  have hentries : pool.entries.toList.map (fun entry => entry.supertypes.length) =
      (List.range pool.size).map fun index => (pool.supertypes ⟨index⟩).length := by
    refine List.ext_getElem (by simp [size]) fun index hleft hright => ?_
    rw [List.length_map, Array.length_toList] at hleft
    simp [supertypes, entry?, hleft]
  rw [edgeCount, hfold, hentries, Nat.zero_add, edgesOutside, Finset.filter_true_of_mem (by simp)]
  rfl

/-- To leave a type behind takes its supertypes off what is outside. -/
theorem edgesOutside_insert {seen : IdSet} (h : ty.index ∉ seen) :
    pool.edgesOutside (seen.insert ty.index) + (pool.supertypes ty).length =
      pool.edgesOutside seen := by
  by_cases hin : ty.index < pool.size
  · have hfilter : (Finset.range pool.size).filter (· ∉ seen.insert ty.index) =
        ((Finset.range pool.size).filter (· ∉ seen)).erase ty.index := by
      ext index
      simp only [Finset.mem_filter, Finset.mem_erase, Std.ExtTreeSet.mem_insert,
        Nat.compare_eq_eq, not_or]
      grind
    rw [edgesOutside, edgesOutside, hfilter]
    exact Finset.sum_erase_add _ _ (by simp [hin, h])
  · have hnone : pool.supertypes ty = [] := by
      rw [supertypes, entry_eq_none hin]
    have hfilter : (Finset.range pool.size).filter (· ∉ seen.insert ty.index) =
        (Finset.range pool.size).filter (· ∉ seen) := by
      ext index
      simp only [Finset.mem_filter, Finset.mem_range, Std.ExtTreeSet.mem_insert,
        Nat.compare_eq_eq, not_or]
      grind
    rw [edgesOutside, edgesOutside, hfilter, hnone, List.length_nil, Nat.add_zero]

theorem path_of_reaches : ∀ (steps : Nat) (work : List Ty) (seen : IdSet),
    pool.reaches goal steps work seen = true →
      ∃ ty ∈ work, Relation.TransGen pool.Lists ty goal := by
  intro steps
  induction steps with
  | zero => simp [reaches]
  | succ steps ih =>
    intro work seen h
    match work with
    | [] => simp [reaches] at h
    | ty :: work =>
      rw [reaches] at h
      split at h
      next =>
        obtain ⟨other, hother, hpath⟩ := ih work seen h
        exact ⟨other, List.mem_cons_of_mem _ hother, hpath⟩
      next =>
        split at h
        next hgoal => exact ⟨ty, List.mem_cons_self .., .single hgoal⟩
        next =>
          obtain ⟨other, hother, hpath⟩ := ih _ _ h
          rcases List.mem_append.1 hother with hother | hother
          · exact ⟨ty, List.mem_cons_self .., .head (List.mem_reverse.1 hother) hpath⟩
          · exact ⟨other, List.mem_cons_of_mem _ hother, hpath⟩

/-- A search that ends without an answer has walked through a set of types that leads nowhere
else and does not list the goal. -/
theorem closed_of_not_reaches : ∀ (steps : Nat) (work : List Ty) (seen : IdSet),
    pool.reaches goal steps work seen = false →
      work.length + pool.edgesOutside seen ≤ steps →
      (∀ ty : Ty, ty.index ∈ seen →
        ∀ sup, pool.Lists ty sup → sup ≠ goal ∧ (sup.index ∈ seen ∨ sup ∈ work)) →
      ∃ closed : Ty → Prop, (∀ ty : Ty, ty.index ∈ seen → closed ty) ∧ (∀ ty ∈ work, closed ty) ∧
        ∀ ty, closed ty → ∀ sup, pool.Lists ty sup → sup ≠ goal ∧ closed sup := by
  intro steps
  induction steps with
  | zero =>
    intro work seen _ hsteps hseen
    obtain rfl : work = [] := List.length_eq_zero_iff.1 (by omega)
    refine ⟨fun ty => ty.index ∈ seen, fun _ hty => hty, by simp, fun ty hty sup hsup => ?_⟩
    simpa using hseen ty hty sup hsup
  | succ steps ih =>
    intro work seen h hsteps hseen
    match work with
    | [] =>
      refine ⟨fun ty => ty.index ∈ seen, fun _ hty => hty, by simp, fun ty hty sup hsup => ?_⟩
      simpa using hseen ty hty sup hsup
    | ty :: work =>
      rw [List.length_cons] at hsteps
      rw [reaches] at h
      split at h
      next hin =>
        rw [Std.ExtTreeSet.contains_iff_mem] at hin
        have hseen' : ∀ other : Ty, other.index ∈ seen → ∀ sup, pool.Lists other sup →
            sup ≠ goal ∧ (sup.index ∈ seen ∨ sup ∈ work) := by
          intro other hother sup hsup
          obtain ⟨hgoal, hsup | hsup⟩ := hseen other hother sup hsup
          · exact ⟨hgoal, Or.inl hsup⟩
          · rcases List.mem_cons.1 hsup with rfl | hsup
            · exact ⟨hgoal, Or.inl hin⟩
            · exact ⟨hgoal, Or.inr hsup⟩
        obtain ⟨closed, hclosed, hwork, hstep⟩ := ih work seen h (by omega) hseen'
        exact ⟨closed, hclosed, List.forall_mem_cons.2 ⟨hclosed ty hin, hwork⟩, hstep⟩
      next hout =>
        rw [Std.ExtTreeSet.contains_iff_mem] at hout
        split at h
        next => cases h
        next hgoal =>
          have hedges : pool.edgesOutside (seen.insert ty.index) + (pool.supertypes ty).length =
              pool.edgesOutside seen := edgesOutside_insert hout
          have hseen' : ∀ other : Ty, other.index ∈ seen.insert ty.index →
              ∀ sup, pool.Lists other sup → sup ≠ goal ∧ (sup.index ∈ seen.insert ty.index ∨
                sup ∈ (pool.supertypes ty).reverse ++ work) := by
            intro other hother sup hsup
            simp only [Std.ExtTreeSet.mem_insert, Nat.compare_eq_eq, List.mem_append] at hother ⊢
            rcases hother with heq | hother
            · obtain rfl : ty = other := congrArg Ty.mk heq
              exact ⟨fun heq => hgoal (heq ▸ hsup), Or.inr (Or.inl (List.mem_reverse.2 hsup))⟩
            · obtain ⟨hne, hsup | hsup⟩ := hseen other hother sup hsup
              · exact ⟨hne, Or.inl (Or.inr hsup)⟩
              · rcases List.mem_cons.1 hsup with rfl | hsup
                · exact ⟨hne, Or.inl (Or.inl rfl)⟩
                · exact ⟨hne, Or.inr (Or.inr hsup)⟩
          obtain ⟨closed, hclosed, hwork, hstep⟩ :=
            ih _ _ h (by rw [List.length_append, List.length_reverse]; omega) hseen'
          simp only [Std.ExtTreeSet.mem_insert, Nat.compare_eq_eq] at hclosed
          exact ⟨closed, fun other hother => hclosed other (Or.inr hother),
            List.forall_mem_cons.2 ⟨hclosed ty (Or.inl rfl),
              fun other hother => hwork other (List.mem_append_right _ hother)⟩, hstep⟩

/-- **The search for a supertype answers whether lists of supertypes lead there.** -/
theorem reaches_iff :
    pool.reaches goal (pool.edgeCount + 1) [sub] ∅ = true ↔
      Relation.TransGen pool.Lists sub goal := by
  constructor
  · intro h
    obtain ⟨ty, hty, hpath⟩ := path_of_reaches _ _ _ h
    obtain rfl := List.mem_singleton.1 hty
    exact hpath
  · intro hpath
    by_contra h
    rw [Bool.not_eq_true] at h
    obtain ⟨closed, _, hsub, hstep⟩ := closed_of_not_reaches _ _ _ h
      (by rw [edgesOutside_empty, List.length_singleton, Nat.add_comm]) (by simp)
    have hall : ∀ ty, Relation.TransGen pool.Lists sub ty → ty ≠ goal ∧ closed ty := by
      intro ty hpath
      induction hpath with
      | single hsup => exact hstep sub (hsub sub (by simp)) _ hsup
      | tail _ hsup ih => exact hstep _ ih.2 _ hsup
    exact (hall goal hpath).1 rfl

/-- Between types that are no error, subtyping is reachability, apart from `Object`. -/
theorem isSubtype_iff (hsub : pool.isError sub = false) (hsup : pool.isError sup = false) :
    pool.isSubtype sub sup = true ↔ sub = sup ∨
      pool.isPrimitive sub = false ∧ pool.isPrimitive sup = false ∧
        (sup = Ty.object ∨ Relation.TransGen pool.Lists sub sup) := by
  rw [isSubtype]
  simp only [hsub, hsup, Bool.false_eq_true, or_false]
  by_cases heq : sub = sup
  · simp [heq]
  · by_cases hprimitive : pool.isPrimitive sub = true ∨ pool.isPrimitive sup = true
    · rw [if_neg heq, if_pos hprimitive]
      grind
    · rw [if_neg heq, if_neg hprimitive]
      rw [not_or, Bool.not_eq_true, Bool.not_eq_true] at hprimitive
      by_cases hobject : sup = Ty.object
      · simp [hobject, hprimitive, hobject ▸ hprimitive.2]
      · rw [if_neg hobject, reaches_iff]
        simp [heq, hobject, hprimitive]

/-! ## Consequences for subtyping -/

/-- If nothing is above `Object`, subtyping is transitive between types that are no error. -/
theorem isSubtype_trans_of_object (hobject : pool.supertypes Ty.object = []) {mid : Ty}
    (hsub : pool.isError sub = false) (hmid : pool.isError mid = false)
    (hsup : pool.isError sup = false) (hleft : pool.isSubtype sub mid = true)
    (hright : pool.isSubtype mid sup = true) : pool.isSubtype sub sup = true := by
  rw [isSubtype_iff hsub hmid] at hleft
  rw [isSubtype_iff hmid hsup] at hright
  rw [isSubtype_iff hsub hsup]
  rcases hleft with rfl | ⟨hp, _, hleft⟩
  · exact hright
  rcases hright with rfl | ⟨_, hq, hright⟩
  · exact Or.inr ⟨hp, ‹_›, hleft⟩
  refine Or.inr ⟨hp, hq, ?_⟩
  rcases hright with heq | hright
  · exact Or.inl heq
  rcases hleft with rfl | hleft
  · obtain ⟨next, hlists, _⟩ := Relation.TransGen.head'_iff.1 hright
    rw [Lists, hobject] at hlists
    cases hlists
  · exact Or.inr (hleft.trans hright)

/-- If final types are listed nowhere, a final type has no subtype but itself. -/
theorem eq_of_isSubtype_unlisted
    (hlisted : ∀ {sub sup}, pool.Lists sub sup → pool.isFinal sup = false)
    (hobject : pool.isFinal Ty.object = false) (hsub : pool.isError sub = false)
    (hsup : pool.isError sup = false) (hfinal : pool.isFinal sup = true)
    (hle : pool.isSubtype sub sup = true) : sub = sup := by
  rw [isSubtype_iff hsub hsup] at hle
  rcases hle with heq | ⟨_, _, rfl | hpath⟩
  · exact heq
  · rw [hobject] at hfinal
    cases hfinal
  · obtain ⟨last, _, hlists⟩ := Relation.TransGen.tail'_iff.1 hpath
    rw [hlisted hlists] at hfinal
    cases hfinal

/-! ## Declarations -/

theorem size_addSubtypes (new : Ty) (parents : List Ty) (entries : Array TypeEntry) :
    (parents.foldl (fun entries parent => entries.modify parent.index (·.addSubtype new))
      entries).size = entries.size := by
  induction parents generalizing entries with
  | nil => rfl
  | cons parent parents ih => rw [List.foldl_cons, ih, Array.size_modify]

/-- A parent lists the new type once for each time that it is named. -/
theorem getElem?_addSubtypes (new ty : Ty) (parents : List Ty) (entries : Array TypeEntry) :
    (parents.foldl (fun entries parent => entries.modify parent.index (·.addSubtype new))
        entries)[ty.index]? =
      entries[ty.index]?.map fun old =>
        { old with subtypes := old.subtypes ++ List.replicate (parents.count ty) new } := by
  induction parents generalizing entries with
  | nil => simp
  | cons parent parents ih =>
    rw [List.foldl_cons, ih, Array.getElem?_modify, List.count_cons]
    by_cases hparent : parent = ty
    · subst hparent
      simp [TypeEntry.addSubtype, List.replicate_succ, Function.comp_def]
    · have hindex : parent.index ≠ ty.index := fun heq => hparent (congrArg Ty.mk heq)
      simp [hparent, hindex]

theorem size_declare (pool : Pool) (entry : TypeEntry) :
    (pool.declare entry).2.size = pool.size + 1 := by
  rw [declare, size, Array.size_push, size_addSubtypes, size]

/-- After a declaration, the new type has its entry, and of the others only subtypes change. -/
theorem entry_declare (pool : Pool) (entry : TypeEntry) (ty : Ty) :
    Pool.entry? (pool.declare entry).2 ty =
      if ty.index = pool.size then some entry
      else Option.map (fun old =>
        { old with
          subtypes := old.subtypes ++ List.replicate (entry.supertypes.count ty) ⟨pool.size⟩ })
        <| pool.entry? ty := by
  rw [declare, Pool.entry?, Array.getElem?_push, size_addSubtypes, getElem?_addSubtypes]
  rfl

section

variable (entry : TypeEntry) (ty : Ty)

/-- What is asked about one entry, its subtypes apart, changes for the new type only. -/
theorem answer_declare {α : Type} (question : TypeEntry → α) (other : α)
    (h : ∀ entry subtypes, question { entry with subtypes := subtypes } = question entry) :
    (match Pool.entry? (pool.declare entry).2 ty with
      | some entry => question entry
      | none => other) =
      if ty.index = pool.size then question entry
      else match pool.entry? ty with
        | some entry => question entry
        | none => other := by
  rw [entry_declare]
  by_cases hnew : ty.index = pool.size
  · rw [if_pos hnew, if_pos hnew]
  · rw [if_neg hnew, if_neg hnew]
    cases pool.entry? ty with
    | none => rfl
    | some old => exact h old _

theorem flags_declare : (pool.declare entry).2.flags ty =
    if ty.index = pool.size then entry.flags else pool.flags ty :=
  answer_declare entry ty TypeEntry.flags _ fun _ _ => rfl

theorem kind_declare : (pool.declare entry).2.kind ty =
    if ty.index = pool.size then entry.kind else pool.kind ty :=
  answer_declare entry ty TypeEntry.kind _ fun _ _ => rfl

theorem supertypes_declare : (pool.declare entry).2.supertypes ty =
    if ty.index = pool.size then entry.supertypes else pool.supertypes ty :=
  answer_declare entry ty TypeEntry.supertypes _ fun _ _ => rfl

theorem components_declare : (pool.declare entry).2.components ty =
    if ty.index = pool.size then entry.components else pool.components ty :=
  answer_declare entry ty TypeEntry.components _ fun _ _ => rfl

theorem permittedSubtypes_declare : (pool.declare entry).2.permittedSubtypes ty =
    if ty.index = pool.size then if entry.flags.sealed then entry.subtypes else []
    else pool.permittedSubtypes ty ++
      if pool.isSealed ty then List.replicate (entry.supertypes.count ty) ⟨pool.size⟩ else [] := by
  rw [permittedSubtypes, entry_declare, permittedSubtypes, isSealed, flags]
  by_cases hnew : ty.index = pool.size
  · rw [if_pos hnew, if_pos hnew]
  · rw [if_neg hnew, if_neg hnew]
    cases pool.entry? ty with
    | none => rfl
    | some old => cases hsealed : old.flags.sealed <;> simp [hsealed]

end

/-- A pool that declarations have made, each of which lists only supertypes that are allowed in
the pool it adds to. -/
inductive Declared (allowed : Pool → Ty → Prop) : Pool → Prop
  | builtin : Declared allowed Pool.builtin
  | declareClass {pool : Pool} {supertypes : List Ty} (name : String) (bits : Nat)
      (h : Declared allowed pool) (hsup : ∀ ty ∈ supertypes, allowed pool ty) :
      Declared allowed (pool.declareClass name supertypes bits).2
  | declareInterface {pool : Pool} {supertypes : List Ty} (name : String) (isSealed : Bool)
      (h : Declared allowed pool) (hsup : ∀ ty ∈ supertypes, allowed pool ty) :
      Declared allowed (pool.declareInterface name supertypes isSealed).2
  | declareRecord {pool : Pool} {supertypes : List Ty} (name : String)
      (components : List Component) (h : Declared allowed pool)
      (hsup : ∀ ty ∈ supertypes, allowed pool ty) :
      Declared allowed (pool.declareRecord name components supertypes).2

/-- What every declaration makes sure of. -/
structure Declarable (entry : TypeEntry) : Prop where
  error : entry.flags.error = false
  primitive : entry.flags.primitive = false
  subtypes : entry.subtypes = []
  final : entry.kind = .record → entry.flags.final = true
  record : entry.components ≠ [] → entry.kind = .record

/-- To reason about all declarations at once. -/
theorem Declared.induction {motive : Pool → Prop} (builtin : motive Pool.builtin)
    (declare : ∀ (pool : Pool) (entry : TypeEntry), motive pool → Declarable entry →
      (∀ ty ∈ entry.supertypes, ty = Ty.object ∨ allowed pool ty) → motive (pool.declare entry).2)
    {pool : Pool} (h : Declared allowed pool) : motive pool := by
  have extending : ∀ {pool : Pool} (entry : TypeEntry) {supertypes : List Ty},
      (∀ ty ∈ supertypes, allowed pool ty) →
      ∀ ty ∈ (entry.extending supertypes).supertypes, ty = Ty.object ∨ allowed pool ty := by
    intro pool entry supertypes hsup ty hty
    rw [TypeEntry.extending] at hty
    split at hty
    next => exact Or.inl (List.mem_singleton.1 hty)
    next => exact Or.inr (hsup ty hty)
  induction h with
  | builtin => exact builtin
  | declareClass name bits _ hsup ih =>
    exact declare _ _ ih ⟨rfl, rfl, rfl, by simp [TypeEntry.extending, TypeEntry.simple],
      by simp [TypeEntry.extending, TypeEntry.simple]⟩ (extending _ hsup)
  | declareInterface name isSealed _ hsup ih =>
    exact declare _ _ ih ⟨rfl, rfl, rfl, by simp [TypeEntry.extending, TypeEntry.simple],
      by simp [TypeEntry.extending, TypeEntry.simple]⟩ (extending _ hsup)
  | declareRecord name components _ hsup ih =>
    exact declare _ _ ih ⟨rfl, rfl, rfl, fun _ => rfl, fun _ => rfl⟩ (extending _ hsup)

/-- The same, where declarations are put behind the built-in types. -/
theorem Declared.induction_behind {motive : Pool → Prop} (builtin : motive Pool.builtin)
    (declare : ∀ (pool : Pool) (entry : TypeEntry), Ty.firstDeclared ≤ pool.size → motive pool →
      Declarable entry → (∀ ty ∈ entry.supertypes, ty = Ty.object ∨ allowed pool ty) →
      motive (pool.declare entry).2)
    {pool : Pool} (h : Declared allowed pool) : motive pool := by
  have hboth : Ty.firstDeclared ≤ pool.size ∧ motive pool := by
    refine h.induction (motive := fun pool => Ty.firstDeclared ≤ pool.size ∧ motive pool)
      ⟨by decide, builtin⟩ ?_
    intro pool entry ih hentry hsup
    rw [size_declare]
    exact ⟨ih.1.trans (Nat.le_succ _), declare pool entry ih.1 ih.2 hentry hsup⟩
  exact hboth.2

/-- Declarations do not change the flags of built-in types. -/
theorem Declared.flags_builtin (h : Declared allowed pool) {ty : Ty}
    (hty : ty.index < Ty.firstDeclared) : pool.flags ty = Pool.builtin.flags ty := by
  refine h.induction_behind (motive := fun pool => pool.flags ty = Pool.builtin.flags ty) rfl ?_
  intro pool entry hsize ih _ _
  have hold : ty.index ≠ pool.size := (lt_of_lt_of_le hty hsize).ne
  rw [flags_declare, if_neg hold]
  exact ih

theorem lt_size_of_not_error (h : pool.isError ty = false) : ty.index < pool.size := by
  by_contra hout
  rw [isError, flags, entry_eq_none hout] at h
  cases h

/-- A declaration is put behind the built-in types, and does not change the error type. -/
theorem isError_error_declare (entry : TypeEntry) (hsize : Ty.firstDeclared ≤ pool.size)
    (herror : pool.isError Ty.error = true) :
    Ty.firstDeclared ≤ (pool.declare entry).2.size ∧
      (pool.declare entry).2.isError Ty.error = true := by
  have hold : Ty.error.index ≠ pool.size := (lt_of_lt_of_le (by decide) hsize).ne
  rw [isError, flags_declare, if_neg hold, size_declare]
  exact ⟨hsize.trans (Nat.le_succ _), herror⟩

/-- The error type is an error in every pool. -/
theorem Declared.isError_error (h : Declared allowed pool) :
    Ty.firstDeclared ≤ pool.size ∧ pool.isError Ty.error = true :=
  h.induction (motive := fun pool => Ty.firstDeclared ≤ pool.size ∧ pool.isError Ty.error = true)
    (by decide) fun _ entry ih _ _ => isError_error_declare entry ih.1 ih.2

/-! ## Links in both directions -/

/-- Only types that are no error list and are listed, and a sealed type permits those that list
it. -/
structure Linked (pool : Pool) : Prop where
  sub : ∀ {sub sup}, pool.Lists sub sup → pool.isError sub = false ∧ pool.isPrimitive sub = false
  sup : ∀ {sub sup}, pool.Lists sub sup → pool.isError sup = false
  permitted : ∀ {sub sup}, sub ∈ pool.permittedSubtypes sup ↔
    pool.isSealed sup = true ∧ pool.Lists sub sup

namespace Linked

/-- A declaration records the new type with every type that it lists. -/
theorem declare {entry : TypeEntry} (h : pool.Linked) (hentry : Declarable entry)
    (hsup : ∀ ty ∈ entry.supertypes, pool.isError ty = false) :
    (pool.declare entry).2.Linked := by
  -- Whatever is no error was there before.
  have hold : ∀ {ty}, pool.isError ty = false → ty.index ≠ pool.size :=
    fun hty => (lt_size_of_not_error hty).ne
  refine ⟨?_, ?_, ?_⟩
  · intro sub sup hlists
    rw [Lists, supertypes_declare] at hlists
    rw [isError, isPrimitive, flags_declare]
    split at hlists
    next hnew =>
      rw [if_pos hnew]
      exact ⟨hentry.error, hentry.primitive⟩
    next hnew =>
      rw [if_neg hnew]
      exact h.sub hlists
  · intro sub sup hlists
    rw [Lists, supertypes_declare] at hlists
    have herror : pool.isError sup = false := by
      split at hlists
      next => exact hsup sup hlists
      next => exact h.sup hlists
    rw [isError, flags_declare, if_neg (hold herror)]
    exact herror
  · intro sub sup
    by_cases hsupNew : sup.index = pool.size
    · have hnot : ¬ (pool.declare entry).2.Lists sub sup := by
        rw [Lists, supertypes_declare]
        split
        next => exact fun hlists => hold (hsup sup hlists) hsupNew
        next => exact fun hlists => hold (h.sup hlists) hsupNew
      rw [permittedSubtypes_declare, if_pos hsupNew, hentry.subtypes]
      simp [hnot]
    · have hsealed : (pool.declare entry).2.isSealed sup = pool.isSealed sup := by
        rw [isSealed, flags_declare, if_neg hsupNew, isSealed]
      rw [permittedSubtypes_declare, if_neg hsupNew, hsealed, Lists, supertypes_declare,
        List.mem_append, h.permitted]
      by_cases hsubNew : sub.index = pool.size
      · have hnot : ¬ pool.Lists sub sup := fun hlists => hold (h.sub hlists).1 hsubNew
        obtain rfl : sub = ⟨pool.size⟩ := congrArg Ty.mk hsubNew
        rw [if_pos rfl]
        cases pool.isSealed sup <;> simp [hnot, List.mem_replicate, List.count_eq_zero]
      · have hne : sub ≠ ⟨pool.size⟩ := fun heq => hsubNew (congrArg Ty.index heq)
        rw [if_neg hsubNew]
        cases pool.isSealed sup <;> simp [hne, List.mem_replicate, Lists]

/-- A permitted subtype is a subtype. -/
theorem isSubtype_of_permitted (h : pool.Linked) {sub sup : Ty}
    (hprimitive : pool.isPrimitive sup = false) (hsub : sub ∈ pool.permittedSubtypes sup) :
    pool.isError sub = false ∧ pool.isSubtype sub sup = true := by
  obtain ⟨_, hlists⟩ := h.permitted.1 hsub
  obtain ⟨herror, hreference⟩ := h.sub hlists
  exact ⟨herror, (isSubtype_iff herror (h.sup hlists)).2
    (Or.inr ⟨hreference, hprimitive, Or.inr (.single hlists)⟩)⟩

/-- **Below a sealed type there are only its permitted subtypes and what is below them.** -/
theorem exists_permitted (h : pool.Linked) (hobject : pool.isSealed Ty.object = false)
    {sub sup : Ty} (hsub : pool.isError sub = false) (hsup : pool.isError sup = false)
    (hsealed : pool.isSealed sup = true) (hne : sub ≠ sup)
    (hle : pool.isSubtype sub sup = true) :
    ∃ mid ∈ pool.permittedSubtypes sup, pool.isSubtype sub mid = true := by
  rw [isSubtype_iff hsub hsup] at hle
  rcases hle with heq | ⟨hp, _, rfl | hpath⟩
  · exact absurd heq hne
  · rw [hobject] at hsealed
    cases hsealed
  · obtain ⟨mid, hpath, hlists⟩ := Relation.TransGen.tail'_iff.1 hpath
    obtain ⟨herror, hprimitive⟩ := h.sub hlists
    refine ⟨mid, h.permitted.2 ⟨hsealed, hlists⟩, (isSubtype_iff hsub herror).2 ?_⟩
    rcases Relation.reflTransGen_iff_eq_or_transGen.1 hpath with heq | hpath
    · exact Or.inl heq.symm
    · exact Or.inr ⟨hp, hprimitive, Or.inr hpath⟩

end Linked

/-! ## Pools declared from the top down -/

/-- Every supertype is already there, and is neither final nor an error. -/
def TopDown : Pool → Prop :=
  Declared fun pool ty => pool.isError ty = false ∧ pool.isFinal ty = false

/-- What such a pool is like. -/
structure Layered (pool : Pool) : Prop where
  size : Ty.firstDeclared ≤ pool.size
  error : pool.isError Ty.error = true
  sub : ∀ {sub sup}, pool.Lists sub sup → pool.isError sub = false ∧ pool.isPrimitive sub = false
  sup : ∀ {sub sup}, pool.Lists sub sup → pool.isError sup = false ∧ pool.isFinal sup = false
  permitted : ∀ {sub sup}, sub ∈ pool.permittedSubtypes sup ↔
    pool.isSealed sup = true ∧ pool.Lists sub sup
  object : pool.isError Ty.object = false ∧ pool.isFinal Ty.object = false ∧
    pool.isSealed Ty.object = false ∧ pool.supertypes Ty.object = []
  primitive : ∀ {ty}, pool.isPrimitive ty = true → pool.isFinal ty = true
  record : ∀ {ty}, pool.isRecord ty = true → pool.isFinal ty = true
  components : ∀ {ty}, pool.components ty ≠ [] → pool.isRecord ty = true

theorem isSealed_builtin : ∀ ty, Pool.builtin.isSealed ty = false :=
  forall_of_size builtin (by decide) fun ty hty => by rw [isSealed, flags, hty]; rfl

theorem layered_builtin : Layered Pool.builtin := by
  have lists : ∀ sub, ∀ sup ∈ Pool.builtin.supertypes sub, sup = Ty.object ∧
      Pool.builtin.isError sub = false ∧ Pool.builtin.isPrimitive sub = false :=
    forall_of_size builtin (by decide) fun ty hty sup h => by simp [supertypes, hty] at h
  have permitted : ∀ ty, Pool.builtin.permittedSubtypes ty = [] :=
    forall_of_size builtin (by decide) fun ty hty => by rw [permittedSubtypes, hty]
  have primitive : ∀ ty, Pool.builtin.isPrimitive ty = true → Pool.builtin.isFinal ty = true :=
    forall_of_size builtin (by decide) fun ty hty h => by rw [isPrimitive, flags, hty] at h; cases h
  have record : ∀ ty, Pool.builtin.isRecord ty = false :=
    forall_of_size builtin (by decide) fun ty hty => by rw [isRecord, kind, hty]; rfl
  have components : ∀ ty, Pool.builtin.components ty = [] :=
    forall_of_size builtin (by decide) fun ty hty => by rw [Pool.components, hty]
  refine ⟨by decide, by decide, fun h => (lists _ _ h).2, fun h => ?_, ?_, by decide,
    primitive _, fun h => ?_, fun h => absurd (components _) h⟩
  · rw [(lists _ _ h).1]
    decide
  · simp [permitted, isSealed_builtin]
  · rw [record] at h
    cases h

theorem Layered.linked (h : pool.Layered) : pool.Linked :=
  ⟨h.sub, fun hlists => (h.sup hlists).1, h.permitted⟩

theorem Layered.declare {entry : TypeEntry} (h : pool.Layered) (hentry : Declarable entry)
    (hsup : ∀ ty ∈ entry.supertypes, pool.isError ty = false ∧ pool.isFinal ty = false) :
    (pool.declare entry).2.Layered := by
  have hlinked := h.linked.declare hentry fun ty hty => (hsup ty hty).1
  -- Whatever is no error was there before, and keeps its flags.
  have hold : ∀ {ty}, pool.isError ty = false → ty.index ≠ pool.size :=
    fun hty => (lt_size_of_not_error hty).ne
  have hflags : ∀ {ty}, pool.isError ty = false → (pool.declare entry).2.flags ty = pool.flags ty :=
    fun hty => by rw [flags_declare, if_neg (hold hty)]
  have hobject := hold h.object.1
  obtain ⟨hsize, herror⟩ := isError_error_declare entry h.size h.error
  refine ⟨hsize, herror, hlinked.sub, ?_, hlinked.permitted, ?_, ?_, ?_, ?_⟩
  · intro sub sup hlists
    rw [Lists, supertypes_declare] at hlists
    have hboth : pool.isError sup = false ∧ pool.isFinal sup = false := by
      split at hlists
      next => exact hsup sup hlists
      next => exact h.sup hlists
    rw [isError, isFinal, hflags hboth.1]
    exact hboth
  · rw [isError, isFinal, isSealed, hflags h.object.1, supertypes_declare, if_neg hobject]
    exact h.object
  · intro ty hty
    rw [isPrimitive, flags_declare] at hty
    rw [isFinal, flags_declare]
    by_cases hnew : ty.index = pool.size
    · rw [if_pos hnew, hentry.primitive] at hty
      cases hty
    · rw [if_neg hnew] at hty ⊢
      exact h.primitive hty
  · intro ty hty
    rw [isRecord, kind_declare, beq_iff_eq] at hty
    rw [isFinal, flags_declare]
    by_cases hnew : ty.index = pool.size
    · rw [if_pos hnew] at hty ⊢
      exact hentry.final hty
    · rw [if_neg hnew] at hty ⊢
      exact h.record (beq_iff_eq.2 hty)
  · intro ty hty
    rw [components_declare] at hty
    rw [isRecord, kind_declare, beq_iff_eq]
    by_cases hnew : ty.index = pool.size
    · rw [if_pos hnew] at hty ⊢
      exact hentry.record hty
    · rw [if_neg hnew] at hty ⊢
      exact beq_iff_eq.1 (h.components hty)

theorem TopDown.layered (h : pool.TopDown) : pool.Layered := by
  refine Declared.induction layered_builtin (fun pool entry ih hentry hsup => ?_) h
  refine ih.declare hentry fun ty hty => ?_
  rcases hsup ty hty with rfl | hty
  · exact ⟨ih.object.1, ih.object.2.1⟩
  · exact hty

namespace Layered

variable {sub sup : Ty}

/-- **Subtyping is transitive between types that are no error.** -/
theorem isSubtype_trans (h : pool.Layered) {mid : Ty} (hsub : pool.isError sub = false)
    (hmid : pool.isError mid = false) (hsup : pool.isError sup = false)
    (hleft : pool.isSubtype sub mid = true) (hright : pool.isSubtype mid sup = true) :
    pool.isSubtype sub sup = true :=
  isSubtype_trans_of_object h.object.2.2.2 hsub hmid hsup hleft hright

/-- **A final type has no subtype but itself.** -/
theorem eq_of_isSubtype_final (h : pool.Layered) (hsub : pool.isError sub = false)
    (hsup : pool.isError sup = false) (hfinal : pool.isFinal sup = true)
    (hle : pool.isSubtype sub sup = true) : sub = sup :=
  eq_of_isSubtype_unlisted (fun hlists => (h.sup hlists).2) h.object.2.1 hsub hsup hfinal hle

/-- A permitted subtype is a subtype. -/
theorem isSubtype_of_permitted (h : pool.Layered) (hsub : sub ∈ pool.permittedSubtypes sup) :
    pool.isError sub = false ∧ pool.isSubtype sub sup = true := by
  refine h.linked.isSubtype_of_permitted ?_ hsub
  by_contra hsup
  have hfinal := h.primitive (Bool.eq_true_of_not_eq_false hsup)
  rw [(h.sup (h.permitted.1 hsub).2).2] at hfinal
  cases hfinal

end Layered

end GuardedMatch.Pool
