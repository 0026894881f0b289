import GuardedMatch.Proofs.Climbing
import GuardedMatch.Proofs.Resolving

/-!
# Types that meet

Two reference types meet in a type below both.  In a hierarchy of classes and interfaces, where a
class extends one class and final types are not extended, two classes that meet are on one line, and
a final type meets only what is above it.  Two interfaces may always meet, and so may an interface
and a class that can still be extended.

That leaves an interface and a sealed class.  A class that the sealed class permits may implement
the interface, so they may meet, but the sealed class itself need not implement it.  Then
castability denies that a value of one may be a value of the other, and a pattern that could match
is reported.

* `Pool.Orderly`: hierarchies of classes and interfaces.
* `Pool.Orderly.comparable`: classes that meet are on one line.
* `isCastable_iff_of_meets`: which types that meet are castable, and what is reported.
-/

namespace GuardedMatch

namespace Pool

variable {pool : Pool} {allowed : Pool → Ty → Prop}

theorem Declared.not_isSealed_object (h : Declared allowed pool) :
    pool.isSealed Ty.object = false := by
  rw [isSealed, h.flags_builtin (by decide)]
  decide

/-! ## Classes and interfaces -/

/-- Every supertype is already there and is not final, interfaces list interfaces or `Object`, and a
type lists no two supertypes that are not interfaces. -/
structure Orderly (pool : Pool) : Prop where
  declared : pool.Declared fun pool ty => ty.index < pool.size ∧ pool.isFinal ty = false
  interfaces : ∀ {sub sup}, pool.Lists sub sup → pool.isInterface sub = true →
    pool.isInterface sup = true ∨ sup = Ty.object
  classes : ∀ {sub one two}, pool.Lists sub one → pool.Lists sub two →
    pool.isInterface one = false → pool.isInterface two = false → one = two

/-- A type lists a supertype that is not an interface. -/
def Extends (pool : Pool) (sub sup : Ty) : Prop :=
  pool.Lists sub sup ∧ pool.isInterface sup = false

/-- Some type that is no error is below both types. -/
def Meets (pool : Pool) (one two : Ty) : Prop :=
  ∃ common, pool.isError common = false ∧ pool.isSubtype common one = true ∧
    pool.isSubtype common two = true

/-- An interface, and a sealed class that does not implement it. -/
def Barred (pool : Pool) (iface cls : Ty) : Prop :=
  pool.isInterface iface = true ∧ pool.isInterface cls = false ∧ pool.isSealed cls = true ∧
    pool.isSubtype cls iface = false

/-- A type of references: neither an error nor primitive. -/
structure IsReference (pool : Pool) (ty : Ty) : Prop where
  error : pool.isError ty = false
  primitive : pool.isPrimitive ty = false

theorem IsReference.isSubtype_object {ty : Ty} (h : pool.IsReference ty)
    (hobject : pool.IsReference Ty.object) : pool.isSubtype ty Ty.object = true :=
  (isSubtype_iff h.error hobject.error).2 (Or.inr ⟨h.primitive, hobject.primitive, Or.inl rfl⟩)

theorem IsReference.isSubtype_of_path {sub sup : Ty} (hsub : pool.IsReference sub)
    (hsup : pool.IsReference sup) (hpath : Relation.ReflTransGen pool.Lists sub sup) :
    pool.isSubtype sub sup = true := by
  rw [isSubtype_iff hsub.error hsup.error]
  rcases Relation.reflTransGen_iff_eq_or_transGen.1 hpath with heq | hpath
  · exact Or.inl heq.symm
  · exact Or.inr ⟨hsub.primitive, hsup.primitive, Or.inr hpath⟩

theorem path_of_isSubtype {sub sup : Ty} (hsub : pool.isError sub = false)
    (hsup : pool.isError sup = false) (hne : sup ≠ Ty.object)
    (hle : pool.isSubtype sub sup = true) : Relation.ReflTransGen pool.Lists sub sup := by
  rcases (isSubtype_iff hsub hsup).1 hle with rfl | ⟨_, _, heq | hpath⟩
  · exact .refl
  · exact absurd heq hne
  · exact hpath.to_reflTransGen

namespace Orderly

theorem not_isFinal_object (h : pool.Orderly) : pool.isFinal Ty.object = false := by
  rw [isFinal, h.declared.flags_builtin (by decide)]
  decide

/-- A final type is listed nowhere. -/
theorem not_isFinal_of_lists (h : pool.Orderly) {sub sup : Ty} (hlists : pool.Lists sub sup) :
    pool.isFinal sup = false := by
  have hall : pool.flags Ty.object = Pool.builtin.flags Ty.object ∧ ∀ sub sup,
      pool.Lists sub sup → sup.index < pool.size ∧ pool.isFinal sup = false := by
    refine h.declared.induction_behind (motive := fun pool =>
      pool.flags Ty.object = Pool.builtin.flags Ty.object ∧ ∀ sub sup,
        pool.Lists sub sup → sup.index < pool.size ∧ pool.isFinal sup = false) ⟨rfl, ?_⟩ ?_
    · intro sub sup hlists
      have hboth := layered_builtin.sup hlists
      exact ⟨lt_size_of_not_error hboth.1, hboth.2⟩
    · intro pool entry hsize ih _ hsup
      have hobject : Ty.object.index < pool.size := lt_of_lt_of_le (by decide) hsize
      refine ⟨by rw [flags_declare, if_neg hobject.ne, ih.1], fun sub sup hlists => ?_⟩
      -- What is listed was there before, and keeps its flags.
      have hold : sup.index < pool.size ∧ pool.isFinal sup = false := by
        rw [Lists, supertypes_declare] at hlists
        by_cases hnew : sub.index = pool.size
        · rw [if_pos hnew] at hlists
          rcases hsup sup hlists with rfl | hsup
          · refine ⟨hobject, ?_⟩
            rw [isFinal, ih.1]
            decide
          · exact hsup
        · rw [if_neg hnew] at hlists
          exact ih.2 sub sup hlists
      rw [isFinal, flags_declare, if_neg hold.1.ne, size_declare]
      exact ⟨Nat.lt_succ_of_lt hold.1, hold.2⟩
  exact (hall.2 sub sup hlists).2

theorem eq_of_isSubtype_final (h : pool.Orderly) {sub sup : Ty} (hsub : pool.isError sub = false)
    (hsup : pool.isError sup = false) (hfinal : pool.isFinal sup = true)
    (hle : pool.isSubtype sub sup = true) : sub = sup :=
  eq_of_isSubtype_unlisted h.not_isFinal_of_lists h.not_isFinal_object hsub hsup hfinal hle

/-- A path to a class other than `Object` leads through classes only. -/
theorem extends_of_path (h : pool.Orderly) {sub sup : Ty} (hclass : pool.isInterface sup = false)
    (hne : sup ≠ Ty.object) (hpath : Relation.ReflTransGen pool.Lists sub sup) :
    pool.isInterface sub = false ∧ sub ≠ Ty.object ∧
      Relation.ReflTransGen pool.Extends sub sup := by
  induction hpath using Relation.ReflTransGen.head_induction_on with
  | refl => exact ⟨hclass, hne, .refl⟩
  | head hlists _ ih =>
    obtain ⟨hmid, hobject, hextends⟩ := ih
    refine ⟨?_, ?_, .head ⟨hlists, hmid⟩ hextends⟩
    · rw [← Bool.not_eq_true]
      intro hinterface
      rcases h.interfaces hlists hinterface with hmid' | heq
      · rw [hmid] at hmid'
        cases hmid'
      · exact hobject heq
    · rintro rfl
      rw [Lists, h.declared.supertypes_object] at hlists
      cases hlists

theorem lists_of_extends {sub sup : Ty} (hpath : Relation.ReflTransGen pool.Extends sub sup) :
    Relation.ReflTransGen pool.Lists sub sup := by
  have hle : pool.Extends ≤ pool.Lists := fun _ _ hextends => hextends.1
  exact Relation.ReflTransGen.mono hle _ _ hpath

/-- A class above an interface is `Object`. -/
theorem eq_object_of_isSubtype (h : pool.Orderly) {iface cls : Ty}
    (hiface : pool.isInterface iface = true) (hcls : pool.isInterface cls = false)
    (hifaceError : pool.isError iface = false) (hclsError : pool.isError cls = false)
    (hle : pool.isSubtype iface cls = true) : cls = Ty.object := by
  by_contra hne
  have hpath := path_of_isSubtype hifaceError hclsError hne hle
  have hclass := (h.extends_of_path hcls hne hpath).1
  rw [hiface] at hclass
  cases hclass

/-- **Classes that meet are on one line.** -/
theorem comparable (h : pool.Orderly) {one two : Ty} (hone : pool.IsReference one)
    (htwo : pool.IsReference two) (honeClass : pool.isInterface one = false)
    (htwoClass : pool.isInterface two = false) (hmeets : pool.Meets one two) :
    pool.isSubtype one two = true ∨ pool.isSubtype two one = true := by
  by_cases honeObject : one = Ty.object
  · subst honeObject
    exact Or.inr (htwo.isSubtype_object hone)
  by_cases htwoObject : two = Ty.object
  · subst htwoObject
    exact Or.inl (hone.isSubtype_object htwo)
  obtain ⟨common, hcommon, hleft, hright⟩ := hmeets
  have hleft := path_of_isSubtype hcommon hone.error honeObject hleft
  have hright := path_of_isSubtype hcommon htwo.error htwoObject hright
  have hunique : Relator.RightUnique pool.Extends := by
    intro sub sup sup' hsup hsup'
    exact h.classes hsup.1 hsup'.1 hsup.2 hsup'.2
  rcases Relation.ReflTransGen.total_of_right_unique hunique
    (h.extends_of_path honeClass honeObject hleft).2.2
    (h.extends_of_path htwoClass htwoObject hright).2.2 with hpath | hpath
  · exact Or.inl (hone.isSubtype_of_path htwo (lists_of_extends hpath))
  · exact Or.inr (htwo.isSubtype_of_path hone (lists_of_extends hpath))

end Orderly

/-! ## Castability -/

/-- Castability of references, with each reason for it. -/
theorem isCastable_eq_true_iff {source target : Ty} (hsource : pool.IsReference source)
    (htarget : pool.IsReference target) :
    pool.isCastable source target = true ↔
      pool.isSubtype source target = true ∨ pool.isSubtype target source = true ∨
        pool.isOpenTo source target = true ∨ pool.isOpenTo target source = true ∨
        pool.isInterface source = true ∧ pool.isInterface target = true := by
  rw [isCastable, hsource.error, htarget.error, hsource.primitive, htarget.primitive]
  by_cases heq : source = target
  · subst heq
    simp [isSubtype_refl]
  · simp [heq, or_assoc]

theorem isOpenTo_eq_true_iff {iface other : Ty} : pool.isOpenTo iface other = true ↔
    pool.isInterface iface = true ∧ pool.isFinal other = false ∧ pool.isSealed other = false := by
  simp [isOpenTo, and_assoc]

theorem Meets.symm {one two : Ty} (h : pool.Meets one two) : pool.Meets two one := by
  obtain ⟨common, hcommon, hleft, hright⟩ := h
  exact ⟨common, hcommon, hright, hleft⟩

namespace Orderly

variable {source target iface cls : Ty}

/-- A sealed class and an interface it does not implement are not castable. -/
theorem not_castable_of_barred (h : pool.Orderly) (hiface : pool.IsReference iface)
    (hcls : pool.IsReference cls) (hbarred : pool.Barred iface cls) :
    ¬ (pool.isSubtype iface cls = true ∨ pool.isSubtype cls iface = true ∨
        pool.isOpenTo iface cls = true ∨ pool.isOpenTo cls iface = true ∨
        pool.isInterface iface = true ∧ pool.isInterface cls = true) := by
  obtain ⟨hinterface, hclass, hsealed, hbelow⟩ := hbarred
  rw [isOpenTo_eq_true_iff, isOpenTo_eq_true_iff, hbelow, hclass, hsealed]
  rintro (habove | hfalse | ⟨_, _, hfalse⟩ | ⟨hfalse, _⟩ | ⟨_, hfalse⟩)
  · have heq := h.eq_object_of_isSubtype hinterface hclass hiface.error hcls.error habove
    rw [heq, h.declared.not_isSealed_object] at hsealed
    cases hsealed
  all_goals cases hfalse

/-- An interface and a class that meet are castable, unless the class is sealed. -/
theorem related_of_not_barred (h : pool.Orderly) (hcls : pool.IsReference cls)
    (hinterface : pool.isInterface iface = true) (hclass : pool.isInterface cls = false)
    (hmeets : pool.Meets iface cls) (hbarred : ¬ pool.Barred iface cls) :
    pool.isSubtype cls iface = true ∨ pool.isOpenTo iface cls = true := by
  by_cases hbelow : pool.isSubtype cls iface = true
  · exact Or.inl hbelow
  rw [Bool.not_eq_true] at hbelow
  right
  rw [isOpenTo_eq_true_iff]
  refine ⟨hinterface, ?_, ?_⟩
  · -- What is below both would be the final class itself.
    rw [← Bool.not_eq_true]
    intro hfinal
    obtain ⟨common, hcommon, hleft, hright⟩ := hmeets
    obtain rfl := h.eq_of_isSubtype_final hcommon hcls.error hfinal hright
    rw [hbelow] at hleft
    cases hleft
  · rw [← Bool.not_eq_true]
    intro hsealed
    exact hbarred ⟨hinterface, hclass, hsealed, hbelow⟩

theorem isCastable_iff (h : pool.Orderly) (hsource : pool.IsReference source)
    (htarget : pool.IsReference target) (hmeets : pool.Meets source target) :
    pool.isCastable source target = true ↔
      ¬ (pool.Barred source target ∨ pool.Barred target source) := by
  rw [isCastable_eq_true_iff hsource htarget]
  constructor
  · rintro hcastable (hbarred | hbarred)
    · exact h.not_castable_of_barred hsource htarget hbarred hcastable
    · refine h.not_castable_of_barred htarget hsource hbarred ?_
      tauto
  · intro hbarred
    rw [not_or] at hbarred
    cases hsourceKind : pool.isInterface source with
    | true =>
      cases htargetKind : pool.isInterface target with
      | true => simp
      | false =>
        have hrelated := h.related_of_not_barred htarget hsourceKind htargetKind hmeets hbarred.1
        tauto
    | false =>
      cases htargetKind : pool.isInterface target with
      | true =>
        have hrelated := h.related_of_not_barred hsource htargetKind hsourceKind hmeets.symm
          hbarred.2
        tauto
      | false =>
        have hrelated := h.comparable hsource htarget hsourceKind htargetKind hmeets
        tauto

end Orderly

end Pool

/-! ## What is reported -/

namespace Resolver

variable {pool : Pool}

/-- What there is to report of a pattern of a type that is tested against another. -/
def mismatch (pool : Pool) (span : Span) (expected ty : Ty) : List Diagnostic :=
  if compatible pool expected ty then []
  else [Diagnostic.incompatiblePattern span (pool.display expected) (pool.display ty)]

/-- A type pattern that names a known type reports at most that the types are not compatible. -/
theorem typePattern_offers {written : TypeRef} {name : String} {expected ty : Ty}
    (hname : written.name = some name) (hlookup : pool.lookup name = some ty)
    (binds : Option LocalId) (span : Span) (state : Resolver) :
    Ensures (typePattern pool written binds span expected) state (fun _ => False)
      fun answer after => answer = ty ∧
        after.queue = state.queue.addAll (mismatch pool span expected ty) := by
  have hexpect : Ensures (expectCompatible pool span expected ty) state (fun _ => False)
      fun _ after => after.queue = state.queue.addAll (mismatch pool span expected ty) := by
    rw [expectCompatible, mismatch]
    cases compatible pool expected ty with
    | true => exact Ensures.pure rfl
    | false => exact Ensures.modifies rfl
  rw [typePattern, hname]
  dsimp only
  rw [namedType, hlookup]
  refine Ensures.bind (Ensures.pure (hexpect.seq fun _ mid hmid => ?_))
  cases binds with
  | none => exact Ensures.bind (Ensures.pure (Ensures.pure ⟨rfl, hmid⟩))
  | some id => exact Ensures.modify_bind (Ensures.pure ⟨rfl, hmid⟩)

end Resolver

theorem Forest.resolvePattern_offers {forest : Forest} {pool : Pool} {id : PatternId}
    {written : TypeRef} {binds : Option LocalId} {span : Span} {name : String} {ty : Ty}
    (hnode : forest.pattern id = .type id written binds span) (hname : written.name = some name)
    (hlookup : pool.lookup name = some ty) (table : Resolution) (expected : Ty) (scope : Scope) :
    ∃ resolved, forest.resolvePattern pool table id expected scope = .ok resolved ∧
      resolved.ty = ty ∧ resolved.offered = Resolver.mismatch pool span expected ty := by
  have hensures : Ensures ((forest.pattern id).resolve pool forest.locals expected scope)
      ⟨table, .new .unlimited⟩ (fun _ => False) fun answer after => answer = ty ∧
        after.queue.diagnostics = Resolver.mismatch pool span expected ty := by
    rw [hnode, Pattern.resolve]
    refine (Resolver.typePattern_offers hname hlookup binds span _).seq ?_
    rintro answer mid ⟨rfl, hqueue⟩
    refine Ensures.modify_bind (Ensures.pure ⟨rfl, ?_⟩)
    rw [hqueue]
    exact Queue.diagnostics_addAll rfl _
  obtain ⟨answer, after, hrun, hanswer, hoffered⟩ := hensures.exists_ok fun _ h => h
  refine ⟨⟨answer, after.table, after.queue.diagnostics⟩, ?_, hanswer, hoffered⟩
  rw [Forest.resolvePattern, Resolution.run, hrun]

/-- **Which types that meet are castable.**  If some type is below both, a value of one may be a
value of the other.  Castability denies this exactly for an interface and a sealed class that does
not implement it, and exactly then a pattern of one type that is tested against the other is
reported as not compatible. -/
theorem isCastable_iff_of_meets {pool : Pool} (h : pool.Orderly) {source target : Ty}
    (hsource : pool.IsReference source) (htarget : pool.IsReference target)
    (hmeets : pool.Meets source target) :
    (pool.isCastable source target = true ↔
      ¬ (pool.Barred source target ∨ pool.Barred target source)) ∧
    ∀ (forest : Forest) (table : Resolution) (scope : Scope) (id : PatternId) (written : TypeRef)
      (binds : Option LocalId) (span : Span) (name : String),
      forest.pattern id = .type id written binds span → written.name = some name →
      pool.lookup name = some target →
      ∃ resolved, forest.resolvePattern pool table id source scope = .ok resolved ∧
        resolved.ty = target ∧
        ((∃ diagnostic ∈ resolved.offered, diagnostic.code = .incompatiblePattern) ↔
          pool.Barred source target ∨ pool.Barred target source) := by
  have hcastable := h.isCastable_iff hsource htarget hmeets
  refine ⟨hcastable, ?_⟩
  intro forest table scope id written binds span name hnode hname hlookup
  obtain ⟨resolved, hrun, hty, hoffered⟩ :=
    Forest.resolvePattern_offers hnode hname hlookup table source scope
  refine ⟨resolved, hrun, hty, ?_⟩
  have hcompatible : Resolver.compatible pool source target = pool.isCastable source target := by
    simp [Resolver.compatible, hsource.error, htarget.error]
  rw [hoffered, Resolver.mismatch, hcompatible]
  cases hcast : pool.isCastable source target with
  | true =>
    have hnone : ¬ (pool.Barred source target ∨ pool.Barred target source) := hcastable.1 hcast
    simp [hnone]
  | false =>
    have hbarred : pool.Barred source target ∨ pool.Barred target source := by
      by_contra hnone
      rw [hcastable.2 hnone] at hcast
      cases hcast
    refine ⟨fun _ => hbarred, fun _ => ⟨_, List.mem_singleton_self _, rfl⟩⟩

/-! ## A tiger -/

/-- `class Animal`, `sealed class Cat extends Animal`, `interface Striped` and
`class Tiger extends Cat implements Striped`. -/
def Pool.animals : Pool :=
  let (animal, pool) := Pool.builtin.declareClass "Animal" [] 0
  let (cat, pool) := pool.declareClass "Cat" [animal] 8
  let (striped, pool) := pool.declareInterface "Striped" [] false
  (pool.declareClass "Tiger" [cat, striped] 0).2

theorem Pool.orderly_animals : Pool.animals.Orderly where
  declared := by
    refine .declareClass "Tiger" 0 (.declareInterface "Striped" false (.declareClass "Cat" 8
      (.declareClass "Animal" 0 .builtin ?_) ?_) ?_) ?_ <;> decide
  interfaces {sub sup} := by
    have hall : ∀ sub, ∀ sup ∈ animals.supertypes sub, animals.isInterface sub = true →
        animals.isInterface sup = true ∨ sup = Ty.object := by
      refine forall_of_size animals ?_ ?_
      · decide
      · intro ty hty
        simp [supertypes, hty]
    exact hall sub sup
  classes {sub one two} := by
    have hall : ∀ sub, ∀ one ∈ animals.supertypes sub, ∀ two ∈ animals.supertypes sub,
        animals.isInterface one = false → animals.isInterface two = false → one = two := by
      refine forall_of_size animals ?_ ?_
      · decide
      · intro ty hty
        simp [supertypes, hty]
    exact fun hone htwo => hall sub one hone two htwo

/-- A tiger is a striped animal, so an animal may turn out to be striped. -/
theorem isCastable_of_tiger :
    Pool.animals.Orderly ∧ Pool.animals.Meets ⟨32⟩ ⟨34⟩ ∧
      Pool.animals.isCastable ⟨32⟩ ⟨34⟩ = true := by
  have hmeets : Pool.animals.Meets ⟨32⟩ ⟨34⟩ := ⟨⟨35⟩, by decide, by decide, by decide⟩
  refine ⟨Pool.orderly_animals, hmeets, ?_⟩
  rw [(isCastable_iff_of_meets Pool.orderly_animals ⟨by decide, by decide⟩ ⟨by decide, by decide⟩
    hmeets).1]
  rintro (⟨hinterface, -⟩ | ⟨-, -, hsealed, -⟩)
  · exact absurd hinterface (by decide)
  · exact absurd hsealed (by decide)

/-- A tiger is a striped cat, but `Cat c` is reported where something striped is tested. -/
theorem striped_cat_denied :
    Pool.animals.Orderly ∧ Pool.animals.IsReference ⟨34⟩ ∧ Pool.animals.IsReference ⟨33⟩ ∧
      Pool.animals.isError ⟨35⟩ = false ∧ Pool.animals.isSubtype ⟨35⟩ ⟨34⟩ = true ∧
      Pool.animals.isSubtype ⟨35⟩ ⟨33⟩ = true ∧ Pool.animals.isCastable ⟨34⟩ ⟨33⟩ = false ∧
      ((Arena.empty.addTypePattern ⟨some "Cat", Span.none⟩ none).forest.resolvePattern Pool.animals
        .empty 0 ⟨34⟩ .empty).toOption.map (fun resolved => resolved.offered.map (·.code)) =
          some [.incompatiblePattern] := by
  refine ⟨Pool.orderly_animals, ⟨by decide, by decide⟩, ⟨by decide, by decide⟩, by decide,
    by decide, by decide, by decide, by decide +kernel⟩

end GuardedMatch
