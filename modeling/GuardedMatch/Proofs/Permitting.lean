import GuardedMatch.Proofs.Casting

/-!
# What sealed types permit

A declaration adds the new type to the lists of those that it extends, while subtyping searches
upward from the new type.  If everything that is extended is there already, the two views agree:
a sealed type permits exactly the types that were declared to extend it, and whatever else is below
it is below one of these.

* `Pool.MadeBy`: pools with the declarations that made them.
* `Declaration.mentions`: the declarations that mention a type, one entry for each mention.
* `Pool.isSubtype_sealed_iff`: subtypes of sealed types, and what these permit.
-/

namespace GuardedMatch

/-! ## Declarations as data -/

/-- A declaration, with all that it is given. -/
inductive Declaration
  | ofClass (name : String) (supertypes : List Ty) (bits : Nat)
  | ofInterface (name : String) (supertypes : List Ty) (isSealed : Bool)
  | ofRecord (name : String) (components : List Component) (interfaces : List Ty)

namespace Declaration

/-- The types that a declaration mentions as supertypes. -/
def supertypes : Declaration → List Ty
  | ofClass _ supertypes _ | ofInterface _ supertypes _ | ofRecord _ _ supertypes => supertypes

def addTo (pool : Pool) : Declaration → Pool
  | ofClass name supertypes bits => (pool.declareClass name supertypes bits).2
  | ofInterface name supertypes isSealed => (pool.declareInterface name supertypes isSealed).2
  | ofRecord name components interfaces => (pool.declareRecord name components interfaces).2

/-- The declared types, in order, each as often as its declaration mentions a type. -/
def mentions (history : List Declaration) (ty : Ty) : List Ty :=
  (history.zipIdx Ty.firstDeclared).flatMap fun entry =>
    List.replicate (entry.1.supertypes.count ty) ⟨entry.2⟩

theorem mentions_concat (history : List Declaration) (declaration : Declaration) (ty : Ty) :
    mentions (history ++ [declaration]) ty = mentions history ty ++
      List.replicate (declaration.supertypes.count ty) ⟨Ty.firstDeclared + history.length⟩ := by
  simp [mentions, List.zipIdx_append]

/-- The entry that a declaration makes. -/
theorem exists_entry (declaration : Declaration) (pool : Pool) : ∃ entry,
    declaration.addTo pool = (pool.declare entry).2 ∧ Pool.Declarable entry ∧
      entry.supertypes =
        if declaration.supertypes.isEmpty then [Ty.object] else declaration.supertypes := by
  cases declaration with
  | ofClass | ofInterface =>
    exact ⟨_, rfl, ⟨rfl, rfl, rfl, by simp [TypeEntry.extending, TypeEntry.simple],
      by simp [TypeEntry.extending, TypeEntry.simple]⟩, rfl⟩
  | ofRecord => exact ⟨_, rfl, ⟨rfl, rfl, rfl, fun _ => rfl, fun _ => rfl⟩, rfl⟩

end Declaration

namespace Pool

variable {pool : Pool} {history : List Declaration}

/-- A pool and the declarations that made it, each of which mentions only types of references that
are in the pool already. -/
inductive MadeBy : Pool → List Declaration → Prop
  | builtin : MadeBy Pool.builtin []
  | declare {pool : Pool} {history : List Declaration} (declaration : Declaration)
      (h : MadeBy pool history) (hsup : ∀ ty ∈ declaration.supertypes, pool.IsReference ty) :
      MadeBy (declaration.addTo pool) (history ++ [declaration])

namespace MadeBy

theorem declared (h : pool.MadeBy history) : pool.Declared IsReference := by
  induction h with
  | builtin => exact .builtin
  | declare declaration _ hsup ih =>
    cases declaration with
    | ofClass name _ bits => exact .declareClass name bits ih hsup
    | ofInterface name _ isSealed => exact .declareInterface name isSealed ih hsup
    | ofRecord name components _ => exact .declareRecord name components ih hsup

theorem size_eq (h : pool.MadeBy history) : pool.size = Ty.firstDeclared + history.length := by
  induction h with
  | builtin => rfl
  | declare declaration _ _ ih =>
    obtain ⟨entry, hadd, _⟩ := declaration.exists_entry _
    rw [hadd, size_declare, ih, List.length_append, List.length_singleton, Nat.add_assoc]

/-- What comes later is mentioned nowhere. -/
theorem mentions_eq_nil (h : pool.MadeBy history) {ty : Ty} (hty : pool.size ≤ ty.index) :
    Declaration.mentions history ty = [] := by
  induction h with
  | builtin => rfl
  | @declare pool history declaration h hsup ih =>
    obtain ⟨entry, hadd, _⟩ := declaration.exists_entry pool
    rw [hadd, size_declare] at hty
    have hnot : ty ∉ declaration.supertypes := by
      intro hmem
      have hlt := lt_size_of_not_error (hsup ty hmem).error
      omega
    rw [Declaration.mentions_concat, ih (by omega), List.count_eq_zero.2 hnot]
    rfl

end MadeBy

/-! ## Sealed types -/

/-- Sealed types are declared, so they are neither errors nor primitive. -/
theorem Declared.isReference_of_sealed {allowed : Pool → Ty → Prop} (h : Declared allowed pool)
    {ty : Ty} (hsealed : pool.isSealed ty = true) : pool.IsReference ty := by
  refine h.induction (motive := fun pool => ∀ ty, pool.isSealed ty = true → pool.IsReference ty)
    ?_ ?_ ty hsealed
  · intro ty hsealed
    rw [isSealed_builtin] at hsealed
    cases hsealed
  · intro pool entry ih hentry _ ty hsealed
    rw [isSealed, flags_declare] at hsealed
    by_cases hnew : ty.index = pool.size
    · constructor
      · rw [isError, flags_declare, if_pos hnew, hentry.error]
      · rw [isPrimitive, flags_declare, if_pos hnew, hentry.primitive]
    · rw [if_neg hnew] at hsealed
      constructor
      · rw [isError, flags_declare, if_neg hnew]
        exact (ih ty hsealed).error
      · rw [isPrimitive, flags_declare, if_neg hnew]
        exact (ih ty hsealed).primitive

theorem Declared.linked (h : pool.Declared IsReference) : pool.Linked := by
  -- `Object`, which is listed where nothing is mentioned, is no error in any pool.
  refine (h.induction (motive := fun pool => pool.Linked ∧ pool.isError Ty.object = false)
    ⟨layered_builtin.linked, by decide⟩ ?_).1
  rintro pool entry ⟨ih, hobject⟩ hentry hsup
  refine ⟨ih.declare hentry fun ty hty => ?_, ?_⟩
  · rcases hsup ty hty with rfl | hty
    · exact hobject
    · exact hty.error
  · rw [isError, flags_declare, if_neg (lt_size_of_not_error hobject).ne]
    exact hobject

/-- A sealed type permits what was declared to extend it, once for each mention. -/
theorem MadeBy.permittedSubtypes_eq (h : pool.MadeBy history) {ty : Ty}
    (hsealed : pool.isSealed ty = true) :
    pool.permittedSubtypes ty = Declaration.mentions history ty := by
  induction h with
  | builtin =>
    rw [isSealed_builtin] at hsealed
    cases hsealed
  | @declare pool history declaration h hsup ih =>
    have hall := MadeBy.declare declaration h hsup
    have hne : ty ≠ Ty.object := by
      rintro rfl
      rw [hall.declared.not_isSealed_object] at hsealed
      cases hsealed
    obtain ⟨entry, hadd, hentry, hlist⟩ := declaration.exists_entry pool
    rw [hadd, isSealed, flags_declare] at hsealed
    rw [hadd, permittedSubtypes_declare, Declaration.mentions_concat, ← h.size_eq]
    by_cases hnew : ty.index = pool.size
    · have hnot : ty ∉ declaration.supertypes := fun hmem =>
        (lt_size_of_not_error (hsup ty hmem).error).ne hnew
      rw [if_pos hnew, hentry.subtypes, h.mentions_eq_nil hnew.ge, List.count_eq_zero.2 hnot]
      simp
    · -- Nothing mentioned means that `Object` is listed, which is not sealed.
      have hcount : entry.supertypes.count ty = declaration.supertypes.count ty := by
        rw [hlist]
        split
        next hempty => simp [List.isEmpty_iff.1 hempty, hne.symm]
        next => rfl
      rw [if_neg hnew] at hsealed
      rw [if_neg hnew, ih hsealed, isSealed, hsealed, if_pos rfl, hcount]

/-- **Sealed hierarchies are closed.**  If declarations mention only types of references that are in
the pool already, a type other than a sealed one is below it just if it is below one of those that
the sealed type permits.  These are the types declared to extend it, in the order of their
declarations and once for each mention. -/
theorem isSubtype_sealed_iff (h : pool.MadeBy history) {sup : Ty}
    (hsealed : pool.isSealed sup = true) :
    (∀ sub, pool.isError sub = false → sub ≠ sup →
      (pool.isSubtype sub sup = true ↔
        ∃ mid ∈ pool.permittedSubtypes sup, pool.isSubtype sub mid = true)) ∧
    pool.permittedSubtypes sup = Declaration.mentions history sup := by
  have hlinked := h.declared.linked
  have hsup := h.declared.isReference_of_sealed hsealed
  refine ⟨fun sub hsub hne => ⟨?_, ?_⟩, h.permittedSubtypes_eq hsealed⟩
  · exact hlinked.exists_permitted h.declared.not_isSealed_object hsub hsup.error hsealed hne
  · rintro ⟨mid, hmid, hle⟩
    obtain ⟨herror, hbelow⟩ := hlinked.isSubtype_of_permitted hsup.primitive hmid
    exact isSubtype_trans_of_object h.declared.supertypes_object hsub herror hsup.error hle hbelow

/-- A sealed interface, one below it, a record that extends both and mentions the first one twice,
and a class of the first one's name below the record. -/
def diamond : List Declaration :=
  [.ofInterface "Shape" [] true, .ofInterface "Round" [⟨32⟩] true,
    .ofRecord "Disc" [] [⟨32⟩, ⟨33⟩, ⟨32⟩], .ofClass "Shape" [⟨34⟩] 0]

theorem isSubtype_sealed_iff_diamond :
    let pool := diamond.foldl (fun pool declaration => declaration.addTo pool) Pool.builtin
    pool.isSealed ⟨32⟩ = true ∧ pool.permittedSubtypes ⟨32⟩ = [⟨33⟩, ⟨34⟩, ⟨34⟩] ∧
      pool.isSubtype ⟨35⟩ ⟨32⟩ = true := by
  intro pool
  have h : pool.MadeBy diamond := by
    refine MadeBy.declare (.ofClass "Shape" [⟨34⟩] 0) (.declare (.ofRecord "Disc" [] _)
      (.declare (.ofInterface "Round" [⟨32⟩] true) (.declare (.ofInterface "Shape" [] true)
        .builtin ?_) ?_) ?_) ?_
    · exact List.forall_mem_nil _
    · exact List.forall_mem_singleton.2 ⟨by decide, by decide⟩
    · exact List.forall_mem_cons.2 ⟨⟨by decide, by decide⟩, List.forall_mem_cons.2
        ⟨⟨by decide, by decide⟩, List.forall_mem_singleton.2 ⟨by decide, by decide⟩⟩⟩
    · exact List.forall_mem_singleton.2 ⟨by decide, by decide⟩
  have hsealed : pool.isSealed ⟨32⟩ = true := by decide
  obtain ⟨hiff, hpermitted⟩ := isSubtype_sealed_iff h hsealed
  refine ⟨hsealed, hpermitted, (hiff ⟨35⟩ (by decide) (by decide)).2 ⟨⟨34⟩, ?_, by decide⟩⟩
  rw [hpermitted]
  decide

end Pool

end GuardedMatch
