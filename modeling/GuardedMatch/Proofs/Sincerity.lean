import GuardedMatch.Proofs.Hierarchy
import GuardedMatch.Proofs.Typing
import GuardedMatch.Proofs.Wording

/-!
# The first report is no follow-on

As long as a resolution has reported nothing, everything that it has found out is free of errors:
the types that it has noted for patterns and locals, and the types that it answers.  So the first
report names no error type.  A local has a type by the time when it becomes visible, since the
pattern that binds it was resolved to the end, now or before.

* `Pool.Declared.proper`: a name never means an error type, and the names of other types are plain.
* `Pattern.resolve_honest`, `Expr.resolve_honest`: a resolution that started without errors has told
  of a mistake, or is without errors still.
-/

namespace GuardedMatch

/-! ## Proper types -/

namespace Pool

/-- A type that is no error. -/
abbrev Valid (pool : Pool) (ty : Ty) : Prop := pool.isError ty = false

/-- What can be named is no error, and what is no error can be named in a message. -/
structure Proper (pool : Pool) : Prop where
  builtin : ∀ ty ∈ [Ty.boolean, Ty.int, Ty.long, Ty.double], pool.Valid ty
  lookup : ∀ name ty, pool.lookup name = some ty → pool.Valid ty
  name : ∀ ty, pool.Valid ty → Plain (pool.name ty)
  components : ∀ ty, ∀ part ∈ pool.components ty, pool.Valid part.ty

theorem Proper.display {pool : Pool} (h : pool.Proper) {ty : Ty} (hty : pool.Valid ty) :
    Plain (pool.display ty) := by
  rw [Pool.display, hty]
  exact h.name ty hty

variable {pool : Pool}

theorem name_declare (entry : TypeEntry) (ty : Ty) : (pool.declare entry).2.name ty =
    if ty.index = pool.size then entry.name else pool.name ty :=
  answer_declare entry ty TypeEntry.name _ fun _ _ => rfl

/-- The names in a pool mean types that are no errors, and such a type that has a name is listed
under it. -/
structure Listed (pool : Pool) : Prop where
  size : Ty.firstDeclared ≤ pool.size
  builtin : ∀ ty ∈ [Ty.boolean, Ty.int, Ty.long, Ty.double], pool.Valid ty
  names : ∀ entry ∈ pool.names, entry.2.index < pool.size ∧ pool.Valid entry.2
  named : ∀ ty, pool.Valid ty →
    pool.name ty = "" ∨ ∃ other, (pool.name ty, other) ∈ pool.names

theorem listed_builtin : Listed Pool.builtin where
  size := by decide
  builtin := by decide
  names := by decide
  named ty hty := by
    have hall : ∀ index < Pool.builtin.size, Pool.builtin.isError ⟨index⟩ = false →
        Pool.builtin.name ⟨index⟩ = "" ∨
          Pool.builtin.name ⟨index⟩ ∈ Pool.builtin.names.map (·.1) := by decide
    refine (hall ty.index (lt_size_of_not_error hty) hty).imp_right fun hmem => ?_
    obtain ⟨⟨name, other⟩, hentry, heq⟩ := List.mem_map.mp hmem
    exact ⟨other, heq ▸ hentry⟩

theorem Listed.declare (h : pool.Listed) {entry : TypeEntry} (hentry : Declarable entry) :
    (pool.declare entry).2.Listed := by
  have hsize := h.size
  have hold : ∀ ty : Ty, ty.index < pool.size → pool.Valid ty →
      (pool.declare entry).2.isError ty = false := by
    intro ty hlt hty
    rw [isError, flags_declare, if_neg (Nat.ne_of_lt hlt)]
    exact hty
  refine ⟨?_, fun ty hty => hold ty ?_ (h.builtin ty hty), fun name hname => ?_, fun ty hty => ?_⟩
  · rw [size_declare]
    omega
  · exact lt_size_of_not_error (h.builtin ty hty)
  · rw [size_declare]
    rcases List.mem_cons.mp hname with rfl | hmem
    · have hnew : (⟨pool.entries.size⟩ : Ty).index = pool.size := rfl
      refine ⟨Nat.lt_succ_self _, ?_⟩
      rw [Valid, isError, flags_declare, if_pos hnew]
      exact hentry.error
    · obtain ⟨hlt, hproper⟩ := h.names name hmem
      exact ⟨by omega, hold _ hlt hproper⟩
  · rw [name_declare]
    by_cases hnew : ty.index = pool.size
    · rw [if_pos hnew]
      exact .inr ⟨_, List.mem_cons_self⟩
    · rw [Valid, isError, flags_declare, if_neg hnew] at hty
      rw [if_neg hnew]
      exact (h.named ty hty).imp_right (Exists.imp fun _ => List.mem_cons_of_mem _)

theorem Declared.listed {allowed : Pool → Ty → Prop} (h : pool.Declared allowed) : pool.Listed :=
  h.induction listed_builtin fun _ _ ih hentry _ => ih.declare hentry

/-- **The types of a pool are proper** if its names are plain and no component is an error. -/
theorem Declared.proper {allowed : Pool → Ty → Prop} (h : pool.Declared allowed)
    (hnames : ∀ entry ∈ pool.names, Plain entry.1)
    (hcomponents : ∀ ty, ∀ part ∈ pool.componentTypes ty, pool.Valid part) :
    pool.Proper where
  builtin := h.listed.builtin
  lookup name ty hlookup := by
    rw [Pool.lookup, List.lookup_eq_some_iff] at hlookup
    obtain ⟨before, after, heq, -⟩ := hlookup
    exact (h.listed.names (name, ty) (heq ▸ by simp)).2
  name ty hty := by
    rcases h.listed.named ty hty with hempty | ⟨other, hmem⟩
    · rw [hempty]
      decide
    · exact hnames _ hmem
  components ty part hpart := hcomponents ty part.ty (List.mem_map_of_mem hpart)

end Pool

/-! ## States without errors -/

/-- The locals among the visits have types. -/
def Resolution.Bound (table : Resolution) (visits : List Visit) : Prop :=
  ∀ id, .binding id ∈ visits → id ∈ table.localTypes

theorem Resolution.Bound.append {table : Resolution} {visits visits' : List Visit}
    (h : table.Bound visits) (h' : table.Bound visits') : table.Bound (visits ++ visits') :=
  fun id hid => (List.mem_append.mp hid).elim (h id) (h' id)

/-- The types in the scope are no errors. -/
def Scope.Proper (pool : Pool) (scope : Scope) : Prop :=
  ∀ entry ∈ scope.entries, pool.Valid entry.ty

/-- The words at a visit are plain, and a call says what it answers. -/
def Visit.Worded : Visit → Prop
  | pattern (.type _ written _ _) | pattern (.record _ written _ _) =>
    ∀ name ∈ written.name, Plain name
  | expr (.ident _ name _) | expr (.field _ _ name _) => Plain name
  | expr (.call _ _ _ written _) => ∃ name, written.name = some name ∧ Plain name
  | _ => True

namespace Resolver

/-- There is a report that does not follow from an earlier mistake. -/
def Told (state : Resolver) : Prop :=
  ∃ diagnostic ∈ state.queue.diagnostics, diagnostic.isFollowOn = false

/-- Nothing has been reported, and what has been noted is free of errors.  A pattern that has a type
was resolved to the end, unless it is being resolved. -/
structure Fine (pool : Pool) (forest : Forest) (busy : List PatternId) (state : Resolver) :
    Prop where
  silent : state.queue.IsSilent
  patterns : ∀ (id : PatternId) ty, state.table.patternTypes[id]? = some ty →
    pool.Valid ty
  locals : ∀ (id : LocalId) ty, state.table.localTypes[id]? = some ty → pool.Valid ty
  settled : ∀ id ∈ state.table.patternTypes, id ∉ busy →
    state.table.Bound (forest.pattern id).visits

variable {pool : Pool} {forest : Forest} {busy : List PatternId}
variable {state : Resolver}

theorem Fine.hold (h : state.Fine pool forest busy) (id : PatternId) :
    state.Fine pool forest (id :: busy) :=
  ⟨h.silent, h.patterns, h.locals, fun other hother hbusy =>
    h.settled other hother fun hmem => hbusy (List.mem_cons_of_mem _ hmem)⟩

theorem Fine.release {id : PatternId} (h : state.Fine pool forest (id :: busy))
    (hid : state.table.Bound (forest.pattern id).visits) : state.Fine pool forest busy := by
  refine ⟨h.silent, h.patterns, h.locals, fun other hother hbusy => ?_⟩
  by_cases heq : other = id
  · rw [heq]
    exact hid
  · refine h.settled other hother fun hmem => ?_
    rcases List.mem_cons.mp hmem with hmem | hmem
    · exact heq hmem
    · exact hbusy hmem

theorem Steps.told {visits : List Visit} {reads : List Read} {after : Resolver}
    (h : Steps pool visits reads state after) (htold : state.Told) : after.Told := by
  induction h with
  | refl => exact htold
  | tail _ hstep ih =>
    cases hstep with
    | offer =>
      obtain ⟨diagnostic, hmem, hfirst⟩ := ih
      exact ⟨diagnostic, Queue.mem_add_of_mem hmem _, hfirst⟩
    | patternType | exprType | identLocal | other => exact ih

/-- An action that keeps a state free of errors or tells of a mistake.  What is known about its
arguments is `pre`; it finds the locals in `seen` with types and leaves those in `done` so. -/
structure Honest (pool : Pool) (forest : Forest) (busy : List PatternId) (pre : Prop)
    (seen : List Visit) {α : Type} (action : ResolveM α) (done : List Visit) (good : α → Prop) :
    Prop where
  told : ∀ state : Resolver, state.Told →
    Ensures action state (fun _ => True) fun _ after => after.Told
  fine : pre → ∀ state : Resolver, state.Fine pool forest busy → state.table.Bound seen →
    Ensures action state (fun _ => True) fun answer after => after.Told ∨
      after.Fine pool forest busy ∧ after.table.Bound (seen ++ done) ∧ good answer

namespace Honest

variable {pre pre' : Prop} {seen done done' : List Visit} {α β : Type} {good : α → Prop}
  {good' : β → Prop}
variable {action : ResolveM α} {next : α → ResolveM β} {ty : Ty}

theorem pure {answer : α} (h : pre → good answer) :
    Honest pool forest busy pre seen (Pure.pure answer) [] good where
  told _ htold := Ensures.pure htold
  fine hpre _ hfine hseen :=
    Ensures.pure (.inr ⟨hfine, (List.append_nil seen).symm ▸ hseen, h hpre⟩)

theorem throw (fault : Fault) :
    Honest pool forest busy pre seen (MonadExcept.throw fault) done good where
  told _ _ := Ensures.throw trivial
  fine _ _ _ _ := Ensures.throw trivial

theorem bind (h : Honest pool forest busy pre seen action done good)
    (hnext : ∀ answer, Honest pool forest busy (pre ∧ good answer) (seen ++ done) (next answer)
      done' good') :
    Honest pool forest busy pre seen (action >>= next) (done ++ done') good' where
  told state htold := (h.told state htold).seq fun answer mid hmid => (hnext answer).told mid hmid
  fine hpre state hfine hseen := by
    refine (h.fine hpre state hfine hseen).seq fun answer mid hmid => ?_
    rcases hmid with htold | ⟨hmid, hbound, hgood⟩
    · exact ((hnext answer).told mid htold).mono fun _ _ hafter => .inl hafter
    · rw [← List.append_assoc]
      exact (hnext answer).fine ⟨hpre, hgood⟩ mid hmid hbound

theorem after (h : Honest pool forest busy pre seen action [] good)
    (hnext : ∀ answer, Honest pool forest busy (pre ∧ good answer) seen (next answer) done good') :
    Honest pool forest busy pre seen (action >>= next) done good' :=
  bind h fun answer => (List.append_nil seen).symm ▸ hnext answer

theorem before (h : Honest pool forest busy pre seen action done good)
    (hnext : ∀ answer, Honest pool forest busy (pre ∧ good answer) (seen ++ done) (next answer)
      [] good') :
    Honest pool forest busy pre seen (action >>= next) done good' := by
  have hbind := bind h hnext
  rwa [List.append_nil] at hbind

theorem assuming (h : Honest pool forest busy pre seen action done good) (hpre : pre' → pre) :
    Honest pool forest busy pre' seen action done good :=
  ⟨h.told, fun hpre' => h.fine (hpre hpre')⟩

theorem leaving (h : Honest pool forest busy pre seen action done good)
    (hdone : ∀ id, .binding id ∈ done' → .binding id ∈ done) :
    Honest pool forest busy pre seen action done' good where
  told := h.told
  fine hpre state hfine hseen := by
    refine (h.fine hpre state hfine hseen).mono fun answer after => Or.imp_right ?_
    rintro ⟨hafter, hbound, hanswer⟩
    refine ⟨hafter, fun id hid => hbound id ?_, hanswer⟩
    rcases List.mem_append.mp hid with hid | hid
    · exact List.mem_append_left _ hid
    · exact List.mem_append_right _ (hdone id hid)

/-- A report ends the time without errors. -/
theorem offer {diagnostic : Diagnostic} (h : pre → diagnostic.isFollowOn = false)
    {good : Unit → Prop} :
    Honest pool forest busy pre seen (Resolver.offer diagnostic) done good where
  told state htold := by
    obtain ⟨earlier, hmem, hfirst⟩ := htold
    exact Ensures.modifies ⟨earlier, Queue.mem_add_of_mem hmem _, hfirst⟩
  fine hpre state hfine _ :=
    Ensures.modifies (.inl ⟨diagnostic, hfine.silent.mem_add diagnostic, h hpre⟩)

theorem ite {condition : Prop} [Decidable condition] {left right : ResolveM α}
    (hleft : Honest pool forest busy (pre ∧ condition) seen left done good)
    (hright : Honest pool forest busy (pre ∧ ¬ condition) seen right done good) :
    Honest pool forest busy pre seen (if condition then left else right) done good := by
  by_cases h : condition
  · rw [if_pos h]
    exact hleft.assuming fun hpre => ⟨hpre, h⟩
  · rw [if_neg h]
    exact hright.assuming fun hpre => ⟨hpre, h⟩

/-- What is noted beside the types of patterns and locals does not matter. -/
theorem update {change : Resolution → Resolution}
    (hpatterns : ∀ table, (change table).patternTypes = table.patternTypes)
    (hlocals : ∀ table, (change table).localTypes = table.localTypes) :
    Honest pool forest busy pre seen (Resolver.update change) [] fun _ => True where
  told _ htold := Ensures.modifies htold
  fine _ state hfine hseen := by
    refine Ensures.modifies (.inr ⟨⟨hfine.silent, ?_, ?_, ?_⟩, ?_, trivial⟩)
    · rw [hpatterns]
      exact hfine.patterns
    · rw [hlocals]
      exact hfine.locals
    · intro id hid hbusy other hother
      rw [hpatterns] at hid
      rw [hlocals]
      exact hfine.settled id hid hbusy other hother
    · intro id hid
      rw [List.append_nil] at hid
      rw [hlocals]
      exact hseen id hid

theorem exprHas (id : ExprId) (h : pre → pool.Valid ty) :
    Honest pool forest busy pre seen (Resolver.exprHas id ty) []
      pool.Valid := by
  rw [Resolver.exprHas]
  exact after (update (fun _ => rfl) fun _ => rfl) fun _ => pure fun hpre => h hpre.1

/-- A pattern gets its type when its locals have theirs, or as long as it is being resolved. -/
theorem patternHas {id : PatternId} (h : pre → pool.Valid ty)
    (hseen : id ∈ busy ∨ ∀ other, .binding other ∈ (forest.pattern id).visits →
      .binding other ∈ seen) :
    Honest pool forest busy pre seen (Resolver.patternHas id ty) []
      pool.Valid where
  told _ htold := Ensures.modify_bind (Ensures.pure htold)
  fine hpre state hfine hbound := by
    refine Ensures.modify_bind (Ensures.pure
      (.inr ⟨⟨hfine.silent, ?_, hfine.locals, ?_⟩, ?_, h hpre⟩))
    · intro other otherTy hother
      change (state.table.patternTypes.insert id ty)[other]? = _ at hother
      rw [Std.ExtTreeMap.getElem?_insert] at hother
      split at hother
      · exact Option.some.inj hother ▸ h hpre
      · exact hfine.patterns other otherTy hother
    · intro other hother hbusy
      rcases Std.ExtTreeMap.mem_insert.mp hother with heq | hmem
      · obtain rfl := Nat.compare_eq_eq.mp heq
        exact fun binding hbinding => hbound binding (hseen.resolve_left hbusy binding hbinding)
      · exact hfine.settled other hmem hbusy
    · exact fun other hother => hbound other (List.append_nil seen ▸ hother)

theorem setLocalType {id : LocalId} (h : pre → pool.Valid ty) :
    Honest pool forest busy pre seen (Resolver.update (·.setLocalType id ty)) [.binding id]
      fun _ => True where
  told _ htold := Ensures.modifies htold
  fine hpre state hfine hbound := by
    have hgrows : ∀ other, other ∈ state.table.localTypes →
        other ∈ (state.table.setLocalType id ty).localTypes :=
      fun other hother => Std.ExtTreeMap.mem_insert.mpr (.inr hother)
    refine Ensures.modifies (.inr ⟨⟨hfine.silent, hfine.patterns, ?_, ?_⟩, ?_, trivial⟩)
    · intro other otherTy hother
      change (state.table.localTypes.insert id ty)[other]? = _ at hother
      rw [Std.ExtTreeMap.getElem?_insert] at hother
      split at hother
      · exact Option.some.inj hother ▸ h hpre
      · exact hfine.locals other otherTy hother
    · exact fun other hother hbusy binding hbinding =>
        hgrows binding (hfine.settled other hother hbusy binding hbinding)
    · intro other hother
      rcases List.mem_append.mp hother with hmem | hmem
      · exact hgrows other (hbound other hmem)
      · obtain rfl := Visit.binding.inj (List.mem_singleton.mp hmem)
        exact Std.ExtTreeMap.mem_insert.mpr (.inl (Nat.compare_eq_eq.mpr rfl))

theorem of_same (h : ∀ state, Ensures action state (fun _ => True) fun _ after => after = state) :
    Honest pool forest busy pre seen action [] fun _ => True where
  told state htold := (h state).mono fun _ _ hafter => hafter ▸ htold
  fine _ state hfine hseen := (h state).mono fun _ _ hafter =>
    .inr ⟨hafter ▸ hfine, hafter ▸ (List.append_nil seen).symm ▸ hseen, trivial⟩

theorem report {diagnostic : Diagnostic} (h : pre → diagnostic.isFollowOn = false) (answer : α) :
    Honest pool forest busy pre seen (do
      Resolver.offer diagnostic
      return answer) done good := by
  have hoffer : Honest pool forest busy pre seen (Resolver.offer diagnostic) done
      fun _ => False := offer h
  exact before hoffer fun _ => pure fun hpre => hpre.2.elim

theorem discard (h : Honest pool forest busy pre seen action done good) :
    Honest pool forest busy pre seen (Functor.discard action) done fun _ => True where
  told state htold := Ensures.discards (h.told state htold)
  fine hpre state hfine hseen := Ensures.discards ((h.fine hpre state hfine hseen).mono
    fun _ _ => Or.imp_right fun hafter => ⟨hafter.1, hafter.2.1, trivial⟩)

theorem forM {step : β → ResolveM PUnit} : ∀ items : List β,
    (∀ item ∈ items, Honest pool forest busy pre seen (step item) [] fun _ => True) →
      Honest pool forest busy pre seen (items.forM step) [] fun _ => True
  | [], _ => pure fun _ => trivial
  | item :: items, h => after (h item List.mem_cons_self) fun _ => (forM items fun other hother =>
      h other (List.mem_cons_of_mem _ hother)).assuming fun hpre => hpre.1

theorem mapM {step : β → ResolveM α} (items : List β)
    (h : ∀ item ∈ items, Honest pool forest busy pre seen (step item) [] good) :
    Honest pool forest busy pre seen (items.mapM step) [] fun answers =>
      ∀ answer ∈ answers, good answer := by
  induction items with
  | nil => exact pure fun _ => List.forall_mem_nil _
  | cons item items ih =>
    have hrest := ih fun other hother => h other (List.mem_cons_of_mem _ hother)
    rw [List.mapM_cons]
    exact after (h item List.mem_cons_self) fun answer => after (hrest.assuming fun hpre => hpre.1)
      fun answers => pure fun hpre => List.forall_mem_cons.mpr ⟨hpre.1.2, hpre.2⟩

end Honest

/-! ## One node -/

section

variable (hpool : pool.Proper) {pre : Prop} {seen : List Visit}
variable {name : String} {expected ty : Ty} {written : TypeRef}

include hpool

theorem namedType_honest (hname : Plain name) (span : Span) :
    Honest pool forest busy pre seen (namedType pool name span) []
      pool.Valid := by
  rw [namedType]
  cases hlookup : pool.lookup name with
  | some ty => exact .pure fun _ => hpool.lookup name ty hlookup
  | none => exact .report (fun _ => (Diagnostic.isFollowOn_unknownType span name).mpr hname) _

theorem expectCompatible_honest (span : Span) (h : pre → pool.Valid expected ∧ pool.Valid ty) :
    Honest pool forest busy pre seen (expectCompatible pool span expected ty) []
      fun _ => True := by
  rw [expectCompatible]
  refine .ite (.offer fun hpre => ?_) (.pure fun _ => trivial)
  obtain ⟨hexpected, hty⟩ := h hpre.1
  exact (Diagnostic.isFollowOn_incompatiblePattern ..).mpr
    ⟨hpool.display hexpected, hpool.display hty⟩

theorem typePattern_honest (hwritten : ∀ name ∈ written.name, Plain name) (binds : Option LocalId)
    (span : Span) (h : pre → pool.Valid expected) :
    Honest pool forest busy pre seen (typePattern pool written binds span expected)
      (binds.toList.map .binding) pool.Valid := by
  have hexpect : ∀ ty, Honest pool forest busy (pre ∧ pool.Valid ty) seen
      (expectCompatible pool span expected ty) [] fun _ => True :=
    fun ty => expectCompatible_honest hpool span fun hpre => ⟨h hpre.1, hpre.2⟩
  have hnamed : ∀ name, written.name = some name → Honest pool forest busy pre seen
      (namedType pool name written.span) [] pool.Valid :=
    fun name hname => namedType_honest hpool (hwritten name hname) written.span
  rw [typePattern]
  cases binds with
  | none =>
    have hrest : ∀ ty, Honest pool forest busy (pre ∧ pool.Valid ty) seen (do
        expectCompatible pool span expected ty
        return ty) [] pool.Valid :=
      fun ty => .after (hexpect ty) fun _ => .pure fun hpre => hpre.1.2
    cases hname : written.name with
    | none => exact .after (.pure h) hrest
    | some name => exact .after (hnamed name hname) hrest
  | some id =>
    have hrest : ∀ ty, Honest pool forest busy (pre ∧ pool.Valid ty) seen (do
        expectCompatible pool span expected ty
        update (·.setLocalType id ty)
        return ty) [.binding id] pool.Valid :=
      fun ty => .after (hexpect ty) fun _ => .before (.setLocalType fun hpre => hpre.1.2)
        fun _ => .pure fun hpre => hpre.1.1.2
    cases hname : written.name with
    | none => exact .after (.pure h) hrest
    | some name => exact .after (hnamed name hname) hrest

/-- There is a type for every component, if the numbers are told to agree. -/
theorem recordPattern_honest (hwritten : ∀ name ∈ written.name, Plain name) (arity : Nat)
    (span : Span) (h : pre → pool.Valid expected) :
    Honest pool forest busy pre seen (recordPattern pool written arity span expected) []
      fun answer => pool.Valid answer.1 ∧ answer.2.length = arity ∧
        ∀ ty ∈ answer.2, pool.Valid ty := by
  rw [recordPattern.eq_def]
  cases hname : written.name with
  | none => exact .report (fun _ => Diagnostic.isFollowOn_varRecord _) _
  | some name =>
    refine .after (namedType_honest hpool (hwritten name hname) written.span) fun ty => ?_
    refine .ite (.pure fun hpre => ?_) (.ite (.report (fun hpre => ?_) _) ?_)
    · rw [hpre.1.2] at hpre
      exact absurd hpre.2 Bool.false_ne_true
    · exact (Diagnostic.isFollowOn_notARecord ..).mpr (hpool.display hpre.1.1.2)
    refine .after (expectCompatible_honest hpool span fun hpre =>
      ⟨h hpre.1.1.1, hpre.1.1.2⟩) fun _ => ?_
    refine .ite (.report (fun hpre => ?_) _) (.pure fun hpre => ?_)
    · exact (Diagnostic.isFollowOn_componentCount ..).mpr (hpool.display hpre.1.1.1.1.2)
    · refine ⟨hpre.1.1.1.1.2, not_not.mp hpre.2, fun part hpart => ?_⟩
      obtain ⟨component, hcomponent, rfl⟩ := List.mem_map.mp hpart
      exact hpool.components ty component hcomponent

omit hpool in
theorem convert_honest (operand : ExprId) (source target : Ty) :
    Honest pool forest busy pre seen (convert pool operand source target) [] fun _ => True := by
  rw [convert]
  exact .ite (.update (fun _ => rfl) fun _ => rfl) (.pure fun _ => trivial)

omit hpool in
theorem expectBoolean_honest (operand : ExprId) (ty : Ty) :
    Honest pool forest busy pre seen (expectBoolean pool operand ty) [] fun _ => True := by
  rw [expectBoolean]
  exact .ite (.after (convert_honest ..) fun _ => .pure fun _ => trivial) (.pure fun _ => trivial)

theorem guard_honest (condition : Expr) (h : pre → pool.Valid ty) :
    Honest pool forest busy pre seen (guard pool condition ty) [] fun _ => True := by
  rw [guard]
  refine .ite (convert_honest ..) (.ite (.offer fun hpre => ?_) (.pure fun _ => trivial))
  exact (Diagnostic.isFollowOn_guardNotBoolean ..).mpr (hpool.display (h hpre.1.1))

theorem boolean_proper : pool.Valid Ty.boolean := hpool.builtin _ (by simp)

theorem promote_proper {left right promoted : Ty} (h : pool.promote left right = some promoted) :
    pool.Valid promoted := by
  refine hpool.builtin promoted ?_
  rw [Pool.promote.eq_def] at h
  split at h
  · split at h
    · cases h
    · split at h
      · simp [← Option.some.inj h]
      · split at h
        · simp [← Option.some.inj h]
        · simp [← Option.some.inj h]
  · cases h

theorem unary_honest (span : Span) (op : UnaryOp) (operand : ExprId) (h : pre → pool.Valid ty) :
    Honest pool forest busy pre seen (unary pool span op operand ty) []
      pool.Valid := by
  have hmismatch : ∀ {pre' : Prop}, (pre' → pre) → ∀ answer : Ty,
      Honest pool forest busy pre' seen (do
        unaryMismatch pool span op ty
        return answer) [] pool.Valid := by
    refine fun hpre answer => .report (fun hpre' => ?_) answer
    refine (Diagnostic.isFollowOn_unaryMismatch ..).mpr ⟨?_, hpool.display (h (hpre hpre'))⟩
    cases op <;> decide
  cases op with
  | not =>
    rw [unary]
    exact .after (expectBoolean_honest ..) fun _ =>
      .ite (hmismatch (fun hpre => hpre.1.1) _) (.pure fun _ => boolean_proper hpool)
  | neg =>
    rw [unary]
    refine .ite (.pure fun hpre => ?_) ?_
    · rw [h hpre.1] at hpre
      exact absurd hpre.2 Bool.false_ne_true
    · cases hpromote : pool.promote ty Ty.int with
      | some promoted =>
        exact .after (convert_honest ..) fun _ => .pure fun _ => promote_proper hpool hpromote
      | none => exact hmismatch (fun hpre => hpre.1) _

omit hpool in
theorem plain_symbol (op : BinaryOp) : Plain op.symbol := by cases op <;> decide

theorem binaryMismatch_honest (span : Span) (op : BinaryOp) {left right : Ty}
    (h : pre → pool.Valid left ∧ pool.Valid right) (answer : Ty) :
    Honest pool forest busy pre seen (do
      binaryMismatch pool span op left right
      return answer) [] pool.Valid := by
  refine .report (fun hpre => ?_) answer
  obtain ⟨hleft, hright⟩ := h hpre
  exact (Diagnostic.isFollowOn_binaryMismatch ..).mpr
    ⟨plain_symbol op, hpool.display hleft, hpool.display hright⟩

theorem logical_honest (span : Span) (op : BinaryOp) (left : ExprId) {leftTy : Ty}
    (right : ExprId) {rightTy : Ty}
    (h : pre → pool.Valid leftTy ∧ pool.Valid rightTy) :
    Honest pool forest busy pre seen (logical pool span op left leftTy right rightTy) []
      pool.Valid := by
  rw [logical]
  exact .after (expectBoolean_honest ..) fun _ => .after (expectBoolean_honest ..) fun _ =>
    .ite (binaryMismatch_honest hpool span op (fun hpre => h hpre.1.1.1) _)
      (.pure fun _ => boolean_proper hpool)

theorem binary_honest (span : Span) (op : BinaryOp) (left : ExprId) {leftTy : Ty}
    (right : ExprId) {rightTy : Ty}
    (h : pre → pool.Valid leftTy ∧ pool.Valid rightTy) :
    Honest pool forest busy pre seen (binary pool span op left leftTy right rightTy) []
      pool.Valid := by
  rw [binary]
  cases hpromote : pool.promote leftTy rightTy with
  | some promoted =>
    refine .after (convert_honest ..) fun _ => .after (convert_honest ..) fun _ => .pure fun _ => ?_
    split
    · exact promote_proper hpool hpromote
    · exact boolean_proper hpool
  | none =>
    refine .ite (.after (convert_honest ..) fun _ => .after (convert_honest ..) fun _ =>
      .pure fun _ => boolean_proper hpool) (.ite (.pure fun _ => boolean_proper hpool) ?_)
    refine .ite (binaryMismatch_honest hpool span op (fun hpre => h hpre.1.1.1) _)
      (.pure fun hpre => ?_)
    obtain ⟨hleft, hright⟩ := h hpre.1.1.1
    simp [hleft, hright] at hpre

omit hpool in
theorem literalType_mem (value : Int) :
    literalType value ∈ [Ty.boolean, Ty.int, Ty.long, Ty.double] := by
  rw [literalType]
  split <;> simp

theorem field_honest (span : Span) {receiver : Ty} (hname : Plain name)
    (h : pre → pool.Valid receiver) :
    Honest pool forest busy pre seen (field pool span receiver name) []
      pool.Valid := by
  rw [field]
  refine .ite (.pure fun hpre => ?_) ?_
  · rw [h hpre.1] at hpre
    exact absurd hpre.2 Bool.false_ne_true
  · cases hfind : (pool.components receiver).find? (·.name == name) with
    | some component =>
      exact .pure fun _ => hpool.components receiver component (List.mem_of_find?_eq_some hfind)
    | none =>
      refine .report (fun hpre => ?_) _
      exact (Diagnostic.isFollowOn_unknownComponent ..).mpr ⟨hname, hpool.display (h hpre.1)⟩

omit hpool in
theorem ident_honest (id : ExprId) (hname : Plain name) (span : Span) {scope : Scope}
    (h : pre → scope.Proper pool) :
    Honest pool forest busy pre seen (ident id name span scope) []
      pool.Valid := by
  rw [ident]
  cases hlookup : scope.lookup name with
  | some entry =>
    exact .after (.update (fun _ => rfl) fun _ => rfl) fun _ => .pure fun hpre =>
      h hpre.1 entry (List.mem_of_find?_eq_some hlookup)
  | none => exact .report (fun _ => (Diagnostic.isFollowOn_unknownName ..).mpr hname) _

theorem result_honest (hwritten : ∃ name, written.name = some name ∧ Plain name) :
    Honest pool forest busy pre seen (result pool written) []
      pool.Valid := by
  obtain ⟨name, hname, hplain⟩ := hwritten
  rw [result, hname]
  exact namedType_honest hpool hplain written.span

omit hpool in
/-- Locals that have types become visible with them. -/
theorem extend_honest {locals : Array LocalDecl} {scope : Scope} {bindings : Bindings}
    (h : pre → scope.Proper pool) (hseen : ∀ id ∈ bindings, .binding id ∈ seen) :
    Honest pool forest busy pre seen (extend locals scope bindings) []
      fun inner => inner.Proper pool where
  told state htold :=
    (extend_ensures scope bindings state).imp (fun _ _ => trivial) fun _ _ hafter =>
      hafter.1 ▸ htold
  fine hpre state hfine hbound := by
    have hstep : ∀ id rest (inner : Scope) (after : Resolver),
        (id :: rest ⊆ bindings ∧ after = state ∧ inner.Proper pool) →
        Ensures (do
          let name ← localName locals id
          let ty := (← get).table.localTypes[id]?.getD Ty.error
          return inner.declare ⟨name, id, ty⟩) after (fun _ => True)
          fun inner after => rest ⊆ bindings ∧ after = state ∧ inner.Proper pool := by
      rintro id rest inner _ ⟨hsub, rfl, hinner⟩
      rw [localName]
      cases locals[id]? with
      | none => exact trivial
      | some decl =>
        refine ⟨fun _ hmem => hsub (List.mem_cons_of_mem _ hmem), rfl, fun entry hentry => ?_⟩
        rcases List.mem_cons.mp hentry with rfl | hmem
        · have hid := hbound id (hseen id (hsub List.mem_cons_self))
          rw [Std.ExtTreeMap.mem_iff_isSome_getElem?, Option.isSome_iff_exists] at hid
          obtain ⟨ty, hty⟩ := hid
          rw [hty]
          exact hfine.locals id ty hty
        · exact hinner entry hmem
    refine (Ensures.foldlM (fun rest inner after => rest ⊆ bindings ∧ after = state ∧
      inner.Proper pool) hstep bindings scope state ⟨List.Subset.refl _, rfl, h hpre⟩).mono ?_
    rintro inner _ ⟨-, rfl, hinner⟩
    exact .inr ⟨hfine, (List.append_nil seen).symm ▸ hbound, hinner⟩

omit hpool in
theorem tagCondition_honest {locals : Array LocalDecl} (owner : PatternId) (condition : Expr) :
    Honest pool forest busy pre seen (tagCondition locals owner condition) [] fun _ => True := by
  have hrest : ∀ {pre : Prop}, Honest pool forest busy pre seen (do
      condition.allLocals.forM fun id => Functor.discard (localName locals id)
      update fun table =>
        (condition.guardNames table.identLocals).foldl Resolution.tagGuardName table
      update fun table => condition.guardRecords.foldl (Resolution.setElseOwner · owner ·) table)
      [] fun _ => True :=
    .after (.of_same fun state => (localNames_ensures _ state).imp (fun _ _ => trivial)
        fun _ _ h => h) fun _ =>
      .after (.update (fun _ => foldl_keeps (·.patternTypes) (by intros; rfl) _ _)
        fun _ => foldl_keeps (·.localTypes) (by intros; rfl) _ _) fun _ =>
      .update (fun _ => foldl_keeps (·.patternTypes) (by intros; rfl) _ _)
        fun _ => foldl_keeps (·.localTypes) (by intros; rfl) _ _
  rw [tagCondition]
  refine .ite ?_ hrest
  have hoffer : Honest pool forest busy (pre ∧ condition.truth = some false) seen
      (offer (Diagnostic.guardAlwaysFalse condition.span)) [] fun _ => True :=
    .offer fun _ => Diagnostic.isFollowOn_guardAlwaysFalse _
  exact .after hoffer fun _ => hrest

end

end Resolver

/-! ## Trees -/

/-- What is met is the tree of its number, with plain words, and is not being resolved. -/
structure Visit.Fresh (forest : Forest) (busy : List PatternId) (visit : Visit) : Prop where
  owns : forest.Owns visit
  worded : visit.Worded
  idle : ∀ pattern, visit = .pattern pattern → pattern.id ∉ busy

section

variable {pool : Pool} {forest : Forest} (locals : Array LocalDecl)

open Resolver

mutual

theorem Pattern.resolve_honest (hpool : pool.Proper) :
    ∀ (pattern : Pattern) {busy : List PatternId},
      (∀ visit ∈ pattern.visits, visit.Fresh forest busy) →
      ∀ {expected : Ty} {scope : Scope} {seen : List Visit} {pre : Prop},
        (pre → pool.Valid expected ∧ scope.Proper pool) →
        Honest pool forest busy pre seen (pattern.resolve pool locals expected scope)
          pattern.visits pool.Valid
  | .type id written binds span, busy, hfresh, expected, scope, seen, pre, h => by
    have hself := hfresh _ (Pattern.self_mem_visits _)
    have howns : forest.pattern id = .type id written binds span := hself.owns
    have hbinds : ∀ other, .binding other ∈ (Pattern.type id written binds span).visits →
        .binding other ∈ binds.toList.map Visit.binding := by
      intro other hother
      simpa [Pattern.visits] using hother
    rw [Pattern.resolve]
    refine .leaving (.before (typePattern_honest hpool hself.worded binds span fun hpre =>
      (h hpre).1) fun ty => .patternHas (fun hpre => hpre.2) (.inr fun other hother => ?_)) hbinds
    rw [howns] at hother
    exact List.mem_append_right _ (hbinds other hother)
  | .record id written components span, busy, hfresh, expected, scope, seen, pre, h => by
    have hself := hfresh _ (Pattern.self_mem_visits _)
    have howns : forest.pattern id = .record id written components span := hself.owns
    have hbinds : ∀ other, .binding other ∈ (Pattern.record id written components span).visits →
        .binding other ∈ Pattern.visitsAll components := by
      intro other hother
      simpa [Pattern.visits] using hother
    rw [Pattern.resolve]
    refine .after (recordPattern_honest hpool hself.worded components.length span fun hpre =>
      (h hpre).1) fun answer => ?_
    refine .leaving (.before (Pattern.resolveComponents_honest hpool components
      (List.forall_mem_of_forall_mem_cons hfresh)
      fun hpre => ⟨hpre.2.2, (h hpre.1).2⟩) fun _ => .patternHas (fun hpre => hpre.1.2.1)
      (.inr fun other hother => ?_)) hbinds
    rw [howns] at hother
    exact List.mem_append_right _ (hbinds other hother)
  | .guarded id patterns condition span, busy, hfresh, expected, scope, seen, pre, h => by
    have hself := hfresh _ (Pattern.self_mem_visits _)
    have howns : forest.pattern id = .guarded id patterns condition span := hself.owns
    have hpatterns : ∀ visit ∈ Pattern.visitsAll patterns, visit.Fresh forest busy :=
      fun visit hvisit => hfresh visit (Visit.left_subset hvisit)
    have hcondition : ∀ visit ∈ condition.visits, visit.Fresh forest (id :: busy) := by
      intro visit hvisit
      have hvisit' := hfresh visit (Visit.right_subset hvisit)
      refine ⟨hvisit'.owns, hvisit'.worded, fun other heq hbusy => ?_⟩
      rcases List.mem_cons.mp hbusy with hid | hmem
      · subst heq
        have hother : forest.pattern other.id = other := hvisit'.owns
        rw [hid, howns] at hother
        rw [← hother] at hvisit
        exact Expr.guarded_not_mem_visits hvisit
      · exact hvisit'.idle other heq hmem
    have hall : Honest pool forest busy pre seen
        (Pattern.resolveAll pool locals patterns expected scope) (Pattern.visitsAll patterns)
        fun types => ∀ ty ∈ types, pool.Valid ty :=
      Pattern.resolveAll_honest hpool patterns hpatterns h
    -- From when it has a type until its condition is resolved, the pattern is busy.
    have hrest : ∀ types : List Ty, Honest pool forest (id :: busy)
        (pre ∧ ∀ ty ∈ types, pool.Valid ty) (seen ++ Pattern.visitsAll patterns) (do
          let ty ← patternHas id (types.headD expected)
          let inner ← extend locals scope (Pattern.bindingsAll patterns)
          let conditionTy ← condition.resolve pool locals inner
          guard pool condition conditionTy
          tagCondition locals id condition
          return ty) condition.visits pool.Valid := by
      intro types
      have hhead : (pre ∧ ∀ ty ∈ types, pool.Valid ty) →
          pool.Valid (types.headD expected) := by
        rintro ⟨hpre, htypes⟩
        cases types with
        | nil => exact (h hpre).1
        | cons ty types => exact htypes ty List.mem_cons_self
      refine .after (.patternHas hhead (.inl List.mem_cons_self)) fun ty => ?_
      refine .after (extend_honest (fun hpre => (h hpre.1.1).2) fun other hother =>
        List.mem_append_right _ (Pattern.binding_mem_visitsAll patterns hother)) fun inner => ?_
      exact .before (condition.resolve_honest hpool hcondition fun hpre => hpre.2)
        fun conditionTy => .after (guard_honest hpool condition fun hpre => hpre.2) fun _ =>
        .after (tagCondition_honest id condition) fun _ => .pure fun hpre => hpre.1.1.1.1.2
    refine ⟨fun state htold => ?_, fun hpre state hfine hbound => ?_⟩
    · exact ((Pattern.resolve_only pool locals (.guarded id patterns condition span) expected
        scope).ensures state).imp (fun _ _ => trivial) fun _ _ hsteps => hsteps.told htold
    rw [Pattern.resolve]
    refine Ensures.get_bind ?_
    cases hty : state.table.patternTypes[id]? with
    | some ty =>
      have hmem : id ∈ state.table.patternTypes := by
        rw [Std.ExtTreeMap.mem_iff_isSome_getElem?, hty]
        rfl
      have hsettled := hfine.settled id hmem (hself.idle _ rfl)
      rw [howns] at hsettled
      exact Ensures.pure (.inr ⟨hfine, hbound.append hsettled, hfine.patterns id ty hty⟩)
    | none =>
      refine (hall.fine hpre state hfine hbound).seq fun types mid hmid => ?_
      rcases hmid with htold | ⟨hmid, hboundMid, htypes⟩
      · exact ((hrest types).told mid htold).mono fun _ _ hafter => .inl hafter
      · refine ((hrest types).fine ⟨hpre, htypes⟩ mid (hmid.hold id) hboundMid).mono
          fun ty after => Or.imp_right ?_
        rintro ⟨hafter, hboundAfter, hty⟩
        have hwhole : after.table.Bound (Pattern.guarded id patterns condition span).visits := by
          intro other hother
          rw [Pattern.visits, List.mem_cons, List.mem_append] at hother
          refine hboundAfter other ?_
          simp only [List.mem_append]
          rcases hother with hroot | hother | hother
          · cases hroot
          · exact .inl (.inr hother)
          · exact .inr hother
        refine ⟨hafter.release (howns.symm ▸ hwhole), Resolution.Bound.append ?_ hwhole, hty⟩
        exact fun other hother => hboundAfter other
          (List.mem_append_left _ (List.mem_append_left _ hother))
  | .any id span, busy, hfresh, expected, scope, seen, pre, h => by
    have howns : forest.pattern id = .any id span := (hfresh _ (Pattern.self_mem_visits _)).owns
    rw [Pattern.resolve]
    refine .leaving (.patternHas (fun hpre => (h hpre).1) (.inr fun other hother => ?_))
      (by simp [Pattern.visits])
    rw [howns] at hother
    simp [Pattern.visits] at hother
  | .missing id, busy, _, expected, scope, seen, pre, _ => by
    rw [Pattern.resolve]
    exact .throw _

theorem Pattern.resolveAll_honest (hpool : pool.Proper) :
    ∀ (patterns : List Pattern) {busy : List PatternId},
      (∀ visit ∈ Pattern.visitsAll patterns, visit.Fresh forest busy) →
      ∀ {expected : Ty} {scope : Scope} {seen : List Visit} {pre : Prop},
        (pre → pool.Valid expected ∧ scope.Proper pool) →
        Honest pool forest busy pre seen (Pattern.resolveAll pool locals patterns expected scope)
          (Pattern.visitsAll patterns) fun types => ∀ ty ∈ types, pool.Valid ty
  | [], busy, _, expected, scope, seen, pre, _ => by
    rw [Pattern.resolveAll, Pattern.visitsAll]
    exact .pure fun _ => List.forall_mem_nil _
  | pattern :: patterns, busy, hfresh, expected, scope, seen, pre, h => by
    rw [Pattern.visitsAll] at hfresh
    rw [Pattern.resolveAll, Pattern.visitsAll]
    exact .bind (pattern.resolve_honest hpool (fun visit hvisit =>
        hfresh visit (List.mem_append_left _ hvisit)) h) fun ty =>
      .before (Pattern.resolveAll_honest hpool patterns (fun visit hvisit =>
        hfresh visit (List.mem_append_right _ hvisit)) fun hpre => h hpre.1) fun types =>
      .pure fun hpre => List.forall_mem_cons.mpr ⟨hpre.1.2, hpre.2⟩

theorem Pattern.resolveComponents_honest (hpool : pool.Proper) :
    ∀ (patterns : List Pattern) {busy : List PatternId},
      (∀ visit ∈ Pattern.visitsAll patterns, visit.Fresh forest busy) →
      ∀ {types : List Ty} {scope : Scope} {seen : List Visit} {pre : Prop},
        (pre → (types.length = patterns.length ∧ ∀ ty ∈ types, pool.Valid ty) ∧
          scope.Proper pool) →
        Honest pool forest busy pre seen
          (Pattern.resolveComponents pool locals patterns types scope)
          (Pattern.visitsAll patterns) fun _ => True
  | [], busy, _, types, scope, seen, pre, _ => by
    rw [Pattern.resolveComponents, Pattern.visitsAll]
    exact .pure fun _ => trivial
  | pattern :: patterns, busy, hfresh, types, scope, seen, pre, h => by
    have hhead : pre → pool.Valid (types.headD Ty.error) := by
      intro hpre
      obtain ⟨⟨hlength, htypes⟩, -⟩ := h hpre
      cases types with
      | nil => cases hlength
      | cons ty types => exact htypes ty List.mem_cons_self
    have htail : pre → types.tail.length = patterns.length ∧
        ∀ ty ∈ types.tail, pool.Valid ty := by
      intro hpre
      obtain ⟨⟨hlength, htypes⟩, -⟩ := h hpre
      rw [List.length_cons] at hlength
      refine ⟨?_, fun ty hty => htypes ty (List.mem_of_mem_tail hty)⟩
      rw [List.length_tail]
      omega
    rw [Pattern.visitsAll] at hfresh
    rw [Pattern.resolveComponents, Pattern.visitsAll]
    exact .bind (pattern.resolve_honest hpool (fun visit hvisit =>
        hfresh visit (List.mem_append_left _ hvisit)) fun hpre => ⟨hhead hpre, (h hpre).2⟩) fun _ =>
      Pattern.resolveComponents_honest hpool patterns (fun visit hvisit =>
        hfresh visit (List.mem_append_right _ hvisit)) fun hpre => ⟨htail hpre.1, (h hpre.1).2⟩

theorem Expr.resolve_honest (hpool : pool.Proper) :
    ∀ (expr : Expr) {busy : List PatternId}, (∀ visit ∈ expr.visits, visit.Fresh forest busy) →
      ∀ {scope : Scope} {seen : List Visit} {pre : Prop}, (pre → scope.Proper pool) →
        Honest pool forest busy pre seen (expr.resolve pool locals scope) expr.visits
          pool.Valid
  | .bool id value span, busy, _, scope, seen, pre, _ => by
    rw [Expr.resolve]
    exact .leaving (.exprHas id fun _ => boolean_proper hpool) (by simp [Expr.visits])
  | .int id value span, busy, _, scope, seen, pre, _ => by
    rw [Expr.resolve]
    exact .leaving (.exprHas id fun _ => hpool.builtin _ (literalType_mem value))
      (by simp [Expr.visits])
  | .ident id name span, busy, hfresh, scope, seen, pre, h => by
    have hself := hfresh _ (Expr.self_mem_visits _)
    rw [Expr.resolve]
    exact .leaving (.after (ident_honest id hself.worded span h) fun ty => .exprHas id fun hpre =>
      hpre.2) (by simp [Expr.visits])
  | .field id receiver name span, busy, hfresh, scope, seen, pre, h => by
    have hself := hfresh _ (Expr.self_mem_visits _)
    rw [Expr.resolve]
    exact .leaving (.before (receiver.resolve_honest hpool
      (List.forall_mem_of_forall_mem_cons hfresh) h) fun ty => .after (field_honest hpool span
      hself.worded fun hpre => hpre.2) fun _ => .exprHas id fun hpre => hpre.2)
      (by simp [Expr.visits])
  | .unary id op operand span, busy, hfresh, scope, seen, pre, h => by
    rw [Expr.resolve]
    exact .leaving (.before (operand.resolve_honest hpool
      (List.forall_mem_of_forall_mem_cons hfresh) h) fun ty => .after (unary_honest hpool span op
      operand.id fun hpre => hpre.2) fun _ => .exprHas id fun hpre => hpre.2)
      (by simp [Expr.visits])
  | .binary id op left right span, busy, hfresh, scope, seen, pre, h => by
    have hleft : ∀ visit ∈ left.visits, visit.Fresh forest busy := fun visit hvisit =>
      hfresh visit (Visit.left_subset hvisit)
    have hright : ∀ visit ∈ right.visits, visit.Fresh forest busy := fun visit hvisit =>
      hfresh visit (Visit.right_subset hvisit)
    have hrest : ∀ leftTy, Honest pool forest busy (pre ∧ pool.Valid leftTy)
        (seen ++ left.visits) (if op.isLogical = true then do
          let inner ← extend locals scope (left.bindings (op == .and))
          let rightTy ← right.resolve pool locals inner
          let ty ← logical pool span op left.id leftTy right.id rightTy
          exprHas id ty
        else do
          let rightTy ← right.resolve pool locals scope
          let ty ← binary pool span op left.id leftTy right.id rightTy
          exprHas id ty) right.visits pool.Valid := by
      intro leftTy
      split
      · refine .after (extend_honest (fun hpre => h hpre.1) fun other hother =>
          List.mem_append_right _ (left.binding_mem_visits hother)) fun inner => ?_
        exact .before (right.resolve_honest hpool hright fun hpre => hpre.2) fun rightTy =>
          .after (logical_honest hpool span op left.id right.id fun hpre =>
            ⟨hpre.1.1.2, hpre.2⟩) fun _ => .exprHas id fun hpre => hpre.2
      · exact .before (right.resolve_honest hpool hright fun hpre => h hpre.1) fun rightTy =>
          .after (binary_honest hpool span op left.id right.id fun hpre => ⟨hpre.1.2, hpre.2⟩)
          fun _ => .exprHas id fun hpre => hpre.2
    rw [Expr.resolve]
    exact .leaving (.bind (left.resolve_honest hpool hleft h) hrest) (by simp [Expr.visits])
  | .instanceOf id tested pattern span, busy, hfresh, scope, seen, pre, h => by
    rw [Expr.resolve]
    exact .leaving (.bind (tested.resolve_honest hpool (fun visit hvisit =>
        hfresh visit (Visit.left_subset hvisit)) h) fun testedTy =>
      .before (pattern.resolve_honest hpool (fun visit hvisit =>
        hfresh visit (Visit.right_subset hvisit))
        fun hpre => ⟨hpre.2, h hpre.1⟩) fun _ => .exprHas id fun _ => boolean_proper hpool)
      (by simp [Expr.visits])
  | .call id callee args written span, busy, hfresh, scope, seen, pre, h => by
    have hself := hfresh _ (Expr.self_mem_visits _)
    rw [Expr.resolve]
    exact .leaving (.before (Expr.resolveAll_honest hpool args
      (List.forall_mem_of_forall_mem_cons hfresh) h) fun _ => .after (result_honest hpool
      hself.worded) fun _ => .exprHas id fun hpre => hpre.2) (by simp [Expr.visits])
  | .missing id, busy, _, scope, seen, pre, _ => by
    rw [Expr.resolve]
    exact .throw _

theorem Expr.resolveAll_honest (hpool : pool.Proper) :
    ∀ (exprs : List Expr) {busy : List PatternId},
      (∀ visit ∈ Expr.visitsAll exprs, visit.Fresh forest busy) →
      ∀ {scope : Scope} {seen : List Visit} {pre : Prop}, (pre → scope.Proper pool) →
        Honest pool forest busy pre seen (Expr.resolveAll pool locals exprs scope)
          (Expr.visitsAll exprs) fun _ => True
  | [], busy, _, scope, seen, pre, _ => by
    rw [Expr.resolveAll, Expr.visitsAll]
    exact .pure fun _ => trivial
  | expr :: exprs, busy, hfresh, scope, seen, pre, h => by
    rw [Expr.visitsAll] at hfresh
    rw [Expr.resolveAll, Expr.visitsAll]
    exact .bind (expr.resolve_honest hpool (fun visit hvisit =>
        hfresh visit (List.mem_append_left _ hvisit)) h) fun _ =>
      Expr.resolveAll_honest hpool exprs (fun visit hvisit =>
        hfresh visit (List.mem_append_right _ hvisit)) fun hpre => h hpre.1

end

end

end GuardedMatch
