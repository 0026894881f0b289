import GuardedMatch.Proofs.Ensures
import GuardedMatch.Proofs.Scoping
import GuardedMatch.Resolution.Resolver

/-!
# Changes to the state of a resolution

A resolution reports mistakes and notes what it finds out, one thing at a time.  Where it looks at a
single node, it makes only changes of a certain kind, and what it notes of the node follows from
what is known of the nodes below, or else there is something to report.

* `Resolver.Makes`: an action makes only changes of a certain kind.
* `Scope.Extends`: a scope in which further locals are visible, under their names.
* `Resolver.recordPattern_sized`, `Expr.resolve_boolean`: what is known of an answer.
-/

namespace GuardedMatch

/-- A reference that leads nowhere, when `count` locals are declared. -/
def Visit.Lost (count : Nat) : Visit → Prop
  | pattern (.missing _) | expr (.missing _) => True
  | binding id => count ≤ id
  | _ => False

/-- A type that does not contradict the number of components of a record pattern. -/
def Pattern.Sized (pool : Pool) (ty : Ty) : Pattern → Prop
  | .record _ _ components _ => ty = Ty.error ∨
    pool.isRecord ty = true ∧ components.length = (pool.components ty).length
  | _ => True

/-- A condition is a truth value by its form. -/
def Expr.IsCondition : Expr → Prop
  | .bool .. | .instanceOf .. | .unary _ .not _ _ => True
  | .binary _ op _ _ _ => op.isLogical = true
  | _ => False

/-- Truth values have no components and are no numbers. -/
structure Pool.OpaqueBoolean (pool : Pool) : Prop where
  known : pool.isError Ty.boolean = false
  primitive : pool.isPrimitive Ty.boolean = true
  components : pool.components Ty.boolean = []

theorem Pool.OpaqueBoolean.promote_eq_none {pool : Pool} (h : pool.OpaqueBoolean) (ty : Ty) :
    pool.promote Ty.boolean ty = none := by
  have hprimitive : pool.primitive? Ty.boolean = some Ty.boolean := by
    rw [primitive?, if_pos h.primitive]
  have hnumeric : pool.isNumeric Ty.boolean = false := by
    rw [isNumeric, hprimitive]
    decide
  rw [promote, hprimitive]
  cases pool.primitive? ty with
  | none => rfl
  | some other => simp [hnumeric]

/-- No field is read of a condition, and no condition is negated as a number. -/
def Expr.Applied (pool : Pool) : Expr → Prop
  | .field _ operand _ _ | .unary _ .neg operand _ => pool.OpaqueBoolean → ¬ operand.IsCondition
  | _ => True

/-- What is reported of a node: neither that a condition is never true nor that a local is not
assigned. -/
def ErrorCode.isMistake : ErrorCode → Bool
  | guardAlwaysFalse | unassignedLocal => false
  | _ => true

theorem ErrorCode.ne_of_isMistake {code : ErrorCode} (h : code.isMistake = true) :
    code ≠ .guardAlwaysFalse ∧ code ≠ .unassignedLocal := by
  constructor
  · rintro rfl
    cases h
  · rintro rfl
    cases h

theorem Visit.lost_mono {count : Nat} {visits visits' : List Visit} (hsub : visits ⊆ visits') :
    (∃ visit ∈ visits, visit.Lost count) → ∃ visit ∈ visits', visit.Lost count :=
  Exists.imp fun _ => And.imp_left (@hsub _)

namespace Resolver

/-! ## Changes -/

/-- One change to the state of a resolution. -/
inductive Change
  | report (diagnostic : Diagnostic)
  | patternType (id : PatternId) (ty : Ty)
  | exprType (id : ExprId) (ty : Ty)
  | localType (id : LocalId) (ty : Ty)
  | conversion (id : ExprId) (kind : Conversion)
  | identLocal (id : ExprId) (target : LocalId)

namespace Change

def apply (state : Resolver) : Change → Resolver
  | report diagnostic => { state with queue := (state.queue.add diagnostic).2 }
  | patternType id ty => { state with table := state.table.setPatternType id ty }
  | exprType id ty => { state with table := state.table.setExprType id ty }
  | localType id ty => { state with table := state.table.setLocalType id ty }
  | conversion id kind => { state with table := state.table.setConversion id kind }
  | identLocal id target => { state with table := state.table.setIdentLocal id target }

/-- What may happen anywhere: an operand is converted, or a mistake is reported. -/
def Common : Change → Prop
  | report diagnostic => diagnostic.code.isMistake = true
  | conversion .. => True
  | patternType .. | exprType .. | localType .. | identLocal .. => False

theorem Common.report (diagnostic : Diagnostic) (h : diagnostic.code.isMistake = true) :
    (report diagnostic).Common := h

theorem Common.conversion (id : ExprId) (kind : Conversion) : (conversion id kind).Common := trivial

/-- The change leaves a part of the table as it is. -/
def Spares {γ : Type} (part : Resolution → γ) (change : Change) : Prop :=
  ∀ state, part (change.apply state).table = part state.table

theorem Spares.report {γ : Type} {part : Resolution → γ} (diagnostic : Diagnostic)
    (_ : diagnostic.code.isMistake = true) : (report diagnostic).Spares part := fun _ => rfl

end Change

/-- The action makes only changes that are allowed, the same wherever it starts, and does not
stop. -/
structure Makes (allowed : Change → Prop) {α : Type} (action : ResolveM α) : Prop where
  exists_changes : ∃ answer, ∃ changes : List Change, (∀ change ∈ changes, allowed change) ∧
    ∀ state, EStateM.run action state = .ok answer (changes.foldl Change.apply state)

namespace Makes

variable {allowed : Change → Prop} {α β γ : Type}

theorem ensures {action : ResolveM α} (h : Makes allowed action) (state : Resolver) :
    Ensures action state (fun _ => False) fun _ after => ∃ changes : List Change,
      (∀ change ∈ changes, allowed change) ∧ after = changes.foldl Change.apply state := by
  obtain ⟨answer, changes, hchanges, hrun⟩ := h.exists_changes
  rw [Ensures, hrun]
  exact ⟨changes, hchanges, rfl⟩

theorem pure (answer : α) : Makes allowed (Pure.pure answer : ResolveM α) :=
  ⟨answer, [], nofun, fun _ => rfl⟩

theorem bind {action : ResolveM α} {next : α → ResolveM β} (h : Makes allowed action)
    (hnext : ∀ answer, Makes allowed (next answer)) : Makes allowed (action >>= next) := by
  obtain ⟨answer, changes, hchanges, hrun⟩ := h.exists_changes
  obtain ⟨answer', more, hmore, hrun'⟩ := (hnext answer).exists_changes
  refine ⟨answer', changes ++ more, List.forall_mem_append.mpr ⟨hchanges, hmore⟩, fun state => ?_⟩
  rw [List.foldl_append, ← hrun']
  exact run_bind (hrun state)

theorem ite {condition : Prop} [Decidable condition] {left right : ResolveM α}
    (hleft : Makes allowed left) (hright : Makes allowed right) :
    Makes allowed (if condition then left else right) := by
  split
  · exact hleft
  · exact hright

theorem single (change : Change) (h : allowed change) :
    Makes allowed (modify fun state => change.apply state : ResolveM PUnit) :=
  ⟨⟨⟩, [change], List.forall_mem_singleton.2 h, fun _ => rfl⟩

theorem ident (id : ExprId) (name : String) (span : Span) (scope : Scope)
    (hreport : allowed (.report (.unknownName span name)))
    (hmeans : ∀ entry, scope.lookup name = some entry → allowed (.identLocal id entry.id)) :
    Makes allowed (Resolver.ident id name span scope) := by
  rw [Resolver.ident.eq_def]
  split
  next entry hentry =>
    exact bind (single (.identLocal id entry.id) (hmeans entry hentry)) fun _ => pure _
  next => exact bind (single (.report _) hreport) fun _ => pure _

theorem convert (hconvert : ∀ id kind, allowed (.conversion id kind)) (pool : Pool)
    (operand : ExprId) (source target : Ty) :
    Makes allowed (Resolver.convert pool operand source target) := by
  rw [Resolver.convert]
  exact ite (single (.conversion ..) (hconvert ..)) (pure _)

theorem expectBoolean (hconvert : ∀ id kind, allowed (.conversion id kind)) (pool : Pool)
    (operand : ExprId) (ty : Ty) :
    Makes allowed (Resolver.expectBoolean pool operand ty) := by
  rw [Resolver.expectBoolean]
  exact ite (bind (convert hconvert ..) fun _ => pure _) (pure _)

section

variable (hreport : ∀ diagnostic : Diagnostic, diagnostic.code.isMistake = true →
  allowed (.report diagnostic))
include hreport

theorem offer {diagnostic : Diagnostic} (h : diagnostic.code.isMistake = true) :
    Makes allowed (Resolver.offer diagnostic) :=
  single (.report diagnostic) (hreport diagnostic h)

theorem namedType (pool : Pool) (name : String) (span : Span) :
    Makes allowed (Resolver.namedType pool name span) := by
  rw [Resolver.namedType.eq_def]
  split
  · exact pure _
  · exact bind (offer hreport rfl) fun _ => pure _

theorem expectCompatible (pool : Pool) (span : Span) (expected ty : Ty) :
    Makes allowed (Resolver.expectCompatible pool span expected ty) := by
  rw [Resolver.expectCompatible]
  exact ite (offer hreport rfl) (pure _)

theorem typePattern (pool : Pool) (written : TypeRef) {binds : Option LocalId} (span : Span)
    (expected : Ty) (hlocal : ∀ id ∈ binds, ∀ ty, allowed (.localType id ty)) :
    Makes allowed (Resolver.typePattern pool written binds span expected) := by
  have hstore : ∀ id ∈ binds, ∀ ty, Makes allowed (do
      update (·.setLocalType id ty)
      return ty) := fun id hid ty =>
    bind (single (.localType id ty) (hlocal id hid ty)) fun _ => pure _
  rw [Resolver.typePattern]
  cases binds with
  | none =>
    cases written.name with
    | none => exact bind (pure _) fun _ => bind (expectCompatible hreport ..) fun _ => pure _
    | some name =>
      exact bind (namedType hreport ..) fun _ => bind (expectCompatible hreport ..) fun _ => pure _
  | some id =>
    cases written.name with
    | none =>
      exact bind (pure _) fun _ => bind (expectCompatible hreport ..) fun _ => hstore id rfl _
    | some name =>
      exact bind (namedType hreport ..) fun _ => bind (expectCompatible hreport ..) fun _ =>
        hstore id rfl _

theorem recordPattern (pool : Pool) (written : TypeRef) (arity : Nat) (span : Span)
    (expected : Ty) :
    Makes allowed (Resolver.recordPattern pool written arity span expected) := by
  rw [Resolver.recordPattern.eq_def]
  split
  next => exact bind (offer hreport rfl) fun _ => pure _
  next =>
    refine bind (namedType hreport ..) fun _ =>
      ite (pure _) (ite (bind (offer hreport rfl) fun _ => pure _) ?_)
    exact bind (expectCompatible hreport ..) fun _ =>
      ite (bind (offer hreport rfl) fun _ => pure _) (pure _)

theorem field (pool : Pool) (span : Span) (receiver : Ty) (name : String) :
    Makes allowed (Resolver.field pool span receiver name) := by
  rw [Resolver.field]
  refine ite (pure _) ?_
  split
  · exact pure _
  · exact bind (offer hreport rfl) fun _ => pure _

theorem result (pool : Pool) (written : TypeRef) :
    Makes allowed (Resolver.result pool written) := by
  rw [Resolver.result.eq_def]
  split
  · exact namedType hreport ..
  · exact pure _

variable (hconvert : ∀ id kind, allowed (.conversion id kind))
include hconvert

theorem guard (pool : Pool) (condition : Expr) (ty : Ty) :
    Makes allowed (Resolver.guard pool condition ty) := by
  rw [Resolver.guard]
  exact ite (convert hconvert ..) (ite (offer hreport rfl) (pure _))

theorem unary (pool : Pool) (span : Span) (op : UnaryOp) (operand : ExprId) (ty : Ty) :
    Makes allowed (Resolver.unary pool span op operand ty) := by
  have hmismatch : ∀ answer : Ty, Makes allowed (do
      unaryMismatch pool span op ty
      return answer) := fun _ => bind (offer hreport rfl) fun _ => pure _
  cases op with
  | not =>
    rw [Resolver.unary]
    exact bind (expectBoolean hconvert ..) fun _ => ite (hmismatch _) (pure _)
  | neg =>
    rw [Resolver.unary]
    refine ite (pure _) ?_
    split
    · exact bind (convert hconvert ..) fun _ => pure _
    · exact hmismatch _

theorem logical (pool : Pool) (span : Span) (op : BinaryOp) (left : ExprId) (leftTy : Ty)
    (right : ExprId) (rightTy : Ty) :
    Makes allowed (Resolver.logical pool span op left leftTy right rightTy) := by
  rw [Resolver.logical]
  exact bind (expectBoolean hconvert ..) fun _ => bind (expectBoolean hconvert ..) fun _ =>
    ite (bind (offer hreport rfl) fun _ => pure _) (pure _)

theorem binary (pool : Pool) (span : Span) (op : BinaryOp) (left : ExprId) (leftTy : Ty)
    (right : ExprId) (rightTy : Ty) :
    Makes allowed (Resolver.binary pool span op left leftTy right rightTy) := by
  have hconverted : ∀ target answer : Ty, Makes allowed (do
      Resolver.convert pool left leftTy target
      Resolver.convert pool right rightTy target
      return answer) := fun _ _ =>
    bind (convert hconvert ..) fun _ => bind (convert hconvert ..) fun _ => pure _
  rw [Resolver.binary.eq_def]
  split
  · exact hconverted _ _
  · exact ite (hconverted _ _)
      (ite (pure _) (ite (bind (offer hreport rfl) fun _ => pure _) (pure _)))

end

theorem reports {action : ResolveM α} (h : Makes allowed action) (state : Resolver) :
    Ensures action state (fun _ => True) fun _ after =>
      ∃ more, after.queue = state.queue.addAll more := by
  refine (h.ensures state).imp (fun _ => False.elim) ?_
  rintro _ after ⟨changes, -, rfl⟩
  refine List.foldlRecOn (motive := fun after : Resolver =>
    ∃ more, after.queue = state.queue.addAll more) changes Change.apply ⟨[], rfl⟩ ?_
  rintro mid ⟨more, hmid⟩ change -
  cases change with
  | report diagnostic =>
    exact ⟨more ++ [diagnostic], by rw [Change.apply, hmid, Queue.addAll_append]; rfl⟩
  | patternType | exprType | localType | conversion | identLocal => exact ⟨more, hmid⟩

/-- What no change touches is kept. -/
theorem keeps {part : Resolution → γ} {action : ResolveM α} (h : Makes (Change.Spares part) action)
    (state : Resolver) : Ensures action state (fun _ => True) fun _ after =>
      part after.table = part state.table := by
  refine (h.ensures state).imp (fun _ => False.elim) ?_
  rintro _ after ⟨changes, hchanges, rfl⟩
  refine List.foldlRecOn (motive := fun after : Resolver => part after.table = part state.table)
    changes Change.apply rfl ?_
  exact fun mid hmid change hchange => (hchanges change hchange mid).trans hmid

end Makes

end Resolver

/-! ## Names -/

/-- The names that are visible and what they mean, the innermost last. -/
def Scope.names (scope : Scope) : List (String × LocalId) :=
  scope.entries.reverse.map fun entry => (entry.name, entry.id)

/-- A local under the name that it is declared with. -/
def declared (locals : Array LocalDecl) (id : LocalId) : String × LocalId :=
  ((locals[id]?.map LocalDecl.name).getD "", id)

/-- The last entry of a name: those before it are hidden. -/
def Innermost (names : List (String × LocalId)) (name : String) (target : LocalId) : Prop :=
  ∃ outside inside, names = outside ++ (name, target) :: inside ∧ ∀ entry ∈ inside, entry.1 ≠ name

/-- The scope has what the outer one has, and further locals inside. -/
structure Scope.Extends (locals : Array LocalDecl) (scope outer : Scope) (inner : List LocalId) :
    Prop where
  visible : scope.locals = outer.locals ++ inner
  names : scope.names = outer.names ++ inner.map (declared locals)

namespace Scope

variable {locals : Array LocalDecl} {outer scope : Scope} {inner : List LocalId}

theorem Extends.refl (locals : Array LocalDecl) (scope : Scope) : scope.Extends locals scope [] :=
  ⟨(List.append_nil _).symm, (List.append_nil _).symm⟩

theorem innermost_of_lookup {name : String} {entry : ScopeEntry}
    (h : scope.lookup name = some entry) : Innermost scope.names name entry.id := by
  obtain ⟨hname, inside, outside, hentries, hinside⟩ := List.find?_eq_some_iff_append.mp h
  obtain rfl : entry.name = name := by simpa using hname
  refine ⟨(outside.reverse.map fun entry => (entry.name, entry.id)),
    (inside.reverse.map fun entry => (entry.name, entry.id)), by simp [names, hentries], ?_⟩
  simpa using hinside

/-- Locals become visible under their names. -/
theorem Extends.extend (h : scope.Extends locals outer inner) (bindings : Bindings)
    (state : Resolver) : Ensures (Resolver.extend locals scope bindings) state
      (fun _ => ∃ id ∈ bindings, locals.size ≤ id)
      fun scope' after => after = state ∧ scope'.Extends locals outer (inner ++ bindings) := by
  refine (Ensures.foldlM (fun rest scope' after => after = state ∧ ∃ done,
    bindings = done ++ rest ∧ scope'.Extends locals outer (inner ++ done)) ?_ bindings scope state
    ⟨rfl, [], rfl, by rwa [List.append_nil]⟩).mono ?_
  · rintro id rest scope' _ ⟨rfl, done, hdone, hextends⟩
    rw [Resolver.localName.eq_def]
    split
    next decl hdecl =>
      refine ⟨rfl, done ++ [id], by rw [hdone, List.append_assoc]; rfl, ?_, ?_⟩
      · have hvisible := hextends.visible
        simp only [Scope.locals] at hvisible ⊢
        simp [declare, hvisible]
      · have hnames := hextends.names
        simp only [Scope.names] at hnames ⊢
        simp [declare, hnames, declared, hdecl]
    next hnone =>
      exact ⟨id, by simp [hdone], Array.getElem?_eq_none_iff.mp hnone⟩
  · rintro scope' after ⟨rfl, done, hdone, hextends⟩
    rw [hdone, List.append_nil]
    exact ⟨rfl, hextends⟩

end Scope

namespace Resolver

/-- Locals become visible in order. -/
theorem extend_ensures {locals : Array LocalDecl} (scope : Scope) (bindings : Bindings)
    (state : Resolver) :
    Ensures (extend locals scope bindings) state (fun _ => ∃ id ∈ bindings, locals.size ≤ id)
      fun inner after => after = state ∧ inner.locals = scope.locals ++ bindings :=
  ((Scope.Extends.refl locals scope).extend bindings state).mono fun _ _ h => ⟨h.1, h.2.visible⟩

/-- Notes that leave a part of the table alone leave it alone together. -/
theorem foldl_keeps {α β : Type} (part : Resolution → β) {note : Resolution → α → Resolution}
    (h : ∀ table a, part (note table a) = part table) (notes : List α) (table : Resolution) :
    part (notes.foldl note table) = part table := by
  induction notes generalizing table with
  | nil => rfl
  | cons a notes ih => rw [List.foldl_cons, ih, h]

theorem localNames_ensures {locals : Array LocalDecl} (ids : List LocalId) (state : Resolver) :
    Ensures (ids.forM fun id => Functor.discard (localName locals id)) state
      (fun _ => ∃ id ∈ ids, locals.size ≤ id) fun _ after => after = state := by
  refine (Ensures.forM (fun rest after => rest ⊆ ids ∧ after = state) ?_ _ _
    ⟨List.Subset.refl _, rfl⟩).mono fun _ _ h => h.2
  rintro id rest _ ⟨hrest, rfl⟩
  refine Ensures.discards ?_
  rw [localName.eq_def]
  split
  · exact Ensures.pure ⟨fun _ hmem => hrest (List.mem_cons_of_mem _ hmem), rfl⟩
  next hnone =>
    exact Ensures.throw ⟨id, hrest (List.mem_cons_self ..), Array.getElem?_eq_none_iff.1 hnone⟩

/-- The state after the condition of a guarded pattern is noted. -/
def tagged (owner : PatternId) (condition : Expr) (state : Resolver) : Resolver where
  table := condition.guardRecords.foldl (Resolution.setElseOwner · owner ·)
    ((condition.guardNames state.table.identLocals).foldl Resolution.tagGuardName state.table)
  queue := if condition.truth = some false then
    (state.queue.add (Diagnostic.guardAlwaysFalse condition.span)).2 else state.queue

theorem tagged_keeps {γ : Type} (part : Resolution → γ)
    (hname : ∀ table id, part (table.tagGuardName id) = part table)
    (howner : ∀ table owner id, part (table.setElseOwner owner id) = part table)
    (owner : PatternId) (condition : Expr) (state : Resolver) :
    part (tagged owner condition state).table = part state.table :=
  (foldl_keeps part (howner · owner ·) _ _).trans (foldl_keeps part hname _ _)

theorem tagCondition_ensures (locals : Array LocalDecl) (owner : PatternId) (condition : Expr)
    (state : Resolver) : Ensures (tagCondition locals owner condition) state
      (fun _ => ∃ id ∈ condition.allLocals, locals.size ≤ id)
      fun _ after => after = tagged owner condition state := by
  have hnotes : ∀ state : Resolver, Ensures (do
      condition.allLocals.forM fun id => Functor.discard (localName locals id)
      update fun table =>
        (condition.guardNames table.identLocals).foldl Resolution.tagGuardName table
      update fun table => condition.guardRecords.foldl (Resolution.setElseOwner · owner ·) table)
      state (fun _ => ∃ id ∈ condition.allLocals, locals.size ≤ id) fun _ after =>
        after = { tagged owner condition state with queue := state.queue } := by
    intro state
    refine (localNames_ensures _ state).seq ?_
    rintro _ _ rfl
    exact Ensures.modify_bind (Ensures.modifies rfl)
  rw [tagCondition, tagged]
  split
  next => exact Ensures.modify_bind (hnotes _)
  next => exact hnotes state

end Resolver

mutual

theorem Pattern.binding_mem_visits : ∀ (pattern : Pattern) {id : LocalId}, id ∈ pattern.bindings →
    .binding id ∈ pattern.visits
  | .type _ _ binds _, id, h => by
    cases binds with
    | none => simp [Pattern.bindings] at h
    | some binding =>
      rw [Pattern.bindings, List.mem_singleton] at h
      simp [Pattern.visits, h]
  | .record _ _ components _, id, h => by
    rw [Pattern.bindings] at h
    exact List.mem_cons_of_mem _ (Pattern.binding_mem_visitsAll components h)
  | .guarded _ patterns condition _, id, h => by
    rw [Pattern.bindings, Bindings.mem_merge] at h
    refine List.mem_cons_of_mem _ (List.mem_append.2 ?_)
    exact h.imp (Pattern.binding_mem_visitsAll patterns) condition.binding_mem_visits
  | .any .., id, h | .missing _, id, h => by simp [Pattern.bindings] at h

theorem Pattern.binding_mem_visitsAll : ∀ (patterns : List Pattern) {id : LocalId},
    id ∈ Pattern.bindingsAll patterns → .binding id ∈ Pattern.visitsAll patterns
  | [], id, h => by simp [Pattern.bindingsAll] at h
  | pattern :: patterns, id, h => by
    rw [Pattern.bindingsAll, Bindings.mem_merge] at h
    rw [Pattern.visitsAll, List.mem_append]
    exact h.imp pattern.binding_mem_visits (Pattern.binding_mem_visitsAll patterns)

theorem Expr.binding_mem_visits : ∀ (expr : Expr) {outcome : Bool} {id : LocalId},
    id ∈ expr.bindings outcome → .binding id ∈ expr.visits
  | .instanceOf _ _ pattern _, true, id, h => by
    rw [Expr.bindings] at h
    exact Visit.right_subset (pattern.binding_mem_visits h)
  | .unary _ op operand _, outcome, id, h => by
    have hoperand : id ∈ operand.bindings (!outcome) := by
      cases op <;> simp_all [Expr.bindings]
    exact List.mem_cons_of_mem _ (operand.binding_mem_visits hoperand)
  | .binary _ op left right _, outcome, id, h => by
    have hsides : id ∈ left.bindings outcome ∨ id ∈ right.bindings outcome := by
      cases op <;> cases outcome <;> simp_all [Expr.bindings]
    refine List.mem_cons_of_mem _ (List.mem_append.2 ?_)
    exact hsides.imp left.binding_mem_visits right.binding_mem_visits
  | .bool .., outcome, id, h | .int .., outcome, id, h | .ident .., outcome, id, h
  | .field .., outcome, id, h | .call .., outcome, id, h | .missing _, outcome, id, h
  | .instanceOf .., false, id, h => by simp [Expr.bindings] at h

end

/-! ## Answers -/

namespace Resolver

variable {pool : Pool}

/-- A record pattern gets the type of a record with as many components, or else there is
something to report, or its type is an error. -/
theorem recordPattern_sized (written : TypeRef) (arity : Nat) (span : Span) (expected : Ty)
    (state : Resolver) :
    Ensures (recordPattern pool written arity span expected) state (fun _ => True)
      fun answer after => after.queue.IsSilent → answer.1 = Ty.error ∨
        pool.isRecord answer.1 = true ∧ arity = (pool.components answer.1).length := by
  have herror : ∀ {after : Resolver}, Ensures (return (Ty.error, []) : ResolveM (Ty × List Ty))
      after (fun _ => True) fun answer after => after.queue.IsSilent → answer.1 = Ty.error ∨
        pool.isRecord answer.1 = true ∧ arity = (pool.components answer.1).length :=
    Ensures.pure fun _ => .inl rfl
  rw [recordPattern.eq_def]
  split
  next => exact Ensures.modify_bind herror
  next =>
    refine Ensures.skip fun ty after => ?_
    split
    next => exact herror
    next =>
    split
    next => exact Ensures.modify_bind herror
    next hrecord =>
      refine Ensures.skip fun _ after => ?_
      dsimp only
      split
      next => exact Ensures.modify_bind (Ensures.pure fun hnone => by simp at hnone)
      next hlength =>
        refine Ensures.pure fun _ => .inr ⟨by simpa using hrecord, ?_⟩
        rw [not_not, Pool.componentTypes, List.length_map] at hlength
        exact hlength.symm

/-- Truth values have no components. -/
theorem field_reported (span : Span) (name : String) (receiver : Ty) (state : Resolver) :
    Ensures (field pool span receiver name) state (fun _ => True) fun _ after =>
      after.queue.IsSilent → pool.OpaqueBoolean → receiver ≠ Ty.boolean := by
  rw [field]
  split
  next herror =>
    refine Ensures.pure fun _ hopaque heq => ?_
    rw [heq, hopaque.known] at herror
    cases herror
  next =>
    split
    next component hfound =>
      refine Ensures.pure fun _ hopaque heq => ?_
      rw [heq, hopaque.components] at hfound
      cases hfound
    next => exact Ensures.modify_bind (Ensures.pure fun hnone => by simp at hnone)

/-- Truth values are no numbers. -/
theorem neg_reported (span : Span) (operand : ExprId) (ty : Ty) (state : Resolver) :
    Ensures (unary pool span .neg operand ty) state (fun _ => True) fun _ after =>
      after.queue.IsSilent → pool.OpaqueBoolean → ty ≠ Ty.boolean := by
  rw [unary]
  split
  next herror =>
    refine Ensures.pure fun _ hopaque heq => ?_
    rw [heq, hopaque.known] at herror
    cases herror
  next =>
    split
    next promoted hpromoted =>
      refine Ensures.skip fun _ _ => Ensures.pure fun _ hopaque heq => ?_
      rw [heq, hopaque.promote_eq_none] at hpromoted
      cases hpromoted
    next => exact Ensures.modify_bind (Ensures.pure fun hnone => by simp at hnone)

end Resolver

open Resolver in
/-- A condition has the type of truth values. -/
theorem Expr.resolve_boolean {pool : Pool} {locals : Array LocalDecl} (expr : Expr) (scope : Scope)
    (state : Resolver) :
    Ensures (expr.resolve pool locals scope) state (fun _ => True) fun ty _ =>
      expr.IsCondition → ty = Ty.boolean := by
  have hnoted : ∀ (id : ExprId) (ty : Ty) (after : Resolver), ty = Ty.boolean →
      Ensures (exprHas id ty) after (fun _ => True) fun ty _ =>
        expr.IsCondition → ty = Ty.boolean :=
    fun id ty after heq => Ensures.modify_bind (Ensures.pure fun _ => heq)
  cases expr with
  | int | ident | field | call | missing => exact Ensures.always fun _ _ h => h.elim
  | bool id value span =>
    rw [Expr.resolve]
    exact hnoted _ _ _ rfl
  | unary id op operand span =>
    cases op with
    | neg => exact Ensures.always fun _ _ h => h.elim
    | not =>
      rw [Expr.resolve]
      refine Ensures.skip fun operandTy mid => ?_
      rw [Resolver.unary]
      refine Ensures.bind ?_
      refine Ensures.skip fun ok after => ?_
      by_cases hok : (!ok) = true
      · simp only [hok, if_true]
        exact Ensures.modify_bind (Ensures.pure (hnoted _ _ _ rfl))
      · simp only [hok]
        exact Ensures.pure (hnoted _ _ _ rfl)
  | binary id op left right span =>
    by_cases hlogical : op.isLogical = true
    · rw [Expr.resolve]
      refine Ensures.skip fun leftTy mid => ?_
      rw [if_pos hlogical]
      refine Ensures.skip fun inner mid => ?_
      refine Ensures.skip fun rightTy mid => ?_
      refine Ensures.bind ?_
      rw [Resolver.logical]
      refine Ensures.skip fun leftOk mid => ?_
      refine Ensures.skip fun rightOk mid => ?_
      by_cases hok : (!(leftOk && rightOk)) = true
      · simp only [hok, if_true]
        exact Ensures.modify_bind (Ensures.pure (hnoted _ _ _ rfl))
      · simp only [hok]
        exact Ensures.pure (hnoted _ _ _ rfl)
    · exact Ensures.always fun _ _ h => absurd h hlogical
  | instanceOf id tested pattern span =>
    rw [Expr.resolve]
    refine Ensures.skip fun testedTy mid => ?_
    refine Ensures.skip fun _ mid => ?_
    exact hnoted _ _ _ rfl

end GuardedMatch
