import GuardedMatch.Proofs.Owning
import GuardedMatch.Proofs.Tallying

/-!
# Names in conditions

A condition is read once more when it has been resolved, to note the names in it that mean locals
and the fields of such names.  Conditions of guards that stand inside of it are read again with it.
Where every node is referred to once, no name gets another meaning later, so in the end just those
names and fields are noted that are in some condition.

* `Resolver.Course.exists_read`: a name means the innermost local of the name that it can see.
* `Resolver.Course.mem_guardNames`: what is noted are the names in the conditions that are met.
-/

namespace GuardedMatch

namespace Visit

variable {visits visits' : List Visit} {map map' : IdMap LocalId} {id : ExprId}

/-- A name or a field in the condition of a guarded pattern that is met. -/
def Tagged (visits : List Visit) (map : IdMap LocalId) (id : ExprId) : Prop :=
  ∃ guard patterns condition span, .pattern (.guarded guard patterns condition span) ∈ visits ∧
    id ∈ condition.guardNames map

theorem Tagged.mono (h : Tagged visits map id) (hsub : visits ⊆ visits') :
    Tagged visits' map id := by
  obtain ⟨guard, patterns, condition, span, hvisit, hid⟩ := h
  exact ⟨guard, patterns, condition, span, hsub hvisit, hid⟩

theorem tagged_append : Tagged (visits ++ visits') map id ↔
    Tagged visits map id ∨ Tagged visits' map id := by
  simp only [Tagged, List.mem_append, or_and_right, exists_or]

theorem tagged_guarded {guard : PatternId} {patterns : List Pattern} {condition : Expr}
    {span : Span} : Tagged (.pattern (.guarded guard patterns condition span) :: visits) map id ↔
      id ∈ condition.guardNames map ∨ Tagged visits map id := by
  constructor
  · rintro ⟨guard', patterns', condition', span', hvisit, hid⟩
    rcases List.mem_cons.mp hvisit with heq | hvisit
    · cases heq
      exact .inl hid
    · exact .inr ⟨guard', patterns', condition', span', hvisit, hid⟩
  · rintro (hid | htagged)
    · exact ⟨guard, patterns, condition, span, List.mem_cons_self, hid⟩
    · exact htagged.mono (List.subset_cons_self ..)

theorem Distinct.exprs_ne (h : Distinct (visits ++ visits')) {expr other : Expr}
    (hexpr : .expr expr ∈ visits) (hother : .expr other ∈ visits') : other.id ≠ expr.id := by
  rw [Distinct, List.filterMap_append, List.nodup_append] at h
  exact fun heq => h.2.2 (.expr expr.id) (List.mem_filterMap.mpr ⟨_, hexpr, rfl⟩) (.expr other.id)
    (List.mem_filterMap.mpr ⟨_, hother, rfl⟩) (congrArg _ heq.symm)

end Visit

theorem Expr.mem_guardNames {map : IdMap LocalId} {condition : Expr} {id : ExprId} :
    id ∈ condition.guardNames map ↔
      ∃ expr, .expr expr ∈ condition.visits ∧ expr.readsLocal map = true ∧ expr.id = id := by
  simp only [Expr.guardNames, List.mem_map, List.mem_filter, List.mem_filterMap]
  constructor
  · rintro ⟨expr, ⟨⟨visit, hvisit, hexpr⟩, hreads⟩, rfl⟩
    cases visit with
    | expr other =>
      obtain rfl := Option.some.inj hexpr
      exact ⟨other, hvisit, hreads, rfl⟩
    | pattern | binding => cases hexpr
  · rintro ⟨expr, hvisit, hreads, rfl⟩
    exact ⟨expr, ⟨⟨_, hvisit, rfl⟩, hreads⟩, rfl⟩

/-- What names mean elsewhere does not matter. -/
theorem Expr.guardNames_congr {map map' : IdMap LocalId} {condition : Expr}
    (h : ∀ expr, .expr expr ∈ condition.visits → map'[expr.id]? = map[expr.id]?) :
    condition.guardNames map' = condition.guardNames map := by
  have hcontains : ∀ expr, .expr expr ∈ condition.visits →
      map'.contains expr.id = map.contains expr.id := fun expr hexpr => by
    rw [Std.ExtTreeMap.contains_eq_isSome_getElem?, h expr hexpr,
      Std.ExtTreeMap.contains_eq_isSome_getElem?]
  refine congrArg (List.map Expr.id) (List.filter_congr fun expr hexpr => ?_)
  obtain ⟨visit, hvisit, hsome⟩ := List.mem_filterMap.mp hexpr
  cases visit with
  | expr other =>
    obtain rfl := Option.some.inj hsome
    cases other with
    | ident id name span => exact hcontains _ hvisit
    | field id receiver name span =>
      exact hcontains receiver ((condition.below_sublist hvisit).subset
        (List.mem_cons_of_mem _ (Expr.self_mem_visits receiver)))
    | bool | int | binary | unary | instanceOf | call | missing => rfl
  | pattern | binding => cases hsome

theorem Visit.Whole.tagged_congr {visits : List Visit} (hwhole : Visit.Whole visits)
    {map map' : IdMap LocalId}
    (h : ∀ expr, .expr expr ∈ visits → map'[expr.id]? = map[expr.id]?) (id : ExprId) :
    Visit.Tagged visits map' id ↔ Visit.Tagged visits map id := by
  refine exists_congr fun guard => exists_congr fun patterns => exists_congr fun condition =>
    exists_congr fun span => and_congr_right fun hvisit => ?_
  rw [Expr.guardNames_congr fun expr hexpr => h expr (hwhole guard patterns condition span hvisit
    (Visit.right_subset hexpr))]

namespace Resolver

theorem mem_tagged_guardNames (owner : PatternId) (condition : Expr) (state : Resolver)
    (id : ExprId) : id ∈ (tagged owner condition state).table.guardNames ↔
      id ∈ condition.guardNames state.table.identLocals ∨ id ∈ state.table.guardNames := by
  have hfold : ∀ (ids : List ExprId) (table : Resolution),
      id ∈ (ids.foldl Resolution.tagGuardName table).guardNames ↔
        id ∈ ids ∨ id ∈ table.guardNames := by
    intro ids
    induction ids with
    | nil => simp
    | cons first ids ih =>
      intro table
      rw [List.foldl_cons, ih, Resolution.tagGuardName, Std.ExtTreeSet.mem_insert, List.mem_cons,
        Nat.compare_eq_eq]
      tauto
  have howners : ∀ (records : List PatternId) (table : Resolution),
      (records.foldl (Resolution.setElseOwner · owner ·) table).guardNames = table.guardNames :=
    foldl_keeps (·.guardNames) (by intros; rfl)
  rw [tagged, howners, hfold]

namespace Course

variable {pool : Pool} {locals : Array LocalDecl} {outer : Scope} {visits : List Visit}
  {reads : List Read} {state after : Resolver}

/-- **A name means the innermost local of the name that is visible where it is read.** -/
theorem exists_read (h : Course pool locals outer visits reads state after) {id : ExprId}
    {target : LocalId} (hmeans : after.table.identLocals[id]? = some target) :
    state.table.identLocals[id]? = some target ∨ ∃ name span inner,
      .expr (.ident id name span) ∈ visits ∧ ⟨id, outer.locals ++ inner⟩ ∈ reads ∧
      Innermost (outer.names ++ inner.map (declared locals)) name target := by
  induction h with
  | refl | binding | pattern | expr | skip => exact .inl hmeans
  | @change state change hchange =>
    cases change with
    | report | conversion => exact .inl hmeans
    | patternType | exprType | localType | identLocal => exact hchange.elim
  | @ident state other name span inner _ hinnermost ty =>
    by_cases heq : other = id
    · subst heq
      have hsame := Option.some.inj (Std.ExtTreeMap.getElem?_insert_self.symm.trans hmeans)
      exact .inr ⟨name, span, inner, List.mem_singleton_self _, List.mem_singleton_self _,
        hsame ▸ hinnermost⟩
    · exact .inl ((getElem?_insert_of_ne heq).symm.trans hmeans)
  | trans _ _ ih ih' =>
    rcases ih' hmeans with hmid | ⟨name, span, inner, hvisit, hread, hinnermost⟩
    · refine (ih hmid).imp_right ?_
      rintro ⟨name, span, inner, hvisit, hread, hinnermost⟩
      exact ⟨name, span, inner, List.mem_append_left _ hvisit, List.mem_append_left _ hread,
        hinnermost⟩
    · exact .inr ⟨name, span, inner, List.mem_append_right _ hvisit, List.mem_append_right _ hread,
        hinnermost⟩
  | perm _ hperm ih =>
    exact (ih hmeans).imp_right fun ⟨name, span, inner, hvisit, hrest⟩ =>
      ⟨name, span, inner, hperm.subset hvisit, hrest⟩
  | enter span ty _ _ _ ih ih' =>
    rw [tagged_keeps (·.identLocals) (fun _ _ => rfl) (fun _ _ _ => rfl)] at hmeans
    rcases ih' hmeans with hmid | ⟨name, span, inner, hvisit, hread, hinnermost⟩
    · refine (ih hmid).imp_right ?_
      rintro ⟨name, span, inner, hvisit, hread, hinnermost⟩
      exact ⟨name, span, inner, Visit.left_subset hvisit,
        List.mem_append_left _ hread, hinnermost⟩
    · exact .inr ⟨name, span, inner, Visit.right_subset hvisit,
        List.mem_append_right _ hread, hinnermost⟩

/-- **What is noted are the names and fields in the conditions of the guarded patterns that are
met**, if they are met for the first time. -/
theorem mem_guardNames (h : Course pool locals outer visits reads state after)
    (hdistinct : Visit.Distinct visits) (hfresh : state.table.Fresh visits) (id : ExprId) :
    id ∈ after.table.guardNames ↔
      id ∈ state.table.guardNames ∨ Visit.Tagged visits after.table.identLocals id := by
  induction h with
  | refl state => simp [Visit.Tagged]
  | @change state change hchange =>
    cases change with
    | report | conversion => simp [Visit.Tagged, Change.apply, Resolution.setConversion]
    | patternType | exprType | localType | identLocal => exact hchange.elim
  | binding | expr | ident =>
    simp [Visit.Tagged, Change.apply, Resolution.setLocalType, Resolution.setExprType,
      Resolution.setIdentLocal]
  | pattern state hunguarded ty =>
    refine (or_iff_left ?_).symm
    rintro ⟨guard, patterns, condition, span, hvisit, -⟩
    exact hunguarded guard patterns condition span
      (Visit.pattern.inj (List.mem_singleton.mp hvisit)).symm
  | trans hcourse hcourse' ih ih' =>
    obtain ⟨hfirst, hrest, hapart⟩ := hdistinct.append
    rw [ih' hrest (hcourse.fresh (hfresh.mono (List.subset_append_right ..)) hapart),
      ih hfirst (hfresh.mono (List.subset_append_left ..)), Visit.tagged_append, or_assoc,
      ← hcourse.whole.tagged_congr (fun expr hexpr => hcourse'.touches.idents expr.id
        fun _ hother => hdistinct.exprs_ne hexpr hother) id]
  | perm _ hperm ih =>
    rw [ih ((hperm.filterMap _).nodup_iff.mpr hdistinct) (hfresh.mono hperm.subset)]
    exact or_congr_right ⟨(·.mono hperm.subset), (·.mono hperm.symm.subset)⟩
  | @skip state guard patterns condition span reads hguard =>
    exact absurd hguard (hfresh guard patterns condition span (Pattern.self_mem_visits _))
  | @enter guard patterns condition span ty _ _ state mid last _ hcourse hcourse' ih ih' =>
    have hbelow := (Visit.Distinct.cons hdistinct).1
    obtain ⟨hpatterns, hcondition, -⟩ := hbelow.append
    have hmid : id ∈ ((Change.patternType guard ty).apply mid).table.guardNames ↔
        id ∈ state.table.guardNames ∨
          Visit.Tagged (Pattern.visitsAll patterns) mid.table.identLocals id :=
      ih hpatterns (hfresh.mono Visit.left_subset)
    have hsame : Visit.Tagged (Pattern.visitsAll patterns) last.table.identLocals id ↔
        Visit.Tagged (Pattern.visitsAll patterns) mid.table.identLocals id :=
      hcourse.whole.tagged_congr (fun expr hexpr => hcourse'.touches.idents expr.id
        fun _ hother => hbelow.exprs_ne hexpr hother) id
    rw [tagged_keeps (·.identLocals) (fun _ _ => rfl) (fun _ _ _ => rfl), mem_tagged_guardNames,
      ih' hcondition (hcourse.fresh_condition hdistinct hfresh ty), hmid, ← hsame, Pattern.visits,
      Visit.tagged_guarded, Visit.tagged_append, or_assoc, or_left_comm]

end Course

end Resolver

/-! ## Arenas -/

namespace Arena.Acyclic

variable {arena : Arena}

/-- A name that means a local, or a field of such a name. -/
theorem readsLocal_iff (h : arena.Acyclic) (map : IdMap LocalId) (id : ExprId) :
    (arena.forest.expr id).readsLocal map = true ↔
      (∃ name span, arena.exprs[id]? = some (.ident name span) ∧ id ∈ map) ∨
      ∃ receiver name span, arena.exprs[id]? = some (.field receiver name span) ∧
        receiver ∈ map := by
  cases hnode : arena.exprs[id]? with
  | none => simp [expr_of_none hnode, Expr.readsLocal]
  | some node =>
    rw [h.expr_eq hnode]
    cases node with
    | ident | bool | int | binary | unary | instanceOf | call =>
      simp [ExprNode.tree, Expr.readsLocal]
    | field receiver name span => simp [ExprNode.tree, Expr.readsLocal, h.id_expr]

/-- The names and fields in conditions, in terms of the arena. -/
theorem tagged_iff (h : arena.Acyclic) {node : Node} {map : IdMap LocalId} {id : ExprId} :
    Visit.Tagged (arena.forest.visitsOf node) map id ↔
      (∃ guard patterns condition span,
        Relation.ReflTransGen arena.Refers node (.pattern guard) ∧
        arena.patterns[guard]? = some (.guarded patterns condition span) ∧
        Relation.ReflTransGen arena.Refers (.expr condition) (.expr id)) ∧
      ((∃ name span, arena.exprs[id]? = some (.ident name span) ∧ id ∈ map) ∨
        ∃ receiver name span, arena.exprs[id]? = some (.field receiver name span) ∧
          receiver ∈ map) := by
  rw [← h.readsLocal_iff]
  constructor
  · rintro ⟨guard, patterns, condition, span, hvisit, hid⟩
    obtain ⟨expr, hexpr, hreads, rfl⟩ := Expr.mem_guardNames.mp hid
    obtain ⟨hpath, patterns', conditionId, span', hnode, rfl⟩ :=
      h.guarded_visit_iff.mp ⟨patterns, span, hvisit⟩
    have hown : arena.forest.expr expr.id = expr := h.closed (.expr conditionId) _ hexpr
    refine ⟨⟨guard, patterns', conditionId, span', hpath, hnode, ?_⟩, by rwa [hown]⟩
    exact (h.grounded (.expr conditionId)).reaches_of_mem_nodesOf
      (List.mem_filterMap.mpr ⟨_, hexpr, rfl⟩)
  · rintro ⟨⟨guard, patterns, conditionId, span, hpath, hnode, hpath'⟩, hreads⟩
    obtain ⟨patterns', span', hvisit⟩ :=
      h.guarded_visit_iff.mpr ⟨hpath, patterns, conditionId, span, hnode, rfl⟩
    exact ⟨guard, patterns', _, span', hvisit, Expr.mem_guardNames.mpr
      ⟨_, h.visit_mem hpath', hreads, h.id_expr id⟩⟩

end Arena.Acyclic

/-- Where no node is met twice, a name is read in one place. -/
theorem Pattern.read_unique {pattern : Pattern} (h : Visit.Distinct pattern.visits)
    {visible : List LocalId} {read read' : Read} (hread : read ∈ pattern.reads visible)
    (hread' : read' ∈ pattern.reads visible) (heq : read.id = read'.id) : read = read' := by
  have hnodup : ((pattern.reads visible).map Read.node).Nodup :=
    List.Nodup.sublist (pattern.node_reads_sublist visible) h
  exact List.inj_on_of_nodup_map hnodup hread hread' (congrArg Node.expr heq)

namespace Resolution

/-- **The names that are noted are those that mean locals in conditions, and the fields of such
names.**  Every such name means the innermost local of its name among those that are visible where
it is read: the locals of the scope, and then the further ones that are bound on the way to the name
by the sub-patterns of guards and by left operands. -/
theorem exists_resolvePattern_named {arena : Arena} (hrange : arena.InRange)
    (hacyclic : arena.Acyclic) (hnodes : (arena.references []).Nodup) (pool : Pool)
    {id : PatternId} (hid : .pattern id ∈ arena.nodes) (expected : Ty) (scope : Scope) :
    ∃ resolved, arena.forest.resolvePattern pool .empty id expected scope = .ok resolved ∧
      (∀ expr, expr ∈ resolved.table.guardNames ↔
        (∃ guard patterns condition span,
          Relation.ReflTransGen arena.Refers (.pattern id) (.pattern guard) ∧
          arena.patterns[guard]? = some (.guarded patterns condition span) ∧
          Relation.ReflTransGen arena.Refers (.expr condition) (.expr expr)) ∧
        ((∃ name span, arena.exprs[expr]? = some (.ident name span) ∧
            expr ∈ resolved.table.identLocals) ∨
          ∃ receiver name span, arena.exprs[expr]? = some (.field receiver name span) ∧
            receiver ∈ resolved.table.identLocals)) ∧
      ∀ expr ∈ resolved.table.guardNames, ∀ name span,
        arena.exprs[expr]? = some (.ident name span) → ∃ target inner,
          resolved.table.identLocals[expr]? = some target ∧
          (∀ visible, ⟨expr, visible⟩ ∈ (arena.forest.pattern id).reads scope.locals ↔
            visible = scope.locals ++ inner) ∧
          Innermost (scope.names ++ inner.map (declared arena.locals)) name target := by
  have hdistinct : Visit.Distinct (arena.forest.pattern id).visits :=
    (hacyclic.grounded (.pattern id)).nodup_nodesOf hnodes
  have hnode : (Request.pattern id expected scope).node ∈ arena.nodes := hid
  obtain ⟨ty, after, hrun, hcourse⟩ :=
    exists_resolve hrange hacyclic pool hnode ⟨.empty, .new .unlimited⟩
  have hresolved : arena.forest.resolvePattern pool .empty id expected scope =
      .ok ⟨ty, after.table, after.queue.diagnostics⟩ := by
    rw [Request.resolve] at hrun
    rw [Forest.resolvePattern, run, hrun]
  have htagged : ∀ expr, expr ∈ after.table.guardNames ↔
      Visit.Tagged (arena.forest.visitsOf (.pattern id)) after.table.identLocals expr := by
    intro expr
    have hnames := hcourse.mem_guardNames hdistinct (fresh_empty _) expr
    rwa [or_iff_right (by simp [Resolution.empty])] at hnames
  refine ⟨_, hresolved, fun expr => (htagged expr).trans hacyclic.tagged_iff, ?_⟩
  intro expr hexpr name span hnode
  have hmeans : expr ∈ after.table.identLocals := by
    rcases (hacyclic.tagged_iff.mp ((htagged expr).mp hexpr)).2 with ⟨_, _, -, hmeans⟩ | hfield
    · exact hmeans
    · obtain ⟨receiver, name', span', hfield, -⟩ := hfield
      cases hnode.symm.trans hfield
  have htarget := Std.ExtTreeMap.getElem?_eq_some_getElem hmeans
  obtain ⟨name', span', inner, hvisit, hread, hinnermost⟩ :=
    (hcourse.exists_read htarget).resolve_left (by simp [Resolution.empty])
  have hown : arena.forest.expr expr = .ident expr name' span' := hacyclic.closed _ _ hvisit
  rw [hacyclic.expr_eq hnode] at hown
  obtain ⟨-, rfl, rfl⟩ := Expr.ident.inj hown
  rw [(Arena.isForest_forest arena).locals] at hinnermost
  refine ⟨_, inner, htarget, fun visible => ⟨fun hread' => ?_, fun heq => heq ▸ hread⟩, hinnermost⟩
  exact congrArg Read.visible (Pattern.read_unique hdistinct hread' hread rfl)

/-- Three locals have the same name: one is bound outside, one by the sub-pattern and one on the
left of `&&`, in `(Object shape && (shape instanceof Box shape && shape instanceof Dot))`. -/
def hiddenShapes : Arena where
  patterns := #[.type ⟨some "Object", Span.none⟩ (some 1) Span.none,
    .type ⟨some "Box", Span.none⟩ (some 2) Span.none, .type ⟨some "Dot", Span.none⟩ none Span.none,
    .guarded [0] 4 Span.none]
  exprs := #[.ident "shape" Span.none, .instanceOf 0 1 Span.none, .ident "shape" Span.none,
    .instanceOf 2 2 Span.none, .binary .and 1 3 Span.none]
  locals := #[⟨"shape", Span.none⟩, ⟨"shape", Span.none⟩, ⟨"shape", Span.none⟩]

/-- The name on the left means the local of the sub-pattern, that on the right the one that is bound
on the left. -/
theorem exists_resolvePattern_hiddenShapes_named : (hiddenShapes.references []).Nodup ∧
    ∃ resolved, hiddenShapes.forest.resolvePattern Pool.shapes .empty 3 Ty.object
        (Scope.empty.declare ⟨"shape", 0, Ty.object⟩) = .ok resolved ∧
      resolved.table.guardNames.toList = [0, 2] ∧ resolved.table.identLocals[0]? = some 1 ∧
      resolved.table.identLocals[2]? = some 2 ∧ ∃ inner : List LocalId,
        Innermost ([("shape", 0)] ++ inner.map (declared hiddenShapes.locals)) "shape" 2 := by
  have hnodes : (hiddenShapes.references []).Nodup := by decide
  have hacyclic : hiddenShapes.Acyclic := Arena.acyclic_of_rank
    (Node.rank (fun id => id / 3 * 6) fun id => id + 1) (by decide)
  obtain ⟨resolved, hresolved, -, hmeans⟩ := exists_resolvePattern_named
    (Arena.inRange_of_nodes (by decide)) hacyclic hnodes Pool.shapes
    (by decide : Node.pattern 3 ∈ hiddenShapes.nodes) Ty.object
    (Scope.empty.declare ⟨"shape", 0, Ty.object⟩)
  have hnotes : (hiddenShapes.forest.resolvePattern Pool.shapes .empty 3 Ty.object
      (Scope.empty.declare ⟨"shape", 0, Ty.object⟩)).toOption.map (fun resolved =>
        (resolved.table.guardNames.toList, resolved.table.identLocals[0]?,
          resolved.table.identLocals[2]?)) = some ([0, 2], some 1, some 2) := by
    decide +kernel
  rw [hresolved] at hnotes
  obtain ⟨hnames, hlocals⟩ := Prod.mk.inj (Option.some.inj hnotes)
  obtain ⟨hleft, hright⟩ := Prod.mk.inj hlocals
  have htagged : 2 ∈ resolved.table.guardNames := by
    rw [← Std.ExtTreeSet.mem_toList, hnames]
    decide
  obtain ⟨target, inner, htarget, -, hinnermost⟩ := hmeans 2 htagged "shape" Span.none rfl
  obtain rfl := Option.some.inj (htarget.symm.trans hright)
  exact ⟨hnodes, resolved, hresolved, hnames, hleft, hright, inner, hinnermost⟩

end Resolution

end GuardedMatch
