import GuardedMatch.Syntax.Arena
import GuardedMatch.Syntax.Walk

/-!
# The trees of an arena

The tree of a number is the node there, over the trees of what the node refers to.  A forest
holds the trees of all numbers at once, so a tree is shared by all that refer to it, and a
number that stands for nothing has a `missing` node for a tree.

First, trees ripen: a tree is complete as soon as the trees of all that its node refers to are
complete.  When no more of them ripen, every node whose tree is not complete refers to another
such node, so it leads into a cycle.  Such trees are then taken deeper level by level, one level
more than there are nodes of this kind.  So a path meets a `missing` node in place of one that
exists only after it has met some node twice.

* `Arena.pattern_forest`, `Arena.expr_forest`: the tree of a node, if it is complete, is the node
  over the trees of what it refers to.
-/

namespace GuardedMatch

/-! ## One level -/

/-- The tree of a node, over the trees of what it refers to. -/
def PatternNode.tree (patternOf : PatternId → Pattern) (exprOf : ExprId → Expr)
    (id : PatternId) : PatternNode → Pattern
  | type ty binds span => .type id ty binds span
  | record ty components span => .record id ty (components.map patternOf) span
  | guarded patterns condition span =>
    .guarded id (patterns.map patternOf) (exprOf condition) span
  | any span => .any id span

/-- The tree of a node, over the trees of what it refers to. -/
def ExprNode.tree (patternOf : PatternId → Pattern) (exprOf : ExprId → Expr) (id : ExprId) :
    ExprNode → Expr
  | bool value span => .bool id value span
  | int value span => .int id value span
  | ident name span => .ident id name span
  | field receiver name span => .field id (exprOf receiver) name span
  | binary op left right span => .binary id op (exprOf left) (exprOf right) span
  | unary op operand span => .unary id op (exprOf operand) span
  | instanceOf tested pattern span => .instanceOf id (exprOf tested) (patternOf pattern) span
  | call callee args result span => .call id callee (args.map exprOf) result span

/-- The tree of a node depends only on the trees of what it refers to. -/
theorem PatternNode.tree_congr {patternOf patternOf' : PatternId → Pattern}
    {exprOf exprOf' : ExprId → Expr} {id : PatternId} {node : PatternNode}
    (hp : ∀ ref ∈ node.patternRefs, patternOf ref = patternOf' ref)
    (he : ∀ ref ∈ node.exprRefs, exprOf ref = exprOf' ref) :
    node.tree patternOf exprOf id = node.tree patternOf' exprOf' id := by
  cases node with
  | type | any => rfl
  | record => simpa [tree, patternRefs] using hp
  | guarded => simpa [tree, patternRefs, exprRefs] using And.intro hp (he _ (by simp [exprRefs]))

/-- The tree of a node depends only on the trees of what it refers to. -/
theorem ExprNode.tree_congr {patternOf patternOf' : PatternId → Pattern}
    {exprOf exprOf' : ExprId → Expr} {id : ExprId} {node : ExprNode}
    (hp : ∀ ref ∈ node.patternRefs, patternOf ref = patternOf' ref)
    (he : ∀ ref ∈ node.exprRefs, exprOf ref = exprOf' ref) :
    node.tree patternOf exprOf id = node.tree patternOf' exprOf' id := by
  cases node with
  | bool | int | ident => rfl
  | field | binary | unary | call => simpa [tree, exprRefs] using he
  | instanceOf =>
    simpa [tree, patternRefs, exprRefs] using
      And.intro (he _ (by simp [exprRefs])) (hp _ (by simp [patternRefs]))

/-! ## Forests -/

/-- A tree, and whether it is complete. -/
structure Growth (α : Type) where
  tree : α
  complete : Bool

/-- The trees of all patterns and expressions, by number, and the declared locals. -/
structure Forest where
  patterns : Array (Growth Pattern)
  exprs : Array (Growth Expr)
  locals : Array LocalDecl

namespace Forest

/-- The tree of a pattern. -/
def pattern (forest : Forest) (id : PatternId) : Pattern :=
  match forest.patterns[id]? with
  | some growth => growth.tree
  | none => .missing id

/-- The tree of an expression. -/
def expr (forest : Forest) (id : ExprId) : Expr :=
  match forest.exprs[id]? with
  | some growth => growth.tree
  | none => .missing id

/-- Whether the tree of a pattern is complete; that of a number that stands for nothing is. -/
def isCompletePattern (forest : Forest) (id : PatternId) : Bool :=
  match forest.patterns[id]? with
  | some growth => growth.complete
  | none => true

/-- Whether the tree of an expression is complete. -/
def isCompleteExpr (forest : Forest) (id : ExprId) : Bool :=
  match forest.exprs[id]? with
  | some growth => growth.complete
  | none => true

/-- Whether the trees of some patterns and expressions are all complete. -/
def areComplete (forest : Forest) (patterns : List PatternId) (exprs : List ExprId) : Bool :=
  patterns.all forest.isCompletePattern && exprs.all forest.isCompleteExpr

/-- The number of trees that are not complete. -/
def openCount (forest : Forest) : Nat :=
  forest.patterns.countP (!·.complete) + forest.exprs.countP (!·.complete)

/-- A bound on the depth of the trees. -/
def depth (forest : Forest) : Nat := forest.patterns.size + forest.exprs.size + 1

end Forest

namespace Arena

/-- A forest of which nothing has grown yet. -/
def bare (arena : Arena) : Forest where
  patterns := arena.patterns.mapIdx fun id _ => ⟨.missing id, false⟩
  exprs := arena.exprs.mapIdx fun id _ => ⟨.missing id, false⟩
  locals := arena.locals

/-! ### Ripening -/

/-- Complete the tree of a pattern, if everything that it refers to is complete. -/
def ripenPattern (arena : Arena) (forest : Forest) (id : PatternId) : Forest :=
  match arena.patterns[id]? with
  | some node =>
    if !forest.isCompletePattern id && forest.areComplete node.patternRefs node.exprRefs then
      let tree := node.tree forest.pattern forest.expr id
      { forest with patterns := forest.patterns.setIfInBounds id ⟨tree, true⟩ }
    else forest
  | none => forest

/-- Complete the tree of an expression, if everything that it refers to is complete. -/
def ripenExpr (arena : Arena) (forest : Forest) (id : ExprId) : Forest :=
  match arena.exprs[id]? with
  | some node =>
    if !forest.isCompleteExpr id && forest.areComplete node.patternRefs node.exprRefs then
      let tree := node.tree forest.pattern forest.expr id
      { forest with exprs := forest.exprs.setIfInBounds id ⟨tree, true⟩ }
    else forest
  | none => forest

/-- Go once through all numbers. -/
def sweep (arena : Arena) (forest : Forest) : Forest :=
  let forest := (List.range arena.patterns.size).foldl arena.ripenPattern forest
  (List.range arena.exprs.size).foldl arena.ripenExpr forest

/-- Go through all numbers until no more trees ripen, at most as often as given. -/
def ripen (arena : Arena) : (sweeps : Nat) → Forest → Forest
  | 0, forest => forest
  | sweeps + 1, forest =>
    let before := forest.openCount
    let swept := arena.sweep forest
    if 0 < swept.openCount ∧ swept.openCount < before then arena.ripen sweeps swept else swept

/-! ### Growing -/

/-- Take the trees that are not complete one level deeper. -/
def grow (arena : Arena) (forest : Forest) : Forest where
  patterns := arena.patterns.mapIdx fun id node =>
    if forest.isCompletePattern id then ⟨forest.pattern id, true⟩
    else ⟨node.tree forest.pattern forest.expr id, false⟩
  exprs := arena.exprs.mapIdx fun id node =>
    if forest.isCompleteExpr id then ⟨forest.expr id, true⟩
    else ⟨node.tree forest.pattern forest.expr id, false⟩
  locals := forest.locals

/-- Take the trees that are not complete some levels deeper. -/
def growBy (arena : Arena) : (levels : Nat) → Forest → Forest
  | 0, forest => forest
  | levels + 1, forest => arena.growBy levels (arena.grow forest)

/-- The trees of an arena, which are known by their laws. -/
@[irreducible]
def forest (arena : Arena) : Forest :=
  let ripe := arena.ripen (arena.nodeCount + 1) arena.bare
  if ripe.openCount = 0 then ripe else arena.growBy (ripe.openCount + 1) ripe

end Arena

/-! ## What complete trees are -/

/-- A forest keeps the complete trees of another. -/
structure Forest.Keeps (forest earlier : Forest) : Prop where
  pattern : ∀ id, earlier.isCompletePattern id = true →
    forest.isCompletePattern id = true ∧ forest.pattern id = earlier.pattern id
  expr : ∀ id, earlier.isCompleteExpr id = true →
    forest.isCompleteExpr id = true ∧ forest.expr id = earlier.expr id

namespace Forest.Keeps

variable {forest earlier : Forest} {patterns : List PatternId} {exprs : List ExprId}

theorem refl (forest : Forest) : forest.Keeps forest :=
  ⟨fun _ hc => ⟨hc, rfl⟩, fun _ hc => ⟨hc, rfl⟩⟩

theorem trans {last : Forest} (h : last.Keeps forest) (h' : forest.Keeps earlier) :
    last.Keeps earlier := by
  refine ⟨fun id hc => ?_, fun id hc => ?_⟩
  · obtain ⟨hc', he'⟩ := h'.pattern id hc
    obtain ⟨hc'', he⟩ := h.pattern id hc'
    exact ⟨hc'', he.trans he'⟩
  · obtain ⟨hc', he'⟩ := h'.expr id hc
    obtain ⟨hc'', he⟩ := h.expr id hc'
    exact ⟨hc'', he.trans he'⟩

theorem pattern_eq (h : forest.Keeps earlier) (hc : earlier.areComplete patterns exprs = true) :
    ∀ ref ∈ patterns, earlier.pattern ref = forest.pattern ref := by
  intro ref href
  rw [areComplete, Bool.and_eq_true, List.all_eq_true] at hc
  exact (h.pattern ref (hc.1 ref href)).2.symm

theorem expr_eq (h : forest.Keeps earlier) (hc : earlier.areComplete patterns exprs = true) :
    ∀ ref ∈ exprs, earlier.expr ref = forest.expr ref := by
  intro ref href
  rw [areComplete, Bool.and_eq_true, List.all_eq_true, List.all_eq_true] at hc
  exact (h.expr ref (hc.2 ref href)).2.symm

theorem areComplete (h : forest.Keeps earlier)
    (hc : earlier.areComplete patterns exprs = true) :
    forest.areComplete patterns exprs = true := by
  rw [Forest.areComplete, Bool.and_eq_true, List.all_eq_true, List.all_eq_true] at hc ⊢
  exact ⟨fun ref href => (h.pattern ref (hc.1 ref href)).1,
    fun ref href => (h.expr ref (hc.2 ref href)).1⟩

end Forest.Keeps

namespace Arena

/-- A forest has a place for every number of the arena and its locals, and complete trees are made
of complete trees as the nodes say. -/
structure IsForest (arena : Arena) (forest : Forest) : Prop where
  patterns_size : forest.patterns.size = arena.patterns.size
  exprs_size : forest.exprs.size = arena.exprs.size
  locals : forest.locals = arena.locals
  pattern : ∀ id node, arena.patterns[id]? = some node → forest.isCompletePattern id = true →
    forest.pattern id = node.tree forest.pattern forest.expr id ∧
      forest.areComplete node.patternRefs node.exprRefs = true
  expr : ∀ id node, arena.exprs[id]? = some node → forest.isCompleteExpr id = true →
    forest.expr id = node.tree forest.pattern forest.expr id ∧
      forest.areComplete node.patternRefs node.exprRefs = true

namespace IsForest

variable {arena : Arena} {forest next : Forest}

/-- It is enough to look at the trees that were not complete before. -/
theorem step (h : arena.IsForest forest) (hk : next.Keeps forest)
    (hp : next.patterns.size = forest.patterns.size)
    (he : next.exprs.size = forest.exprs.size) (hl : next.locals = forest.locals)
    (pattern : ∀ id node, arena.patterns[id]? = some node →
      forest.isCompletePattern id = false → next.isCompletePattern id = true →
      next.pattern id = node.tree forest.pattern forest.expr id ∧
        forest.areComplete node.patternRefs node.exprRefs = true)
    (expr : ∀ id node, arena.exprs[id]? = some node →
      forest.isCompleteExpr id = false → next.isCompleteExpr id = true →
      next.expr id = node.tree forest.pattern forest.expr id ∧
        forest.areComplete node.patternRefs node.exprRefs = true) :
    arena.IsForest next where
  patterns_size := hp.trans h.patterns_size
  exprs_size := he.trans h.exprs_size
  locals := hl.trans h.locals
  pattern id node hnode hc := by
    have tree : next.pattern id = node.tree forest.pattern forest.expr id ∧
        forest.areComplete node.patternRefs node.exprRefs = true := by
      cases hold : forest.isCompletePattern id with
      | false => exact pattern id node hnode hold hc
      | true =>
        have old := h.pattern id node hnode hold
        exact ⟨(hk.pattern id hold).2.trans old.1, old.2⟩
    exact ⟨tree.1.trans (PatternNode.tree_congr (hk.pattern_eq tree.2) (hk.expr_eq tree.2)),
      hk.areComplete tree.2⟩
  expr id node hnode hc := by
    have tree : next.expr id = node.tree forest.pattern forest.expr id ∧
        forest.areComplete node.patternRefs node.exprRefs = true := by
      cases hold : forest.isCompleteExpr id with
      | false => exact expr id node hnode hold hc
      | true =>
        have old := h.expr id node hnode hold
        exact ⟨(hk.expr id hold).2.trans old.1, old.2⟩
    exact ⟨tree.1.trans (ExprNode.tree_congr (hk.pattern_eq tree.2) (hk.expr_eq tree.2)),
      hk.areComplete tree.2⟩

end IsForest

theorem isForest_bare (arena : Arena) : arena.IsForest arena.bare where
  patterns_size := by simp [bare]
  exprs_size := by simp [bare]
  locals := rfl
  pattern id node hnode hc := by
    simp [Forest.isCompletePattern, bare, hnode] at hc
  expr id node hnode hc := by
    simp [Forest.isCompleteExpr, bare, hnode] at hc

/-! ### What one step of ripening does -/

theorem ripenPattern_cases (arena : Arena) (forest : Forest) (id : PatternId) :
    arena.ripenPattern forest id = forest ∨
      ∃ node, arena.patterns[id]? = some node ∧ forest.isCompletePattern id = false ∧
        forest.areComplete node.patternRefs node.exprRefs = true ∧
        arena.ripenPattern forest id =
          { forest with
            patterns := forest.patterns.setIfInBounds id
              ⟨node.tree forest.pattern forest.expr id, true⟩ } := by
  rw [ripenPattern]
  split
  next node hnode =>
    split
    next hc =>
      rw [Bool.and_eq_true, Bool.not_eq_true'] at hc
      exact Or.inr ⟨node, hnode, hc.1, hc.2, rfl⟩
    next => exact Or.inl rfl
  next => exact Or.inl rfl

theorem ripenExpr_cases (arena : Arena) (forest : Forest) (id : ExprId) :
    arena.ripenExpr forest id = forest ∨
      ∃ node, arena.exprs[id]? = some node ∧ forest.isCompleteExpr id = false ∧
        forest.areComplete node.patternRefs node.exprRefs = true ∧
        arena.ripenExpr forest id =
          { forest with
            exprs := forest.exprs.setIfInBounds id
              ⟨node.tree forest.pattern forest.expr id, true⟩ } := by
  rw [ripenExpr]
  split
  next node hnode =>
    split
    next hc =>
      rw [Bool.and_eq_true, Bool.not_eq_true'] at hc
      exact Or.inr ⟨node, hnode, hc.1, hc.2, rfl⟩
    next => exact Or.inl rfl
  next => exact Or.inl rfl

theorem keeps_ripenPattern (arena : Arena) (forest : Forest) (id : PatternId) :
    (arena.ripenPattern forest id).Keeps forest := by
  rcases arena.ripenPattern_cases forest id with h | ⟨node, _, hopen, _, h⟩
  · rw [h]
    exact .refl forest
  · rw [h]
    refine ⟨fun id' hc => ?_, fun id' hc => ⟨hc, rfl⟩⟩
    have : id ≠ id' := by
      rintro rfl
      exact absurd (hopen.symm.trans hc) (by decide)
    simp only [Forest.isCompletePattern, Forest.pattern] at hc ⊢
    rw [Array.getElem?_setIfInBounds_ne this]
    exact ⟨hc, rfl⟩

theorem keeps_ripenExpr (arena : Arena) (forest : Forest) (id : ExprId) :
    (arena.ripenExpr forest id).Keeps forest := by
  rcases arena.ripenExpr_cases forest id with h | ⟨node, _, hopen, _, h⟩
  · rw [h]
    exact .refl forest
  · rw [h]
    refine ⟨fun id' hc => ⟨hc, rfl⟩, fun id' hc => ?_⟩
    have : id ≠ id' := by
      rintro rfl
      exact absurd (hopen.symm.trans hc) (by decide)
    simp only [Forest.isCompleteExpr, Forest.expr] at hc ⊢
    rw [Array.getElem?_setIfInBounds_ne this]
    exact ⟨hc, rfl⟩

namespace IsForest

variable {arena : Arena} {forest : Forest}

theorem ripenPattern (h : arena.IsForest forest) (id : PatternId) :
    arena.IsForest (arena.ripenPattern forest id) := by
  have hk := arena.keeps_ripenPattern forest id
  rcases arena.ripenPattern_cases forest id with he | ⟨node, hnode, _, hrefs, he⟩
  · rw [he]
    exact h
  · rw [he] at hk ⊢
    refine h.step hk (by simp) rfl rfl (fun id' node' hnode' hopen hc' => ?_)
      (fun id' node' _ hopen hc' => absurd (hopen.symm.trans hc') (by decide))
    by_cases hid : id = id'
    · subst hid
      obtain rfl : node = node' := Option.some.inj (hnode.symm.trans hnode')
      have hlt : id < forest.patterns.size := by
        rw [h.patterns_size]
        exact (Array.getElem?_eq_some_iff.1 hnode).1
      refine ⟨?_, hrefs⟩
      rw [Forest.pattern, Array.getElem?_setIfInBounds_self_of_lt hlt]
    · simp only [Forest.isCompletePattern] at hopen hc'
      rw [Array.getElem?_setIfInBounds_ne hid] at hc'
      exact absurd (hopen.symm.trans hc') (by decide)

theorem ripenExpr (h : arena.IsForest forest) (id : ExprId) :
    arena.IsForest (arena.ripenExpr forest id) := by
  have hk := arena.keeps_ripenExpr forest id
  rcases arena.ripenExpr_cases forest id with he | ⟨node, hnode, _, hrefs, he⟩
  · rw [he]
    exact h
  · rw [he] at hk ⊢
    refine h.step hk rfl (by simp) rfl
      (fun id' node' _ hopen hc' => absurd (hopen.symm.trans hc') (by decide))
      (fun id' node' hnode' hopen hc' => ?_)
    by_cases hid : id = id'
    · subst hid
      obtain rfl : node = node' := Option.some.inj (hnode.symm.trans hnode')
      have hlt : id < forest.exprs.size := by
        rw [h.exprs_size]
        exact (Array.getElem?_eq_some_iff.1 hnode).1
      refine ⟨?_, hrefs⟩
      rw [Forest.expr, Array.getElem?_setIfInBounds_self_of_lt hlt]
    · simp only [Forest.isCompleteExpr] at hopen hc'
      rw [Array.getElem?_setIfInBounds_ne hid] at hc'
      exact absurd (hopen.symm.trans hc') (by decide)

theorem sweep (h : arena.IsForest forest) : arena.IsForest (arena.sweep forest) := by
  have patterns : ∀ (ids : List PatternId) (forest : Forest), arena.IsForest forest →
      arena.IsForest (ids.foldl arena.ripenPattern forest) := by
    intro ids
    induction ids with
    | nil => exact fun _ h => h
    | cons id ids ih => exact fun _ h => ih _ (h.ripenPattern id)
  have exprs : ∀ (ids : List ExprId) (forest : Forest), arena.IsForest forest →
      arena.IsForest (ids.foldl arena.ripenExpr forest) := by
    intro ids
    induction ids with
    | nil => exact fun _ h => h
    | cons id ids ih => exact fun _ h => ih _ (h.ripenExpr id)
  exact exprs _ _ (patterns _ _ h)

theorem ripen (h : arena.IsForest forest) (sweeps : Nat) :
    arena.IsForest (arena.ripen sweeps forest) := by
  induction sweeps generalizing forest with
  | zero => exact h
  | succ sweeps ih =>
    rw [Arena.ripen]
    split
    next => exact ih h.sweep
    next => exact h.sweep

theorem isCompletePattern_grow (h : arena.IsForest forest) (id : PatternId) :
    (arena.grow forest).isCompletePattern id = forest.isCompletePattern id := by
  rw [Forest.isCompletePattern, Arena.grow, Array.getElem?_mapIdx]
  cases hnode : arena.patterns[id]? with
  | none =>
    rw [Array.getElem?_eq_none_iff, ← h.patterns_size, ← Array.getElem?_eq_none_iff] at hnode
    rw [Forest.isCompletePattern, hnode]
    rfl
  | some node => cases forest.isCompletePattern id <;> simp

theorem isCompleteExpr_grow (h : arena.IsForest forest) (id : ExprId) :
    (arena.grow forest).isCompleteExpr id = forest.isCompleteExpr id := by
  rw [Forest.isCompleteExpr, Arena.grow, Array.getElem?_mapIdx]
  cases hnode : arena.exprs[id]? with
  | none =>
    rw [Array.getElem?_eq_none_iff, ← h.exprs_size, ← Array.getElem?_eq_none_iff] at hnode
    rw [Forest.isCompleteExpr, hnode]
    rfl
  | some node => cases forest.isCompleteExpr id <;> simp

theorem grow (h : arena.IsForest forest) : arena.IsForest (arena.grow forest) := by
  have patterns := h.isCompletePattern_grow
  have exprs := h.isCompleteExpr_grow
  refine h.step ⟨fun id hc => ⟨(patterns id).trans hc, ?_⟩, fun id hc => ⟨(exprs id).trans hc, ?_⟩⟩
    (by simp [Arena.grow, h.patterns_size]) (by simp [Arena.grow, h.exprs_size]) rfl
    (fun id _ _ hopen hc => absurd (hopen.symm.trans ((patterns id).symm.trans hc)) (by decide))
    (fun id _ _ hopen hc => absurd (hopen.symm.trans ((exprs id).symm.trans hc)) (by decide))
  · rw [Forest.pattern, Arena.grow, Array.getElem?_mapIdx]
    cases hnode : arena.patterns[id]? with
    | none =>
      rw [Array.getElem?_eq_none_iff, ← h.patterns_size, ← Array.getElem?_eq_none_iff] at hnode
      rw [Forest.pattern, hnode]
      rfl
    | some node => simp [hc]
  · rw [Forest.expr, Arena.grow, Array.getElem?_mapIdx]
    cases hnode : arena.exprs[id]? with
    | none =>
      rw [Array.getElem?_eq_none_iff, ← h.exprs_size, ← Array.getElem?_eq_none_iff] at hnode
      rw [Forest.expr, hnode]
      rfl
    | some node => simp [hc]

theorem growBy (h : arena.IsForest forest) (levels : Nat) :
    arena.IsForest (arena.growBy levels forest) := by
  induction levels generalizing forest with
  | zero => exact h
  | succ levels ih => exact ih h.grow

end IsForest

theorem isForest_forest (arena : Arena) : arena.IsForest arena.forest := by
  have ripe := (isForest_bare arena).ripen (arena.nodeCount + 1)
  rw [forest]
  split
  next => exact ripe
  next => exact ripe.growBy _

/-- A complete tree of a pattern is its node over the trees of what the node refers to. -/
theorem pattern_forest {arena : Arena} {id : PatternId} {node : PatternNode}
    (hnode : arena.patterns[id]? = some node)
    (hc : arena.forest.isCompletePattern id = true) :
    arena.forest.pattern id = node.tree arena.forest.pattern arena.forest.expr id :=
  ((isForest_forest arena).pattern id node hnode hc).1

/-- A complete tree of an expression is its node over the trees of what the node refers to. -/
theorem expr_forest {arena : Arena} {id : ExprId} {node : ExprNode}
    (hnode : arena.exprs[id]? = some node)
    (hc : arena.forest.isCompleteExpr id = true) :
    arena.forest.expr id = node.tree arena.forest.pattern arena.forest.expr id :=
  ((isForest_forest arena).expr id node hnode hc).1

end Arena

/-! ## Whole trees -/

namespace Forest

/-- The tree of a pattern in which every reference can be followed. -/
def wholePattern (forest : Forest) (id : PatternId) : Except Fault Pattern :=
  match (forest.pattern id).fault? forest.locals.size with
  | some fault => .error fault
  | none => .ok (forest.pattern id)

/-- The tree of an expression in which every reference can be followed. -/
def wholeExpr (forest : Forest) (id : ExprId) : Except Fault Expr :=
  match (forest.expr id).fault? forest.locals.size with
  | some fault => .error fault
  | none => .ok (forest.expr id)

/-- The name of a local; a local that is not declared has none. -/
def localName (forest : Forest) (id : LocalId) : String :=
  match forest.locals[id]? with
  | some decl => decl.name
  | none => ""

end Forest

end GuardedMatch
