import GuardedMatch.Proofs.Analysing
import GuardedMatch.Proofs.References

/-!
# Trees without gaps

References may lead into a cycle.  The tree of a node from which one gets there is cut off
somewhere, and where it is cut off there is a gap.  A tree without gaps is what it would be if there
were no cycles: its node over the trees of what the node refers to.

* `Arena.lawful_forest`: the one-layer law holds for trees without gaps.
* `Arena.grounded_of_unbroken`: the paths in a tree without gaps end.
* `Arena.owns_of_unbroken`: whatever is met in it is the tree of its number.
-/

namespace GuardedMatch

/-- No reference among the visits leads nowhere. -/
def Unbroken (visits : List Visit) : Prop := ∀ node : Node, node.gap ∉ visits

theorem Unbroken.sub {visits visits' : List Visit} (h : Unbroken visits) (hsub : visits' ⊆ visits) :
    Unbroken visits' := fun node hnode => h node (hsub hnode)

theorem FlowRecord.Covered.unbroken {visits : List Visit} {record : FlowRecord}
    (h : record.Covered visits) : Unbroken visits := by
  intro node hgap
  cases node with
  | pattern id => exact (h.patterns _ hgap).2 id rfl
  | expr id => exact h.exprs id hgap

namespace Arena

variable {arena : Arena} {forest forest' : Forest}

/-- A layer depends only on the trees of what the node refers to. -/
theorem layer_congr {node : Node}
    (h : ∀ other ∈ arena.refs node, forest.visit other = forest'.visit other) :
    arena.layer forest node = arena.layer forest' node := by
  have hpattern : ∀ id, .pattern id ∈ arena.refs node → forest.pattern id = forest'.pattern id :=
    fun id hid => Visit.pattern.inj (h _ hid)
  have hexpr : ∀ id, .expr id ∈ arena.refs node → forest.expr id = forest'.expr id :=
    fun id hid => Visit.expr.inj (h _ hid)
  cases node with
  | pattern id =>
    rw [refs] at hpattern hexpr
    rw [layer, layer]
    cases hnode : arena.patterns[id]? with
    | none => rfl
    | some node =>
      rw [hnode] at hpattern hexpr
      exact congrArg Visit.pattern (PatternNode.tree_congr
        (fun ref href => hpattern ref (List.mem_append_left _ (List.mem_map_of_mem href)))
        fun ref href => hexpr ref (List.mem_append_right _ (List.mem_map_of_mem href)))
  | expr id =>
    rw [refs] at hpattern hexpr
    rw [layer, layer]
    cases hnode : arena.exprs[id]? with
    | none => rfl
    | some node =>
      rw [hnode] at hpattern hexpr
      exact congrArg Visit.expr (ExprNode.tree_congr
        (fun ref href => hpattern ref (List.mem_append_right _ (List.mem_map_of_mem href)))
        fun ref href => hexpr ref (List.mem_append_left _ (List.mem_map_of_mem href)))

/-! ## While trees ripen -/

/-- The trees that are not complete have not started to grow. -/
def Barren (forest : Forest) : Prop :=
  ∀ node, forest.isComplete node = false → forest.visit node = node.gap

theorem barren_bare (arena : Arena) : Barren arena.bare := by
  intro node _
  cases node with
  | pattern id =>
    rw [Forest.visit, Forest.pattern, bare, Array.getElem?_mapIdx]
    cases arena.patterns[id]? <;> rfl
  | expr id =>
    rw [Forest.visit, Forest.expr, bare, Array.getElem?_mapIdx]
    cases arena.exprs[id]? <;> rfl

theorem Barren.ripenNode (hforest : arena.IsForest forest) (h : Barren forest) (node : Node) :
    Barren (arena.ripenNode forest node) := by
  intro other hopen
  have hopen' : forest.isComplete other = false := by
    cases hold : forest.isComplete other with
    | false => rfl
    | true =>
      rw [(arena.keeps_ripenNode forest node).isComplete hold] at hopen
      cases hopen
  refine Eq.trans ?_ (h other hopen')
  cases node with
  | pattern id =>
    rcases arena.ripenPattern_cases forest id with hsame | ⟨found, hfound, -, -, hset⟩
    · rw [Arena.ripenNode, hsame]
    · rw [Arena.ripenNode, hset] at hopen ⊢
      cases other with
      | expr other => rfl
      | pattern other =>
        have hne : id ≠ other := by
          rintro rfl
          have hlt : id < forest.patterns.size := by
            rw [hforest.patterns_size]
            exact (Array.getElem?_eq_some_iff.mp hfound).1
          simp [Forest.isComplete, Forest.isCompletePattern, hlt] at hopen
        simp only [Forest.visit, Forest.pattern]
        rw [Array.getElem?_setIfInBounds_ne hne]
  | expr id =>
    rcases arena.ripenExpr_cases forest id with hsame | ⟨found, hfound, -, -, hset⟩
    · rw [Arena.ripenNode, hsame]
    · rw [Arena.ripenNode, hset] at hopen ⊢
      cases other with
      | pattern other => rfl
      | expr other =>
        have hne : id ≠ other := by
          rintro rfl
          have hlt : id < forest.exprs.size := by
            rw [hforest.exprs_size]
            exact (Array.getElem?_eq_some_iff.mp hfound).1
          simp [Forest.isComplete, Forest.isCompleteExpr, hlt] at hopen
        simp only [Forest.visit, Forest.expr]
        rw [Array.getElem?_setIfInBounds_ne hne]

theorem Barren.sweep (hforest : arena.IsForest forest) (h : Barren forest) :
    Barren (arena.sweep forest) := by
  rw [sweep_eq]
  generalize arena.nodes = nodes
  induction nodes generalizing forest with
  | nil => exact h
  | cons node nodes ih => exact ih (hforest.ripenNode node) (h.ripenNode hforest node)

theorem Barren.ripen (hforest : arena.IsForest forest) (h : Barren forest) (sweeps : Nat) :
    Barren (arena.ripen sweeps forest) := by
  induction sweeps generalizing forest with
  | zero => exact h
  | succ sweeps ih =>
    rw [Arena.ripen]
    split
    next => exact ih hforest.sweep (h.sweep hforest)
    next => exact h.sweep hforest

/-! ## While trees grow -/

/-- Trees without gaps satisfy the one-layer law. -/
def Lawful (arena : Arena) (forest : Forest) : Prop :=
  ∀ node, Unbroken (forest.visitsOf node) → forest.visit node = arena.layer forest node

theorem visit_mem_visitsOf (forest : Forest) (node : Node) :
    forest.visit node ∈ forest.visitsOf node := by
  cases node with
  | pattern id => exact Pattern.self_mem_visits _
  | expr id => exact Expr.self_mem_visits _

theorem Barren.lawful (hforest : arena.IsForest forest) (h : Barren forest) :
    arena.Lawful forest := by
  intro node hunbroken
  cases hc : forest.isComplete node with
  | true => exact hforest.layer_of_complete hc
  | false =>
    have hroot := visit_mem_visitsOf forest node
    rw [h node hc] at hroot
    exact absurd hroot (hunbroken node)

/-- A complete tree stays, and any other becomes a layer over what there was. -/
theorem visit_grow (hforest : arena.IsForest forest) (node : Node) :
    (arena.grow forest).visit node =
      if forest.isComplete node then forest.visit node else arena.layer forest node := by
  cases node with
  | pattern id =>
    rw [Forest.visit, Forest.pattern, grow, Array.getElem?_mapIdx, layer]
    cases hnode : arena.patterns[id]? with
    | none =>
      rw [Array.getElem?_eq_none_iff, ← hforest.patterns_size,
        ← Array.getElem?_eq_none_iff] at hnode
      simp [Forest.visit, Forest.pattern, hnode]
    | some node =>
      rw [Forest.isComplete]
      cases forest.isCompletePattern id <;> rfl
  | expr id =>
    rw [Forest.visit, Forest.expr, grow, Array.getElem?_mapIdx, layer]
    cases hnode : arena.exprs[id]? with
    | none =>
      rw [Array.getElem?_eq_none_iff, ← hforest.exprs_size, ← Array.getElem?_eq_none_iff] at hnode
      simp [Forest.visit, Forest.expr, hnode]
    | some node =>
      rw [Forest.isComplete]
      cases forest.isCompleteExpr id <;> rfl

/-- A tree without gaps does not change any more. -/
theorem Lawful.visit_grow_of_unbroken (hforest : arena.IsForest forest) (h : arena.Lawful forest)
    {node : Node} (hunbroken : Unbroken (forest.visitsOf node)) :
    (arena.grow forest).visit node = forest.visit node := by
  rw [visit_grow hforest]
  split
  · rfl
  · exact (h node hunbroken).symm

theorem Lawful.grow (hforest : arena.IsForest forest) (h : arena.Lawful forest) :
    arena.Lawful (arena.grow forest) := by
  intro node hunbroken
  have hbelow : ((arena.grow forest).visit node).below = (arena.grow forest).visitsOf node := by
    cases node <;> rfl
  have hlayer : (arena.grow forest).visit node = arena.layer forest node := by
    rw [visit_grow hforest]
    split
    next hc => exact hforest.layer_of_complete hc
    next => rfl
  rw [hlayer]
  refine layer_congr fun other hother => (h.visit_grow_of_unbroken hforest ?_).symm
  refine hunbroken.sub ?_
  rw [← hbelow, hlayer, below_layer]
  intro visit hvisit
  exact List.mem_cons_of_mem _ (List.mem_append_right _
    (List.mem_flatMap.mpr ⟨other, hother, hvisit⟩))

theorem Lawful.growBy (hforest : arena.IsForest forest) (h : arena.Lawful forest) (levels : Nat) :
    arena.Lawful (arena.growBy levels forest) := by
  induction levels generalizing forest with
  | zero => exact h
  | succ levels ih => exact ih hforest.grow (h.grow hforest)

theorem lawful_forest (arena : Arena) : arena.Lawful arena.forest := by
  have hbare := isForest_bare arena
  have hripe := hbare.ripen (arena.nodeCount + 1)
  have hlawful := ((barren_bare arena).ripen hbare (arena.nodeCount + 1)).lawful hripe
  rw [forest]
  split
  next => exact hlawful
  next => exact hlawful.growBy hripe _

/-! ## Whole trees -/

/-- What a node refers to has a smaller tree, and all of it is met in the tree of the node. -/
theorem visitsOf_of_refers {node other : Node} (h : Unbroken (arena.forest.visitsOf node))
    (hother : arena.Refers node other) :
    arena.forest.visitsOf other ⊆ arena.forest.visitsOf node ∧
      (arena.forest.visitsOf other).length < (arena.forest.visitsOf node).length := by
  have hsub : (arena.forest.visitsOf other).Sublist
      ((arena.refs node).flatMap arena.forest.visitsOf) := by
    obtain ⟨before, after, hsplit⟩ := List.append_of_mem hother
    rw [hsplit, List.flatMap_append, List.flatMap_cons]
    exact (List.sublist_append_left ..).trans (List.sublist_append_right ..)
  have hle := hsub.length_le
  rw [visitsOf_eq_of_layer (arena.lawful_forest node h), List.length_cons, List.length_append]
  refine ⟨fun visit hvisit => ?_, by omega⟩
  exact Visit.right_subset (hsub.subset hvisit)

/-- The paths in a tree without gaps end, since trees get smaller on the way. -/
theorem grounded_of_unbroken {node : Node} (h : Unbroken (arena.forest.visitsOf node)) :
    arena.Grounded node := by
  refine grounded_of_acc ?_
  -- The induction is on the number of visits: what a node refers to has fewer.
  induction hlength : (arena.forest.visitsOf node).length using Nat.strong_induction_on
    generalizing node with
  | _ length ih =>
    refine ⟨node, fun other hother => ?_⟩
    obtain ⟨hsub, hlt⟩ := visitsOf_of_refers h hother
    exact ih _ (hlength ▸ hlt) (h.sub hsub) rfl

/-- **Whatever is met in a tree without gaps is the tree of its number.** -/
theorem owns_of_unbroken {node : Node} (h : Unbroken (arena.forest.visitsOf node)) :
    ∀ visit ∈ arena.forest.visitsOf node, arena.forest.Owns visit := (grounded_of_unbroken h).owns

/-- What is met in a tree without gaps is one layer over the trees of what its node refers to. -/
theorem eq_layer_of_unbroken {node other : Node} {visit : Visit}
    (h : Unbroken (arena.forest.visitsOf node)) (hvisit : visit ∈ arena.forest.visitsOf node)
    (hother : arena.forest.visit other = visit) : visit = arena.layer arena.forest other := by
  have hbelow : arena.forest.visitsOf other = visit.below := by
    rw [← hother]
    cases other <;> rfl
  have hsub : visit.below ⊆ arena.forest.visitsOf node := by
    cases node with
    | pattern id => exact (Pattern.below_sublist _ hvisit).subset
    | expr id => exact (Expr.below_sublist _ hvisit).subset
  rw [← hother]
  exact arena.lawful_forest other (h.sub (hbelow ▸ hsub))

/-- A pattern that is met in a tree without gaps comes from a node. -/
theorem exists_patternNode_of_unbroken {node : Node} (h : Unbroken (arena.forest.visitsOf node))
    {pattern : Pattern} (hvisit : .pattern pattern ∈ arena.forest.visitsOf node) :
    ∃ found, arena.patterns[pattern.id]? = some found ∧
      pattern = found.tree arena.forest.pattern arena.forest.expr pattern.id := by
  have howns : arena.forest.visit (.pattern pattern.id) = .pattern pattern :=
    congrArg Visit.pattern (owns_of_unbroken h _ hvisit)
  have hlayer := eq_layer_of_unbroken h hvisit howns
  rw [layer] at hlayer
  cases hnode : arena.patterns[pattern.id]? with
  | none =>
    rw [hnode] at hlayer
    rw [hlayer] at hvisit
    exact absurd hvisit (h (.pattern pattern.id))
  | some found =>
    rw [hnode] at hlayer
    exact ⟨found, rfl, Visit.pattern.inj hlayer⟩

/-- An expression that is met in a tree without gaps comes from a node. -/
theorem exists_exprNode_of_unbroken {node : Node} (h : Unbroken (arena.forest.visitsOf node))
    {expr : Expr} (hvisit : .expr expr ∈ arena.forest.visitsOf node) :
    ∃ found, arena.exprs[expr.id]? = some found ∧
      expr = found.tree arena.forest.pattern arena.forest.expr expr.id := by
  have howns : arena.forest.visit (.expr expr.id) = .expr expr :=
    congrArg Visit.expr (owns_of_unbroken h _ hvisit)
  have hlayer := eq_layer_of_unbroken h hvisit howns
  rw [layer] at hlayer
  cases hnode : arena.exprs[expr.id]? with
  | none =>
    rw [hnode] at hlayer
    rw [hlayer] at hvisit
    exact absurd hvisit (h (.expr expr.id))
  | some found =>
    rw [hnode] at hlayer
    exact ⟨found, rfl, Visit.expr.inj hlayer⟩

end Arena

end GuardedMatch
