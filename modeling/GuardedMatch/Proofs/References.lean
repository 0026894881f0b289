import GuardedMatch.Syntax.Forest
import Mathlib.Data.Fintype.Card
import Mathlib.Data.Fintype.EquivFin
import Mathlib.Data.Fintype.Sets
import Mathlib.Data.List.Nodup
import Mathlib.Data.List.Pairwise
import Mathlib.Logic.Relation
import Mathlib.Order.WellFounded

/-!
# References without cycles

An arena is acyclic if no node leads back to itself.  Then ripening alone completes every tree:
as long as one is open, some open node refers to complete ones only, and the next sweep completes
it.  So the tree of a number is its node over the trees of what it refers to, without exception.

* `wellFounded_of_acyclic`: a relation without cycles in which finitely many elements have a
  successor is well founded.
* `Arena.Acyclic.pattern_eq`, `Arena.Acyclic.expr_eq`: the one-layer law of the trees.
* `Arena.Grounded.owns`: where all paths end, whatever is met in a tree is itself the tree of its
  number.
* `Unfolds.nodup`: nothing occurs twice in the tree of a relation in which nothing is a child twice.
* `Arena.Acyclic.nodup_roots`: if nothing is referred to twice, no node is met twice.
-/

namespace GuardedMatch

variable {α : Type} {r : α → α → Prop} {a : α}

/-- A relation without cycles is well founded if only finitely many elements have a successor. -/
theorem wellFounded_of_acyclic (s : Finset α) (hs : ∀ a b, r a b → a ∈ s)
    (h : ∀ a, ¬ Relation.TransGen r a a) :
    WellFounded fun b a => r a b := by
  have hwf : WellFounded fun b a : s => Relation.TransGen r a.1 b.1 := by
    have : IsTrans s fun b a => Relation.TransGen r a.1 b.1 :=
      ⟨fun _ _ _ hab hbc => hbc.trans hab⟩
    have : Std.Irrefl fun b a : s => Relation.TransGen r a.1 b.1 := ⟨fun a => h a.1⟩
    exact Finite.wellFounded_of_trans_of_irrefl _
  -- Outside of `s` nothing has a successor, so only elements of `s` need an argument.
  have hacc : ∀ a : s, Acc (fun b a => r a b) a.1 := by
    intro a
    induction a using hwf.induction with
    | _ a ih =>
      refine ⟨_, fun b hb => ?_⟩
      by_cases hbs : b ∈ s
      · exact ih ⟨b, hbs⟩ (.single hb)
      · exact ⟨_, fun c hc => absurd (hs b c hc) hbs⟩
  refine ⟨fun a => ⟨_, fun b hb => ?_⟩⟩
  by_cases hbs : b ∈ s
  · exact hacc ⟨b, hbs⟩
  · exact ⟨_, fun c hc => absurd (hs b c hc) hbs⟩

/-- A relation that always leads to a lower rank has no cycle. -/
theorem not_transGen_of_rank (rank : α → Nat) (h : ∀ a b, r a b → rank b < rank a) (a : α) :
    ¬ Relation.TransGen r a a := by
  have hlt : ∀ b, Relation.TransGen r a b → rank b < rank a := by
    intro b hpath
    induction hpath with
    | single hstep => exact h _ _ hstep
    | tail _ hstep ih => exact lt_trans (h _ _ hstep) ih
  exact fun hcycle => lt_irrefl _ (hlt a hcycle)

/-- Lists without a common element tell apart where an element comes from. -/
theorem eq_of_mem_flatMap {β : Type} {f : α → List β} {as : List α} (h : (as.flatMap f).Nodup)
    {b : α} {x : β} (ha : a ∈ as) (hb : b ∈ as) (hxa : x ∈ f a) (hxb : x ∈ f b) : a = b := by
  have hdisjoint := (List.nodup_flatMap.1 h).2
  have : Std.Symm (Function.onFun List.Disjoint f) := ⟨fun _ _ hd => hd.symm⟩
  by_contra hne
  exact hdisjoint.forall ha hb hne hxa hxb

/-! ## Unfolding -/

/-- No path leads back to an element from which all paths end. -/
theorem not_transGen_of_acc (h : Acc (fun b a => r a b) a) : ¬ Relation.TransGen r a a := by
  induction h with
  | intro a _ ih =>
    intro hpath
    obtain ⟨next, hnext, hback⟩ := Relation.TransGen.head'_iff.mp hpath
    exact ih next hnext (.tail' hback hnext)

/-- Where nothing has two predecessors, two elements that lead to a third lead one to the other. -/
theorem total_of_leftUnique (h : Relator.LeftUnique r) {b c : α} (ha : Relation.ReflTransGen r a c)
    (hb : Relation.ReflTransGen r b c) :
    Relation.ReflTransGen r a b ∨ Relation.ReflTransGen r b a := by
  have hswap : Relator.RightUnique (Function.swap r) := fun _ _ _ hab hac => h hab hac
  rcases Relation.ReflTransGen.total_of_right_unique hswap (Relation.reflTransGen_swap.mpr ha)
    (Relation.reflTransGen_swap.mpr hb) with hpath | hpath
  · exact .inr (Relation.reflTransGen_swap.mp hpath)
  · exact .inl (Relation.reflTransGen_swap.mp hpath)

/-- From an element on, all paths to children end, and a tree is an element and the trees of its
children. -/
structure Unfolds {α : Type} (children tree : α → List α) (root : α) : Prop where
  ends : Acc (fun other node => other ∈ children node) root
  tree_eq : ∀ node, Relation.ReflTransGen (fun node other => other ∈ children node) root node →
    tree node = node :: (children node).flatMap tree

namespace Unfolds

variable {α : Type} {children tree : α → List α} {root other : α}

theorem child (h : Unfolds children tree root) (hother : other ∈ children root) :
    Unfolds children tree other :=
  ⟨h.ends.inv hother, fun last hpath => h.tree_eq last (.head hother hpath)⟩

theorem reaches (h : Unfolds children tree root) (hmem : other ∈ tree root) :
    Relation.ReflTransGen (fun node other => other ∈ children node) root other := by
  induction h.ends with
  | intro root _ ih =>
    rw [h.tree_eq root .refl, List.mem_cons, List.mem_flatMap] at hmem
    rcases hmem with rfl | ⟨next, hnext, hmem⟩
    · exact .refl
    · exact .head hnext (ih next hnext (h.child hnext) hmem)

/-- What can be reached is in the tree. -/
theorem mem_of_reaches (h : Unfolds children tree root)
    (hpath : Relation.ReflTransGen (fun node other => other ∈ children node) root other) :
    other ∈ tree root := by
  induction hpath using Relation.ReflTransGen.head_induction_on with
  | refl =>
    rw [h.tree_eq other .refl]
    exact List.mem_cons_self
  | @head root next hnext _ ih =>
    rw [h.tree_eq root .refl]
    exact List.mem_cons_of_mem _ (List.mem_flatMap_of_mem hnext (ih (h.child hnext)))

theorem nodup (h : Unfolds children tree root)
    (honce : Relator.LeftUnique fun node other => other ∈ children node)
    (hchildren : ∀ node, (children node).Nodup) : (tree root).Nodup := by
  induction h.ends with
  | intro root _ ih =>
    have hback := not_transGen_of_acc h.ends
    rw [h.tree_eq root .refl, List.nodup_cons, List.nodup_flatMap]
    refine ⟨fun hmem => ?_, fun next hnext => ih next hnext (h.child hnext), ?_⟩
    · obtain ⟨next, hnext, hmem⟩ := List.mem_flatMap.1 hmem
      exact hback (.head' hnext ((h.child hnext).reaches hmem))
    · -- A path between two children of the root would come back to the root.
      have heq : ∀ a ∈ children root, ∀ b ∈ children root,
          Relation.ReflTransGen (fun node other => other ∈ children node) a b → a = b := by
        intro a ha b hb hpath
        rcases Relation.ReflTransGen.cases_tail hpath with rfl | ⟨last, hpath, hlast⟩
        · rfl
        · obtain rfl := honce hb hlast
          exact absurd (Relation.TransGen.head' ha hpath) hback
      refine (hchildren root).pairwise_of_forall_ne fun a ha b hb hne => ?_
      refine List.disjoint_left.mpr fun other hother hother' => ?_
      rcases total_of_leftUnique honce ((h.child ha).reaches hother)
        ((h.child hb).reaches hother') with hpath | hpath
      · exact hne (heq a ha b hb hpath)
      · exact hne (heq b hb a ha hpath).symm

end Unfolds

/-! ## Nodes -/

/-- A pattern or an expression of an arena. -/
inductive Node
  | pattern (id : PatternId)
  | expr (id : ExprId)
deriving DecidableEq

/-- A rank for patterns and one for expressions. -/
def Node.rank (ofPattern ofExpr : Nat → Nat) : Node → Nat
  | pattern id => ofPattern id
  | expr id => ofExpr id

namespace Arena

variable {arena : Arena}

/-- What a node refers to, in source order. -/
def refs (arena : Arena) : Node → List Node
  | .pattern id =>
    match arena.patterns[id]? with
    | some node => node.patternRefs.map .pattern ++ node.exprRefs.map .expr
    | none => []
  | .expr id =>
    match arena.exprs[id]? with
    | some node => node.exprRefs.map .expr ++ node.patternRefs.map .pattern
    | none => []

/-- The locals that a node binds itself. -/
def bindings (arena : Arena) : Node → List LocalId
  | .pattern id =>
    match arena.patterns[id]? with
    | some (.type _ binds _) => binds.toList
    | _ => []
  | .expr _ => []

/-- All nodes of an arena. -/
def nodes (arena : Arena) : List Node :=
  (List.range arena.patterns.size).map .pattern ++ (List.range arena.exprs.size).map .expr

/-- One node refers to another. -/
def Refers (arena : Arena) (node other : Node) : Prop := other ∈ arena.refs node

/-- No node leads back to itself. -/
def Acyclic (arena : Arena) : Prop := ∀ node, ¬ Relation.TransGen arena.Refers node node

/-- Every reference to a node and every local that a pattern binds can be followed. -/
structure InRange (arena : Arena) : Prop where
  nodes : ∀ node other, arena.Refers node other → other ∈ arena.nodes
  locals : ∀ node, ∀ binding ∈ arena.bindings node, binding < arena.locals.size

theorem mem_nodes_of_refers {node other : Node} (h : arena.Refers node other) :
    node ∈ arena.nodes := by
  rw [Refers, refs.eq_def] at h
  split at h
  next id =>
    split at h
    next hnode =>
      have := (Array.getElem?_eq_some_iff.1 hnode).1
      simpa [nodes] using this
    next => simp at h
  next id =>
    split at h
    next hnode =>
      have := (Array.getElem?_eq_some_iff.1 hnode).1
      simpa [nodes] using this
    next => simp at h

theorem mem_nodes_of_binds {node : Node} {binding : LocalId} (h : binding ∈ arena.bindings node) :
    node ∈ arena.nodes := by
  rw [bindings.eq_def] at h
  split at h
  next id =>
    split at h
    next hnode =>
      have := (Array.getElem?_eq_some_iff.1 hnode).1
      simpa [nodes] using this
    next => simp at h
  next => simp at h

/-- It is enough to look at the nodes of the arena. -/
theorem inRange_of_nodes
    (h : ∀ node ∈ arena.nodes, (∀ other ∈ arena.refs node, other ∈ arena.nodes) ∧
      ∀ binding ∈ arena.bindings node, binding < arena.locals.size) : arena.InRange where
  nodes node other href := (h node (mem_nodes_of_refers href)).1 other href
  locals node binding hbinding := (h node (mem_nodes_of_binds hbinding)).2 binding hbinding

theorem Acyclic.wellFounded (h : arena.Acyclic) :
    WellFounded fun other node => arena.Refers node other :=
  wellFounded_of_acyclic arena.nodes.toFinset
    (fun _ _ href => List.mem_toFinset.2 (mem_nodes_of_refers href)) h

/-- References that always lead to a lower rank form no cycle. -/
theorem acyclic_of_rank (rank : Node → Nat)
    (h : ∀ node ∈ arena.nodes, ∀ other ∈ arena.refs node, rank other < rank node) :
    arena.Acyclic :=
  not_transGen_of_rank rank fun node other href => h node (mem_nodes_of_refers href) other href

end Arena

/-! ## Ripening completes every tree -/

/-- Whether the tree of a node is complete. -/
def Forest.isComplete (forest : Forest) : Node → Bool
  | .pattern id => forest.isCompletePattern id
  | .expr id => forest.isCompleteExpr id

theorem Forest.Keeps.isComplete {forest earlier : Forest} (h : forest.Keeps earlier) {node : Node}
    (hc : earlier.isComplete node = true) : forest.isComplete node = true := by
  cases node with
  | pattern id => exact (h.pattern id hc).1
  | expr id => exact (h.expr id hc).1

namespace Arena

variable {arena : Arena}

/-- Complete the tree of a node, if everything that it refers to is complete. -/
def ripenNode (arena : Arena) (forest : Forest) : Node → Forest
  | .pattern id => arena.ripenPattern forest id
  | .expr id => arena.ripenExpr forest id

theorem sweep_eq (arena : Arena) (forest : Forest) :
    arena.sweep forest = arena.nodes.foldl arena.ripenNode forest := by
  rw [sweep, nodes, List.foldl_append, List.foldl_map, List.foldl_map]
  rfl

theorem keeps_ripenNode (arena : Arena) (forest : Forest) (node : Node) :
    (arena.ripenNode forest node).Keeps forest := by
  cases node with
  | pattern id => exact arena.keeps_ripenPattern forest id
  | expr id => exact arena.keeps_ripenExpr forest id

theorem keeps_foldl (arena : Arena) : ∀ (nodes : List Node) (forest : Forest),
    (nodes.foldl arena.ripenNode forest).Keeps forest := by
  intro nodes
  induction nodes with
  | nil => exact fun forest => .refl forest
  | cons node nodes ih =>
    exact fun forest => (ih _).trans (arena.keeps_ripenNode forest node)

theorem keeps_sweep (arena : Arena) (forest : Forest) : (arena.sweep forest).Keeps forest := by
  rw [sweep_eq]
  exact arena.keeps_foldl arena.nodes forest

namespace IsForest

variable {node : Node}

variable {arena : Arena} {forest : Forest}

/-- What does not exist is complete. -/
theorem isComplete_of_notMem (h : arena.IsForest forest) (hnode : node ∉ arena.nodes) :
    forest.isComplete node = true := by
  cases node with
  | pattern id =>
    rw [Forest.isComplete, Forest.isCompletePattern,
      Array.getElem?_eq_none (by simpa [nodes, h.patterns_size] using hnode)]
  | expr id =>
    rw [Forest.isComplete, Forest.isCompleteExpr,
      Array.getElem?_eq_none (by simpa [nodes, h.exprs_size] using hnode)]

theorem ripenNode (h : arena.IsForest forest) (node : Node) :
    arena.IsForest (arena.ripenNode forest node) := by
  cases node with
  | pattern id => exact h.ripenPattern id
  | expr id => exact h.ripenExpr id

theorem isComplete_ripenNode (h : arena.IsForest forest) (hnode : node ∈ arena.nodes)
    (hrefs : ∀ other ∈ arena.refs node, forest.isComplete other = true) :
    (arena.ripenNode forest node).isComplete node = true := by
  cases node with
  | pattern id =>
    have hlt : id < arena.patterns.size := by simpa [nodes] using hnode
    have hget := Array.getElem?_eq_getElem hlt
    rw [refs, hget] at hrefs
    rw [Arena.ripenNode, Forest.isComplete, Arena.ripenPattern, hget]
    cases hc : forest.isCompletePattern id with
    | true => simpa using hc
    | false =>
      have hall : forest.areComplete arena.patterns[id].patternRefs
          arena.patterns[id].exprRefs = true := by
        simp only [List.mem_append, List.mem_map] at hrefs
        rw [Forest.areComplete, Bool.and_eq_true, List.all_eq_true, List.all_eq_true]
        exact ⟨fun ref href => hrefs (.pattern ref) (Or.inl ⟨ref, href, rfl⟩),
          fun ref href => hrefs (.expr ref) (Or.inr ⟨ref, href, rfl⟩)⟩
      rw [← h.patterns_size] at hlt
      simp [hall, Forest.isCompletePattern, hlt]
  | expr id =>
    have hlt : id < arena.exprs.size := by simpa [nodes] using hnode
    have hget := Array.getElem?_eq_getElem hlt
    rw [refs, hget] at hrefs
    rw [Arena.ripenNode, Forest.isComplete, Arena.ripenExpr, hget]
    cases hc : forest.isCompleteExpr id with
    | true => simpa using hc
    | false =>
      have hall : forest.areComplete arena.exprs[id].patternRefs
          arena.exprs[id].exprRefs = true := by
        simp only [List.mem_append, List.mem_map] at hrefs
        rw [Forest.areComplete, Bool.and_eq_true, List.all_eq_true, List.all_eq_true]
        exact ⟨fun ref href => hrefs (.pattern ref) (Or.inr ⟨ref, href, rfl⟩),
          fun ref href => hrefs (.expr ref) (Or.inl ⟨ref, href, rfl⟩)⟩
      rw [← h.exprs_size] at hlt
      simp [hall, Forest.isCompleteExpr, hlt]

/-- A sweep completes every node that refers to complete ones only. -/
theorem isComplete_sweep (h : arena.IsForest forest) (hnode : node ∈ arena.nodes)
    (hrefs : ∀ other ∈ arena.refs node, forest.isComplete other = true) :
    (arena.sweep forest).isComplete node = true := by
  rw [sweep_eq]
  obtain ⟨before, after, hsplit⟩ := List.append_of_mem hnode
  rw [hsplit, List.foldl_append, List.foldl_cons]
  have hbefore : arena.IsForest (before.foldl arena.ripenNode forest) := by
    clear hsplit
    induction before generalizing forest with
    | nil => exact h
    | cons first rest ih =>
      exact ih (h.ripenNode first) fun other hother =>
        (arena.keeps_ripenNode forest first).isComplete (hrefs other hother)
  exact (arena.keeps_foldl after _).isComplete (hbefore.isComplete_ripenNode hnode
    fun other hother => (arena.keeps_foldl before forest).isComplete (hrefs other hother))

/-- The open trees are those of the open nodes. -/
theorem openCount_eq (h : arena.IsForest forest) :
    forest.openCount = arena.nodes.countP fun node => !forest.isComplete node := by
  have patterns : forest.patterns.toList.map (·.complete) =
      (List.range arena.patterns.size).map forest.isCompletePattern := by
    refine List.ext_getElem (by simp [h.patterns_size]) fun id hid hid' => ?_
    simp only [List.length_map, Array.length_toList] at hid
    simp [Forest.isCompletePattern, hid]
  have exprs : forest.exprs.toList.map (·.complete) =
      (List.range arena.exprs.size).map forest.isCompleteExpr := by
    refine List.ext_getElem (by simp [h.exprs_size]) fun id hid hid' => ?_
    simp only [List.length_map, Array.length_toList] at hid
    simp [Forest.isCompleteExpr, hid]
  have hp := congrArg (List.countP (!·)) patterns
  have he := congrArg (List.countP (!·)) exprs
  simp only [List.countP_map] at hp he
  rw [Forest.openCount, ← Array.countP_toList, ← Array.countP_toList, nodes, List.countP_append,
    List.countP_map, List.countP_map]
  exact congrArg₂ (· + ·) hp he

/-- A sweep that completes a tree leaves fewer open trees. -/
theorem openCount_sweep_lt (h : arena.IsForest forest) (hnode : node ∈ arena.nodes)
    (hopen : forest.isComplete node = false) (hdone : (arena.sweep forest).isComplete node = true) :
    (arena.sweep forest).openCount < forest.openCount := by
  have hkeeps := arena.keeps_sweep forest
  rw [h.openCount_eq, h.sweep.openCount_eq]
  obtain ⟨before, after, hsplit⟩ := List.append_of_mem hnode
  have hmono : ∀ nodes : List Node,
      nodes.countP (fun node => !(arena.sweep forest).isComplete node) ≤
        nodes.countP fun node => !forest.isComplete node := by
    intro nodes
    refine List.countP_mono_left fun other _ hother => ?_
    cases hold : forest.isComplete other with
    | false => rfl
    | true => simp [hkeeps.isComplete hold] at hother
  rw [hsplit, List.countP_append, List.countP_append, List.countP_cons, List.countP_cons, hdone,
    hopen]
  have h₁ := hmono before
  have h₂ := hmono after
  simp only [Bool.not_true, Bool.not_false, if_true]
  simp only [Bool.false_eq_true, if_false]
  omega

/-- When trees stop to ripen, each node that refers to complete trees only has a complete tree. -/
theorem isComplete_ripen (h : arena.IsForest forest) (sweeps : Nat)
    (hlt : forest.openCount < sweeps)
    (hrefs : ∀ other ∈ arena.refs node, (arena.ripen sweeps forest).isComplete other = true) :
    (arena.ripen sweeps forest).isComplete node = true := by
  induction sweeps generalizing forest with
  | zero => omega
  | succ sweeps ih =>
    rw [Arena.ripen] at hrefs ⊢
    split at hrefs
    next hmore =>
      rw [if_pos hmore]
      exact ih h.sweep (by omega) hrefs
    next hstop =>
      rw [if_neg hstop]
      by_cases hnode : node ∈ arena.nodes
      · by_contra hne
        have hopen : (arena.sweep forest).isComplete node = false := by simpa using hne
        -- The last sweep completed nothing, so what is complete now was complete before.
        have hsome : 0 < (arena.sweep forest).openCount := by
          rw [h.sweep.openCount_eq]
          exact List.countP_pos_iff.mpr ⟨node, hnode, by rw [hopen]; rfl⟩
        refine hne (h.isComplete_sweep hnode fun other hother => ?_)
        by_contra hold
        have hin : other ∈ arena.nodes := by
          by_contra hout
          exact hold (h.isComplete_of_notMem hout)
        exact hstop ⟨hsome, h.openCount_sweep_lt hin (by simpa using hold) (hrefs other hother)⟩
      · exact h.sweep.isComplete_of_notMem hnode

theorem isComplete_growBy (h : arena.IsForest forest) (levels : Nat) :
    (arena.growBy levels forest).isComplete node = forest.isComplete node := by
  induction levels generalizing forest with
  | zero => rfl
  | succ levels ih =>
    refine (ih h.grow).trans ?_
    cases node with
    | pattern id => exact h.isCompletePattern_grow id
    | expr id => exact h.isCompleteExpr_grow id

end IsForest

/-- The tree of a node is complete if all paths from the node end. -/
theorem isComplete_of_acc {node : Node} (h : Acc (fun other node => arena.Refers node other) node) :
    arena.forest.isComplete node = true := by
  have hbare := isForest_bare arena
  have hcount : arena.bare.openCount ≤ arena.nodeCount := by
    rw [hbare.openCount_eq]
    exact List.countP_le_length.trans (by simp [nodes, nodeCount])
  have hripe : (arena.ripen (arena.nodeCount + 1) arena.bare).isComplete node = true := by
    induction h with
    | intro node _ ih => exact hbare.isComplete_ripen _ (Nat.lt_succ_of_le hcount) ih
  rw [Arena.forest]
  split
  next => exact hripe
  next => exact ((hbare.ripen _).isComplete_growBy _).trans hripe

/-- All trees of acyclic references are complete. -/
theorem Acyclic.isComplete (h : arena.Acyclic) (node : Node) :
    arena.forest.isComplete node = true := isComplete_of_acc (h.wellFounded.apply node)

/-! ## The trees of acyclic references -/

namespace Acyclic

variable {arena : Arena}

/-- The tree of a pattern is its node over the trees of what the node refers to. -/
theorem pattern_eq (h : arena.Acyclic) {id : PatternId} {node : PatternNode}
    (hnode : arena.patterns[id]? = some node) :
    arena.forest.pattern id = node.tree arena.forest.pattern arena.forest.expr id :=
  pattern_forest hnode (h.isComplete (.pattern id))

/-- The tree of an expression is its node over the trees of what the node refers to. -/
theorem expr_eq (h : arena.Acyclic) {id : ExprId} {node : ExprNode}
    (hnode : arena.exprs[id]? = some node) :
    arena.forest.expr id = node.tree arena.forest.pattern arena.forest.expr id :=
  expr_forest hnode (h.isComplete (.expr id))

end Acyclic

theorem pattern_of_none {id : PatternId} (hnode : arena.patterns[id]? = none) :
    arena.forest.pattern id = .missing id := by
  rw [Array.getElem?_eq_none_iff, ← (isForest_forest arena).patterns_size,
    ← Array.getElem?_eq_none_iff] at hnode
  rw [Forest.pattern, hnode]

theorem expr_of_none {id : ExprId} (hnode : arena.exprs[id]? = none) :
    arena.forest.expr id = .missing id := by
  rw [Array.getElem?_eq_none_iff, ← (isForest_forest arena).exprs_size,
    ← Array.getElem?_eq_none_iff] at hnode
  rw [Forest.expr, hnode]

namespace Acyclic

variable {arena : Arena}

@[simp]
theorem id_pattern (h : arena.Acyclic) (id : PatternId) : (arena.forest.pattern id).id = id := by
  cases hnode : arena.patterns[id]? with
  | none => rw [pattern_of_none hnode, Pattern.id]
  | some node =>
    rw [h.pattern_eq hnode]
    cases node <;> rfl

@[simp]
theorem id_expr (h : arena.Acyclic) (id : ExprId) : (arena.forest.expr id).id = id := by
  cases hnode : arena.exprs[id]? with
  | none => rw [expr_of_none hnode, Expr.id]
  | some node =>
    rw [h.expr_eq hnode]
    cases node <;> rfl

end Acyclic

end Arena

namespace Forest

/-- The visit of a node itself. -/
def visit (forest : Forest) : Node → Visit
  | .pattern id => .pattern (forest.pattern id)
  | .expr id => .expr (forest.expr id)

/-- The visits of the tree of a node. -/
def visitsOf (forest : Forest) : Node → List Visit
  | .pattern id => (forest.pattern id).visits
  | .expr id => (forest.expr id).visits

/-- What is met in a tree is itself the tree of its number. -/
def Owns (forest : Forest) : Visit → Prop
  | .pattern pattern => forest.pattern pattern.id = pattern
  | .expr expr => forest.expr expr.id = expr
  | .binding _ => True

/-- All that is met in its trees are trees of the forest. -/
def Closed (forest : Forest) : Prop := ∀ node, ∀ visit ∈ forest.visitsOf node, forest.Owns visit

end Forest

/-- What stands in a tree for a node that is not there. -/
def Node.gap : Node → Visit
  | pattern id => .pattern (.missing id)
  | expr id => .expr (.missing id)

namespace Arena

variable {arena : Arena} {forest : Forest}

/-- The node over the trees that a forest has for what the node refers to. -/
def layer (arena : Arena) (forest : Forest) : Node → Visit
  | .pattern id =>
    match arena.patterns[id]? with
    | some node => .pattern (node.tree forest.pattern forest.expr id)
    | none => .pattern (.missing id)
  | .expr id =>
    match arena.exprs[id]? with
    | some node => .expr (node.tree forest.pattern forest.expr id)
    | none => .expr (.missing id)

/-- The visits of a layer are its root, what the root binds, and the visits of what it refers to. -/
theorem below_layer (arena : Arena) (forest : Forest) (node : Node) :
    (arena.layer forest node).below = arena.layer forest node ::
      ((arena.bindings node).map .binding ++ (arena.refs node).flatMap forest.visitsOf) := by
  cases node with
  | pattern id =>
    rw [layer, refs, bindings]
    cases arena.patterns[id]? with
    | none => rfl
    | some node =>
      cases node <;>
        simp [Visit.below, PatternNode.tree, Pattern.visits, Pattern.visitsAll_eq,
          PatternNode.patternRefs, PatternNode.exprRefs, List.flatMap_map, Forest.visitsOf]
  | expr id =>
    rw [layer, refs, bindings]
    cases arena.exprs[id]? with
    | none => rfl
    | some node =>
      cases node <;>
        simp [Visit.below, ExprNode.tree, Expr.visits, Expr.visitsAll_eq, ExprNode.patternRefs,
          ExprNode.exprRefs, List.flatMap_map, Forest.visitsOf]

/-- The one-layer law at a node says what its visits are. -/
theorem visitsOf_eq_of_layer {node : Node} (h : forest.visit node = arena.layer forest node) :
    forest.visitsOf node = forest.visit node ::
      ((arena.bindings node).map .binding ++ (arena.refs node).flatMap forest.visitsOf) := by
  have hbelow : (forest.visit node).below = forest.visitsOf node := by cases node <;> rfl
  rw [← hbelow, h]
  exact arena.below_layer forest node

theorem id_pattern_of_layer {id : PatternId}
    (h : forest.visit (.pattern id) = arena.layer forest (.pattern id)) :
    (forest.pattern id).id = id := by
  rw [Forest.visit, layer] at h
  cases hnode : arena.patterns[id]? with
  | none =>
    rw [hnode] at h
    rw [Visit.pattern.inj h, Pattern.id]
  | some node =>
    rw [hnode] at h
    rw [Visit.pattern.inj h]
    cases node <;> rfl

theorem id_expr_of_layer {id : ExprId}
    (h : forest.visit (.expr id) = arena.layer forest (.expr id)) : (forest.expr id).id = id := by
  rw [Forest.visit, layer] at h
  cases hnode : arena.exprs[id]? with
  | none =>
    rw [hnode] at h
    rw [Visit.expr.inj h, Expr.id]
  | some node =>
    rw [hnode] at h
    rw [Visit.expr.inj h]
    cases node <;> rfl

/-- What satisfies the one-layer law is the tree of its number. -/
theorem owns_of_layer {node : Node} (h : forest.visit node = arena.layer forest node) :
    forest.Owns (forest.visit node) := by
  cases node with
  | pattern id => exact congrArg forest.pattern (id_pattern_of_layer h)
  | expr id => exact congrArg forest.expr (id_expr_of_layer h)

namespace IsForest

variable {arena : Arena} {forest : Forest}

/-- A node that does not exist has no tree. -/
theorem visit_of_notMem (h : arena.IsForest forest) {node : Node} (hnode : node ∉ arena.nodes) :
    forest.visit node = node.gap ∧ arena.layer forest node = node.gap := by
  cases node with
  | pattern id =>
    have hsize : arena.patterns.size ≤ id := by simpa [nodes] using hnode
    rw [Forest.visit, Forest.pattern, Array.getElem?_eq_none (h.patterns_size ▸ hsize), layer,
      Array.getElem?_eq_none hsize]
    exact ⟨rfl, rfl⟩
  | expr id =>
    have hsize : arena.exprs.size ≤ id := by simpa [nodes] using hnode
    rw [Forest.visit, Forest.expr, Array.getElem?_eq_none (h.exprs_size ▸ hsize), layer,
      Array.getElem?_eq_none hsize]
    exact ⟨rfl, rfl⟩

/-- Complete trees satisfy the one-layer law. -/
theorem layer_of_complete (h : arena.IsForest forest) {node : Node}
    (hc : forest.isComplete node = true) : forest.visit node = arena.layer forest node := by
  by_cases hnode : node ∈ arena.nodes
  · cases node with
    | pattern id =>
      have hget := Array.getElem?_eq_getElem (by simpa [nodes] using hnode)
      rw [Forest.visit, layer, hget, (h.pattern id _ hget hc).1]
    | expr id =>
      have hget := Array.getElem?_eq_getElem (by simpa [nodes] using hnode)
      rw [Forest.visit, layer, hget, (h.expr id _ hget hc).1]
  · rw [(h.visit_of_notMem hnode).1, (h.visit_of_notMem hnode).2]

end IsForest

/-! ## Grounded nodes -/

section

variable {arena : Arena}

/-- All paths from a node end, and on the way every tree is one layer over the trees of what its
node refers to. -/
structure Grounded (arena : Arena) (node : Node) : Prop where
  ends : Acc (fun other node => arena.Refers node other) node
  layer : ∀ other, Relation.ReflTransGen arena.Refers node other →
    arena.forest.visit other = arena.layer arena.forest other

theorem grounded_of_acc {node : Node} (h : Acc (fun other node => arena.Refers node other) node) :
    arena.Grounded node := by
  refine ⟨h, fun other hpath => (isForest_forest arena).layer_of_complete (isComplete_of_acc ?_)⟩
  induction hpath with
  | refl => exact h
  | tail _ hstep ih => exact ih.inv hstep

theorem Acyclic.grounded (h : arena.Acyclic) (node : Node) : arena.Grounded node :=
  grounded_of_acc (h.wellFounded.apply node)

namespace Grounded

variable {node other : Node}

theorem of_refers (h : arena.Grounded node) (hother : arena.Refers node other) :
    arena.Grounded other :=
  ⟨h.ends.inv hother, fun last hpath => h.layer last (.head hother hpath)⟩

theorem of_reaches (h : arena.Grounded node)
    (hother : Relation.ReflTransGen arena.Refers node other) : arena.Grounded other := by
  induction hother with
  | refl => exact h
  | tail _ hstep ih => exact ih.of_refers hstep

/-- **Whatever is met in a tree is the tree of its number.** -/
theorem owns (h : arena.Grounded node) :
    ∀ visit ∈ arena.forest.visitsOf node, arena.forest.Owns visit := by
  induction h.ends with
  | intro node _ ih =>
    have hlayer := h.layer node .refl
    intro visit hvisit
    rw [visitsOf_eq_of_layer hlayer, List.mem_cons, List.mem_append, List.mem_map,
      List.mem_flatMap] at hvisit
    rcases hvisit with rfl | ⟨binding, -, rfl⟩ | ⟨other, hother, hvisit⟩
    · exact owns_of_layer hlayer
    · trivial
    · exact ih other hother (h.of_refers hother) visit hvisit

end Grounded

end

end Arena

namespace Arena.Acyclic

variable {arena : Arena}

theorem visit_eq (h : arena.Acyclic) (node : Node) :
    arena.forest.visit node = arena.layer arena.forest node :=
  (isForest_forest arena).layer_of_complete (h.isComplete node)

/-- The visits of a tree are its root, what the root binds, and the visits of what it refers to. -/
theorem visitsOf_eq (h : arena.Acyclic) (node : Node) :
    arena.forest.visitsOf node = arena.forest.visit node ::
      ((arena.bindings node).map .binding ++
        (arena.refs node).flatMap arena.forest.visitsOf) :=
  visitsOf_eq_of_layer (h.visit_eq node)

theorem closed (h : arena.Acyclic) : arena.forest.Closed := fun node => (h.grounded node).owns

/-- A pattern that is met comes from a node, or from a reference that leads nowhere. -/
theorem exists_patternNode (h : arena.Acyclic) {node : Node} {pattern : Pattern}
    (hvisit : .pattern pattern ∈ arena.forest.visitsOf node) :
    (arena.patterns[pattern.id]? = none ∧ pattern = .missing pattern.id) ∨
      ∃ found, arena.patterns[pattern.id]? = some found ∧
        pattern = found.tree arena.forest.pattern arena.forest.expr pattern.id := by
  have howns : arena.forest.pattern pattern.id = pattern := h.closed node _ hvisit
  cases hnode : arena.patterns[pattern.id]? with
  | none => exact Or.inl ⟨rfl, howns.symm.trans (pattern_of_none hnode)⟩
  | some found => exact Or.inr ⟨found, rfl, howns.symm.trans (h.pattern_eq hnode)⟩

end Arena.Acyclic

/-! ## Single references -/

/-- The node of a visit. -/
def Visit.node? : Visit → Option Node
  | pattern p => some (.pattern p.id)
  | expr e => some (.expr e.id)
  | binding _ => none

/-- The nodes met in a tree, in order. -/
def Forest.nodesOf (forest : Forest) (node : Node) : List Node :=
  (forest.visitsOf node).filterMap Visit.node?

namespace Arena

variable {arena : Arena} {roots : List Node}

namespace Grounded

variable {node other : Node}

theorem nodesOf_eq (h : arena.Grounded node) :
    arena.forest.nodesOf node = node :: (arena.refs node).flatMap arena.forest.nodesOf := by
  have hlayer := h.layer node .refl
  have hself : (arena.forest.visit node).node? = some node := by
    cases node with
    | pattern id => simp [Forest.visit, Visit.node?, id_pattern_of_layer hlayer]
    | expr id => simp [Forest.visit, Visit.node?, id_expr_of_layer hlayer]
  have hbindings : ((arena.bindings node).map Visit.binding).filterMap Visit.node? = [] := by
    simp [List.filterMap_map, Function.comp_def, Visit.node?]
  rw [Forest.nodesOf, visitsOf_eq_of_layer hlayer, List.filterMap_cons_some hself,
    List.filterMap_append, hbindings, List.nil_append, List.filterMap_flatMap]
  rfl

theorem unfolds (h : arena.Grounded node) : Unfolds arena.refs arena.forest.nodesOf node :=
  ⟨h.ends, fun _ hpath => (h.of_reaches hpath).nodesOf_eq⟩

theorem reaches_of_mem_nodesOf (h : arena.Grounded node)
    (hmem : other ∈ arena.forest.nodesOf node) :
    Relation.ReflTransGen arena.Refers node other := h.unfolds.reaches hmem

end Grounded

/-- All references: those that nodes make, and those from outside. -/
def references (arena : Arena) (roots : List Node) : List Node :=
  arena.nodes.flatMap arena.refs ++ roots

theorem leftUnique_refers (h : (arena.references roots).Nodup) :
    Relator.LeftUnique arena.Refers := fun _ _ _ ha hb =>
  eq_of_mem_flatMap (List.nodup_append.1 h).1 (mem_nodes_of_refers ha) (mem_nodes_of_refers hb)
    ha hb

theorem not_refers_root (h : (arena.references roots).Nodup) {root node : Node}
    (hroot : root ∈ roots) : ¬ arena.Refers node root := by
  intro href
  exact (List.nodup_append.1 h).2.2 root
    (List.mem_flatMap.2 ⟨node, mem_nodes_of_refers href, href⟩) root hroot rfl

theorem refs_nodup (h : (arena.references roots).Nodup) (node : Node) :
    (arena.refs node).Nodup := by
  by_cases hnode : node ∈ arena.nodes
  · exact (List.nodup_flatMap.1 (List.nodup_append.1 h).1).1 node hnode
  · have : arena.refs node = [] :=
      List.eq_nil_iff_forall_not_mem.2 fun other href => hnode (mem_nodes_of_refers href)
    rw [this]
    exact List.nodup_nil

/-- A tree in which nothing is referred to twice meets no node twice. -/
theorem Grounded.nodup_nodesOf {node : Node} (hnode : arena.Grounded node)
    (h : (arena.references roots).Nodup) : (arena.forest.nodesOf node).Nodup :=
  hnode.unfolds.nodup (leftUnique_refers h) (refs_nodup h)

/-- **Where nothing is referred to twice, the trees of the roots share no node.** -/
theorem Acyclic.nodup_roots (hacyclic : arena.Acyclic) (h : (arena.references roots).Nodup) :
    (roots.flatMap arena.forest.nodesOf).Nodup := by
  have hroots : roots.Nodup := (List.nodup_append.1 h).2.1
  rw [List.nodup_flatMap]
  refine ⟨fun root _ => (hacyclic.grounded root).nodup_nodesOf h, ?_⟩
  have htop : ∀ a ∈ roots, ∀ b ∈ roots, Relation.ReflTransGen arena.Refers a b → a = b := by
    intro a _ b hb hpath
    rcases Relation.ReflTransGen.cases_tail hpath with rfl | ⟨last, _, href⟩
    · rfl
    · exact absurd href (not_refers_root h hb)
  refine hroots.pairwise_of_forall_ne fun a ha b hb hne => ?_
  refine List.disjoint_left.mpr fun other hother hother' => ?_
  rcases total_of_leftUnique (leftUnique_refers h)
    ((hacyclic.grounded a).reaches_of_mem_nodesOf hother)
    ((hacyclic.grounded b).reaches_of_mem_nodesOf hother') with hpath | hpath
  · exact hne (htop a ha b hb hpath)
  · exact hne (htop b hb a ha hpath).symm

end Arena

end GuardedMatch
