import GuardedMatch.Proofs.Checking
import GuardedMatch.Proofs.Exhaustive

/-!
# Coverage without a budget

The coverage check takes types apart and opens guards, and nothing in its arguments gets smaller
at every step: a record is replaced by any number of columns, a sealed type keeps all rows, and an
open guard multiplies them.  Here the recursion is written down as it is, with rows that hold the
numbers of their patterns and without a budget.

The calls it makes form a well-founded relation if no type contains itself and no pattern leads
back to itself.  Columns are settled from the last one to the first.  For one column the argument
follows the types that its type contains.  So the recursion has exactly one solution, and the check
with a budget computes it, whatever the budget is, as long as it is larger than the pool.

* `CoverageCall.Makes`: the calls that a call may make.
* `CoverageCall.wellFounded_makes`: there is no endless chain of calls.
* `coverage_wellFounded`: the recursion ends, and the check with a budget is its only solution.
-/

namespace GuardedMatch

/-! ## Gathering -/

/-- The lists that a partial function answers, one after another. -/
def gather {α β : Type} (answer : α → Except Fault (List β)) : List α → Except Fault (List β)
  | [] => .ok []
  | a :: as => do
    let first ← answer a
    let others ← gather answer as
    return first ++ others

section

variable {α β γ : Type}

theorem gather_congr {f g : α → Except Fault (List β)} {as : List α} (h : ∀ a ∈ as, f a = g a) :
    gather f as = gather g as := by
  induction as with
  | nil => rfl
  | cons a as ih =>
    rw [List.forall_mem_cons] at h
    rw [gather, gather, h.1, ih h.2]

theorem gather_comp {f : β → Except Fault (List γ)} {source : α → β} (as : List α) :
    gather f (as.map source) = gather (fun a => f (source a)) as := by
  induction as with
  | nil => rfl
  | cons a as ih => rw [List.map_cons, gather, gather, ih]

theorem gather_map {f : α → Except Fault (List γ)} {g : α → Except Fault (List β)}
    {target : β → γ} {as : List α} (h : ∀ a ∈ as, f a = (g a).map (List.map target)) :
    gather f as = (gather g as).map (List.map target) := by
  induction as with
  | nil => rfl
  | cons a as ih =>
    rw [List.forall_mem_cons] at h
    rw [gather, gather, h.1, ih h.2]
    cases g a with
    | error fault => rfl
    | ok first =>
      cases gather g as with
      | error fault => rfl
      | ok others =>
        show Except.ok (first.map target ++ others.map target) = .ok ((first ++ others).map target)
        rw [List.map_append]

end

theorem expandRows_eq_gather (rows : List Row) : expandRows rows = gather Row.expand rows := by
  induction rows with
  | nil => rfl
  | cons row rows ih => rw [expandRows, gather, ih]

theorem keepRows_eq_gather (step : Row → Except Fault (Option Row)) (rows : List Row) :
    keepRows step rows = gather (fun row => (step row).map Option.toList) rows := by
  induction rows with
  | nil => rfl
  | cons row rows ih =>
    rw [keepRows, gather, ih]
    cases step row <;> rfl

theorem alternativesAll_eq_gather (patterns : List Pattern) :
    Pattern.alternativesAll patterns = gather Pattern.alternatives patterns := by
  induction patterns with
  | nil => rw [Pattern.alternativesAll, gather]
  | cons pattern patterns ih => rw [Pattern.alternativesAll, gather, ih]

theorem Check.all_congr {α : Type} {f g : α → Check} {as : List α} (h : ∀ a ∈ as, f a = g a) :
    Check.all f as = Check.all g as := by
  induction as with
  | nil => rfl
  | cons a as ih =>
    rw [List.forall_mem_cons] at h
    rw [Check.all, Check.all, h.1, ih h.2]

/-! ## Rows by numbers -/

/-- A row that holds the numbers of its patterns. -/
abbrev IdRow := List (Option PatternId)

def Row.numbers (row : Row) : IdRow := row.map (Option.map Pattern.id)

namespace Arena

variable (arena : Arena) (pool : Pool) (table : Resolution) (ty : Ty)

/-- The row of trees for a row of numbers. -/
def row (cells : IdRow) : Row := cells.map (Option.map arena.forest.pattern)

/-- Whether the first cell matches all values of a type. -/
def headCovers : Option PatternId → Check
  | some id => (arena.forest.pattern id).covers pool table ty
  | none => .ok true

/-- What is left of a row for the values of a type, if it matches all of them. -/
def withoutHead : IdRow → Except Fault (List IdRow)
  | head :: cells => do
    if ← arena.headCovers pool table ty head then return [cells] else return []
  | [] => .ok []

/-- The row for the components of a record, if the first cell matches all of them. -/
def widened (head : Option PatternId) (cells : IdRow) : Except Fault (List IdRow) := do
  if ← arena.headCovers pool table ty head then
    return [List.replicate (pool.components ty).length none ++ cells]
  else return []

/-- The row for the components of a record, if it can match one. -/
def withComponents : IdRow → Except Fault (List IdRow)
  | some id :: cells =>
    match arena.patterns[id]? with
    | some (.record _ components _) =>
      if table.patternTypes[id]? = some ty ∧
          components.length = (pool.components ty).length then
        .ok [components.map some ++ cells]
      else arena.widened pool table ty (some id) cells
    | _ => arena.widened pool table ty (some id) cells
  | none :: cells => arena.widened pool table ty none cells
  | [] => .ok []

end Arena

/-! ## Calls -/

/-- A call of the recursion: columns to settle, a record in the first of them, or a row whose first
cell is to be opened. -/
inductive CoverageCall (pool : Pool)
  | columns (rows : List IdRow) (types : List Ty)
  | record (rows : List IdRow) (ty : Ty) (hrecord : pool.isRecord ty = true) (types : List Ty)
  | expand (cells : IdRow)

namespace CoverageCall

variable {pool : Pool}

/-- What a call answers. -/
abbrev Answer : CoverageCall pool → Type
  | columns .. | record .. => Check
  | expand _ => Except Fault (List IdRow)

/-- One step of the recursion, where `recur` answers the calls it makes. -/
def step (arena : Arena) (table : Resolution) (recur : (call : CoverageCall pool) → call.Answer) :
    (call : CoverageCall pool) → call.Answer
  | columns rows [] => .ok !rows.isEmpty
  | columns rows (ty :: types) =>
    match gather (fun cells => recur (expand cells)) rows with
    | .error fault => .error fault
    | .ok rows =>
      if rows.isEmpty then .ok false
      else if hrecord : pool.isRecord ty = true then recur (record rows ty hrecord types)
      else
        match gather (arena.withoutHead pool table ty) rows with
        | .error fault => .error fault
        | .ok defaults =>
          Check.orElse (recur (columns defaults types)) fun _ =>
            if pool.isSealed ty && pool.isAbstract ty && !(pool.permittedSubtypes ty).isEmpty then
              Check.all (fun sub => recur (columns rows (sub :: types))) (pool.permittedSubtypes ty)
            else .ok false
  | record rows ty _ types =>
    match gather (arena.withComponents pool table ty) rows with
    | .error fault => .error fault
    | .ok specialized => recur (columns specialized (pool.componentTypes ty ++ types))
  | expand [] => .ok [[]]
  | expand (none :: cells) => .ok [none :: cells]
  | expand (some id :: cells) =>
    match arena.patterns[id]? with
    | some (.guarded patterns condition _) =>
      match (arena.forest.expr condition).isVacuous with
      | .ok true => gather (fun sub => recur (expand (some sub :: cells))) patterns
      | .ok false => .ok []
      | .error fault => .error fault
    | some _ => .ok [some id :: cells]
    | none => .error (.unknownPattern id)

/-- The calls that a call may make, whatever rows they are made with. -/
inductive Makes (arena : Arena) : CoverageCall pool → CoverageCall pool → Prop
  | rows {rows : List IdRow} {ty : Ty} {types : List Ty} {cells : IdRow} (hcells : cells ∈ rows) :
      Makes arena (columns rows (ty :: types)) (expand cells)
  | takeApart {rows rows' : List IdRow} {ty : Ty} {types : List Ty}
      (hrecord : pool.isRecord ty = true) :
      Makes arena (columns rows (ty :: types)) (record rows' ty hrecord types)
  | leave {rows rows' : List IdRow} {ty : Ty} {types : List Ty} :
      Makes arena (columns rows (ty :: types)) (columns rows' types)
  | split {rows rows' : List IdRow} {ty sub : Ty} {types : List Ty}
      (hsealed : pool.isSealed ty = true) (habstract : pool.isAbstract ty = true)
      (hsub : sub ∈ pool.permittedSubtypes ty) :
      Makes arena (columns rows (ty :: types)) (columns rows' (sub :: types))
  | components {rows rows' : List IdRow} {ty : Ty} {hrecord : pool.isRecord ty = true}
      {types : List Ty} :
      Makes arena (record rows ty hrecord types) (columns rows' (pool.componentTypes ty ++ types))
  | guard {id sub : PatternId} {cells : IdRow} {patterns : List PatternId} {condition : ExprId}
      {span : Span} (hnode : arena.patterns[id]? = some (.guarded patterns condition span))
      (hsub : sub ∈ patterns) : Makes arena (expand (some id :: cells)) (expand (some sub :: cells))

variable {arena : Arena} {table : Resolution}

/-- A step looks at the recursion only in the calls that it makes. -/
theorem step_congr {f g : (call : CoverageCall pool) → call.Answer} (caller : CoverageCall pool)
    (h : ∀ callee, Makes arena caller callee → f callee = g callee) :
    step arena table f caller = step arena table g caller := by
  match caller with
  | columns rows [] => rfl
  | columns rows (ty :: types) =>
    have hexpand : gather (fun cells => f (expand cells)) rows =
        gather (fun cells => g (expand cells)) rows :=
      gather_congr fun cells hcells => h (expand cells) (.rows hcells)
    rw [step, step, hexpand]
    split
    next => rfl
    next expanded _ =>
      by_cases hrecord : pool.isRecord ty = true
      · rw [dif_pos hrecord, dif_pos hrecord, h _ (.takeApart hrecord)]
      rw [dif_neg hrecord, dif_neg hrecord]
      split
      next => rfl
      next =>
        split
        next => rfl
        next defaults =>
          rw [h _ .leave]
          by_cases hsplit : (pool.isSealed ty && pool.isAbstract ty &&
              !(pool.permittedSubtypes ty).isEmpty) = true
          · rw [if_pos hsplit, if_pos hsplit]
            simp only [Bool.and_eq_true] at hsplit
            have hall : Check.all (fun sub => f (columns expanded (sub :: types)))
                (pool.permittedSubtypes ty) =
                Check.all (fun sub => g (columns expanded (sub :: types)))
                  (pool.permittedSubtypes ty) :=
              Check.all_congr fun sub hsub => h _ (.split hsplit.1.1 hsplit.1.2 hsub)
            rw [hall]
          · rw [if_neg hsplit, if_neg hsplit]
  | record rows ty hrecord types =>
    rw [step, step]
    split
    next => rfl
    next => exact h _ .components
  | expand [] => rfl
  | expand (none :: cells) => rfl
  | expand (some id :: cells) =>
    rw [step, step]
    split
    next patterns condition span hnode =>
      split
      next => exact gather_congr fun sub hsub => h (expand (some sub :: cells)) (.guard hnode hsub)
      next => rfl
      next => rfl
    next => rfl
    next => rfl

/-! ## No endless chain of calls -/

/-- Guards are opened only finitely often. -/
theorem acc_expand (hacyclic : arena.Acyclic) (cells : IdRow) :
    Acc (fun callee caller => Makes arena caller callee) (expand cells : CoverageCall pool) := by
  match cells with
  | [] =>
    refine ⟨_, fun callee h => ?_⟩
    cases h
  | none :: cells =>
    refine ⟨_, fun callee h => ?_⟩
    cases h
  | some id :: cells =>
    have hacc : ∀ node : Node, ∀ id, node = .pattern id →
        Acc (fun callee caller => Makes arena caller callee)
          (expand (some id :: cells) : CoverageCall pool) := by
      intro node
      induction node using hacyclic.wellFounded.induction with
      | _ node ih =>
        rintro id rfl
        refine ⟨_, fun callee h => ?_⟩
        cases h with
        | @guard _ sub _ _ _ _ hnode hsub =>
          refine ih (.pattern sub) ?_ sub rfl
          rw [Arena.Refers, Arena.refs, hnode]
          exact List.mem_append_left _ (List.mem_map_of_mem hsub)
    exact hacc (.pattern id) id rfl

/-- **One more column.**  If what is left after a column is settled for all rows, so is the column,
by induction on the types that its type contains. -/
theorem acc_cons (hacyclic : arena.Acyclic)
    (htypes : ∀ ty, ¬ Relation.TransGen pool.Contains ty ty) (ty : Ty) :
    ∀ types, (∀ rows, Acc (fun callee caller => Makes arena caller callee)
        (columns rows types : CoverageCall pool)) →
      ∀ rows, Acc (fun callee caller => Makes arena caller callee)
        (columns rows (ty :: types) : CoverageCall pool) := by
  induction ty using (Pool.wellFounded_contains htypes).induction with
  | _ ty ih =>
    intro types hrest rows
    -- A record leads to its components, which are added one after another.
    have hfront : pool.isRecord ty = true → ∀ front ⊆ pool.componentTypes ty, ∀ rows,
        Acc (fun callee caller => Makes arena caller callee)
          (columns rows (front ++ types) : CoverageCall pool) := by
      intro hrecord front
      induction front with
      | nil => exact fun _ => hrest
      | cons part front ihFront =>
        intro hsubset
        rw [List.cons_subset] at hsubset
        exact ih part (.inl ⟨hrecord, hsubset.1⟩) (front ++ types) (ihFront hsubset.2)
    refine ⟨_, fun callee h => ?_⟩
    cases h with
    | rows hcells => exact acc_expand hacyclic _
    | takeApart hrecord =>
      refine ⟨_, fun callee h => ?_⟩
      cases h with
      | components => exact hfront hrecord _ (List.Subset.refl _) _
    | leave => exact hrest _
    | split hsealed habstract hsub =>
      exact ih _ (.inr ⟨hsealed, habstract, hsub⟩) types hrest _

theorem acc_columns (hacyclic : arena.Acyclic)
    (htypes : ∀ ty, ¬ Relation.TransGen pool.Contains ty ty) (types : List Ty) :
    ∀ rows, Acc (fun callee caller => Makes arena caller callee)
      (columns rows types : CoverageCall pool) := by
  induction types with
  | nil =>
    intro rows
    refine ⟨_, fun callee h => ?_⟩
    cases h
  | cons ty types ih => exact acc_cons hacyclic htypes ty types ih

/-- **There is no endless chain of calls**, if no pattern leads back to itself and no type contains
itself. -/
theorem wellFounded_makes (hacyclic : arena.Acyclic)
    (htypes : ∀ ty, ¬ Relation.TransGen pool.Contains ty ty) :
    WellFounded fun callee caller : CoverageCall pool => Makes arena caller callee := by
  refine ⟨fun call => ?_⟩
  cases call with
  | columns rows types => exact acc_columns hacyclic htypes types rows
  | record rows ty hrecord types =>
    refine ⟨_, fun callee h => ?_⟩
    cases h with
    | components => exact acc_columns hacyclic htypes _ _
  | expand cells => exact acc_expand hacyclic cells

/-- So there is at most one solution of the recursion. -/
theorem eq_of_step (hacyclic : arena.Acyclic)
    (htypes : ∀ ty, ¬ Relation.TransGen pool.Contains ty ty)
    {f g : (call : CoverageCall pool) → call.Answer} (hf : ∀ call, f call = step arena table f call)
    (hg : ∀ call, g call = step arena table g call) : g = f := by
  funext call
  induction call using (wellFounded_makes hacyclic htypes).induction with
  | _ call ih =>
    calc g call = step arena table g call := hg call
      _ = step arena table f call := step_congr call ih
      _ = f call := (hf call).symm

end CoverageCall

/-! ## Trees for numbers -/

theorem Row.expand_some (pattern : Pattern) (cells : Row) :
    Row.expand (some pattern :: cells) = pattern.alternatives.map (List.map (some · :: cells)) := by
  rw [Row.expand]
  cases pattern.alternatives <;> rfl

namespace Arena

variable {arena : Arena} {pool : Pool} {table : Resolution}

theorem row_some (id : PatternId) (cells : IdRow) :
    arena.row (some id :: cells) = some (arena.forest.pattern id) :: arena.row cells := rfl

theorem row_replicate (count : Nat) (cells : IdRow) :
    arena.row (List.replicate count none ++ cells) =
      List.replicate count none ++ arena.row cells := by
  rw [row, row, List.map_append, List.map_replicate, Option.map_none]

theorem row_components (components : List PatternId) (cells : IdRow) :
    arena.row (components.map some ++ cells) =
      (components.map arena.forest.pattern).map some ++ arena.row cells := by
  rw [row, row, List.map_append, List.map_map, List.map_map]
  rfl

/-- The numbers of the trees of a row are those of the row. -/
theorem Acyclic.numbers_row (hacyclic : arena.Acyclic) (cells : IdRow) :
    (arena.row cells).numbers = cells := by
  rw [row, Row.numbers, List.map_map]
  have hid : Option.map Pattern.id ∘ Option.map arena.forest.pattern = id := by
    funext cell
    cases cell with
    | none => rfl
    | some id => exact congrArg some (hacyclic.id_pattern id)
  rw [hid, List.map_id]

/-- Opening a row of trees leads to rows of trees. -/
theorem Acyclic.row_numbers (hacyclic : arena.Acyclic) {cells : IdRow} {parts : List Row}
    (h : (arena.row cells).expand = .ok parts) {part : Row} (hpart : part ∈ parts) :
    arena.row part.numbers = part := by
  have hsame : ∀ cells, arena.row (arena.row cells).numbers = arena.row cells :=
    fun cells => congrArg arena.row (hacyclic.numbers_row cells)
  match cells with
  | [] =>
    cases h
    obtain rfl := List.mem_singleton.1 hpart
    exact hsame []
  | none :: cells =>
    cases h
    obtain rfl := List.mem_singleton.1 hpart
    exact hsame (none :: cells)
  | some id :: cells =>
    rw [row_some, Row.expand_some] at h
    cases hfound : (arena.forest.pattern id).alternatives with
    | error fault =>
      rw [hfound] at h
      cases h
    | ok found =>
      rw [hfound] at h
      cases h
      obtain ⟨other, hother, rfl⟩ := List.mem_map.1 hpart
      have howns : arena.forest.pattern other.id = other :=
        hacyclic.closed (.pattern id) _ (mem_alternatives _ hfound other hother).1
      show some (arena.forest.pattern other.id) :: arena.row (arena.row cells).numbers =
        some other :: arena.row cells
      rw [howns, hsame]

theorem row_default (ty : Ty) (cells : IdRow) :
    ((arena.row cells).default? pool table ty).map Option.toList =
      (arena.withoutHead pool table ty cells).map (List.map arena.row) := by
  match cells with
  | [] | none :: cells => rfl
  | some id :: cells =>
    rw [row_some, Row.default?, withoutHead, headCovers]
    cases (arena.forest.pattern id).covers pool table ty with
    | error fault => rfl
    | ok answer => cases answer <;> rfl

theorem row_widened (ty : Ty) (id : PatternId) (cells : IdRow) :
    Except.map Option.toList (do
      if ← (arena.forest.pattern id).covers pool table ty then
        return some (List.replicate (pool.components ty).length none ++ arena.row cells)
      else return none) =
      (arena.widened pool table ty (some id) cells).map (List.map arena.row) := by
  rw [widened, headCovers]
  cases (arena.forest.pattern id).covers pool table ty with
  | error fault => rfl
  | ok answer =>
    cases answer with
    | false => rfl
    | true =>
      show Except.ok [_] = Except.ok [arena.row _]
      rw [row_replicate]

theorem Acyclic.row_specialize (hacyclic : arena.Acyclic) (ty : Ty) (cells : IdRow) :
    ((arena.row cells).specialize? pool table ty).map Option.toList =
      (arena.withComponents pool table ty cells).map (List.map arena.row) := by
  match cells with
  | [] => rfl
  | none :: cells =>
    show Except.ok [_ ++ arena.row cells] = Except.ok [arena.row _]
    rw [row_replicate]
  | some id :: cells =>
    rw [row_some, withComponents]
    -- Only a record is treated in a special way.
    cases hnode : arena.patterns[id]? with
    | none =>
      dsimp only
      rw [← row_widened, pattern_of_none hnode]
      rfl
    | some node =>
      cases node with
      | type | guarded | any =>
        dsimp only
        rw [← row_widened, hacyclic.pattern_eq hnode]
        rfl
      | record written components span =>
        have htree := hacyclic.pattern_eq hnode
        rw [PatternNode.tree] at htree
        dsimp only
        rw [htree, Row.specialize?, List.length_map]
        split
        next =>
          show Except.ok [_] = Except.ok [arena.row _]
          rw [row_components]
        next => rw [← row_widened, htree]

end Arena

/-! ## The budget does not matter -/

section

variable {pool : Pool} {table : Resolution}

/-- The answer for a type depends on the answers for the types that it contains. -/
theorem covered_succ_congr {budget budget' : Nat} {ty : Ty}
    (h : ∀ part, pool.Contains ty part →
      covered pool table budget part = covered pool table budget' part) :
    covered pool table (budget + 1) ty = covered pool table (budget' + 1) ty := by
  funext rest rows
  rw [covered, covered]
  split
  next => rfl
  next expanded _ =>
    split
    next => rfl
    next =>
      split
      next hrecord =>
        split
        next => rfl
        next specialized _ =>
          have hfoldr : (pool.componentTypes ty).foldr (covered pool table budget) rest =
              (pool.componentTypes ty).foldr (covered pool table budget') rest :=
            List.foldr_ext _ _ _ fun part hpart rest =>
              congrFun (h part (.inl ⟨hrecord, hpart⟩)) rest
          rw [hfoldr]
      next =>
        split
        next => rfl
        next defaults _ =>
          by_cases hsplit : (pool.isSealed ty && pool.isAbstract ty &&
              !(pool.permittedSubtypes ty).isEmpty) = true
          · rw [if_pos hsplit, if_pos hsplit]
            simp only [Bool.and_eq_true] at hsplit
            have hall : Check.all (fun sub => covered pool table budget sub rest expanded)
                (pool.permittedSubtypes ty) =
                Check.all (fun sub => covered pool table budget' sub rest expanded)
                  (pool.permittedSubtypes ty) :=
              Check.all_congr fun sub hsub => by
                rw [h sub (.inr ⟨hsplit.1.1, hsplit.1.2, hsub⟩)]
            rw [hall]
          · rw [if_neg hsplit, if_neg hsplit]

/-- **Budgets that allow for the types not yet taken apart answer the same.** -/
theorem covered_eq (htypes : ∀ ty, ¬ Relation.TransGen pool.Contains ty ty) :
    ∀ (budget budget' : Nat) (ty : Ty) (path : Finset Ty), pool.Above path ty →
      pool.size < path.card + budget → pool.size < path.card + budget' →
      covered pool table budget ty = covered pool table budget' ty := by
  intro budget
  induction budget with
  | zero =>
    intro budget' ty path hpath hcard _
    have hle := hpath.card_le
    omega
  | succ budget ih =>
    intro budget' ty path hpath hcard hcard'
    have hle := hpath.card_le
    obtain ⟨budget', rfl⟩ : ∃ less, budget' = less + 1 := ⟨budget' - 1, by omega⟩
    apply covered_succ_congr
    intro part hpart
    obtain ⟨hinsert, hnext⟩ := hpath.insert htypes hpart
    exact ih budget' part (insert ty path) hinsert (by omega) (by omega)

/-- A budget that is larger than the pool need not be larger. -/
theorem covered_succ (htypes : ∀ ty, ¬ Relation.TransGen pool.Contains ty ty) {budget : Nat}
    (hbudget : pool.size < budget) (ty : Ty) :
    covered pool table (budget + 1) ty = covered pool table budget ty := by
  apply covered_eq htypes (budget + 1) budget ty ∅
  · simp [Pool.Above]
  · rw [Finset.card_empty]
    omega
  · rw [Finset.card_empty]
    omega

end

/-! ## The solution -/

namespace CoverageCall

variable {pool : Pool} {arena : Arena} {table : Resolution}

/-- The check with a budget, for all calls. -/
def solve (arena : Arena) (table : Resolution) (budget : Nat) :
    (call : CoverageCall pool) → call.Answer
  | columns rows types =>
    types.foldr (covered pool table budget) (fun rows => .ok !rows.isEmpty) (rows.map arena.row)
  | record rows ty _ types =>
    match keepRows (Row.specialize? pool table ty) (rows.map arena.row) with
    | .error fault => .error fault
    | .ok specialized =>
      (pool.componentTypes ty ++ types).foldr (covered pool table budget)
        (fun rows => .ok !rows.isEmpty) specialized
  | expand cells => (arena.row cells).expand.map (List.map Row.numbers)

theorem row_expand (hacyclic : arena.Acyclic) (budget : Nat) (cells : IdRow) :
    (arena.row cells).expand = Except.map (List.map arena.row)
      (solve arena table budget (expand cells : CoverageCall pool)) := by
  rw [solve]
  cases hparts : (arena.row cells).expand with
  | error fault => rfl
  | ok parts =>
    have hsame : parts.map (arena.row ∘ Row.numbers) = parts :=
      (List.map_congr_left fun part hpart => hacyclic.row_numbers hparts hpart).trans
        (List.map_id parts)
    show Except.ok parts = .ok ((parts.map Row.numbers).map arena.row)
    rw [List.map_map, hsame]

/-- Opening guards solves its part of the recursion. -/
theorem solve_expand (hacyclic : arena.Acyclic) (budget : Nat) (cells : IdRow) :
    solve arena table budget (expand cells : CoverageCall pool) =
      step arena table (solve arena table budget) (expand cells) := by
  have hself : ∀ cells, [(arena.row cells).numbers] = [cells] :=
    fun cells => congrArg (fun row => [row]) (hacyclic.numbers_row cells)
  match cells with
  | [] => exact congrArg Except.ok (hself [])
  | none :: cells => exact congrArg Except.ok (hself (none :: cells))
  | some id :: cells =>
    rw [solve, Arena.row_some, Row.expand_some, step]
    cases hnode : arena.patterns[id]? with
    | none =>
      rw [Arena.pattern_of_none hnode, Pattern.alternatives]
      rfl
    | some node =>
      have htree := hacyclic.pattern_eq hnode
      -- What is not guarded stays as it is.
      have hplain : (arena.forest.pattern id).alternatives = .ok [arena.forest.pattern id] →
          Except.map (List.map Row.numbers) (Except.map (List.map (some · :: arena.row cells))
            (arena.forest.pattern id).alternatives) = .ok [some id :: cells] := by
        intro halternatives
        rw [halternatives]
        exact congrArg Except.ok (hself (some id :: cells))
      cases node with
      | type | record | any =>
        refine hplain ?_
        rw [htree]
        rfl
      | guarded patterns condition span =>
        rw [htree, PatternNode.tree, Pattern.alternatives]
        dsimp only
        cases (arena.forest.expr condition).isVacuous with
        | error fault => rfl
        | ok answer =>
          cases answer with
          | false => rfl
          | true =>
            have hparts : ∀ sub ∈ patterns,
                solve arena table budget (expand (some sub :: cells) : CoverageCall pool) =
                  Except.map (List.map fun other => Row.numbers (some other :: arena.row cells))
                    (arena.forest.pattern sub).alternatives := by
              intro sub _
              rw [solve, Arena.row_some, Row.expand_some]
              cases (arena.forest.pattern sub).alternatives with
              | error fault => rfl
              | ok found => exact congrArg Except.ok (List.map_map)
            dsimp only
            rw [gather_map hparts, alternativesAll_eq_gather, gather_comp]
            cases gather (fun sub => (arena.forest.pattern sub).alternatives) patterns with
            | error fault => rfl
            | ok found => exact congrArg Except.ok (List.map_map)

/-- Taking records apart solves its part of the recursion. -/
theorem solve_record (hacyclic : arena.Acyclic) (budget : Nat) (rows : List IdRow) (ty : Ty)
    (hrecord : pool.isRecord ty = true) (types : List Ty) :
    solve arena table budget (record rows ty hrecord types) =
      step arena table (solve arena table budget) (record rows ty hrecord types) := by
  have hkept : keepRows (Row.specialize? pool table ty) (rows.map arena.row) =
      (gather (arena.withComponents pool table ty) rows).map (List.map arena.row) := by
    rw [keepRows_eq_gather, gather_comp]
    exact gather_map fun cells _ => hacyclic.row_specialize ty cells
  rw [solve, step, hkept]
  cases gather (arena.withComponents pool table ty) rows <;> rfl

/-- **Settling columns solves its part of the recursion**, with a budget that is larger than the
pool. -/
theorem solve_columns (hacyclic : arena.Acyclic)
    (htypes : ∀ ty, ¬ Relation.TransGen pool.Contains ty ty) {budget : Nat}
    (hbudget : pool.size < budget) (rows : List IdRow) (types : List Ty) :
    solve arena table budget (columns rows types : CoverageCall pool) =
      step arena table (solve arena table budget) (columns rows types) := by
  cases types with
  | nil =>
    show Except.ok _ = Except.ok _
    rw [List.isEmpty_map]
  | cons ty types =>
    have hexpand : expandRows (rows.map arena.row) =
        (gather (fun cells => solve arena table budget (expand cells : CoverageCall pool)) rows).map
          (List.map arena.row) := by
      rw [expandRows_eq_gather, gather_comp]
      exact gather_map fun cells _ => row_expand hacyclic budget cells
    -- With one more at the top, the parts are left the budget itself.
    rw [solve, step, List.foldr_cons, ← covered_succ htypes hbudget ty, covered, hexpand]
    cases gather (fun cells => solve arena table budget (expand cells : CoverageCall pool))
      rows with
    | error fault => rfl
    | ok expanded =>
      have hempty : (expanded.map arena.row).isEmpty = expanded.isEmpty := List.isEmpty_map
      show (if (expanded.map arena.row).isEmpty = true then _ else _) = _
      rw [hempty]
      dsimp only
      split
      next => rfl
      next =>
        by_cases hrecord : pool.isRecord ty = true
        · rw [if_pos hrecord, dif_pos hrecord, solve]
          cases keepRows (Row.specialize? pool table ty) (expanded.map arena.row) with
          | error fault => rfl
          | ok specialized =>
            dsimp only
            rw [List.foldr_append]
        · have hdefaults : keepRows (Row.default? pool table ty) (expanded.map arena.row) =
              (gather (arena.withoutHead pool table ty) expanded).map (List.map arena.row) := by
            rw [keepRows_eq_gather, gather_comp]
            exact gather_map fun cells _ => Arena.row_default ty cells
          rw [if_neg hrecord, dif_neg hrecord, hdefaults]
          cases gather (arena.withoutHead pool table ty) expanded with
          | error fault => rfl
          | ok defaults => rfl

theorem solve_eq_step (hacyclic : arena.Acyclic)
    (htypes : ∀ ty, ¬ Relation.TransGen pool.Contains ty ty) {budget : Nat}
    (hbudget : pool.size < budget) (call : CoverageCall pool) :
    solve arena table budget call = step arena table (solve arena table budget) call := by
  cases call with
  | columns rows types => exact solve_columns hacyclic htypes hbudget rows types
  | record rows ty hrecord types => exact solve_record hacyclic budget rows ty hrecord types
  | expand cells => exact solve_expand hacyclic budget cells

end CoverageCall

/-- **Coverage is decided by a recursion that ends.**  If no pattern leads back to itself and no
type contains itself, there is no endless chain of calls, for rows and columns of any number.  A
step of the recursion looks only at the calls that it makes, so the recursion has exactly one
solution.  It is what the check computes, with every budget that is larger than the pool. -/
theorem coverage_wellFounded {arena : Arena} {pool : Pool} (hacyclic : arena.Acyclic)
    (htypes : ∀ ty, ¬ Relation.TransGen pool.Contains ty ty) (table : Resolution) :
    (WellFounded fun callee caller : CoverageCall pool => CoverageCall.Makes arena caller callee) ∧
    (∀ (f g : (call : CoverageCall pool) → call.Answer) (caller : CoverageCall pool),
      (∀ callee, CoverageCall.Makes arena caller callee → f callee = g callee) →
        CoverageCall.step arena table f caller = CoverageCall.step arena table g caller) ∧
    ∃ solution : (call : CoverageCall pool) → call.Answer,
      (∀ call, solution call = CoverageCall.step arena table solution call) ∧
      (∀ other : (call : CoverageCall pool) → call.Answer,
        (∀ call, other call = CoverageCall.step arena table other call) → other = solution) ∧
      (∀ budget, pool.size < budget → ∀ (rows : List IdRow) (types : List Ty),
        types.foldr (covered pool table budget) (fun rows => .ok !rows.isEmpty)
          (rows.map arena.row) = solution (.columns rows types)) ∧
      (∀ cells : IdRow, (arena.row cells).expand =
        Except.map (List.map arena.row) (solution (.expand cells))) ∧
      ∀ (depth : Nat) (cases : List PatternId) (selector : Ty), pool.isError selector = false →
        isExhaustive pool table depth (cases.map arena.forest.pattern) selector =
          solution (.columns (cases.map fun id => [some id]) [selector]) := by
  have hsolves : ∀ {budget}, pool.size < budget → ∀ call : CoverageCall pool,
      call.solve arena table budget =
        call.step arena table (CoverageCall.solve arena table budget) :=
    fun hbudget => CoverageCall.solve_eq_step hacyclic htypes hbudget
  have hfirst := hsolves (Nat.lt_succ_self pool.size)
  have hunique : ∀ other : (call : CoverageCall pool) → call.Answer,
      (∀ call, other call = call.step arena table other) →
        other = CoverageCall.solve arena table (pool.size + 1) :=
    fun other => CoverageCall.eq_of_step hacyclic htypes hfirst
  -- All budgets that are large enough give the same solution.
  have hsame : ∀ budget, pool.size < budget → ∀ call : CoverageCall pool,
      call.solve arena table budget = call.solve arena table (pool.size + 1) :=
    fun budget hbudget => congrFun (hunique _ (hsolves hbudget))
  refine ⟨CoverageCall.wellFounded_makes hacyclic htypes,
    fun f g caller => CoverageCall.step_congr caller,
    CoverageCall.solve arena table (pool.size + 1), hfirst, hunique, ?_,
    CoverageCall.row_expand hacyclic _, ?_⟩
  · intro budget hbudget rows types
    rw [← hsame budget hbudget]
    rfl
  · intro depth cases selector hselector
    rw [← hsame _ (size_lt_coverageBudget pool depth), isExhaustive, if_neg (by simp [hselector]),
      CoverageCall.solve, List.map_map, List.map_map]
    rfl

/-- Dots below a guard that is always true and boxes cover the shapes, dots alone do not. -/
theorem coverage_wellFounded_shapes :
    ∃ solution : (call : CoverageCall Pool.shapes) → call.Answer,
      (∀ call, solution call = CoverageCall.step shapeCases shapeTable solution call) ∧
      solution (.columns [[some 1], [some 3]] [⟨32⟩]) = .ok true ∧
      solution (.columns [[some 1]] [⟨32⟩]) = .ok false := by
  obtain ⟨-, -, solution, hsolution, -, -, -, hcheck⟩ :=
    coverage_wellFounded acyclic_shapeCases Pool.regular_shapes.acyclic shapeTable
  refine ⟨solution, hsolution, ?_, ?_⟩
  · refine (hcheck 0 [1, 3] ⟨32⟩ (by decide)).symm.trans ?_
    decide +kernel
  · refine (hcheck 0 [1] ⟨32⟩ (by decide)).symm.trans ?_
    decide +kernel

end GuardedMatch
