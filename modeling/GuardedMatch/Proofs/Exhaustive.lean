import GuardedMatch.Proofs.Data
import GuardedMatch.Proofs.Matrix

/-!
# An exhaustive switch matches every value

A check of rows is sound for some columns if, whenever it holds, every vector of values of their
types is matched by a row.  `covered` adds a column in front: it is sound if what is left to do
after the column is.

* `sound_covered`: adding a column keeps a check sound.
* `exists_matching_case`: a value of the selector's type is matched by a case of a switch that is
  found exhaustive, however the guards come out that are not constant.
-/

namespace GuardedMatch

variable {pool : Pool} (model : ValueModel pool) (table : Resolution)

/-- If the check holds of rows, some row matches each vector of values of the types. -/
def SoundFor (types : List Ty) (check : List Row → Check) : Prop :=
  ∀ rows, (∀ row ∈ rows, Row.Fits Visit.Single types.length row) → check rows = .ok true →
    ∀ values, model.Typed types values → ∃ row ∈ rows, Row.Surely model table row values

variable {model table}

/-- With no column left, some row has to be left. -/
theorem sound_nonempty : SoundFor model table [] fun rows => .ok !rows.isEmpty := by
  intro rows hfits h values hvalues
  obtain rfl : values = [] := List.forall₂_nil_left_iff.1 hvalues
  match rows, h with
  | row :: rows, _ =>
    have hnil : row = [] := List.length_eq_zero_iff.1 (hfits row (by simp)).length
    exact ⟨row, by simp, hnil ▸ .nil⟩

/-- **Adding a column keeps a check sound.** -/
theorem sound_covered (hsealed : model.Sealed) : ∀ (budget : Nat) (ty : Ty) (types : List Ty)
    (rest : List Row → Check), SoundFor model table types rest →
      SoundFor model table (ty :: types) (covered pool table budget ty rest) := by
  intro budget
  induction budget with
  | zero =>
    intro ty types rest _ rows _ h
    cases h
  | succ budget ih =>
    intro ty types rest hrest rows hfits h _ htyped
    obtain ⟨value, values, hvalue, hvalues, rfl⟩ := List.forall₂_cons_left_iff.1 htyped
    rw [covered] at h
    split at h
    next => cases h
    next expanded hexpand =>
    have hfits' := Row.Fits.expandRows hexpand hfits
    rw [expandRows_iff hexpand hfits]
    split at h
    next => cases h
    next =>
    split at h
    next =>
      -- The first column holds records, so its components take its place.
      split at h
      next => cases h
      next specialized hkeep =>
        have hkept : ∀ row' ∈ specialized,
            Row.Fits Visit.Single (pool.componentTypes ty ++ types).length row' := by
          intro row' hrow'
          obtain ⟨row, hrow, hstep⟩ := (mem_keepRows hkeep).2 row' hrow'
          rw [List.length_append, Pool.componentTypes, List.length_map]
          exact (hfits' row hrow).specialize hstep
        obtain ⟨row', hrow', hsure⟩ := foldr_columns ih hrest (pool.componentTypes ty) specialized
          hkept h _ (List.rel_append (typed_components hvalue) hvalues)
        obtain ⟨row, hrow, hstep⟩ := (mem_keepRows hkeep).2 row' hrow'
        exact ⟨row, hrow, surely_of_specialize hstep (hfits' row hrow) hvalue hsure⟩
    next =>
      split at h
      next => cases h
      next defaults hkeep =>
        rcases Check.orElse_eq_true.1 h with h | ⟨_, h⟩
        · -- Rows that match whatever is in the first column settle the rest.
          have hkept : ∀ row' ∈ defaults, Row.Fits Visit.Single types.length row' := by
            intro row' hrow'
            obtain ⟨row, hrow, hstep⟩ := (mem_keepRows hkeep).2 row' hrow'
            exact (hfits' row hrow).default hstep
          obtain ⟨row', hrow', hsure⟩ := hrest defaults hkept h values hvalues
          obtain ⟨row, hrow, hstep⟩ := (mem_keepRows hkeep).2 row' hrow'
          exact ⟨row, hrow, surely_of_default hstep (hfits' row hrow) hvalue hsure⟩
        · -- The value belongs to a permitted subtype, and all of them are covered.
          split at h
          next hsplit =>
            rw [Bool.and_eq_true, Bool.and_eq_true] at hsplit
            obtain ⟨sub, hsub, hvalue⟩ := hsealed value ty hsplit.1.1 hsplit.1.2 hvalue
            exact ih sub types rest hrest expanded hfits' (Check.all_eq_true.1 h sub hsub) _
              (.cons hvalue hvalues)
          next => cases h

/-- Cases that are found exhaustive match every value for sure. -/
theorem exists_surely_of_isExhaustive (hsealed : model.Sealed) {depth : Nat}
    {patterns : List Pattern} {selector : Ty}
    (hsingle : ∀ pattern ∈ patterns, pattern.Each Visit.Single)
    (hselector : pool.isError selector = false)
    (h : isExhaustive pool table depth patterns selector = .ok true) {value : model.Value}
    (hvalue : model.inst value selector) :
    ∃ pattern ∈ patterns, pattern.Surely model table value := by
  rw [isExhaustive, if_neg (by simp [hselector])] at h
  obtain ⟨row, hrow, hsure⟩ := sound_covered hsealed _ selector [] _ sound_nonempty _
    (fits_cases hsingle) h [value] (.cons hvalue .nil)
  obtain ⟨pattern, hpattern, rfl⟩ := List.mem_map.1 hrow
  exact ⟨pattern, hpattern, surely_singleton.1 hsure⟩

/-- **Exhaustiveness is sound.**  If a switch on guards of one pattern each is found exhaustive,
every value of the selector's type is matched by a case, however the guards come out that are
not constant. -/
theorem exists_matching_case {arena : Arena} (hacyclic : arena.Acyclic) (hguards : arena.GuardsOne)
    {pool : Pool} {table : Resolution} {cases : List PatternId} {selector : Ty} {span : Span}
    {report : SwitchReport} {offered : List Diagnostic} (hselector : pool.isError selector = false)
    (hcheck : arena.forest.checkSwitch pool table cases selector span = .ok (report, offered))
    (hexhaustive : report.exhaustive = true)
    (model : ValueModel pool) (hsealed : model.Sealed) (holds : Expr → model.Value → Prop)
    (hconstant : ∀ (condition : Expr) value answer, condition.truth = some answer →
      (holds condition value ↔ answer = true))
    (value : model.Value) (hvalue : model.inst value selector) :
    ∃ case ∈ cases, (arena.forest.pattern case).MatchesUnder model table holds value := by
  have hcovered := isExhaustive_of_checkSwitch hcheck
  rw [hexhaustive] at hcovered
  have hsingle : ∀ pattern ∈ cases.map arena.forest.pattern, pattern.Each Visit.Single := by
    intro pattern hpattern
    obtain ⟨id, _, rfl⟩ := List.mem_map.1 hpattern
    exact hguards.each hacyclic id
  obtain ⟨pattern, hpattern, hsure⟩ :=
    exists_surely_of_isExhaustive hsealed hsingle hselector hcovered hvalue
  have hmatches : pattern.MatchesUnder model table holds value :=
    Pattern.Surely.matchesUnder
      (fun condition value htruth => (hconstant condition value true htruth).2 rfl) pattern hsure
  obtain ⟨id, hid, heq⟩ := List.mem_map.1 hpattern
  refine ⟨id, hid, ?_⟩
  rw [heq]
  exact hmatches

/-- Cases for the two shapes: dots below a guard that is always true, boxes, and boxes below a
guard that calls something. -/
def shapeCases : Arena where
  patterns := #[.type ⟨some "Dot", Span.none⟩ none Span.none, .guarded [0] 0 Span.none,
    .any Span.none, .record ⟨some "Box", Span.none⟩ [2] Span.none, .guarded [3] 1 Span.none]
  exprs := #[.bool true Span.none, .call "test" [] ⟨some "boolean", Span.none⟩ Span.none]
  locals := #[]

/-- What resolution finds out about the dots. -/
def dotTable : Resolution :=
  ((Resolution.empty.setPatternType 0 ⟨33⟩).setPatternType 1 ⟨33⟩).setExprType 0 Ty.boolean

/-- What it finds out about the guarded boxes after that. -/
def shapeTable : Resolution :=
  (((dotTable.setPatternType 2 Ty.object).setPatternType 3 ⟨34⟩).setPatternType 4 ⟨34⟩).setExprType
    1 Ty.boolean

theorem acyclic_shapeCases : shapeCases.Acyclic :=
  Arena.acyclic_of_rank (Node.rank (fun id => id + 1) fun _ => 0) (by decide)

theorem guardsOne_shapeCases : shapeCases.GuardsOne := by
  rintro (_ | _ | _ | _ | _ | id) patterns condition span h <;> simp [shapeCases] at h
  all_goals rw [← h.1, List.length_singleton]

/-- A box in a box. -/
def boxedBox : Datum := .object ⟨34⟩ fun _ => .object ⟨34⟩ fun _ => .object Ty.object fun _ => .void

theorem inhabits_boxedBox : Pool.shapes.Inhabits boxedBox ⟨32⟩ := by
  have hparts : ∀ (position : Nat) part, (Pool.shapes.componentTypes ⟨34⟩)[position]? = some part →
      part = Ty.object := by
    rintro (_ | position) part hpart <;> cases hpart
    rfl
  refine ⟨⟨by decide, by decide⟩, fun position part hpart => ?_, by decide, by decide⟩
  obtain rfl := hparts position part hpart
  refine ⟨⟨by decide, by decide⟩, fun position part hpart => ?_, by decide, by decide⟩
  obtain rfl := hparts position part hpart
  exact ⟨⟨by decide, by decide⟩, fun position part hpart => (by cases hpart), by decide, by decide⟩

/-- The box in a box is matched by the second case, the other guard being a constant. -/
theorem exists_case_of_boxedBox :
    shapeCases.forest.checkSwitch Pool.shapes shapeTable [1, 3] ⟨32⟩ Span.none =
      .ok (⟨[], true⟩, []) ∧
    ∃ case ∈ [1, 3], (shapeCases.forest.pattern case).MatchesUnder
      Pool.topDown_shapes.layered.model shapeTable (fun condition _ => condition.truth = some true)
      boxedBox :=
  have hcheck : shapeCases.forest.checkSwitch Pool.shapes shapeTable [1, 3] ⟨32⟩ Span.none =
      .ok (⟨[], true⟩, []) := by with_unfolding_all rfl
  ⟨hcheck, exists_matching_case acyclic_shapeCases guardsOne_shapeCases (by decide) hcheck rfl
    Pool.topDown_shapes.layered.model Pool.topDown_shapes.layered.sealed_model _
    (fun _ _ _ htruth => by simp [htruth]) boxedBox inhabits_boxedBox⟩

end GuardedMatch
