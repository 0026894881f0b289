import GuardedMatch.Proofs.Exhaustive
import GuardedMatch.Proofs.Resolving

/-!
# A switch that is not exhaustive misses a value

A check of rows is complete for some columns if, whenever it fails, there are data of their types
that no row matches for sure.  `covered` adds a column in front and stays complete: where it
gives up on a type it leaves a datum of that very type, and rows that do not cover the type do
not match the datum.

This needs more of the rows than soundness does: a record pattern has to be resolved to a record
with as many components as it has sub-patterns, or not at all.

* `complete_covered`: adding a column keeps a check complete.
* `exists_unmatched_value`: a switch that is found not exhaustive misses a value.
-/

namespace GuardedMatch

variable {pool : Pool} {table : Resolution}

/-- The type of a pattern does not contradict the number of its components. -/
def Visit.Sized (pool : Pool) (table : Resolution) : Visit → Prop
  | pattern p => ∀ ty, table.patternTypes[p.id]? = some ty → p.Sized pool ty
  | expr _ | binding _ => True

theorem Resolution.Sized.each {forest : Forest} (hforest : forest.Closed)
    (h : table.Sized forest pool) (id : PatternId) :
    (forest.pattern id).Each (Visit.Sized pool table) := by
  intro visit hvisit
  cases visit with
  | expr | binding => trivial
  | pattern pattern =>
    intro ty hty
    have hown : forest.pattern pattern.id = pattern := hforest (.pattern id) _ hvisit
    rw [← hown]
    exact h pattern.id ty hty

/-- What completeness needs of the patterns. -/
def Visit.Regular (pool : Pool) (table : Resolution) (visit : Visit) : Prop :=
  visit.Single ∧ visit.Sized pool table

/-! ## Rows that are dropped -/

theorem isSubtype_of_inhabits {ty sup : Ty} {component : Nat → Datum}
    (h : pool.Inhabits (.object ty component) sup) :
    pool.isError sup = false ∧ pool.isSubtype ty sup = true := by
  obtain ⟨_, _, herror, hle⟩ := h
  exact ⟨herror, hle⟩

theorem includes_of_inhabits {id : PatternId} {ty : Ty} {component : Nat → Datum}
    (h : pool.Inhabits (.object ty component) (table.patternType id)) :
    table.includes pool id ty = true := by
  obtain ⟨herror, hle⟩ := isSubtype_of_inhabits h
  rw [Resolution.includes, herror, hle]
  rfl

/-- A record pattern whose type includes a type is for this very type. -/
theorem opensAs_of_includes (hpool : pool.Layered) {ty : Ty} {id : PatternId} {written : TypeRef}
    {components : List Pattern} {span : Span} (herror : pool.isError ty = false)
    (hsized : (Visit.pattern (.record id written components span)).Sized pool table)
    (h : table.includes pool id ty = true) :
    pool.isRecord ty = true ∧
      (Pattern.record id written components span).OpensAs pool table ty components := by
  rw [Resolution.includes, Bool.and_eq_true, Bool.not_eq_true'] at h
  cases hty : table.patternTypes[id]? with
  | none =>
    have hnone : table.patternType id = Ty.error := by rw [Resolution.patternType, hty]; rfl
    rw [hnone, hpool.error] at h
    cases h.1
  | some found =>
    have hfound : table.patternType id = found := by rw [Resolution.patternType, hty]; rfl
    rw [hfound] at h
    rcases hsized found hty with rfl | ⟨hrecord, hlength⟩
    · rw [hpool.error] at h
      cases h.1
    · obtain rfl := hpool.eq_of_isSubtype_final herror h.1 (hpool.record hrecord) h.2
      exact ⟨hrecord, id, written, span, rfl, hty, hlength⟩

variable (hpool : pool.Layered)

/-- **A plain pattern that does not cover a type does not match a datum of this very type,
unless it is taken apart.** -/
theorem not_surely_of_not_covers {ty : Ty} {component : Nat → Datum}
    (herror : pool.isError ty = false)
    {pattern : Pattern} (hplain : pattern.Plain) (hsized : pattern.Each (Visit.Sized pool table))
    (hcovers : pattern.covers pool table ty = .ok false)
    (hopens : pool.isRecord ty = true → ¬ ∃ components, pattern.OpensAs pool table ty components) :
    ¬ pattern.Surely hpool.model table (.object ty component) := by
  intro hsure
  have hne : ¬ pool.isError ty = true := by simp [herror]
  cases pattern with
  | type id written binds span =>
    rw [Pattern.covers, if_neg hne] at hcovers
    rw [Pattern.Surely, Pattern.MatchesUnder] at hsure
    rw [includes_of_inhabits hsure] at hcovers
    cases hcovers
  | record id written components span =>
    rw [Pattern.Surely, Pattern.MatchesUnder] at hsure
    obtain ⟨hrecord, hopensAs⟩ := opensAs_of_includes hpool herror
      (hsized (.pattern (.record id written components span)) (by simp [Pattern.visits]))
      (includes_of_inhabits hsure.1)
    exact hopens hrecord ⟨components, hopensAs⟩
  | guarded => exact hplain
  | any =>
    rw [Pattern.covers, if_neg hne] at hcovers
    cases hcovers
  | missing =>
    rw [Pattern.covers, if_neg hne] at hcovers
    cases hcovers

theorem plain_of_expandRows {rows expanded : List Row} (h : expandRows rows = .ok expanded)
    {pattern : Pattern} {cells : Row} (hrow : some pattern :: cells ∈ expanded) :
    pattern.Plain := by
  obtain ⟨row, _, parts, hparts, hpart⟩ := (mem_expandRows h).2 _ hrow
  match row with
  | some whole :: rest =>
    rw [Row.expand] at hparts
    obtain ⟨found, hfound, hparts⟩ := ok_of_bind hparts
    cases hparts
    obtain ⟨other, hother, heq⟩ := List.mem_map.1 hpart
    cases heq
    exact (mem_alternatives whole hfound _ hother).2
  | none :: rest | [] =>
    simp only [Row.expand, Except.ok.injEq] at hparts
    subst hparts
    cases List.mem_singleton.1 hpart

/-- **A row that matches a datum is kept for its components, and they are matched.** -/
theorem surely_specialize {model : ValueModel pool} {ty : Ty} {row rest : Row}
    {value : model.Value} {values : List model.Value}
    (h : row.specialize? pool table ty = .ok (some rest)) (hvalue : model.inst value ty)
    (hsure : Row.Surely model table row (value :: values)) :
    Row.Surely model table rest
      (model.components value (pool.components ty).length ++ values) := by
  obtain ⟨cell, cells, rfl, hcell⟩ := specialize_eq_some h
  obtain ⟨hfirst, hcells⟩ := surely_cons.1 hsure
  rcases hcell with ⟨pattern, components, rfl, hopens, rfl⟩ | ⟨rfl, _⟩
  · have hcomponents := (surely_iff_of_opensAs hopens hvalue).1 (hfirst pattern rfl)
    obtain ⟨_, _, _, _, _, hlength⟩ := hopens
    exact (surely_append (by simpa using hlength)).2 ⟨hcomponents, hcells⟩
  · refine (surely_append (by simp)).2 ⟨?_, hcells⟩
    have := @surely_replicate _ _ table (model.components value (pool.components ty).length)
    rwa [length_components] at this

/-! ## Vectors of data -/

theorem exists_typed (h : pool.Regular) {types : List Ty}
    (herror : ∀ ty ∈ types, pool.isError ty = false) :
    ∃ values, h.layered.model.Typed types values := by
  induction types with
  | nil => exact ⟨[], .nil⟩
  | cons ty types ih =>
    obtain ⟨values, hvalues⟩ := ih fun other hother => herror other (by simp [hother])
    obtain ⟨value, hvalue⟩ := h.exists_datum (herror ty (by simp))
    exact ⟨value :: values, .cons hvalue hvalues⟩

theorem exists_of_typed_append {model : ValueModel pool} {front types : List Ty}
    {values : List model.Value} (h : model.Typed (front ++ types) values) :
    ∃ fronts rest, values = fronts ++ rest ∧ model.Typed front fronts ∧ model.Typed types rest := by
  induction front generalizing values with
  | nil => exact ⟨[], values, rfl, .nil, h⟩
  | cons ty front ih =>
    obtain ⟨value, values, hvalue, hvalues, rfl⟩ := List.forall₂_cons_left_iff.1 h
    obtain ⟨fronts, rest, rfl, hfronts, hrest⟩ := ih hvalues
    exact ⟨value :: fronts, rest, rfl, .cons hvalue hfronts, hrest⟩

/-- A record put together from its components. -/
def Datum.ofComponents (ty : Ty) (components : List Datum) : Datum :=
  .object ty fun position => components[position]?.getD .void

theorem components_ofComponents (ty : Ty) (components : List Datum) :
    hpool.model.components (Datum.ofComponents ty components) components.length = components := by
  refine List.ext_getElem length_components fun position hleft hright => ?_
  simp [ValueModel.components, Datum.ofComponents, Datum.component, hright]

theorem inhabits_ofComponents {ty : Ty} {components : List Datum} (hty : pool.Instantiable ty)
    (h : hpool.model.Typed (pool.componentTypes ty) components) :
    pool.Inhabits (Datum.ofComponents ty components) ty := by
  refine ⟨hty, fun position part hpart => ?_, hty.error, pool.isSubtype_refl ty⟩
  obtain ⟨hlength, hget⟩ := List.forall₂_iff_get.1 h
  obtain ⟨hlt, rfl⟩ := List.getElem?_eq_some_iff.1 hpart
  have hcomponent := hget position hlt (hlength ▸ hlt)
  rw [List.get_eq_getElem, List.get_eq_getElem] at hcomponent
  rwa [List.getElem?_eq_getElem (hlength ▸ hlt), Option.getD_some]

/-! ## Adding a column -/

section

variable (h : pool.Regular) (table)

/-- If the check fails on rows, there are data of the types that no row matches for sure. -/
def CompleteFor (types : List Ty) (check : List Row → Check) : Prop :=
  (∀ ty ∈ types, pool.isError ty = false) → ∀ rows,
    (∀ row ∈ rows, Row.Fits (Visit.Regular pool table) types.length row) → check rows = .ok false →
    ∃ values, h.layered.model.Typed types values ∧
      ∀ row ∈ rows, ¬ Row.Surely h.layered.model table row values

variable {table}

theorem complete_nonempty : CompleteFor table h [] fun rows => .ok !rows.isEmpty := by
  intro _ rows _ hrows
  obtain rfl : rows = [] := by simpa using hrows
  exact ⟨[], .nil, by simp⟩

/-- For a type that is not taken apart, a datum of this very type escapes. -/
theorem complete_default {ty : Ty} {types : List Ty} {rest : List Row → Check}
    (hrest : CompleteFor table h types rest)
    (herror : ∀ other ∈ ty :: types, pool.isError other = false)
    (hrecord : pool.isRecord ty = false) (hty : pool.Instantiable ty) {rows kept : List Row}
    (hfits : ∀ row ∈ rows, Row.Fits (Visit.Regular pool table) (types.length + 1) row)
    (hplain : ∀ pattern cells, some pattern :: cells ∈ rows → pattern.Plain)
    (hkept : keepRows (Row.default? pool table ty) rows = .ok kept)
    (hfails : rest kept = .ok false) :
    ∃ values, h.layered.model.Typed (ty :: types) values ∧
      ∀ row ∈ rows, ¬ Row.Surely h.layered.model table row values := by
  have hfits' : ∀ row ∈ kept, Row.Fits (Visit.Regular pool table) types.length row := by
    intro row' hrow'
    obtain ⟨row, hrow, hstep⟩ := (mem_keepRows hkept).2 row' hrow'
    exact (hfits row hrow).default hstep
  obtain ⟨values, hvalues, hnone⟩ :=
    hrest (fun other hother => herror other (by simp [hother])) kept hfits' hfails
  have hparts : pool.componentTypes ty = [] := by
    by_contra hparts
    have := @Pool.Layered.components _ h.layered ty
      fun hnil => hparts (by simp [Pool.componentTypes, hnil])
    rw [hrecord] at this
    cases this
  have hvalue : pool.Inhabits (.ofComponents ty []) ty :=
    inhabits_ofComponents h.layered hty (by rw [hparts]; exact .nil)
  refine ⟨_ :: values, .cons hvalue hvalues, fun row hrow hsure => ?_⟩
  obtain ⟨found, hstep, hmem⟩ := (mem_keepRows hkept).1 row hrow
  cases found with
  | some row' =>
    obtain ⟨cell, rfl, _⟩ := default_eq_some hstep
    exact hnone row' (hmem row' rfl) (surely_cons.1 hsure).2
  | none =>
    rcases default_eq_none hstep with rfl | ⟨pattern, cells, rfl, hcovers⟩
    · cases hsure
    · refine not_surely_of_not_covers h.layered hty.error (hplain pattern cells hrow)
        (fun visit hvisit => ((hfits _ hrow).head visit hvisit).2) hcovers ?_
        ((surely_cons.1 hsure).1 pattern rfl)
      simp [hrecord]

/-- For a record, one made from the data that escape in its components escapes. -/
theorem complete_specialize {ty : Ty} {types : List Ty} {check : List Row → Check}
    (hcheck : CompleteFor table h (pool.componentTypes ty ++ types) check)
    (herror : ∀ other ∈ ty :: types, pool.isError other = false)
    (hty : pool.Instantiable ty) {rows kept : List Row}
    (hfits : ∀ row ∈ rows, Row.Fits (Visit.Regular pool table) (types.length + 1) row)
    (hplain : ∀ pattern cells, some pattern :: cells ∈ rows → pattern.Plain)
    (hkept : keepRows (Row.specialize? pool table ty) rows = .ok kept)
    (hfails : check kept = .ok false) :
    ∃ values, h.layered.model.Typed (ty :: types) values ∧
      ∀ row ∈ rows, ¬ Row.Surely h.layered.model table row values := by
  have hlength : (pool.componentTypes ty).length = (pool.components ty).length := by
    simp [Pool.componentTypes]
  have herror' : ∀ other ∈ pool.componentTypes ty ++ types, pool.isError other = false := by
    intro other hother
    rcases List.mem_append.1 hother with hother | hother
    · exact h.components ty other hother
    · exact herror other (by simp [hother])
  have hfits' : ∀ row ∈ kept, Row.Fits (Visit.Regular pool table)
      (pool.componentTypes ty ++ types).length row := by
    intro row' hrow'
    obtain ⟨row, hrow, hstep⟩ := (mem_keepRows hkept).2 row' hrow'
    rw [List.length_append, hlength]
    exact (hfits row hrow).specialize hstep
  obtain ⟨values, hvalues, hnone⟩ := hcheck herror' kept hfits' hfails
  obtain ⟨components, values, rfl, hcomponents, hvalues⟩ := exists_of_typed_append hvalues
  have hvalue := inhabits_ofComponents h.layered hty hcomponents
  have hparts : h.layered.model.components (.ofComponents ty components)
      (pool.components ty).length = components := by
    rw [← hlength, hcomponents.length_eq]
    exact components_ofComponents h.layered ty components
  refine ⟨_ :: values, .cons hvalue hvalues, fun row hrow hsure => ?_⟩
  obtain ⟨found, hstep, hmem⟩ := (mem_keepRows hkept).1 row hrow
  cases found with
  | some row' =>
    have hsure' := surely_specialize hstep hvalue hsure
    rw [hparts] at hsure'
    exact hnone row' (hmem row' rfl) hsure'
  | none =>
    rcases specialize_eq_none hstep with rfl | ⟨pattern, cells, rfl, hcovers, hopens⟩
    · cases hsure
    · exact not_surely_of_not_covers h.layered hty.error (hplain pattern cells hrow)
        (fun visit hvisit => ((hfits _ hrow).head visit hvisit).2) hcovers (fun _ => hopens)
        ((surely_cons.1 hsure).1 pattern rfl)

/-- **Adding a column keeps a check complete.** -/
theorem complete_covered : ∀ (budget : Nat) (ty : Ty) (types : List Ty) (rest : List Row → Check),
    CompleteFor table h types rest →
      CompleteFor table h (ty :: types) (covered pool table budget ty rest) := by
  intro budget
  induction budget with
  | zero =>
    intro ty types rest _ _ rows _ hfails
    cases hfails
  | succ budget ih =>
    intro ty types rest hrest herror rows hfits hfails
    have hty : pool.isError ty = false := herror ty (by simp)
    rw [covered] at hfails
    split at hfails
    next => cases hfails
    next expanded hexpand =>
    have hfits' := Row.Fits.expandRows hexpand hfits
    have hplain : ∀ pattern cells, some pattern :: cells ∈ expanded → pattern.Plain :=
      fun _ _ => plain_of_expandRows hexpand
    -- Rows and their alternatives match the same vectors.
    suffices hgoal : ∃ values, h.layered.model.Typed (ty :: types) values ∧
        ∀ row ∈ expanded, ¬ Row.Surely h.layered.model table row values by
      obtain ⟨values, hvalues, hnone⟩ := hgoal
      refine ⟨values, hvalues, fun row hrow hsure => ?_⟩
      obtain ⟨part, hpart, hsure⟩ := (expandRows_iff hexpand
        fun row hrow => (hfits row hrow).imp fun _ => And.left).1 ⟨row, hrow, hsure⟩
      exact hnone part hpart hsure
    split at hfails
    next hempty =>
      obtain ⟨values, hvalues⟩ := exists_typed h herror
      refine ⟨values, hvalues, fun row hrow => ?_⟩
      rw [List.isEmpty_iff.1 hempty] at hrow
      cases hrow
    next =>
    split at hfails
    next hrecord =>
      have hinst : pool.Instantiable ty := by
        refine ⟨hty, fun habstract => ?_⟩
        rw [h.extensible ty (h.layered.record hrecord)] at habstract
        cases habstract
      split at hfails
      next => cases hfails
      next kept hkept =>
        exact complete_specialize h (foldr_columns ih hrest (pool.componentTypes ty)) herror hinst
          hfits' hplain hkept hfails
    next hrecord =>
      split at hfails
      next => cases hfails
      next kept hkept =>
        obtain ⟨hdefault, hsplit⟩ := Check.orElse_eq_false.1 hfails
        split at hsplit
        next =>
          obtain ⟨sub, hsub, hfails⟩ := Check.exists_of_all_eq_false hsplit
          obtain ⟨hsubError, hle⟩ := h.layered.isSubtype_of_permitted hsub
          have herror' : ∀ other ∈ sub :: types, pool.isError other = false :=
            List.forall_mem_cons.2 ⟨hsubError, (List.forall_mem_cons.1 herror).2⟩
          obtain ⟨_, hvalues, hnone⟩ := ih sub types rest hrest herror' expanded hfits' hfails
          obtain ⟨value, values, hvalue, htail, rfl⟩ := List.forall₂_cons_left_iff.1 hvalues
          exact ⟨value :: values,
            .cons (h.layered.model.inst_mono hvalue hsubError hty hle) htail, hnone⟩
        next hopen =>
          refine complete_default h hrest herror (by simpa using hrecord)
            (h.instantiable hty fun hboth => hopen ?_) hfits' hplain hkept hdefault
          simp [hboth.1, hboth.2, h.permitted ty hboth.1 hboth.2]

/-- Cases that are found not exhaustive miss a datum. -/
theorem exists_datum_of_checkSwitch {forest : Forest} {cases : List PatternId} {selector : Ty}
    {span : Span} {report : SwitchReport} {offered : List Diagnostic}
    (hregular : ∀ id, (forest.pattern id).Each (Visit.Regular pool table))
    (hselector : pool.isError selector = false)
    (hcheck : forest.checkSwitch pool table cases selector span = .ok (report, offered))
    (hexhaustive : report.exhaustive = false) :
    ∃ datum, pool.Inhabits datum selector ∧
      ∀ id ∈ cases, ¬ (forest.pattern id).Surely h.layered.model table datum := by
  have hfails := isExhaustive_of_checkSwitch hcheck
  rw [hexhaustive, isExhaustive, if_neg (by simp [hselector])] at hfails
  have hfits : ∀ row ∈ (cases.map forest.pattern).map fun pattern => [some pattern],
      Row.Fits (Visit.Regular pool table) 1 row := by
    refine fits_cases fun pattern hpattern => ?_
    obtain ⟨id, _, rfl⟩ := List.mem_map.1 hpattern
    exact hregular id
  obtain ⟨_, hvalues, hnone⟩ := complete_covered h _ selector [] _ (complete_nonempty h)
    (by simpa using hselector) _ hfits hfails
  obtain ⟨datum, rest, hdatum, hrest, rfl⟩ := List.forall₂_cons_left_iff.1 hvalues
  obtain rfl : rest = [] := List.forall₂_nil_left_iff.1 hrest
  refine ⟨datum, hdatum, fun id hid hsure => ?_⟩
  exact hnone [some (forest.pattern id)]
    (List.mem_map.2 ⟨_, List.mem_map.2 ⟨id, hid, rfl⟩, rfl⟩) (surely_singleton.2 hsure)

end

/-- **A missing value is no false alarm.**  Take cases on guards of one pattern each and a table
that was made without a diagnostic.  If the switch is found not exhaustive, there is a model in
which sealed types are closed and values have a most specific type, and in it a value of the
selector's type that no case matches when all guards are false that are not known to be true. -/
theorem exists_unmatched_value {pool : Pool} (hpool : pool.Regular) {arena : Arena}
    (hacyclic : arena.Acyclic) (hguards : arena.GuardsOne) {log : List PatternId}
    {table : Resolution} (htable : table.Produced arena.forest pool log [])
    {cases : List PatternId} {selector : Ty} {span : Span} {report : SwitchReport}
    {offered : List Diagnostic} (hselector : pool.isError selector = false)
    (hcheck : arena.forest.checkSwitch pool table cases selector span = .ok (report, offered))
    (hexhaustive : report.exhaustive = false) :
    ∃ model : ValueModel pool, model.Sealed ∧ model.Nominal ∧
      ∃ value, model.inst value selector ∧ ∀ case ∈ cases,
        ¬ (arena.forest.pattern case).MatchesUnder model table
          (fun condition _ => condition.truth = some true) value := by
  have hregular : ∀ id, (arena.forest.pattern id).Each (Visit.Regular pool table) :=
    fun id visit hvisit => ⟨hguards.each hacyclic id visit hvisit,
      (htable.sized hacyclic.closed).each hacyclic.closed id visit hvisit⟩
  exact ⟨hpool.layered.model, hpool.layered.sealed_model, hpool.layered.nominal_model,
    exists_datum_of_checkSwitch hpool hregular hselector hcheck hexhaustive⟩

theorem produced_shapeTable :
    shapeTable.Produced shapeCases.forest Pool.shapes [4, 1] [] := by
  have hdots : shapeCases.forest.resolvePattern Pool.shapes Resolution.empty 1 ⟨32⟩ Scope.empty =
      .ok ⟨⟨33⟩, dotTable, []⟩ := by with_unfolding_all rfl
  have hboxes : shapeCases.forest.resolvePattern Pool.shapes dotTable 4 ⟨32⟩ Scope.empty =
      .ok ⟨⟨34⟩, shapeTable, []⟩ := by with_unfolding_all rfl
  exact .pattern (.pattern .empty hdots) hboxes

/-- Of the shapes, a box may be missed when the test of boxes may fail. -/
theorem exists_unmatched_shape :
    shapeCases.forest.checkSwitch Pool.shapes shapeTable [1, 4] ⟨32⟩ Span.none =
      .ok (⟨[], false⟩, [Diagnostic.notExhaustive Span.none "Shape"]) ∧
    ∃ model : ValueModel Pool.shapes, model.Sealed ∧ model.Nominal ∧
      ∃ value, model.inst value ⟨32⟩ ∧ ∀ case ∈ [1, 4],
        ¬ (shapeCases.forest.pattern case).MatchesUnder model shapeTable
          (fun condition _ => condition.truth = some true) value :=
  have hcheck : shapeCases.forest.checkSwitch Pool.shapes shapeTable [1, 4] ⟨32⟩ Span.none =
      .ok (⟨[], false⟩, [Diagnostic.notExhaustive Span.none "Shape"]) := by
    with_unfolding_all rfl
  ⟨hcheck, exists_unmatched_value Pool.regular_shapes acyclic_shapeCases guardsOne_shapeCases
    produced_shapeTable (by decide) hcheck rfl⟩

end GuardedMatch
