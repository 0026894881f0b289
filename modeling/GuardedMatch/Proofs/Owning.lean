import GuardedMatch.Proofs.Resolving
import GuardedMatch.Proofs.Recording
import GuardedMatch.Proofs.Unbroken

/-!
# Record patterns and the guards they belong to

A record pattern inside a condition belongs to the innermost guarded pattern with such a condition.
Resolution notes this when it is done with a condition, for the record patterns that are met in it
on the way down to the conditions of further guards.

* `Pattern.owners`: what is noted, in order.
* `Pattern.count_owners`: every record pattern is counted once, in a condition or outside of them.
* `Resolver.Course.assigns`: what is noted where guarded patterns are met for the first time.
* `Resolution.elseOwners_iff`: what is noted are the innermost guards.
-/

namespace GuardedMatch

variable {record owner : PatternId} {visits : List Visit}

mutual

/-- The record patterns in conditions, each with the guarded pattern that it belongs to, in the
order in which this is noted. -/
def Pattern.owners : Pattern → List (PatternId × PatternId)
  | .record _ _ components _ => Pattern.ownersAll components
  | .guarded id patterns condition _ =>
    Pattern.ownersAll patterns ++ (condition.owners ++ condition.guardRecords.map (·, id))
  | .type .. | .any .. | .missing _ => []

def Pattern.ownersAll : List Pattern → List (PatternId × PatternId)
  | [] => []
  | pattern :: patterns => pattern.owners ++ Pattern.ownersAll patterns

/-- The record patterns in the conditions of the guards in an expression. -/
def Expr.owners : Expr → List (PatternId × PatternId)
  | .field _ receiver _ _ => receiver.owners
  | .binary _ _ left right _ => left.owners ++ right.owners
  | .unary _ _ operand _ => operand.owners
  | .instanceOf _ tested pattern _ => tested.owners ++ pattern.owners
  | .call _ _ args _ _ => Expr.ownersAll args
  | .bool .. | .int .. | .ident .. | .missing _ => []

def Expr.ownersAll : List Expr → List (PatternId × PatternId)
  | [] => []
  | expr :: exprs => expr.owners ++ Expr.ownersAll exprs

end

/-- The number of a record pattern. -/
def Visit.record? : Visit → Option PatternId
  | pattern (.record id _ _ _) => some id
  | _ => none

/-- A record pattern is noted for a guarded pattern among the visits. -/
def Visit.Owned (visits : List Visit) (record owner : PatternId) : Prop :=
  ∃ patterns condition span, .pattern (.guarded owner patterns condition span) ∈ visits ∧
    record ∈ condition.guardRecords

/-! ## Every record pattern is counted once -/

mutual

/-- **A record pattern belongs to the guard around the pattern or to one in it.** -/
theorem Pattern.count_owners (record : PatternId) : ∀ pattern : Pattern,
    pattern.guardRecords.count record + (pattern.owners.map Prod.fst).count record =
      (pattern.visits.filterMap Visit.record?).count record
  | .type _ _ none _ | .type _ _ (some _) _ | .any .. | .missing _ => rfl
  | .record id ty components span => by
    have hcomponents := Pattern.count_ownersAll record components
    simp only [Pattern.guardRecords, Pattern.owners, Pattern.visits, List.filterMap_cons,
      Visit.record?, List.count_cons]
    omega
  | .guarded id patterns condition span => by
    have hpatterns := Pattern.count_ownersAll record patterns
    have hcondition := condition.count_owners record
    simp only [Pattern.guardRecords, Pattern.owners, Pattern.visits, List.filterMap_cons,
      Visit.record?, List.filterMap_append, List.map_append, List.map_map, List.count_append,
      Function.comp_def, List.map_id']
    omega

theorem Pattern.count_ownersAll (record : PatternId) : ∀ patterns : List Pattern,
    (Pattern.guardRecordsAll patterns).count record +
        ((Pattern.ownersAll patterns).map Prod.fst).count record =
      ((Pattern.visitsAll patterns).filterMap Visit.record?).count record
  | [] => rfl
  | pattern :: patterns => by
    have hfirst := pattern.count_owners record
    have hrest := Pattern.count_ownersAll record patterns
    simp only [Pattern.guardRecordsAll, Pattern.ownersAll, Pattern.visitsAll, List.filterMap_append,
      List.map_append, List.count_append]
    omega

theorem Expr.count_owners (record : PatternId) : ∀ expr : Expr,
    expr.guardRecords.count record + (expr.owners.map Prod.fst).count record =
      (expr.visits.filterMap Visit.record?).count record
  | .bool .. | .int .. | .ident .. | .missing _ => rfl
  | .field id receiver name span => receiver.count_owners record
  | .unary id op operand span => operand.count_owners record
  | .binary id op left right span => by
    have hleft := left.count_owners record
    have hright := right.count_owners record
    simp only [Expr.guardRecords, Expr.owners, Expr.visits, List.filterMap_cons, Visit.record?,
      List.filterMap_append, List.map_append, List.count_append]
    omega
  | .instanceOf id tested pattern span => by
    have htested := tested.count_owners record
    have hpattern := pattern.count_owners record
    simp only [Expr.guardRecords, Expr.owners, Expr.visits, List.filterMap_cons, Visit.record?,
      List.filterMap_append, List.map_append, List.count_append]
    omega
  | .call id callee args result span => Expr.count_ownersAll record args

theorem Expr.count_ownersAll (record : PatternId) : ∀ exprs : List Expr,
    (Expr.guardRecordsAll exprs).count record +
        ((Expr.ownersAll exprs).map Prod.fst).count record =
      ((Expr.visitsAll exprs).filterMap Visit.record?).count record
  | [] => rfl
  | expr :: exprs => by
    have hfirst := expr.count_owners record
    have hrest := Expr.count_ownersAll record exprs
    simp only [Expr.guardRecordsAll, Expr.ownersAll, Expr.visitsAll, List.filterMap_append,
      List.map_append, List.count_append]
    omega

end

/-! ## What is noted are the guards among the visits -/

namespace Visit

variable {visits : List Visit} {record owner : PatternId}

theorem Owned.mono {visits' : List Visit} (h : Owned visits record owner)
    (hsub : visits ⊆ visits') : Owned visits' record owner := by
  obtain ⟨patterns, condition, span, hvisit, hrecord⟩ := h
  exact ⟨patterns, condition, span, hsub hvisit, hrecord⟩

theorem owned_append {visits' : List Visit} :
    Owned (visits ++ visits') record owner ↔
      Owned visits record owner ∨ Owned visits' record owner := by
  simp only [Owned, List.mem_append, or_and_right, exists_or]

/-- A visit that is no guarded pattern does not count. -/
theorem owned_cons {visit : Visit} (hvisit : ∀ id patterns condition span,
      .pattern (.guarded id patterns condition span) ≠ visit) :
    Owned (visit :: visits) record owner ↔ Owned visits record owner := by
  simp only [Owned, List.mem_cons, hvisit, false_or]

theorem owned_guarded {id : PatternId} {patterns : List Pattern} {condition : Expr} {span : Span} :
    Owned (.pattern (.guarded id patterns condition span) :: visits) record owner ↔
      (record ∈ condition.guardRecords ∧ id = owner) ∨ Owned visits record owner := by
  constructor
  · rintro ⟨patterns', condition', span', hvisit, hrecord⟩
    rcases List.mem_cons.mp hvisit with heq | hvisit
    · cases heq
      exact .inl ⟨hrecord, rfl⟩
    · exact .inr ⟨patterns', condition', span', hvisit, hrecord⟩
  · rintro (⟨hrecord, rfl⟩ | ⟨patterns', condition', span', hvisit, hrecord⟩)
    · exact ⟨patterns, condition, span, List.mem_cons_self, hrecord⟩
    · exact ⟨patterns', condition', span', List.mem_cons_of_mem _ hvisit, hrecord⟩

end Visit

mutual

theorem Pattern.mem_owners : ∀ pattern : Pattern,
    (record, owner) ∈ pattern.owners ↔ Visit.Owned pattern.visits record owner
  | .type _ _ none _ | .type _ _ (some _) _ | .any .. | .missing _ => by
    simp [Pattern.owners, Pattern.visits, Visit.Owned]
  | .record id ty components span => by
    rw [Pattern.owners, Pattern.visits, Visit.owned_cons (by simp)]
    exact Pattern.mem_ownersAll components
  | .guarded id patterns condition span => by
    have hown : (record, owner) ∈ condition.guardRecords.map (·, id) ↔
        record ∈ condition.guardRecords ∧ id = owner := by simp
    rw [Pattern.owners, Pattern.visits, List.mem_append, List.mem_append, Visit.owned_guarded,
      Visit.owned_append, Pattern.mem_ownersAll patterns, condition.mem_owners, hown]
    tauto

theorem Pattern.mem_ownersAll : ∀ patterns : List Pattern,
    (record, owner) ∈ Pattern.ownersAll patterns ↔
      Visit.Owned (Pattern.visitsAll patterns) record owner
  | [] => by simp [Pattern.ownersAll, Pattern.visitsAll, Visit.Owned]
  | pattern :: patterns => by
    rw [Pattern.ownersAll, Pattern.visitsAll, List.mem_append, Visit.owned_append,
      pattern.mem_owners, Pattern.mem_ownersAll patterns]

theorem Expr.mem_owners : ∀ expr : Expr,
    (record, owner) ∈ expr.owners ↔ Visit.Owned expr.visits record owner
  | .bool .. | .int .. | .ident .. | .missing _ => by
    simp [Expr.owners, Expr.visits, Visit.Owned]
  | .field id receiver name span => by
    rw [Expr.owners, Expr.visits, Visit.owned_cons (by simp), receiver.mem_owners]
  | .unary id op operand span => by
    rw [Expr.owners, Expr.visits, Visit.owned_cons (by simp), operand.mem_owners]
  | .binary id op left right span => by
    rw [Expr.owners, Expr.visits, Visit.owned_cons (by simp), List.mem_append, Visit.owned_append,
      left.mem_owners, right.mem_owners]
  | .instanceOf id tested pattern span => by
    rw [Expr.owners, Expr.visits, Visit.owned_cons (by simp), List.mem_append, Visit.owned_append,
      tested.mem_owners, pattern.mem_owners]
  | .call id callee args result span => by
    rw [Expr.owners, Expr.visits, Visit.owned_cons (by simp)]
    exact Expr.mem_ownersAll args

theorem Expr.mem_ownersAll : ∀ exprs : List Expr,
    (record, owner) ∈ Expr.ownersAll exprs ↔ Visit.Owned (Expr.visitsAll exprs) record owner
  | [] => by simp [Expr.ownersAll, Expr.visitsAll, Visit.Owned]
  | expr :: exprs => by
    rw [Expr.ownersAll, Expr.visitsAll, List.mem_append, Visit.owned_append, expr.mem_owners,
      Expr.mem_ownersAll exprs]

end

/-! ## Innermost guards -/

theorem Visit.Distinct.sublist {visits' : List Visit} (h : Visit.Distinct visits)
    (hsub : visits'.Sublist visits) : Visit.Distinct visits' :=
  List.Nodup.sublist (hsub.filterMap _) h

/-- What is told of visits by their patterns is told once, if no node is met twice. -/
theorem Visit.Distinct.nodup_filterMap {key : Visit → Option PatternId} (h : Visit.Distinct visits)
    (hkey : ∀ visit id, key visit = some id → visit.node? = some (.pattern id)) :
    (visits.filterMap key).Nodup := by
  have hsub : ((visits.filterMap key).map Node.pattern).Sublist (visits.filterMap Visit.node?) := by
    clear h
    induction visits with
    | nil => exact .slnil
    | cons visit visits ih =>
      cases hid : key visit with
      | none =>
        rw [List.filterMap_cons_none hid]
        exact ih.trans ((List.sublist_cons_self _ _).filterMap _)
      | some id =>
        rw [List.filterMap_cons_some hid, List.filterMap_cons_some (hkey visit id hid)]
        exact ih.cons_cons _
  exact (List.Nodup.sublist hsub h).of_map _

/-- The record patterns among visits of different nodes are different. -/
theorem Visit.Distinct.records (h : Visit.Distinct visits) :
    (visits.filterMap Visit.record?).Nodup := by
  refine h.nodup_filterMap fun visit id hid => ?_
  cases visit with
  | pattern pattern =>
    cases pattern with
    | record => exact congrArg (fun id : PatternId => some (Node.pattern id)) (Option.some.inj hid)
    | type | guarded | any | missing => cases hid
  | expr | binding => cases hid

/-- A guarded pattern with a record pattern in its condition. -/
def Pattern.Guards (record : PatternId) : Pattern → Prop
  | .guarded _ _ condition _ => record ∈ condition.visits.filterMap Visit.record?
  | _ => False

/-- A record pattern in an expression belongs to the guard around it or to one in it. -/
theorem Expr.mem_records_iff (expr : Expr) :
    record ∈ expr.visits.filterMap Visit.record? ↔
      record ∈ expr.guardRecords ∨ ∃ owner, Visit.Owned expr.visits record owner := by
  have hkeys : (∃ owner, Visit.Owned expr.visits record owner) ↔
      record ∈ expr.owners.map Prod.fst := by
    simp only [← expr.mem_owners, List.mem_map, Prod.exists, exists_and_right, exists_eq_right]
  rw [hkeys, ← List.count_pos_iff, ← List.count_pos_iff, ← List.count_pos_iff,
    ← expr.count_owners record]
  omega

theorem Pattern.owned_unique {pattern : Pattern} (h : Visit.Distinct pattern.visits)
    {owner' : PatternId} (hown : Visit.Owned pattern.visits record owner)
    (hown' : Visit.Owned pattern.visits record owner') : owner = owner' := by
  have hnodup : (pattern.owners.map Prod.fst).Nodup := by
    refine List.nodup_iff_count_le_one.mpr fun record => ?_
    have hcount := pattern.count_owners record
    have honce := List.nodup_iff_count_le_one.mp h.records record
    omega
  exact congrArg Prod.snd (List.inj_on_of_nodup_map hnodup (pattern.mem_owners.mpr hown)
    (pattern.mem_owners.mpr hown') rfl)

/-- **The record patterns that belong to a guard are those in its condition that are in the
condition of no further guard.** -/
theorem Expr.mem_guardRecords_iff {condition : Expr} (h : Visit.Distinct condition.visits) :
    record ∈ condition.guardRecords ↔ record ∈ condition.visits.filterMap Visit.record? ∧
      ∀ inner, .pattern inner ∈ condition.visits → ¬ inner.Guards record := by
  constructor
  · intro hrecord
    refine ⟨condition.mem_records_iff.mpr (.inl hrecord), fun inner hinner hguards => ?_⟩
    obtain ⟨owner, howned⟩ : ∃ owner, Visit.Owned condition.visits record owner := by
      cases inner with
      | guarded owner patterns below span =>
        rcases below.mem_records_iff.mp hguards with hdirect | ⟨owner', howned⟩
        · exact ⟨owner, patterns, below, span, hinner, hdirect⟩
        · refine ⟨owner', howned.mono fun visit hvisit => ?_⟩
          exact (condition.below_sublist hinner).subset
            (Visit.right_subset hvisit)
      | type | record | any | missing => exact hguards.elim
    -- The record pattern would be met twice.
    have hmem : record ∈ condition.owners.map Prod.fst :=
      List.mem_map_of_mem (f := Prod.fst) (condition.mem_owners.mpr howned)
    have hkey := List.count_pos_iff.mpr hmem
    have hdirect := List.count_pos_iff.mpr hrecord
    have hcount := condition.count_owners record
    have honce := List.nodup_iff_count_le_one.mp h.records record
    omega
  · rintro ⟨hrecord, hinner⟩
    refine (condition.mem_records_iff.mp hrecord).resolve_right ?_
    rintro ⟨owner, patterns, below, span, hvisit, hdirect⟩
    exact hinner _ hvisit (below.mem_records_iff.mpr (.inl hdirect))

/-! ## Notes in the table -/

namespace Resolution

/-- The guarded patterns among the visits have no types yet. -/
def Fresh (table : Resolution) (visits : List Visit) : Prop :=
  ∀ id patterns condition span, .pattern (.guarded id patterns condition span) ∈ visits →
    id ∉ table.patternTypes

/-- Of the record patterns among the visits that are in conditions it is noted to which guarded
patterns they belong, and what is noted is right or was there. -/
structure Assigns (visits : List Visit) (table after : Resolution) : Prop where
  told : ∀ record owner, after.elseOwners[record]? = some owner →
    table.elseOwners[record]? = some owner ∨ Visit.Owned visits record owner
  kept : ∀ record, record ∈ table.elseOwners → record ∈ after.elseOwners
  noted : ∀ record owner, Visit.Owned visits record owner → record ∈ after.elseOwners

variable {table mid after : Resolution} {visits visits' first rest : List Visit}

theorem Fresh.mono (h : table.Fresh visits) (hsub : first ⊆ visits) : table.Fresh first :=
  fun id patterns condition span hvisit => h id patterns condition span (hsub hvisit)

namespace Assigns

theorem quiet (hnone : ∀ id patterns condition span,
    .pattern (.guarded id patterns condition span) ∉ visits)
    (h : after.elseOwners = table.elseOwners) : Assigns visits table after := by
  refine ⟨fun record owner hnote => .inl (h ▸ hnote), fun record hnote => h ▸ hnote, ?_⟩
  rintro record owner ⟨patterns, condition, span, hvisit, -⟩
  exact absurd hvisit (hnone owner patterns condition span)

theorem trans (h : Assigns first table mid) (h' : Assigns rest mid after) :
    Assigns (first ++ rest) table after := by
  refine ⟨fun record owner hnote => ?_, fun record hnote => h'.kept _ (h.kept _ hnote),
    fun record owner hown => ?_⟩
  · rw [Visit.owned_append, ← or_assoc]
    exact (h'.told record owner hnote).imp_left (h.told record owner)
  · exact (Visit.owned_append.mp hown).elim (fun hfirst => h'.kept _ (h.noted _ _ hfirst))
      (h'.noted _ _)

theorem perm (h : Assigns visits table after) (hperm : visits.Perm visits') :
    Assigns visits' table after :=
  ⟨fun record owner hnote => (h.told record owner hnote).imp_right (·.mono hperm.subset), h.kept,
    fun record owner hown => h.noted record owner (hown.mono hperm.symm.subset)⟩

end Assigns

end Resolution

namespace Resolver

theorem getElem?_setElseOwners (owner record : PatternId) (records : List PatternId)
    (table : Resolution) :
    (records.foldl (Resolution.setElseOwner · owner ·) table).elseOwners[record]? =
      if record ∈ records then some owner else table.elseOwners[record]? := by
  induction records generalizing table with
  | nil => rfl
  | cons first records ih =>
    rw [List.foldl_cons, ih, Resolution.setElseOwner, Std.ExtTreeMap.getElem?_insert]
    by_cases heq : first = record
    · simp [heq]
    · simp [heq, Ne.symm heq]

/-- The record patterns of a condition are noted for its guard. -/
theorem getElem?_tagged (owner : PatternId) (condition : Expr) (state : Resolver)
    (record : PatternId) : (tagged owner condition state).table.elseOwners[record]? =
      if record ∈ condition.guardRecords then some owner
      else state.table.elseOwners[record]? := by
  have hnames : ∀ ids : List ExprId, (ids.foldl Resolution.tagGuardName state.table).elseOwners =
      state.table.elseOwners := fun _ => foldl_keeps (·.elseOwners) (by intros; rfl) _ _
  rw [tagged, getElem?_setElseOwners, hnames]

namespace Course

variable {pool : Pool} {locals : Array LocalDecl} {outer : Scope} {visits first rest : List Visit}
  {reads : List Read} {state mid after : Resolver}

/-- Guarded patterns that are not met on the way stay without a type. -/
theorem fresh (h : Course pool locals outer first reads state mid) (hfresh : state.table.Fresh rest)
    (hapart : Visit.Apart first rest) : mid.table.Fresh rest := by
  intro id patterns condition span hvisit hid
  rcases h.touches.mem_patternTypes hid with hstate | ⟨other, hother, heq⟩
  · exact hfresh id patterns condition span hvisit hstate
  · exact hapart other _ hother hvisit heq

/-- The guarded patterns in a condition are not met before it is. -/
theorem fresh_condition {id : PatternId} {patterns : List Pattern} {condition : Expr} {span : Span}
    (h : Course pool locals outer (Pattern.visitsAll patterns) reads state mid)
    (hdistinct : Visit.Distinct (Pattern.guarded id patterns condition span).visits)
    (hfresh : state.table.Fresh (Pattern.guarded id patterns condition span).visits) (ty : Ty) :
    (mid.table.setPatternType id ty).Fresh condition.visits := by
  obtain ⟨hbelow, hself⟩ := Visit.Distinct.cons hdistinct
  intro id' patterns' condition' span' hvisit hid
  rcases Std.ExtTreeMap.mem_insert.mp hid with heq | hmid
  · exact hself _ _ (List.mem_append_right _ hvisit) List.mem_cons_self
      (Nat.compare_eq_eq.mp heq).symm
  · exact h.fresh (hfresh.mono Visit.right_subset)
      hbelow.append.2.2 id' patterns' condition' span' hvisit hmid

/-- **A resolution notes owners where it meets guarded patterns for the first time.** -/
theorem assigns (h : Course pool locals outer visits reads state after)
    (hdistinct : Visit.Distinct visits) (hfresh : state.table.Fresh visits) :
    Resolution.Assigns visits state.table after.table := by
  induction h with
  | refl state => exact .quiet nofun rfl
  | @change state change hchange =>
    cases change with
    | report | conversion => exact .quiet nofun rfl
    | patternType | exprType | localType | identLocal => exact hchange.elim
  | binding | expr | ident => exact .quiet (by simp) rfl
  | pattern state hunguarded ty =>
    exact .quiet (fun id patterns condition span hvisit => hunguarded id patterns condition span
      (Visit.pattern.inj (List.mem_singleton.mp hvisit)).symm) rfl
  | trans hcourse _ ih ih' =>
    obtain ⟨hfirst, hrest, hapart⟩ := hdistinct.append
    exact (ih hfirst (hfresh.mono (List.subset_append_left ..))).trans
      (ih' hrest (hcourse.fresh (hfresh.mono (List.subset_append_right ..)) hapart))
  | perm _ hperm ih =>
    exact (ih (((hperm.filterMap _).nodup_iff).mpr hdistinct) (hfresh.mono hperm.subset)).perm hperm
  | @skip state id patterns condition span reads hid =>
    exact absurd hid (hfresh id patterns condition span (Pattern.self_mem_visits _))
  | @enter id patterns condition span ty _ _ state mid last _ hcourse _ ih ih' =>
    obtain ⟨hpatterns, hcondition, -⟩ := (Visit.Distinct.cons hdistinct).1.append
    have hmid := ih hpatterns (hfresh.mono (List.subset_cons_of_subset _
      (List.subset_append_left ..)))
    have hready : Resolution.Assigns (Pattern.visitsAll patterns) state.table
        (mid.table.setPatternType id ty) := ⟨hmid.told, hmid.kept, hmid.noted⟩
    have hlast := hready.trans (ih' hcondition (hcourse.fresh_condition hdistinct hfresh ty))
    have hmem : ∀ record, record ∈ last.table.elseOwners ∨ record ∈ condition.guardRecords →
        record ∈ (tagged id condition last).table.elseOwners := by
      intro record hrecord
      rw [Std.ExtTreeMap.mem_iff_isSome_getElem?, getElem?_tagged]
      split
      next => rfl
      next hnot => exact Std.ExtTreeMap.mem_iff_isSome_getElem?.mp (hrecord.resolve_right hnot)
    refine ⟨fun record owner hnote => ?_, fun record hnote => hmem record (.inl ?_),
      fun record owner hown => hmem record ?_⟩
    · rw [getElem?_tagged] at hnote
      rw [Pattern.visits, Visit.owned_guarded]
      split at hnote
      next hrecord => exact .inr (.inl ⟨hrecord, Option.some.inj hnote⟩)
      next => exact (hlast.told record owner hnote).imp_right .inr
    · exact hlast.kept record hnote
    · rw [Pattern.visits, Visit.owned_guarded] at hown
      exact hown.symm.imp (hlast.noted record owner) And.left

end Course

end Resolver

/-! ## Tables -/

namespace Resolution

variable {forest : Forest} {pool : Pool} {id : PatternId} {expected : Ty} {scope : Scope}
  {resolved : Resolved}

theorem fresh_empty (visits : List Visit) : Resolution.empty.Fresh visits :=
  fun _ _ _ _ _ hid => by simp [Resolution.empty] at hid

/-- A record pattern is noted for the guarded pattern that it belongs to. -/
theorem elseOwners_iff_owned (h : Visit.Distinct (forest.pattern id).visits)
    (hrun : forest.resolvePattern pool .empty id expected scope = .ok resolved)
    (record owner : PatternId) :
    resolved.table.elseOwners[record]? = some owner ↔
      Visit.Owned (forest.pattern id).visits record owner := by
  obtain ⟨after, hafter, htable, -⟩ := exists_of_run hrun
  have hfollows := (forest.pattern id).resolve_follows pool expected (.refl forest.locals scope)
  have hcourse := (hfollows.ensures ⟨.empty, .new .unlimited⟩).of_ok hafter
  have hassigns := hcourse.assigns h (fresh_empty _)
  have htold : ∀ owner, after.table.elseOwners[record]? = some owner →
      Visit.Owned (forest.pattern id).visits record owner := fun owner hnote =>
    (hassigns.told record owner hnote).resolve_left (by simp [Resolution.empty])
  rw [htable]
  refine ⟨htold owner, fun hown => ?_⟩
  have hnoted := Std.ExtTreeMap.getElem?_eq_some_getElem (hassigns.noted record owner hown)
  rw [hnoted, Pattern.owned_unique h (htold _ hnoted) hown]

/-- **A record pattern is noted for the innermost guarded pattern with it in its condition.** -/
theorem elseOwners_iff (h : Visit.Distinct (forest.pattern id).visits)
    (hrun : forest.resolvePattern pool .empty id expected scope = .ok resolved)
    (record owner : PatternId) :
    resolved.table.elseOwners[record]? = some owner ↔ ∃ patterns condition span,
      .pattern (.guarded owner patterns condition span) ∈ (forest.pattern id).visits ∧
      record ∈ condition.visits.filterMap Visit.record? ∧
      ∀ inner, .pattern inner ∈ condition.visits → ¬ inner.Guards record := by
  rw [elseOwners_iff_owned h hrun, Visit.Owned]
  refine exists_congr fun patterns => exists_congr fun condition => exists_congr fun span =>
    and_congr_right fun hvisit => ?_
  have hbelow : condition.visits.Sublist (forest.pattern id).visits :=
    ((List.sublist_append_right ..).cons _).trans ((forest.pattern id).below_sublist hvisit)
  exact Expr.mem_guardRecords_iff (h.sublist hbelow)

end Resolution

end GuardedMatch
