import GuardedMatch.Proofs.Assembling

/-!
# Slots

Planning gives a slot to each local that it stores.

* `Planner.Assembled.stores`: after planning for what was analysed, the locals that are stored have
  slots, and no others have been added.  Planning stops only for want of slots.
* `CompilationUnit.exists_planned`: planning for a unit ends if there are slots enough.
-/

namespace GuardedMatch

namespace Planner

/-- The action gives slots to the locals and to no others.  If it stops, then for want of slots or
because of a label. -/
structure Stores (ids : List LocalId) {α : Type} (action : PlanM α) : Prop where
  ensures : ∀ planner : Planner, Ensures action planner
    (fun failure => Orderly failure →
      OutOfSlots (fun id => id ∈ planner.stream.slots ∨ id ∈ ids) failure)
    fun _ after => ∀ id, id ∈ after.stream.slots ↔ id ∈ planner.stream.slots ∨ id ∈ ids

theorem OutOfSlots.mono {allowed allowed' : LocalId → Prop} {failure : Failure}
    (h : OutOfSlots allowed failure) (hsub : ∀ id, allowed id → allowed' id) :
    OutOfSlots allowed' failure := by
  obtain ⟨hfailure, ids, hnodup, hlength, hids⟩ := h
  exact ⟨hfailure, ids, hnodup, hlength, fun id hid => hsub id (hids id hid)⟩

namespace Stores

variable {ids ids' : List LocalId} {α β : Type}

theorem bind {action : PlanM α} {next : α → PlanM β} (h : Stores ids action)
    (hnext : ∀ answer, Stores ids' (next answer)) : Stores (ids ++ ids') (action >>= next) := by
  refine ⟨fun planner => Ensures.bind ((h.ensures planner).imp ?_ fun answer mid hmid => ?_)⟩
  · intro failure hbad horderly
    refine (hbad horderly).mono fun id hid => hid.imp_right fun hid => ?_
    exact List.mem_append_left _ hid
  · refine ((hnext answer).ensures mid).imp ?_ fun _ after hafter id => ?_
    · intro failure hbad horderly
      refine (hbad horderly).mono fun id hid => ?_
      rw [hmid, or_assoc, ← List.mem_append] at hid
      exact hid
    · rw [hafter, hmid, or_assoc, List.mem_append]

theorem pure (answer : α) : Stores [] (Pure.pure answer : PlanM α) :=
  ⟨fun _ => Ensures.pure (by simp)⟩

theorem change {step : Stream → Stream} (h : ∀ stream, (step stream).slots = stream.slots) :
    Stores [] (change step) := by
  refine ⟨fun planner => Ensures.modifies fun id => ?_⟩
  rw [h]
  simp

theorem place (label : Label) : Stores [] (Planner.place label) := by
  have hrequire : Stores [] (Planner.require (·.placeFault? label)) := by
    refine ⟨fun planner => (require_ensures fun fault hfault horderly => ?_).mono ?_⟩
    · rw [Stream.placeFault?] at hfault
      split at hfault
      next => exact absurd (congrArg Failure.faulty (Option.some.inj hfault).symm) (horderly _).2
      next => exact absurd (congrArg Failure.faulty (Option.some.inj hfault).symm) (horderly _).1
      next => cases hfault
    · intro _ after hafter id
      simp [hafter]
  exact bind hrequire fun _ => change fun _ => rfl

theorem storeLocal (bound : LocalId) (value : ValueId) :
    Stores [bound] (Planner.store (some bound) value) := by
  refine ⟨fun planner => (require_ensures ?_).seq fun _ after hafter => ?_⟩
  · intro fault hfault _
    exact crowded_of_fault (fun id hid => .inl hid) (.inr (by simp)) hfault
  · rw [hafter]
    refine Ensures.modifies fun id => ?_
    show id ∈ (planner.stream.store bound value).slots ↔ _
    have hslots : (planner.stream.store bound value).slots =
        (planner.stream.declare bound).2.slots := by
      rw [Stream.store]
      exact (Stream.SameCode.startRange ..).slots
    rw [hslots, Stream.declare]
    split
    next slot hslot =>
      have hmem : bound ∈ planner.stream.slots :=
        Std.ExtTreeMap.mem_iff_isSome_getElem?.mpr (by simp [hslot])
      constructor
      · exact .inl
      · rintro (hid | hid)
        · exact hid
        · rwa [List.mem_singleton.mp hid]
    next =>
      rw [Std.ExtTreeMap.mem_insert, Nat.compare_eq_eq, or_comm]
      simp [eq_comm]

end Stores

/-- Steps may do anything but fail, unless a step on the stream does. -/
def Terms.sure : Terms := { Terms.all with fails := fun _ => False }

/-- **What planning stores has slots**, and it stops only for want of them. -/
theorem Assembled.stores {ids : List LocalId} {α : Type} {action : PlanM α}
    (h : Assembled .sure ids action) : Stores ids action := by
  induction h with
  | pure answer => exact .pure answer
  | throw hfails => exact hfails.elim
  | bind _ _ ih hnext => exact .bind ih hnext
  | newLabel _ ih => exact ⟨fun planner => newLabel_bind ((ih _ trivial).ensures _)⟩
  | newValue => exact ⟨fun _ id => by simp⟩
  | emit _ => exact .change fun _ => rfl
  | place _ => exact .place _
  | storeLocal _ value => exact .storeLocal _ value
  | closeRange id => exact .change fun _ => (Stream.SameCode.closeRange ..).slots
  | closeUnassigned states index =>
    exact .change fun _ => (Stream.SameCode.closeUnassigned ..).slots
  | openAssigned _ => exact .change fun _ => (Stream.SameCode.openAssigned ..).slots
  | setPhase _ _ | noteGuard _ | noteElseTarget _ _ | clear =>
    exact ⟨fun _ => Ensures.modifies (by simp)⟩
  | handOut => exact ⟨fun _ id => by simp⟩

end Planner

open Planner

variable {facts : Facts}

/-- Planning for what was analysed finds all that it looks up. -/
theorem FlowRecord.Covered.permits {visits : List Visit} (h : facts.record.Covered visits) :
    facts.Permits .sure visits :=
  ⟨fun _ _ => trivial, fun _ _ _ _ _ _ => trivial, .inl h⟩

mutual

theorem Pattern.binding_of_stored : ∀ (pattern : Pattern) {id : LocalId},
    id ∈ pattern.storedLocals → .binding id ∈ pattern.visits
  | .type own ty binds span, id, h => by
    rw [Pattern.storedLocals, Option.mem_toList] at h
    rw [Pattern.visits]
    simp_all
  | .record own ty components span, id, h =>
    List.mem_cons_of_mem _ (Pattern.binding_of_storedAll components h)
  | .guarded own patterns condition span, id, h => by
    rw [Pattern.storedLocals, List.mem_append] at h
    rcases h with h | h
    · exact Visit.left_subset (Pattern.binding_of_storedAll patterns h)
    · exact Visit.right_subset (condition.binding_of_stored h)
  | .any .., id, h | .missing _, id, h => by simp [Pattern.storedLocals] at h

theorem Pattern.binding_of_storedAll : ∀ (patterns : List Pattern) {id : LocalId},
    id ∈ Pattern.storedLocalsAll patterns → .binding id ∈ Pattern.visitsAll patterns
  | [], id, h => by simp [Pattern.storedLocalsAll] at h
  | pattern :: patterns, id, h => by
    rw [Pattern.storedLocalsAll, List.mem_append] at h
    rw [Pattern.visitsAll, List.mem_append]
    exact h.imp pattern.binding_of_stored (Pattern.binding_of_storedAll patterns)

theorem Expr.binding_of_stored : ∀ (expr : Expr) {id : LocalId},
    id ∈ expr.storedLocals → .binding id ∈ expr.visits
  | .unary own .not operand span, id, h => List.mem_cons_of_mem _ (operand.binding_of_stored h)
  | .binary own op left right span, id, h => by
    rw [Expr.storedLocals.eq_def] at h
    cases op with
    | and | or =>
      dsimp only at h
      split at h
      next => cases h
      next =>
        rcases List.mem_append.mp h with h | h
        · exact Visit.left_subset (left.binding_of_stored h)
        · exact Visit.right_subset (right.binding_of_stored h)
    | eq | notEq | lt | ltEq | gt | gtEq | add | sub | mul | div | rem => cases h
  | .instanceOf own tested pattern span, id, h => Visit.right_subset (pattern.binding_of_stored h)
  | .bool .., id, h | .int .., id, h | .ident .., id, h | .field .., id, h | .call .., id, h
  | .unary _ .neg _ _, id, h | .missing _, id, h => by simp [Expr.storedLocals] at h

end

theorem Pattern.generate_stores (pattern : Pattern) (h : facts.record.Covered pattern.visits)
    (value : ValueId) (static : Ty) (targets : Targets) :
    Stores pattern.storedLocals (pattern.generate facts value static targets) :=
  (Pattern.generate_assembled h.permits value static targets).stores

/-! ## Units -/

namespace CompilationUnit

variable {forest : Forest}

/-- The locals that the code of a unit stores. -/
def storedLocals (unit : CompilationUnit) (forest : Forest) : List LocalId :=
  unit.patterns.flatMap fun id => (forest.pattern id).storedLocals

theorem storedLocals_subset {unit : CompilationUnit} {id : PatternId} (h : id ∈ unit.patterns) :
    (forest.pattern id).storedLocals ⊆ unit.storedLocals forest :=
  fun _ hbound => List.mem_flatMap.mpr ⟨id, h, hbound⟩

/-- Planning for a unit stops only for want of slots. -/
theorem plan_stores {unit : CompilationUnit} (siteTypes switchTypes : List Ty) (planner : Planner)
    (h : ∀ id ∈ unit.patterns, facts.record.Covered (forest.pattern id).visits) :
    Ensures (unit.plan facts forest false siteTypes switchTypes) planner
      (fun failure => Orderly failure → OutOfSlots
        (fun id => id ∈ planner.stream.slots ∨ id ∈ unit.storedLocals forest) failure)
      fun _ _ => True := by
  have hsite : ∀ site ∈ unit.sites, site.pattern ∈ unit.patterns := by
    intro site hmem
    exact List.mem_append_left _ (List.mem_map_of_mem hmem)
  have hcase : ∀ switch ∈ unit.switches, ∀ id ∈ switch.cases, id ∈ unit.patterns := by
    intro switch hmem id hid
    exact List.mem_append_right _ (List.mem_flatMap.mpr ⟨switch, hmem, hid⟩)
  have hstores := (plan_assembled (fun id hid => (h id hid).permits) siteTypes switchTypes).stores
  refine (hstores.ensures planner).imp (fun failure hbad horderly => ?_) fun _ _ _ => trivial
  refine (hbad horderly).mono fun bound hbound => hbound.imp_right fun hbound => ?_
  rcases List.mem_append.mp hbound with hbound | hbound
  · obtain ⟨root, hroot, hbound⟩ := List.mem_flatMap.mp hbound
    exact storedLocals_subset (hsite _ (List.of_mem_zip hroot).1) hbound
  · obtain ⟨root, hroot, hbound⟩ := List.mem_flatMap.mp hbound
    obtain ⟨id, hid, hbound⟩ := List.mem_flatMap.mp hbound
    exact storedLocals_subset (hcase _ (List.of_mem_zip hroot).1 id hid) hbound

/-- **A unit that was analysed and stores few enough locals has code.** -/
theorem exists_planned {unit : CompilationUnit} (siteTypes switchTypes : List Ty) (tracking : Bool)
    (h : ∀ id ∈ unit.patterns, facts.record.Covered (forest.pattern id).visits)
    (hcount : (unit.storedLocals forest).dedup.length ≤ Stream.slotLimit) :
    ∃ emitted planner, EStateM.run (unit.plan facts forest false siteTypes switchTypes)
      (Planner.new tracking) = .ok emitted planner := by
  cases hrun : EStateM.run (unit.plan facts forest false siteTypes switchTypes)
      (Planner.new tracking) with
  | ok emitted planner => exact ⟨emitted, planner, rfl⟩
  | error failure planner =>
    have horderly := (unit.plan_seals _ siteTypes switchTypes).of_error hrun
    obtain ⟨-, ids, hnodup, hlength, hids⟩ :=
      (plan_stores siteTypes switchTypes _ h).of_error hrun horderly
    -- More different locals than are stored cannot be stored.
    have hsub : ids ⊆ (unit.storedLocals forest).dedup := by
      intro id hid
      rcases hids id hid with hslot | hstored
      · simp [Planner.new, Stream.new] at hslot
      · exact List.mem_dedup.mpr hstored
    have hle := (List.subperm_of_subset hnodup hsub).length_le
    omega

end CompilationUnit

end GuardedMatch
