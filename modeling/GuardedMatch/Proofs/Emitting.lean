import GuardedMatch.Code.Plan
import GuardedMatch.Proofs.Ensures
import GuardedMatch.Proofs.Machine

/-!
# What planning does to the stream

Whatever planning does, it appends instructions, and it places only labels that were open.  What
is appended by one action after another is put together by `Stream.Appends.trans`.

* `Stream.Appends`: the stream was continued by a piece of code.
* `Planner.OutOfSlots`: planning stops only when a local needs a slot and none is left.
-/

namespace GuardedMatch

namespace Stream

/-- The streams differ only in the ranges they keep. -/
structure SameCode (stream after : Stream) : Prop where
  instrs : after.instrs = stream.instrs
  labels : after.labels = stream.labels
  valueCount : after.valueCount = stream.valueCount
  slots : after.slots = stream.slots

namespace SameCode

theorem refl (stream : Stream) : SameCode stream stream := ⟨rfl, rfl, rfl, rfl⟩

theorem trans {stream mid after : Stream} (h : SameCode stream mid) (h' : SameCode mid after) :
    SameCode stream after :=
  ⟨h'.instrs.trans h.instrs, h'.labels.trans h.labels, h'.valueCount.trans h.valueCount,
    h'.slots.trans h.slots⟩

theorem foldl {α : Type} {change : Stream → α → Stream}
    (hchange : ∀ stream a, SameCode stream (change stream a)) :
    ∀ (as : List α) (stream : Stream), SameCode stream (as.foldl change stream)
  | [], stream => refl stream
  | a :: as, stream => (hchange stream a).trans (foldl hchange as _)

theorem startRange (stream : Stream) (id : LocalId) (slot : Nat) :
    SameCode stream (stream.startRange id slot) := by
  rw [Stream.startRange]
  split <;> exact ⟨rfl, rfl, rfl, rfl⟩

theorem closeRange (stream : Stream) (id : LocalId) : SameCode stream (stream.closeRange id) := by
  rw [Stream.closeRange]
  split <;> exact ⟨rfl, rfl, rfl, rfl⟩

theorem closeUnassigned (stream : Stream) (states : Array FlowState) (index : StateIndex) :
    SameCode stream (stream.closeUnassigned states index) := by
  rw [Stream.closeUnassigned]
  split
  next =>
    split
    next => exact foldl closeRange _ stream
    next => exact refl stream
  next => exact refl stream

theorem openAssigned (stream : Stream) (states : Array FlowState) (index : StateIndex) :
    SameCode stream (stream.openAssigned states index) := by
  rw [Stream.openAssigned]
  split
  next =>
    split
    next =>
      refine foldl (fun stream id => ?_) _ stream
      split
      next => exact startRange stream id _
      next => exact refl stream
    next => exact refl stream
  next => exact refl stream

end SameCode

/-! ## Appending -/

/-- The stream was continued by a piece of code.  The labels placed in it were open, and none of
them is below `base`. -/
structure Appends (base : Label) (stream after : Stream) (piece : List Instr) : Prop where
  instrs : after.instrs.toList = stream.instrs.toList ++ piece
  labels_le : stream.labels.size ≤ after.labels.size
  kept : ∀ label < stream.labels.size, label ∉ placedLabels piece →
    after.labels[label]? = stream.labels[label]?
  wasOpen : ∀ label ∈ placedLabels piece, stream.labels[label]? ≠ some true
  placed : ∀ label ∈ placedLabels piece, after.labels[label]? = some true
  nodup : (placedLabels piece).Nodup
  base_le : ∀ label ∈ placedLabels piece, base ≤ label
  values_le : stream.valueCount ≤ after.valueCount

namespace Appends

variable {base : Label} {stream mid after : Stream} {piece rest : List Instr}

theorem refl (stream : Stream) : Appends base stream stream [] where
  instrs := (List.append_nil _).symm
  labels_le := le_rfl
  kept _ _ _ := rfl
  wasOpen := nofun
  placed := nofun
  nodup := .nil
  base_le := nofun
  values_le := le_rfl

theorem of_sameCode (h : SameCode stream after) : Appends base stream after [] where
  instrs := by rw [h.instrs, List.append_nil]
  labels_le := by rw [h.labels]
  kept _ _ _ := by rw [h.labels]
  wasOpen := nofun
  placed := nofun
  nodup := .nil
  base_le := nofun
  values_le := h.valueCount.ge

theorem mono {base' : Label} (hle : base ≤ base') (h : Appends base' stream after piece) :
    Appends base stream after piece :=
  { h with base_le := fun label hlabel => hle.trans (h.base_le label hlabel) }

theorem trans (h : Appends base stream mid piece)
    (h' : Appends base mid after rest) :
    Appends base stream after (piece ++ rest) := by
  -- A label of the first piece is placed by then, so the second piece cannot place it.
  have hdisjoint : ∀ label ∈ placedLabels piece, label ∉ placedLabels rest :=
    fun label hlabel hrest => h'.wasOpen label hrest (h.placed label hlabel)
  refine ⟨?_, h.labels_le.trans h'.labels_le, ?_, ?_, ?_, ?_, ?_, h.values_le.trans h'.values_le⟩
  · rw [h'.instrs, h.instrs, List.append_assoc]
  · intro label hlabel hnot
    rw [placedLabels_append, List.mem_append, not_or] at hnot
    rw [h'.kept label (hlabel.trans_le h.labels_le) hnot.2, h.kept label hlabel hnot.1]
  · intro label hlabel
    rw [placedLabels_append, List.mem_append] at hlabel
    rcases hlabel with hlabel | hlabel
    · exact h.wasOpen label hlabel
    · intro hplaced
      have hlt := (Array.getElem?_eq_some_iff.mp hplaced).1
      refine h'.wasOpen label hlabel ?_
      rw [h.kept label hlt fun hpiece => hdisjoint label hpiece hlabel, hplaced]
  · intro label hlabel
    rw [placedLabels_append, List.mem_append] at hlabel
    rcases hlabel with hlabel | hlabel
    · have hlt := (Array.getElem?_eq_some_iff.mp (h.placed label hlabel)).1
      rw [h'.kept label hlt (hdisjoint label hlabel), h.placed label hlabel]
    · exact h'.placed label hlabel
  · rw [placedLabels_append, List.nodup_append']
    exact ⟨h.nodup, h'.nodup, hdisjoint⟩
  · intro label hlabel
    rw [placedLabels_append, List.mem_append] at hlabel
    exact hlabel.elim (h.base_le label) (h'.base_le label)

/-- A label below the base stays as it is. -/
theorem kept_of_lt {label : Label} {flag : Bool} (h : Appends base stream after piece)
    (hlt : label < base) (hlabel : stream.labels[label]? = some flag) :
    after.labels[label]? = some flag := by
  rw [h.kept label (Array.getElem?_eq_some_iff.mp hlabel).1 fun hplaced =>
    (h.base_le label hplaced).not_gt hlt, hlabel]

theorem emit {instr : Instr} (hinstr : instr.placed? = none) :
    Appends base stream (stream.emit instr) [instr] := by
  have hnone : placedLabels [instr] = [] := by
    rw [placedLabels, List.filterMap_cons_none hinstr, List.filterMap_nil]
  refine ⟨Array.toList_push, le_rfl, fun _ _ _ => rfl, ?_, ?_, ?_, ?_, le_rfl⟩
  all_goals rw [hnone]
  · exact List.forall_mem_nil _
  · exact List.forall_mem_nil _
  · exact .nil
  · exact List.forall_mem_nil _

theorem newLabel : Appends base stream stream.newLabel.2 [] where
  instrs := (List.append_nil _).symm
  labels_le := by simp [Stream.newLabel]
  kept label hlabel _ := by rw [Stream.newLabel, Array.getElem?_push, if_neg hlabel.ne]
  wasOpen := nofun
  placed := nofun
  nodup := .nil
  base_le := nofun
  values_le := le_rfl

theorem newValue : Appends base stream stream.newValue.2 [] :=
  { refl stream with values_le := Nat.le_succ _ }

theorem place {label : Label} (hbase : base ≤ label) (hopen : stream.labels[label]? = some false) :
    Appends base stream (stream.place label) [.placeLabel label] := by
  have hlabels : (stream.place label).labels = stream.labels.setIfInBounds label true := rfl
  have hlt := (Array.getElem?_eq_some_iff.mp hopen).1
  refine ⟨Array.toList_push, ?_, ?_, ?_, ?_, List.nodup_singleton label, ?_, le_rfl⟩
  · rw [hlabels, Array.size_setIfInBounds]
  · intro other _ hother
    rw [placedLabels_placeLabel, placedLabels_nil, List.mem_singleton] at hother
    rw [hlabels, Array.getElem?_setIfInBounds_ne (Ne.symm hother)]
  · rintro other hother
    rw [List.mem_singleton.mp hother, hopen]
    exact nofun
  · rintro other hother
    rw [List.mem_singleton.mp hother, hlabels, Array.getElem?_setIfInBounds_self_of_lt hlt]
  · rintro other hother
    rwa [List.mem_singleton.mp hother]

theorem store {id : LocalId} {value : ValueId} :
    Appends base stream (stream.store id value) [.storeLocal id (stream.declare id).1 value] := by
  have hdeclare : Appends base stream (stream.declare id).2 [] := by
    rw [Stream.declare]
    split
    next => exact refl stream
    next => exact { (refl stream : Appends base stream stream []) with }
  exact (hdeclare.trans (emit rfl)).trans (of_sameCode (SameCode.startRange ..))

end Appends

end Stream

/-! ## Actions -/

namespace Planner

open Machine

/-- There are more allowed locals than slots. -/
def Crowded (allowed : LocalId → Prop) : Prop :=
  ∃ ids : List LocalId, ids.Nodup ∧ Stream.slotLimit < ids.length ∧ ∀ id ∈ ids, allowed id

/-- Planning stops for want of slots, and rightly so. -/
def OutOfSlots (allowed : LocalId → Prop) (failure : Failure) : Prop :=
  failure = .faulty .slotsExhausted ∧ Crowded allowed

section

variable {planner : Planner} {base : Label} {bad : Failure → Prop}

theorem jump_ensures (target : Option Label) :
    Ensures (jump target) planner bad fun _ after =>
      planner.stream.Appends base after.stream (jumpCode target) := by
  cases target with
  | none => exact Ensures.pure (.refl _)
  | some label => exact Ensures.modifies (Stream.Appends.emit rfl)

theorem newLabel_ensures (base : Label) :
    Ensures newLabel planner bad fun label after => label = planner.stream.labels.size ∧
      planner.stream.Appends base after.stream [] ∧ after.stream.labels[label]? = some false :=
  ⟨rfl, .newLabel, Array.getElem?_push_size⟩

theorem setPhase_ensures {id : PatternId} {phase : Phase} :
    Ensures (setPhase id phase) planner bad fun _ after => after.stream = planner.stream := rfl

theorem noteGuard_ensures {plan : GuardPlan} :
    Ensures (noteGuard plan) planner bad fun _ after => after.stream = planner.stream := rfl

theorem require_ensures {fault? : Stream → Option Fault}
    (h : ∀ fault, fault? planner.stream = some fault → bad (.faulty fault)) :
    Ensures (require fault?) planner bad fun _ after => after = planner := by
  refine Ensures.get_bind ?_
  split
  next fault hfault => exact Ensures.throw (h fault hfault)
  next => exact Ensures.pure rfl

theorem place_ensures {label : Label} (hbase : base ≤ label)
    (hopen : planner.stream.labels[label]? = some false) :
    Ensures (place label) planner bad fun _ after =>
      planner.stream.Appends base after.stream [.placeLabel label] := by
  have hfault : planner.stream.placeFault? label = none := by rw [Stream.placeFault?, hopen]
  refine (require_ensures fun fault h => ?_).seq fun _ after hafter => ?_
  · rw [hfault] at h
    cases h
  · rw [hafter]
    exact Ensures.modifies (Stream.Appends.place hbase hopen)

/-- A local that cannot have a slot makes one local too many. -/
theorem crowded_of_fault {allowed : LocalId → Prop} {id : LocalId} {fault : Fault}
    (hslots : ∀ id, id ∈ planner.stream.slots → allowed id) (hid : allowed id)
    (h : planner.stream.declareFault? id = some fault) : OutOfSlots allowed (.faulty fault) := by
  rw [Stream.declareFault?] at h
  split at h
  next => cases h
  next hfull =>
    rw [Bool.or_eq_true, decide_eq_true_eq, not_or, Nat.not_lt] at hfull
    obtain ⟨hnew, hsize⟩ := hfull
    refine ⟨congrArg Failure.faulty (Option.some.inj h).symm, id :: planner.stream.slots.keys,
      ?_, ?_, ?_⟩
    · rw [List.nodup_cons, Std.ExtTreeMap.mem_keys]
      refine ⟨fun hmem => hnew (Std.ExtTreeMap.contains_iff_mem.mpr hmem), ?_⟩
      exact Std.ExtTreeMap.nodup_keys
    · rw [List.length_cons, Std.ExtTreeMap.length_keys]
      exact Nat.lt_succ_of_le hsize
    · rw [List.forall_mem_cons]
      exact ⟨hid, fun other hother => hslots other (Std.ExtTreeMap.mem_keys.mp hother)⟩

end

end Planner

end GuardedMatch
