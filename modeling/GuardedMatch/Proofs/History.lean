import GuardedMatch.Proofs.Assembling
import GuardedMatch.Proofs.Ranges

/-!
# Streams after any history

Whatever has been done with a stream, its table is in order: the live locals are those with an open
range, all of them have a slot, and no range ends before it starts or after the code.  While ranges
are kept, bringing them into line with a state leaves exactly those locals live that it should.

* `Stream.Built.sound`: the table is in order after any operations.
* `Stream.stable_sound`: it stays in order while code is planned.
* `Stream.isLive_closeUnassigned_iff`, `Stream.isLive_openAssigned_iff`: what is live when ranges
  have been brought into line with a state.
-/

namespace GuardedMatch

namespace Stream

/-! ## Which locals are live -/

section

variable {stream : Stream} {id other : LocalId} {slot : Nat}

theorem isLive_closeRange_iff :
    (stream.closeRange id).isLive other = true ↔ other ≠ id ∧ stream.isLive other = true := by
  refine ⟨isLive_closeRange, fun ⟨hne, hlive⟩ => ?_⟩
  rw [closeRange]
  split
  next =>
    rw [isLive, Std.ExtTreeMap.contains_erase, Bool.and_eq_true, bne_iff_ne]
    exact ⟨fun heq => hne (Nat.compare_eq_eq.mp heq).symm, hlive⟩
  next => exact hlive

theorem isLive_foldl_closeRange_iff (ids : List LocalId) {stream : Stream} :
    (ids.foldl closeRange stream).isLive other = true ↔
      other ∉ ids ∧ stream.isLive other = true := by
  induction ids generalizing stream with
  | nil => simp
  | cons id ids ih =>
    rw [List.foldl_cons, ih, isLive_closeRange_iff, List.mem_cons, not_or]
    tauto

theorem isLive_startRange_iff (htracking : stream.tracking = true) :
    (stream.startRange id slot).isLive other = true ↔
      other = id ∨ stream.isLive other = true := by
  refine ⟨isLive_startRange, fun h => ?_⟩
  rw [startRange, canStart, htracking, Bool.true_and]
  by_cases hid : stream.isLive id = true
  · rw [hid]
    rcases h with rfl | h
    · exact hid
    · exact h
  · rw [Bool.not_eq_true] at hid
    rw [hid, Bool.not_false, if_pos rfl, isLive, Std.ExtTreeMap.contains_insert, Bool.or_eq_true,
      beq_iff_eq]
    exact h.imp_left fun heq => Nat.compare_eq_eq.mpr heq.symm

theorem tracking_startRange (stream : Stream) (id : LocalId) (slot : Nat) :
    (stream.startRange id slot).tracking = stream.tracking := by
  rw [startRange]
  split <;> rfl

theorem tracking_closeRange (stream : Stream) (id : LocalId) :
    (stream.closeRange id).tracking = stream.tracking := by
  rw [closeRange]
  split <;> rfl

theorem isLive_store {value : ValueId} (h : (stream.store id value).isLive other = true) :
    other = id ∨ stream.isLive other = true := by
  refine (isLive_startRange h).imp_right fun hdeclared => ?_
  have hsame : (stream.declare id).2.isLive other = stream.isLive other := by
    rw [declare]
    split <;> rfl
  exact hsame ▸ hdeclared

end

/-- Start the range of a local that has a slot. -/
def startDeclared (stream : Stream) (id : LocalId) : Stream :=
  match stream.slots[id]? with
  | some slot => stream.startRange id slot
  | none => stream

section

variable {stream : Stream} {id other : LocalId}

theorem startDeclared_sameCode (stream : Stream) (id : LocalId) :
    SameCode stream (stream.startDeclared id) := by
  rw [startDeclared]
  split
  next => exact .startRange ..
  next => exact .refl stream

theorem tracking_startDeclared (stream : Stream) (id : LocalId) :
    (stream.startDeclared id).tracking = stream.tracking := by
  rw [startDeclared]
  split
  next => exact tracking_startRange ..
  next => rfl

theorem isLive_startDeclared_iff (htracking : stream.tracking = true) :
    (stream.startDeclared id).isLive other = true ↔
      (other = id ∧ stream.isDeclared other = true) ∨ stream.isLive other = true := by
  rw [startDeclared, isDeclared, Std.ExtTreeMap.contains_eq_isSome_getElem?]
  split
  next slot hslot =>
    rw [isLive_startRange_iff htracking]
    refine or_congr_left ⟨fun h => ⟨h, ?_⟩, fun h => h.1⟩
    rw [h, hslot]
    rfl
  next hnone =>
    refine ⟨Or.inr, fun h => h.resolve_left ?_⟩
    rintro ⟨rfl, hdeclared⟩
    rw [hnone] at hdeclared
    cases hdeclared

theorem isLive_foldl_startDeclared_iff (ids : List LocalId) {stream : Stream}
    (htracking : stream.tracking = true) :
    (ids.foldl startDeclared stream).isLive other = true ↔
      (other ∈ ids ∧ stream.isDeclared other = true) ∨ stream.isLive other = true := by
  induction ids generalizing stream with
  | nil => simp
  | cons id ids ih =>
    have hslots : (stream.startDeclared id).isDeclared other = stream.isDeclared other := by
      rw [isDeclared, (startDeclared_sameCode stream id).slots, isDeclared]
    rw [List.foldl_cons, ih (tracking_startDeclared stream id ▸ htracking), hslots,
      isLive_startDeclared_iff htracking, List.mem_cons]
    tauto

variable {states : Array FlowState} {index : StateIndex} {state : FlowState}

/-- **What is left open** is what was open and is assigned. -/
theorem isLive_closeUnassigned_iff (hstate : states[index]? = some state)
    (hreachable : state.reachable = true) :
    (stream.closeUnassigned states index).isLive id = true ↔
      stream.isLive id = true ∧ state.assigned.contains id = true := by
  rw [closeUnassigned, hstate]
  simp only [hreachable, if_true]
  rw [isLive_foldl_closeRange_iff, List.mem_filter, liveLocals, Std.ExtTreeMap.mem_keys,
    ← Std.ExtTreeMap.contains_iff_mem, ← isLive]
  simp only [Bool.not_eq_true', not_and, Bool.not_eq_false]
  tauto

/-- **What is open afterwards** is what was open, and what is assigned and has a slot. -/
theorem isLive_openAssigned_iff (htracking : stream.tracking = true)
    (hstate : states[index]? = some state) (hreachable : state.reachable = true) :
    (stream.openAssigned states index).isLive id = true ↔
      stream.isLive id = true ∨
        stream.isDeclared id = true ∧ state.assigned.contains id = true := by
  rw [openAssigned, hstate]
  simp only [hreachable, if_true]
  refine Iff.trans (isLive_foldl_startDeclared_iff state.assigned.toList htracking) ?_
  rw [LocalSet.mem_toList]
  tauto

end

/-! ## Tables in order -/

/-- The table of ranges is in order, and ranges are kept or not. -/
structure Sound (tracking : Bool) (stream : Stream) : Prop where
  tracking_eq : stream.tracking = tracking
  live : ∀ (id : LocalId) (index : Nat), stream.live[id]? = some index ↔
    ∃ range, stream.ranges[index]? = some range ∧ range.id = id ∧ range.stop = none
  declared : ∀ id, stream.isLive id = true → stream.isDeclared id = true
  starts : ∀ range ∈ stream.ranges, range.start ≤ range.stop.getD stream.position
  stops : ∀ range ∈ stream.ranges, ∀ stop ∈ range.stop, stop ≤ stream.position

theorem sound_new (tracking : Bool) : (Stream.new tracking).Sound tracking where
  tracking_eq := rfl
  live id index := by simp [Stream.new]
  declared id hlive := by simp [Stream.new, isLive] at hlive
  starts range hrange := by simp [Stream.new] at hrange
  stops range hrange := by simp [Stream.new] at hrange

namespace Sound

variable {tracking : Bool} {stream after : Stream}

/-- What is said about the live locals and the ranges is said for a local without ranges. -/
theorem exists_tabled (h : stream.Sound tracking) : ∃ id, stream.Tabled id := by
  obtain ⟨id, hid⟩ := Infinite.exists_notMem_finset (stream.ranges.toList.map (·.id)).toFinset
  refine ⟨id, h.stops, h.live, fun range hrange heq => absurd ?_ hid⟩
  rw [List.mem_toFinset, ← heq]
  exact List.mem_map_of_mem hrange.val

/-- A local is live just if it has an open range. -/
theorem isLive_iff (h : stream.Sound tracking) {id : LocalId} : stream.isLive id = true ↔
    ∃ range ∈ stream.ranges, range.id = id ∧ range.stop = none := by
  rw [isLive, Std.ExtTreeMap.contains_eq_isSome_getElem?, Option.isSome_iff_exists]
  constructor
  · rintro ⟨index, hindex⟩
    obtain ⟨range, hrange, hopen⟩ := (h.live id index).mp hindex
    exact ⟨range, Array.mem_of_getElem? hrange, hopen⟩
  · rintro ⟨range, hrange, hopen⟩
    obtain ⟨index, hindex⟩ := Array.mem_iff_getElem?.mp hrange
    exact ⟨index, (h.live id index).mpr ⟨range, hindex, hopen⟩⟩

/-- More code and more slots do no harm. -/
theorem congr (h : stream.Sound tracking) (hranges : after.ranges = stream.ranges)
    (hlive : after.live = stream.live) (htracking : after.tracking = stream.tracking)
    (hposition : stream.position ≤ after.position)
    (hslots : ∀ id, stream.isDeclared id = true → after.isDeclared id = true) :
    after.Sound tracking := by
  refine ⟨htracking.trans h.tracking_eq, ?_, fun id hid => hslots id (h.declared id ?_), ?_, ?_⟩
  · rw [hranges, hlive]
    exact h.live
  · rwa [isLive, hlive] at hid
  · rw [hranges]
    intro range hrange
    have hstart := h.starts range hrange
    cases hstop : range.stop with
    | none =>
      rw [hstop] at hstart
      exact hstart.trans hposition
    | some stop => rwa [hstop] at hstart
  · rw [hranges]
    exact fun range hrange stop hstop => (h.stops range hrange stop hstop).trans hposition

theorem newLabel (h : stream.Sound tracking) : stream.newLabel.2.Sound tracking :=
  h.congr rfl rfl rfl le_rfl fun _ hid => hid

theorem newValue (h : stream.Sound tracking) : stream.newValue.2.Sound tracking :=
  h.congr rfl rfl rfl le_rfl fun _ hid => hid

theorem emit (h : stream.Sound tracking) (instr : Instr) : (stream.emit instr).Sound tracking := by
  refine h.congr rfl rfl rfl ?_ fun _ hid => hid
  rw [position, position, Stream.emit, Array.size_push]
  exact Nat.le_succ _

theorem place (h : stream.Sound tracking) (label : Label) :
    (stream.place label).Sound tracking := by
  have hmarked : ({ stream with labels := stream.labels.setIfInBounds label true } :
      Stream).Sound tracking := h.congr rfl rfl rfl le_rfl fun _ hid => hid
  exact hmarked.emit _

/-- A local has its slot when it is declared. -/
theorem slots_declare (stream : Stream) (id : LocalId) :
    (stream.declare id).2.slots[id]? = some (stream.declare id).1 := by
  rw [Stream.declare]
  split
  next slot hslot => exact hslot
  next => exact Std.ExtTreeMap.getElem?_insert_self

theorem declare (h : stream.Sound tracking) (id : LocalId) :
    (stream.declare id).2.Sound tracking := by
  rw [Stream.declare]
  split
  next => exact h
  next =>
    refine h.congr rfl rfl rfl le_rfl fun other hother => ?_
    rw [isDeclared, Std.ExtTreeMap.contains_insert, Bool.or_eq_true]
    exact Or.inr hother

theorem startRange (h : stream.Sound tracking) {id : LocalId} {slot : Nat}
    (hslot : stream.slots[id]? = some slot) : (stream.startRange id slot).Sound tracking := by
  obtain ⟨fresh, htabled⟩ := h.exists_tabled
  have hafter := htabled.startRange id slot
  refine ⟨(tracking_startRange ..).trans h.tracking_eq, hafter.live, fun other hlive => ?_, ?_,
    hafter.stops⟩
  · rw [isDeclared, (SameCode.startRange stream id slot).slots]
    rcases isLive_startRange hlive with rfl | hlive
    · rw [Std.ExtTreeMap.contains_eq_isSome_getElem?, hslot]
      rfl
    · exact h.declared other hlive
  · rw [Stream.startRange]
    split
    next =>
      intro range hrange
      rcases Array.mem_push.mp hrange with hrange | rfl
      · exact h.starts range hrange
      · exact le_rfl
    next => exact h.starts

theorem startDeclared (h : stream.Sound tracking) (id : LocalId) :
    (stream.startDeclared id).Sound tracking := by
  rw [Stream.startDeclared]
  split
  next slot hslot => exact h.startRange hslot
  next => exact h

theorem closeRange (h : stream.Sound tracking) (id : LocalId) :
    (stream.closeRange id).Sound tracking := by
  obtain ⟨fresh, htabled⟩ := h.exists_tabled
  have hafter := htabled.closeRange id
  refine ⟨(tracking_closeRange ..).trans h.tracking_eq, hafter.live, fun other hlive => ?_, ?_,
    hafter.stops⟩
  · rw [isDeclared, (SameCode.closeRange stream id).slots]
    exact h.declared other (isLive_closeRange hlive).2
  · rw [Stream.closeRange]
    split
    next index hindex =>
      intro range hrange
      obtain ⟨other, hother⟩ := Array.mem_iff_getElem?.mp hrange
      rw [Array.getElem?_modify] at hother
      split at hother
      next heq =>
        -- The range that is closed here was open.
        obtain ⟨before, hbefore, -, hopen⟩ := (h.live id index).mp hindex
        rw [← heq, hbefore] at hother
        obtain rfl := Option.some.inj hother
        have hstart := h.starts before (Array.mem_of_getElem? hbefore)
        rwa [hopen] at hstart
      next => exact h.starts range (Array.mem_of_getElem? hother)
    next => exact h.starts

theorem foldl {α : Type} {change : Stream → α → Stream}
    (hchange : ∀ stream a, stream.Sound tracking → (change stream a).Sound tracking) :
    ∀ (as : List α) {stream : Stream}, stream.Sound tracking →
      (as.foldl change stream).Sound tracking
  | [], _, h => h
  | a :: as, _, h => foldl hchange as (hchange _ a h)

theorem closeUnassigned (h : stream.Sound tracking) (states : Array FlowState)
    (index : StateIndex) : (stream.closeUnassigned states index).Sound tracking := by
  rw [Stream.closeUnassigned]
  split
  next =>
    split
    next => exact foldl (fun _ id h => h.closeRange id) _ h
    next => exact h
  next => exact h

theorem openAssigned (h : stream.Sound tracking) (states : Array FlowState)
    (index : StateIndex) : (stream.openAssigned states index).Sound tracking := by
  rw [Stream.openAssigned]
  split
  next =>
    split
    next => exact foldl (fun _ id h => h.startDeclared id) _ h
    next => exact h
  next => exact h

theorem openRange (h : stream.Sound tracking) (id : LocalId) :
    (stream.openRange id).Sound tracking := by
  rw [Stream.openRange]
  split
  next => exact (h.declare id).startRange (slots_declare stream id)
  next => exact h

theorem store (h : stream.Sound tracking) (id : LocalId) (value : ValueId) :
    (stream.store id value).Sound tracking :=
  ((h.declare id).emit _).startRange (slots_declare stream id)

end Sound

/-- Planning keeps the table in order. -/
theorem stable_sound (tracking : Bool) : Stable .all (Sound tracking) where
  labels _ := trivial
  newLabel h := h.newLabel
  newValue h := h.newValue
  emit h _ _ := h.emit _
  place h _ _ _ := h.place _
  store h _ _ _ := h.store _
  closeRange h := h.closeRange
  closeUnassigned h := h.closeUnassigned
  openAssigned h _ _ _ := h.openAssigned _ _

/-! ## Histories -/

/-- A stream that some operations have led to, none of which has failed. -/
inductive Built (tracking : Bool) : Stream → Prop
  | new : Built tracking (Stream.new tracking)
  | newLabel {stream : Stream} (h : Built tracking stream) : Built tracking stream.newLabel.2
  | newValue {stream : Stream} (h : Built tracking stream) : Built tracking stream.newValue.2
  | emit {stream : Stream} (h : Built tracking stream) (instr : Instr) :
      Built tracking (stream.emit instr)
  | place {stream : Stream} (h : Built tracking stream) {label : Label}
      (hfault : stream.placeFault? label = none) : Built tracking (stream.place label)
  | declare {stream : Stream} (h : Built tracking stream) {id : LocalId}
      (hfault : stream.declareFault? id = none) : Built tracking (stream.declare id).2
  | openRange {stream : Stream} (h : Built tracking stream) {id : LocalId}
      (hfault : stream.canStart id = true → stream.declareFault? id = none) :
      Built tracking (stream.openRange id)
  | closeRange {stream : Stream} (h : Built tracking stream) (id : LocalId) :
      Built tracking (stream.closeRange id)
  | closeUnassigned {stream : Stream} (h : Built tracking stream) (states : Array FlowState)
      (index : StateIndex) : Built tracking (stream.closeUnassigned states index)
  | openAssigned {stream : Stream} (h : Built tracking stream) (states : Array FlowState)
      (index : StateIndex) : Built tracking (stream.openAssigned states index)

/-- **Whatever has been done with a stream, its table is in order.** -/
theorem Built.sound {tracking : Bool} {stream : Stream} (h : Built tracking stream) :
    stream.Sound tracking := by
  induction h with
  | new => exact sound_new tracking
  | newLabel _ ih => exact ih.newLabel
  | newValue _ ih => exact ih.newValue
  | emit _ instr ih => exact ih.emit instr
  | place _ _ ih => exact ih.place _
  | declare _ _ ih => exact ih.declare _
  | openRange _ _ ih => exact ih.openRange _
  | closeRange _ id ih => exact ih.closeRange id
  | closeUnassigned _ states index ih => exact ih.closeUnassigned states index
  | openAssigned _ states index ih => exact ih.openAssigned states index

end Stream

end GuardedMatch
