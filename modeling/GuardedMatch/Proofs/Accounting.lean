import GuardedMatch.Proofs.History
import Mathlib.Data.List.Dedup

/-!
# The accounts of a stream

A stream hands out slots and keeps the table of ranges.  Any sequence of operations that places only
labels that are handed out and not placed yet, and that declares no more locals than there are
slots, is carried out, and then the accounts are right.

* The live locals are those with an open range, which is one range each.
* The slots in use are the numbers below the count of slots.  Each belongs to one local, and a range
  carries the slot of its local.
* The ranges stand in the order in which they start.  A range of a local starts only when all
  earlier ones of that local have ended.

* `Stream.Accounted`: the invariant, with one lemma for each operation.
* `Operation.performAll_ensures`: a sequence of operations is carried out and keeps the invariant.
-/

namespace GuardedMatch

/-- A range starts no later than another one, and if both are of one local, it ends before the other
one starts. -/
def LocalRange.Precedes (earlier later : LocalRange) : Prop :=
  earlier.start ≤ later.start ∧
    (earlier.id = later.id → ∃ stop, earlier.stop = some stop ∧ stop ≤ later.start)

namespace Stream

/-- The table of ranges is in order, the slots are numbered without gaps, and the ranges carry
them. -/
structure Accounted (tracking : Bool) (stream : Stream) : Prop extends Sound tracking stream where
  untracked : tracking = false → stream.ranges = #[]
  slot_lt : ∀ (id : LocalId) (slot : Nat), stream.slots[id]? = some slot → slot < stream.slots.size
  taken : ∀ slot < stream.slots.size, ∃! id : LocalId, stream.slots[id]? = some slot
  carried : ∀ range ∈ stream.ranges, stream.slots[range.id]? = some range.slot
  precedes : ∀ (i j : Nat) earlier later, i < j → stream.ranges[i]? = some earlier →
    stream.ranges[j]? = some later → earlier.Precedes later

theorem accounted_new (tracking : Bool) : (Stream.new tracking).Accounted tracking where
  toSound := sound_new tracking
  untracked _ := rfl
  slot_lt id slot h := by simp [Stream.new] at h
  taken slot h := by simp [Stream.new] at h
  carried range h := by simp [Stream.new] at h
  precedes i j earlier later _ h := by simp [Stream.new] at h

namespace Accounted

variable {tracking : Bool} {stream after : Stream}

theorem start_le (h : stream.Accounted tracking) {range : LocalRange}
    (hrange : range ∈ stream.ranges) : range.start ≤ stream.position := by
  have hstart := h.starts range hrange
  cases hstop : range.stop with
  | none => rwa [hstop] at hstart
  | some stop =>
    rw [hstop] at hstart
    exact hstart.trans (h.stops range hrange stop hstop)

/-- The slots and the ranges are accounted for, whatever else changes. -/
theorem congr (h : stream.Accounted tracking) (hsound : after.Sound tracking)
    (hslots : after.slots = stream.slots) (hranges : after.ranges = stream.ranges) :
    after.Accounted tracking where
  toSound := hsound
  untracked := by rw [hranges]; exact h.untracked
  slot_lt := by rw [hslots]; exact h.slot_lt
  taken := by rw [hslots]; exact h.taken
  carried := by rw [hranges, hslots]; exact h.carried
  precedes := by rw [hranges]; exact h.precedes

theorem declare (h : stream.Accounted tracking) (id : LocalId) :
    (stream.declare id).2.Accounted tracking := by
  have hsound := h.toSound.declare id
  rw [Stream.declare] at hsound ⊢
  split at hsound
  next => exact h
  next hnone =>
    have hnew : ∀ (other : LocalId) (slot : Nat),
        (stream.slots.insert id stream.slots.size)[other]? = some slot ↔
          id = other ∧ stream.slots.size = slot ∨ stream.slots[other]? = some slot := by
      intro other slot
      simp only [Std.ExtTreeMap.getElem?_insert, Nat.compare_eq_eq]
      split
      next heq => simp [heq ▸ hnone, heq]
      next hne => simp [hne]
    have hsize : (stream.slots.insert id stream.slots.size).size = stream.slots.size + 1 := by
      rw [Std.ExtTreeMap.size_insert, if_neg]
      rw [Std.ExtTreeMap.contains_eq_isSome_getElem?, hnone]
      exact Bool.false_ne_true
    refine ⟨hsound, h.untracked, fun other slot hslot => ?_, fun slot hslot => ?_,
      fun range hrange => ?_, h.precedes⟩
    · show slot < (stream.slots.insert id stream.slots.size).size
      rw [hsize]
      rcases (hnew other slot).mp hslot with ⟨-, rfl⟩ | hold
      · exact Nat.lt_succ_self _
      · exact Nat.lt_succ_of_lt (h.slot_lt other slot hold)
    · replace hslot : slot < stream.slots.size + 1 := hsize ▸ hslot
      rcases Nat.lt_succ_iff_lt_or_eq.mp hslot with hlt | rfl
      · obtain ⟨owner, howner, hunique⟩ := h.taken slot hlt
        refine ⟨owner, (hnew owner slot).mpr (.inr howner), fun other hother => ?_⟩
        rcases (hnew other slot).mp hother with ⟨-, rfl⟩ | hold
        · exact absurd hlt (lt_irrefl _)
        · exact hunique other hold
      · refine ⟨id, (hnew id _).mpr (.inl ⟨rfl, rfl⟩), fun other hother => ?_⟩
        rcases (hnew other _).mp hother with ⟨rfl, -⟩ | hold
        · rfl
        · exact absurd (h.slot_lt other _ hold) (lt_irrefl _)
    · exact (hnew range.id range.slot).mpr (.inr (h.carried range hrange))

theorem startRange (h : stream.Accounted tracking) {id : LocalId} {slot : Nat}
    (hslot : stream.slots[id]? = some slot) : (stream.startRange id slot).Accounted tracking := by
  have hsound := h.toSound.startRange hslot
  rw [Stream.startRange] at hsound ⊢
  split at hsound
  next hcan =>
    rw [if_pos hcan]
    rw [canStart, Bool.and_eq_true, Bool.not_eq_true', h.tracking_eq] at hcan
    refine ⟨hsound, fun huntracked => ?_, h.slot_lt, h.taken, fun range hrange => ?_,
      fun i j earlier later hij hearlier hlater => ?_⟩
    · rw [hcan.1] at huntracked
      cases huntracked
    · rcases Array.mem_push.mp hrange with hrange | rfl
      · exact h.carried range hrange
      · exact hslot
    · rw [Array.getElem?_push] at hearlier hlater
      split at hlater
      next heq =>
        rw [if_neg (heq ▸ hij).ne] at hearlier
        obtain rfl := Option.some.inj hlater
        have hmem := Array.mem_of_getElem? hearlier
        refine ⟨h.start_le hmem, fun hid => ?_⟩
        cases hstop : earlier.stop with
        | none =>
          have hlive := h.isLive_iff.mpr ⟨earlier, hmem, hid, hstop⟩
          rw [hcan.2] at hlive
          cases hlive
        | some stop => exact ⟨stop, rfl, h.stops earlier hmem stop hstop⟩
      next =>
        have hlt := (Array.getElem?_eq_some_iff.mp hlater).1
        rw [if_neg (hij.trans hlt).ne] at hearlier
        exact h.precedes i j earlier later hij hearlier hlater
  next hcannot =>
    rw [if_neg hcannot]
    exact h

/-- When a range ends, nothing has started after it: no later range is of its local. -/
theorem closeRange (h : stream.Accounted tracking) (id : LocalId) :
    (stream.closeRange id).Accounted tracking := by
  have hsound := h.toSound.closeRange id
  rw [Stream.closeRange] at hsound ⊢
  split at hsound
  next index hindex =>
    obtain ⟨closed, hclosed, hid, hopen⟩ := (h.live id index).mp hindex
    have hbefore : ∀ (i : Nat) range, (stream.ranges.modify index fun range =>
        { range with stop := some stream.position })[i]? = some range →
        ∃ before, stream.ranges[i]? = some before ∧ range.id = before.id ∧
          range.slot = before.slot ∧ range.start = before.start ∧
          (before.stop ≠ none → range.stop = before.stop) := by
      intro i range hrange
      rw [Array.getElem?_modify] at hrange
      split at hrange
      next heq =>
        rw [← heq, hclosed] at hrange
        obtain rfl := Option.some.inj hrange
        exact ⟨closed, heq ▸ hclosed, rfl, rfl, rfl, fun hne => absurd hopen hne⟩
      next => exact ⟨range, hrange, rfl, rfl, rfl, fun _ => rfl⟩
    refine ⟨hsound, fun huntracked => ?_, h.slot_lt, h.taken, fun range hrange => ?_,
      fun i j earlier later hij hearlier hlater => ?_⟩
    · rw [h.untracked huntracked] at hclosed
      cases hclosed
    · obtain ⟨i, hi⟩ := Array.mem_iff_getElem?.mp hrange
      obtain ⟨before, hbefore, heqid, heqslot, -⟩ := hbefore i range hi
      rw [heqid, heqslot]
      exact h.carried before (Array.mem_of_getElem? hbefore)
    · obtain ⟨before, hearlier, heqid, -, heqstart, heqstop⟩ := hbefore i earlier hearlier
      obtain ⟨before', hlater, heqid', -, heqstart', -⟩ := hbefore j later hlater
      obtain ⟨hstart, hsame⟩ := h.precedes i j before before' hij hearlier hlater
      refine ⟨by rwa [heqstart, heqstart'], fun heq => ?_⟩
      obtain ⟨stop, hstop, hle⟩ := hsame (by rwa [← heqid, ← heqid'])
      refine ⟨stop, (heqstop ?_).trans hstop, by rwa [heqstart']⟩
      rw [hstop]
      exact Option.some_ne_none stop
  next => exact h

theorem closeUnassigned (h : stream.Accounted tracking) (states : Array FlowState)
    (index : StateIndex) : (stream.closeUnassigned states index).Accounted tracking := by
  rw [Stream.closeUnassigned]
  split
  next =>
    split
    next => exact List.foldlRecOn _ _ h fun _ hstream id _ => hstream.closeRange id
    next => exact h
  next => exact h

theorem openAssigned (h : stream.Accounted tracking) (states : Array FlowState)
    (index : StateIndex) : (stream.openAssigned states index).Accounted tracking := by
  rw [Stream.openAssigned]
  split
  next =>
    split
    next =>
      refine List.foldlRecOn _ _ h fun stream hstream id _ => ?_
      split
      next slot hslot => exact hstream.startRange hslot
      next => exact hstream
    next => exact h
  next => exact h

theorem openRange (h : stream.Accounted tracking) (id : LocalId) :
    (stream.openRange id).Accounted tracking := by
  rw [Stream.openRange]
  split
  next => exact (h.declare id).startRange (Sound.slots_declare stream id)
  next => exact h

/-- A live local has one open range. -/
theorem existsUnique_open (h : stream.Accounted tracking) {id : LocalId}
    (hlive : stream.isLive id = true) :
    ∃! index : Nat, ∃ range, stream.ranges[index]? = some range ∧ range.id = id ∧
      range.stop = none := by
  rw [isLive, Std.ExtTreeMap.contains_eq_isSome_getElem?, Option.isSome_iff_exists] at hlive
  obtain ⟨index, hindex⟩ := hlive
  refine ⟨index, (h.live id index).mp hindex, fun other hother => ?_⟩
  exact Option.some.inj (((h.live id other).mpr hother).symm.trans hindex)

theorem liveLocals_eq_nil (h : stream.Accounted tracking) (huntracked : tracking = false) :
    stream.liveLocals = [] := by
  rw [List.eq_nil_iff_forall_not_mem]
  intro id hid
  obtain ⟨range, hrange, -⟩ := h.isLive_iff.mp (Std.ExtTreeMap.mem_keys.mp hid)
  rw [h.untracked huntracked] at hrange
  cases hrange.val

end Accounted

theorem mem_slots_declare {stream : Stream} {id other : LocalId} :
    other ∈ (stream.declare id).2.slots ↔ other = id ∨ other ∈ stream.slots := by
  rw [declare]
  split
  next slot hslot =>
    have hmem : id ∈ stream.slots := Std.ExtTreeMap.mem_iff_isSome_getElem?.mpr (by simp [hslot])
    exact ⟨.inr, fun h => h.elim (fun heq => heq ▸ hmem) fun hother => hother⟩
  next => rw [Std.ExtTreeMap.mem_insert, Nat.compare_eq_eq, eq_comm]

end Stream

/-! ## Sequences of operations -/

/-- What can be asked of a stream. -/
inductive Operation
  | newLabel
  | newValue
  | emit (instr : Instr)
  | place (label : Label)
  | declare (id : LocalId)
  | openRange (id : LocalId)
  | closeRange (id : LocalId)
  | closeUnassigned (states : Array FlowState) (index : StateIndex)
  | openAssigned (states : Array FlowState) (index : StateIndex)

namespace Operation

/-- Carry out an operation, if nothing stands against it. -/
def perform : Operation → PlanM Unit
  | newLabel => discard Planner.newLabel
  | newValue => discard Planner.newValue
  | emit instr => Planner.emit instr
  | place label => Planner.place label
  | declare id => discard (Planner.declare id)
  | openRange id => Planner.openRange id
  | closeRange id => Planner.change (·.closeRange id)
  | closeUnassigned states index => Planner.change (·.closeUnassigned states index)
  | openAssigned states index => Planner.change (·.openAssigned states index)

/-- The local that is to have a slot afterwards.  To open a range is nothing while no ranges are
kept. -/
def declared? (tracking : Bool) : Operation → Option LocalId
  | declare id => some id
  | openRange id => if tracking then some id else none
  | _ => none

/-- Each label that is placed has been handed out before and not been placed, when `next` labels
have been handed out so far and some of them been placed. -/
def freshLabels : (next : Label) → (placed : List Label) → List Operation → Bool
  | _, _, [] => true
  | next, placed, newLabel :: ops => freshLabels (next + 1) placed ops
  | next, placed, place label :: ops =>
    decide (label < next) && !placed.contains label && freshLabels next (label :: placed) ops
  | next, placed, _ :: ops => freshLabels next placed ops

/-- What an operation makes of a stream. -/
def apply (stream : Stream) : Operation → Stream
  | newLabel => stream.newLabel.2
  | newValue => stream.newValue.2
  | emit instr => stream.emit instr
  | place label => stream.place label
  | declare id => (stream.declare id).2
  | openRange id => stream.openRange id
  | closeRange id => stream.closeRange id
  | closeUnassigned states index => stream.closeUnassigned states index
  | openAssigned states index => stream.openAssigned states index

/-- Why an operation cannot be carried out. -/
def fault? (stream : Stream) : Operation → Option Fault
  | place label => stream.placeFault? label
  | declare id => stream.declareFault? id
  | openRange id => if stream.canStart id then stream.declareFault? id else none
  | _ => none

variable {tracking : Bool} {stream : Stream}

theorem accounted_apply (h : stream.Accounted tracking) (op : Operation) :
    (op.apply stream).Accounted tracking := by
  cases op with
  | newLabel => exact h.congr h.newLabel rfl rfl
  | newValue => exact h.congr h.newValue rfl rfl
  | emit instr => exact h.congr (h.emit instr) rfl rfl
  | place label => exact h.congr (h.place label) rfl rfl
  | declare id => exact h.declare id
  | openRange id => exact h.openRange id
  | closeRange id => exact h.closeRange id
  | closeUnassigned states index => exact h.closeUnassigned states index
  | openAssigned states index => exact h.openAssigned states index

theorem mem_slots_apply (h : stream.Accounted tracking) (op : Operation) (id : LocalId) :
    id ∈ (op.apply stream).slots ↔ op.declared? tracking = some id ∨ id ∈ stream.slots := by
  cases op with
  | newLabel | newValue | emit | place =>
    exact ⟨.inr, fun h => h.resolve_left (by simp [declared?])⟩
  | declare other =>
    rw [apply, Stream.mem_slots_declare, declared?, Option.some.injEq, eq_comm]
  | openRange other =>
    rw [apply, Stream.openRange, declared?, Stream.canStart, h.tracking_eq]
    cases tracking with
    | false => simp
    | true =>
      rw [Bool.true_and, if_pos rfl, Option.some.injEq]
      split
      next =>
        rw [(Stream.SameCode.startRange ..).slots, Stream.mem_slots_declare, eq_comm]
      next hlive =>
        refine ⟨.inr, fun hor => hor.elim (fun heq => ?_) fun hid => hid⟩
        rw [Bool.not_eq_true, Bool.not_eq_false'] at hlive
        exact Std.ExtTreeMap.contains_iff_mem.mp (heq ▸ h.declared other hlive)
  | closeRange other =>
    rw [apply, (Stream.SameCode.closeRange stream other).slots]
    simp [declared?]
  | closeUnassigned states index =>
    rw [apply, (Stream.SameCode.closeUnassigned stream states index).slots]
    simp [declared?]
  | openAssigned states index =>
    rw [apply, (Stream.SameCode.openAssigned stream states index).slots]
    simp [declared?]

/-- An operation against which nothing stands is carried out. -/
theorem perform_ensures {planner : Planner} {op : Operation} {bad : Failure → Prop}
    (h : ∀ fault, op.fault? planner.stream = some fault → bad (.faulty fault)) :
    Ensures op.perform planner bad fun _ after => after.stream = op.apply planner.stream := by
  cases op with
  | newLabel | newValue => exact Ensures.discards rfl
  | emit | closeRange | closeUnassigned | openAssigned => exact Ensures.modifies rfl
  | place label =>
    refine (Planner.require_ensures h).seq fun _ after hafter => ?_
    exact Ensures.modifies (by rw [hafter, apply])
  | declare id =>
    refine Ensures.discards ((Planner.require_ensures h).seq ?_)
    rintro _ _ rfl
    rfl
  | openRange id =>
    refine Ensures.get_bind ?_
    rw [fault?] at h
    split
    next hcan =>
      rw [if_pos hcan] at h
      refine (Planner.require_ensures h).seq ?_
      rintro _ _ rfl
      exact Ensures.modifies rfl
    next => exact Ensures.modifies rfl

/-- How far a sequence of operations has come, when all of it is to declare some locals.  The labels
that are not placed yet can be placed. -/
structure Progress (tracking : Bool) (ids : List LocalId) (ops : List Operation) (stream : Stream) :
    Prop where
  accounted : stream.Accounted tracking
  locals : ∀ id, id ∈ ids ↔ id ∈ stream.slots ∨ id ∈ ops.filterMap (·.declared? tracking)
  labels : ∃ placed, freshLabels stream.labels.size placed ops = true ∧
    ∀ label < stream.labels.size, label ∉ placed → stream.labels[label]? = some false

namespace Progress

variable {ids : List LocalId} {op : Operation} {ops : List Operation}

/-- Labels stay as they are, unless one is handed out or placed. -/
theorem labels_of_eq {after : Stream} (h : Progress tracking ids (op :: ops) stream)
    (hafter : after.labels = stream.labels)
    (hfresh : ∀ next placed, freshLabels next placed (op :: ops) = freshLabels next placed ops) :
    ∃ placed, freshLabels after.labels.size placed ops = true ∧
      ∀ label < after.labels.size, label ∉ placed → after.labels[label]? = some false := by
  obtain ⟨placed, hplaced, hopen⟩ := h.labels
  rw [hafter]
  exact ⟨placed, hfresh _ placed ▸ hplaced, hopen⟩

theorem labels_apply (h : Progress tracking ids (op :: ops) stream) :
    ∃ placed, freshLabels (op.apply stream).labels.size placed ops = true ∧
      ∀ label < (op.apply stream).labels.size, label ∉ placed →
        (op.apply stream).labels[label]? = some false := by
  cases op with
  | newLabel =>
    obtain ⟨placed, hplaced, hopen⟩ := h.labels
    refine ⟨placed, ?_, fun label hlabel hnew => ?_⟩
    · rw [apply, Stream.newLabel, Array.size_push]
      exact hplaced
    · rw [apply, Stream.newLabel] at hlabel ⊢
      rw [Array.size_push] at hlabel
      rw [Array.getElem?_push]
      split
      next => rfl
      next hne => exact hopen label (by omega) hnew
  | place label =>
    obtain ⟨placed, hplaced, hopen⟩ := h.labels
    rw [freshLabels, Bool.and_eq_true] at hplaced
    have hsize : ((place label).apply stream).labels.size = stream.labels.size :=
      Array.size_setIfInBounds
    refine ⟨label :: placed, hsize ▸ hplaced.2, fun other hother hnew => ?_⟩
    rw [List.mem_cons, not_or] at hnew
    rw [apply, Stream.place, Stream.emit, Array.getElem?_setIfInBounds, if_neg (Ne.symm hnew.1)]
    exact hopen other (hsize ▸ hother) hnew.2
  | newValue | emit => exact h.labels_of_eq rfl fun _ _ => rfl
  | declare id =>
    refine h.labels_of_eq ?_ fun _ _ => rfl
    rw [apply, Stream.declare]
    split <;> rfl
  | openRange id =>
    refine h.labels_of_eq ?_ fun _ _ => rfl
    rw [apply, Stream.openRange]
    split
    next =>
      rw [(Stream.SameCode.startRange ..).labels, Stream.declare]
      split <;> rfl
    next => rfl
  | closeRange id => exact h.labels_of_eq (Stream.SameCode.closeRange ..).labels fun _ _ => rfl
  | closeUnassigned states index =>
    exact h.labels_of_eq (Stream.SameCode.closeUnassigned ..).labels fun _ _ => rfl
  | openAssigned states index =>
    exact h.labels_of_eq (Stream.SameCode.openAssigned ..).labels fun _ _ => rfl

theorem step (h : Progress tracking ids (op :: ops) stream) :
    Progress tracking ids ops (op.apply stream) := by
  refine ⟨accounted_apply h.accounted op, fun id => ?_, h.labels_apply⟩
  rw [h.locals, mem_slots_apply h.accounted op id, List.mem_filterMap, List.mem_filterMap,
    List.exists_mem_cons_iff]
  tauto

/-- Nothing stands against the next operation, if there are slots enough. -/
theorem fault?_eq_none {planner : Planner} (h : Progress tracking ids (op :: ops) planner.stream)
    (hslots : ¬ Planner.Crowded (· ∈ ids)) : op.fault? planner.stream = none := by
  have hdeclare : ∀ id, op.declared? tracking = some id →
      planner.stream.declareFault? id = none := by
    intro id hid
    rw [Option.eq_none_iff_forall_ne_some]
    intro fault hfault
    refine hslots (Planner.crowded_of_fault (fun other hother => ?_) ?_ hfault).2
    · exact (h.locals other).mpr (.inl hother)
    · exact (h.locals id).mpr (.inr (List.mem_filterMap.mpr ⟨op, List.mem_cons_self, hid⟩))
  cases op with
  | newLabel | newValue | emit | closeRange | closeUnassigned | openAssigned => rfl
  | place label =>
    obtain ⟨placed, hplaced, hopen⟩ := h.labels
    rw [freshLabels, Bool.and_eq_true, Bool.and_eq_true, decide_eq_true_eq, Bool.not_eq_true',
      List.contains_eq_mem, decide_eq_false_iff_not] at hplaced
    rw [fault?, Stream.placeFault?, hopen label hplaced.1.1 hplaced.1.2]
  | declare id => exact hdeclare id rfl
  | openRange id =>
    rw [fault?]
    split
    next hcan =>
      rw [Stream.canStart, h.accounted.tracking_eq, Bool.and_eq_true] at hcan
      exact hdeclare id (if_pos hcan.1)
    next => rfl

end Progress

/-- A sequence of operations is carried out to its end. -/
theorem performAll_ensures {ids : List LocalId} (hslots : ¬ Planner.Crowded (· ∈ ids))
    (ops : List Operation) (planner : Planner) (h : Progress tracking ids ops planner.stream) :
    Ensures (ops.forM perform) planner (fun _ => False) fun _ after =>
      Progress tracking ids [] after.stream := by
  refine Ensures.forM (fun ops planner => Progress tracking ids ops planner.stream)
    (fun op ops planner h => ?_) ops planner h
  refine (perform_ensures fun fault hfault => ?_).mono fun _ after hafter => hafter ▸ h.step
  rw [h.fault?_eq_none hslots] at hfault
  cases hfault

theorem not_crowded {ids : List LocalId} (h : ids.dedup.length ≤ Stream.slotLimit) :
    ¬ Planner.Crowded (· ∈ ids) := by
  rintro ⟨others, hnodup, hlength, hsub⟩
  have hle : others.length ≤ ids.dedup.length :=
    (hnodup.subperm fun id hid => List.mem_dedup.mpr (hsub id hid)).length_le
  omega

/-- **Whatever is asked of a new stream, its accounts are right.**  The labels that are placed are
to be fresh, and the locals that are declared no more than there are slots. -/
theorem exists_performed_accounts (tracking : Bool) (ops : List Operation)
    (hfresh : freshLabels 0 [] ops = true)
    (hlocals : (ops.filterMap (·.declared? tracking)).dedup.length ≤ Stream.slotLimit) :
    ∃ planner, EStateM.run (ops.forM perform) (Planner.new tracking) = .ok () planner ∧
      -- Live are the locals with an open range, and each has one.
      (∀ id, id ∈ planner.stream.liveLocals ↔
        ∃ range ∈ planner.stream.ranges, range.id = id ∧ range.stop = none) ∧
      (∀ id ∈ planner.stream.liveLocals, ∃! index : Nat, ∃ range,
        planner.stream.ranges[index]? = some range ∧ range.id = id ∧ range.stop = none) ∧
      (tracking = false → planner.stream.liveLocals = [] ∧ planner.stream.ranges = #[]) ∧
      -- The locals that were declared have the slots below the count, one each.
      (∀ id, id ∈ planner.stream.slots ↔ id ∈ ops.filterMap (·.declared? tracking)) ∧
      (∀ (id : LocalId) (slot : Nat), planner.stream.slots[id]? = some slot →
        slot < planner.stream.finish.slotCount) ∧
      (∀ slot < planner.stream.finish.slotCount,
        ∃! id : LocalId, planner.stream.slots[id]? = some slot) ∧
      (∀ range ∈ planner.stream.ranges,
        planner.stream.slots[range.id]? = some range.slot) ∧
      -- Ranges are listed as they start, and those of one local do not overlap.
      (∀ (i j : Nat) earlier later, i < j → planner.stream.ranges[i]? = some earlier →
        planner.stream.ranges[j]? = some later → earlier.start ≤ later.start ∧
          (earlier.id = later.id → ∃ stop, earlier.stop = some stop ∧ stop ≤ later.start)) ∧
      ∀ range ∈ planner.stream.ranges, ∀ stop, range.stop = some stop →
        range.start ≤ stop ∧ stop ≤ planner.stream.position := by
  have hstart : Progress tracking (ops.filterMap (·.declared? tracking)) ops
      (Planner.new tracking).stream := by
    refine ⟨Stream.accounted_new tracking, fun id => ?_, [], hfresh, fun label hlabel => ?_⟩
    · simp [Planner.new, Stream.new]
    · exact absurd hlabel (Nat.not_lt_zero label)
  obtain ⟨⟨⟩, planner, hrun, hend⟩ :=
    (performAll_ensures (not_crowded hlocals) ops _ hstart).exists_ok fun _ => id
  have haccounts := hend.accounted
  have hlive : ∀ id, id ∈ planner.stream.liveLocals ↔ planner.stream.isLive id = true :=
    fun id => Std.ExtTreeMap.mem_keys
  refine ⟨planner, hrun, fun id => (hlive id).trans haccounts.isLive_iff,
    fun id hid => haccounts.existsUnique_open ((hlive id).mp hid),
    fun huntracked => ⟨haccounts.liveLocals_eq_nil huntracked, haccounts.untracked huntracked⟩,
    fun id => ?_, haccounts.slot_lt, haccounts.taken, haccounts.carried, haccounts.precedes,
    fun range hrange stop hstop => ⟨?_, haccounts.stops range hrange stop hstop⟩⟩
  · rw [hend.locals id, List.filterMap_nil]
    simp
  · have hrangeStart := haccounts.starts range hrange
    rwa [hstop] at hrangeStart

/-- Two locals are opened, one is closed when a state comes in that does not have it, and it is
opened again behind a label. -/
def reopening : List Operation :=
  let states := #[.reached (.ofList [5]), .reached (.ofList [3, 5, 8])]
  [newLabel, newValue, openRange 3, openRange 5, emit (.evalOperand 0 7),
    closeUnassigned states 0, emit (.goto 0), place 0, openAssigned states 1, declare 4]

theorem exists_performed_reopening : freshLabels 0 [] reopening = true ∧
    (reopening.filterMap (·.declared? true)).dedup.length ≤ Stream.slotLimit ∧
    ∃ planner, EStateM.run (reopening.forM perform) (Planner.new true) = .ok () planner ∧
      planner.stream.liveLocals = [3, 5] ∧
      planner.stream.ranges = #[⟨3, 0, 0, some 1⟩, ⟨5, 1, 0, none⟩, ⟨3, 0, 3, none⟩] ∧
      (∀ id, id ∈ planner.stream.liveLocals ↔
        ∃ range ∈ planner.stream.ranges, range.id = id ∧ range.stop = none) ∧
      (∀ id ∈ planner.stream.liveLocals, ∃! index : Nat, ∃ range,
        planner.stream.ranges[index]? = some range ∧ range.id = id ∧ range.stop = none) ∧
      (∀ id, id ∈ planner.stream.slots ↔ id ∈ [3, 5, 4]) ∧
      (∀ (id : LocalId) (slot : Nat), planner.stream.slots[id]? = some slot →
        slot < planner.stream.finish.slotCount) ∧
      (∀ slot < planner.stream.finish.slotCount,
        ∃! id : LocalId, planner.stream.slots[id]? = some slot) ∧
      (∀ range ∈ planner.stream.ranges, planner.stream.slots[range.id]? = some range.slot) ∧
      (∀ (i j : Nat) earlier later, i < j → planner.stream.ranges[i]? = some earlier →
        planner.stream.ranges[j]? = some later → earlier.start ≤ later.start ∧
          (earlier.id = later.id → ∃ stop, earlier.stop = some stop ∧ stop ≤ later.start)) ∧
      ∀ range ∈ planner.stream.ranges, ∀ stop, range.stop = some stop →
        range.start ≤ stop ∧ stop ≤ planner.stream.position := by
  have hfresh : freshLabels 0 [] reopening = true := by decide
  have hlocals : (reopening.filterMap (·.declared? true)).dedup.length ≤ Stream.slotLimit := by
    decide
  obtain ⟨planner, hrun, hlive, hopen, -, hdeclared, hslot, htaken, hcarried, hprecedes, hstops⟩ :=
    exists_performed_accounts true reopening hfresh hlocals
  have hleft : (match EStateM.run (reopening.forM perform) (Planner.new true) with
      | .ok _ planner => decide (planner.stream.liveLocals = [3, 5] ∧
          planner.stream.ranges = #[⟨3, 0, 0, some 1⟩, ⟨5, 1, 0, none⟩, ⟨3, 0, 3, none⟩])
      | .error _ _ => false) = true := by decide +kernel
  rw [hrun, decide_eq_true_eq] at hleft
  exact ⟨hfresh, hlocals, planner, hrun, hleft.1, hleft.2, hlive, hopen, hdeclared, hslot, htaken,
    hcarried, hprecedes, hstops⟩

end Operation

end GuardedMatch
