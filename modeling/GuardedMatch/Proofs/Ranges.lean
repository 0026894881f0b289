import GuardedMatch.Proofs.Control
import GuardedMatch.Proofs.Emitting

/-!
# The table of local ranges

A range covers the instructions that are emitted while it is open.  So the table is right about a
local if, whenever an instruction is emitted and the local is live, the local has been stored with
whatever history control comes to that instruction.  Ranges can be opened and closed freely between
two instructions.

* `Stream.Tabled`: the ranges of a local cover only instructions that come after a store of it.
* `Stream.Tabled.emit`: what has to be known when an instruction is emitted.
* `Stream.isLive_closeUnassigned`, `Stream.isLive_openAssigned`: what is live when ranges have been
  brought into line with a state.
-/

namespace GuardedMatch

/-- A position lies in a range. -/
def LocalRange.Contains (range : LocalRange) (position : Nat) : Prop :=
  range.start ≤ position ∧ ∀ stop ∈ range.stop, position < stop

instance LocalRange.decidableContains (range : LocalRange) (position : Nat) :
    Decidable (range.Contains position) := inferInstanceAs (Decidable (_ ∧ _))

/-- A local is assigned in a state that can be reached. -/
def FlowState.Holds (state : FlowState) (id : LocalId) : Prop :=
  state.reachable = true ∧ state.assigned.contains id = true

namespace Stream

/-- What can have happened before the next instruction. -/
def fronts (stream : Stream) : Fronts := Fronts.start.run stream.instrs.toList

/-- However control comes to the next instruction, the local has been stored. -/
def Stored (stream : Stream) (id : LocalId) : Prop :=
  ∀ history ∈ stream.fronts.here, .stored id ∈ history

theorem fronts_emit (stream : Stream) (instr : Instr) :
    (stream.emit instr).fronts = stream.fronts.step instr := by
  rw [fronts, emit, Array.toList_push, Fronts.run_append]
  rfl

theorem SameCode.fronts_eq {stream after : Stream} (h : stream.SameCode after) :
    after.fronts = stream.fronts := by rw [fronts, h.instrs, fronts]

/-- The live locals are those with an open range, and the ranges of one local cover only
instructions before which it has been stored. -/
structure Tabled (id : LocalId) (stream : Stream) : Prop where
  stops : ∀ range ∈ stream.ranges, ∀ stop ∈ range.stop, stop ≤ stream.position
  live : ∀ (other : LocalId) (index : Nat), stream.live[other]? = some index ↔
    ∃ range, stream.ranges[index]? = some range ∧ range.id = other ∧ range.stop = none
  stored : ∀ range ∈ stream.ranges, range.id = id → ∀ (position : Nat) instr,
    range.Contains position → stream.instrs[position]? = some instr → instr.placed? = none →
    ∀ history ∈ (Fronts.start.run (stream.instrs.toList.take position)).here, .stored id ∈ history

theorem tabled_new (id : LocalId) (tracking : Bool) : (Stream.new tracking).Tabled id where
  stops := nofun
  live other index := by simp [Stream.new]
  stored := nofun

/-! ## Which locals are live -/

section

variable {stream : Stream} {id other : LocalId} {slot : Nat}

theorem isLive_startRange (h : (stream.startRange id slot).isLive other = true) :
    other = id ∨ stream.isLive other = true := by
  rw [startRange] at h
  split at h
  next =>
    rw [isLive, Std.ExtTreeMap.contains_insert, Bool.or_eq_true, beq_iff_eq] at h
    exact h.imp_left fun heq => (Nat.compare_eq_eq.mp heq).symm
  next => exact Or.inr h

theorem isLive_closeRange (h : (stream.closeRange id).isLive other = true) :
    other ≠ id ∧ stream.isLive other = true := by
  rw [closeRange] at h
  split at h
  next =>
    rw [isLive, Std.ExtTreeMap.contains_erase, Bool.and_eq_true, bne_iff_ne] at h
    exact ⟨fun heq => h.1 (Nat.compare_eq_eq.mpr heq.symm), h.2⟩
  next hnone =>
    refine ⟨fun heq => ?_, h⟩
    rw [heq, isLive, Std.ExtTreeMap.contains_eq_isSome_getElem?, hnone] at h
    cases h

theorem isLive_foldl_closeRange : ∀ (ids : List LocalId) {stream : Stream},
    (ids.foldl closeRange stream).isLive other = true →
      other ∉ ids ∧ stream.isLive other = true := by
  intro ids
  induction ids with
  | nil => exact fun h => ⟨List.not_mem_nil, h⟩
  | cons id ids ih =>
    intro stream h
    obtain ⟨hrest, hlive⟩ := ih h
    obtain ⟨hne, hlive⟩ := isLive_closeRange hlive
    exact ⟨List.not_mem_cons_of_ne_of_not_mem hne hrest, hlive⟩

/-- What is left open is assigned in the state, if the state can be reached. -/
theorem isLive_closeUnassigned {states : Array FlowState} {index : StateIndex}
    (h : (stream.closeUnassigned states index).isLive id = true) :
    stream.isLive id = true ∧ ∀ state, states[index]? = some state → state.reachable = true →
      state.assigned.contains id = true := by
  rw [closeUnassigned] at h
  split at h
  next state hstate =>
    split at h
    next hreachable =>
      obtain ⟨hkept, hlive⟩ := isLive_foldl_closeRange _ h
      refine ⟨hlive, fun state' hstate' _ => ?_⟩
      obtain rfl := Option.some.inj (hstate.symm.trans hstate')
      by_contra hunassigned
      refine hkept (List.mem_filter.mpr ⟨Std.ExtTreeMap.mem_keys.mpr hlive, ?_⟩)
      simpa using hunassigned
    next hunreachable =>
      refine ⟨h, fun state' hstate' hreachable => ?_⟩
      obtain rfl := Option.some.inj (hstate.symm.trans hstate')
      exact absurd hreachable hunreachable
  next hnone =>
    refine ⟨h, fun state hstate => ?_⟩
    rw [hnone] at hstate
    cases hstate

theorem isLive_foldl {change : Stream → LocalId → Stream}
    (hchange : ∀ stream id, (change stream id).isLive other = true →
      other = id ∨ stream.isLive other = true) :
    ∀ (ids : List LocalId) {stream : Stream}, (ids.foldl change stream).isLive other = true →
      other ∈ ids ∨ stream.isLive other = true := by
  intro ids
  induction ids with
  | nil => exact fun h => Or.inr h
  | cons id ids ih =>
    intro stream h
    rcases ih h with hmem | hlive
    · exact Or.inl (List.mem_cons_of_mem _ hmem)
    · rcases hchange stream id hlive with rfl | hlive
      · exact Or.inl List.mem_cons_self
      · exact Or.inr hlive

/-- What is newly open is assigned in the state. -/
theorem isLive_openAssigned {states : Array FlowState} {index : StateIndex}
    (h : (stream.openAssigned states index).isLive id = true) :
    stream.isLive id = true ∨ ∃ state, states[index]? = some state ∧ state.Holds id := by
  rw [openAssigned] at h
  split at h
  next state hstate =>
    split at h
    next hreachable =>
      have hopened : id ∈ state.assigned.toList ∨ stream.isLive id = true := by
        refine isLive_foldl (fun stream other hlive => ?_) _ h
        split at hlive
        next => exact isLive_startRange hlive
        next => exact Or.inr hlive
      rcases hopened with hmem | hlive
      · exact Or.inr ⟨state, hstate, hreachable, LocalSet.mem_toList.mp hmem⟩
      · exact Or.inl hlive
    next => exact Or.inl h
  next => exact Or.inl h

end

/-! ## Keeping the table -/

namespace Tabled

variable {id : LocalId} {stream after : Stream}

/-- The table depends only on the instructions and the ranges. -/
theorem congr (h : stream.Tabled id) (hinstrs : after.instrs = stream.instrs)
    (hranges : after.ranges = stream.ranges) (hlive : after.live = stream.live) :
    after.Tabled id := by
  refine ⟨?_, ?_, ?_⟩
  · rw [hranges, position, hinstrs]
    exact h.stops
  · rw [hranges, hlive]
    exact h.live
  · rw [hranges, hinstrs]
    exact h.stored

/-- **When an instruction is emitted while the local is live, the local has to be stored.**  Where a
label is placed nothing is asked. -/
theorem emit (h : stream.Tabled id) {instr : Instr}
    (hstored : instr.placed? = none → stream.isLive id = true → stream.Stored id) :
    (stream.emit instr).Tabled id := by
  have hsize : (stream.emit instr).position = stream.position + 1 := Array.size_push _
  refine ⟨fun range hrange stop hstop => ?_, h.live, ?_⟩
  · exact (h.stops range hrange stop hstop).trans (hsize ▸ Nat.le_succ _)
  · intro range hrange hid position instr' hcontains hinstr hplaced
    rw [Stream.emit, Array.toList_push]
    rw [Stream.emit, Array.getElem?_push] at hinstr
    split at hinstr
    next heq =>
      -- A range that contains the new position is open, so its local is live.
      obtain rfl := Option.some.inj hinstr
      have hopen : range.stop = none := by
        rw [Option.eq_none_iff_forall_not_mem]
        intro stop hstop
        have hle := h.stops range hrange stop hstop
        have hlt := hcontains.2 stop hstop
        rw [heq] at hlt
        exact absurd hle hlt.not_ge
      obtain ⟨index, hindex⟩ := Array.mem_iff_getElem?.mp hrange
      have hlive : stream.isLive id = true := by
        rw [isLive, Std.ExtTreeMap.contains_eq_isSome_getElem?,
          (h.live id index).mpr ⟨range, hindex, hid, hopen⟩]
        rfl
      rw [heq, List.take_left' Array.length_toList]
      exact hstored hplaced hlive
    next =>
      have hle : position ≤ stream.instrs.toList.length := by
        rw [Array.length_toList]
        exact (Array.getElem?_eq_some_iff.mp hinstr).1.le
      rw [List.take_append_of_le_length hle]
      exact h.stored range hrange hid position instr' hcontains hinstr hplaced

theorem place (h : stream.Tabled id) (label : Label) : (stream.place label).Tabled id := by
  have hmarked : ({ stream with labels := stream.labels.setIfInBounds label true } :
      Stream).Tabled id := h.congr rfl rfl rfl
  exact hmarked.emit fun hplaced => by cases hplaced

theorem startRange (h : stream.Tabled id) (other : LocalId) (slot : Nat) :
    (stream.startRange other slot).Tabled id := by
  rw [Stream.startRange]
  split
  next hcan =>
    rw [canStart, Bool.and_eq_true, Bool.not_eq_true', isLive,
      Std.ExtTreeMap.contains_eq_isSome_getElem?, Option.isSome_eq_false_iff,
      Option.isNone_iff_eq_none] at hcan
    refine ⟨fun range hrange stop hstop => ?_, fun other' index => ?_, ?_⟩
    · rcases Array.mem_push.mp hrange with hrange | rfl
      · exact h.stops range hrange stop hstop
      · cases hstop
    · rw [Std.ExtTreeMap.getElem?_insert, Array.getElem?_push]
      by_cases heq : other = other'
      · rw [if_pos (Nat.compare_eq_eq.mpr heq), Option.some.injEq]
        constructor
        · rintro rfl
          exact ⟨_, if_pos rfl, heq, rfl⟩
        · rintro ⟨range, hrange, hid, hopen⟩
          split at hrange
          next hindex => exact hindex.symm
          next =>
            -- The local was not live, so no range of it was open.
            have hlive := (h.live other' index).mpr ⟨range, hrange, hid, hopen⟩
            rw [← heq, hcan.2] at hlive
            cases hlive
      · rw [if_neg fun hcompare => heq (Nat.compare_eq_eq.mp hcompare), h.live]
        constructor
        · rintro ⟨range, hrange, hrest⟩
          have hlt := (Array.getElem?_eq_some_iff.mp hrange).1
          exact ⟨range, by rwa [if_neg hlt.ne], hrest⟩
        · rintro ⟨range, hrange, hid, hopen⟩
          split at hrange
          next =>
            obtain rfl := Option.some.inj hrange
            exact absurd hid heq
          next => exact ⟨range, hrange, hid, hopen⟩
    · intro range hrange hid position instr hcontains hinstr
      rcases Array.mem_push.mp hrange with hrange | rfl
      · exact h.stored range hrange hid position instr hcontains hinstr
      · -- Nothing has been emitted since the new range was opened.
        exact absurd hcontains.1 (Array.getElem?_eq_some_iff.mp hinstr).1.not_ge
  next => exact h

theorem closeRange (h : stream.Tabled id) (other : LocalId) :
    (stream.closeRange other).Tabled id := by
  rw [Stream.closeRange]
  split
  next index hindex =>
    obtain ⟨range, hrange, hother, hopen⟩ := (h.live other index).mp hindex
    have hmodify : ∀ index' range', (stream.ranges.modify index fun range =>
        { range with stop := some stream.position })[index']? = some range' →
        index' = index ∧ range' = { range with stop := some stream.position } ∨
          index' ≠ index ∧ stream.ranges[index']? = some range' := by
      intro index' range' h'
      rw [Array.getElem?_modify] at h'
      split at h'
      next heq =>
        rw [← heq, hrange] at h'
        exact Or.inl ⟨heq.symm, (Option.some.inj h').symm⟩
      next hne => exact Or.inr ⟨Ne.symm hne, h'⟩
    refine ⟨fun range' hrange' stop hstop => ?_, fun other' index' => ?_, ?_⟩
    · obtain ⟨index', hindex'⟩ := Array.mem_iff_getElem?.mp hrange'
      rcases hmodify index' range' hindex' with ⟨-, rfl⟩ | ⟨-, hkept⟩
      · cases hstop
        exact le_rfl
      · exact h.stops range' (Array.mem_of_getElem? hkept) stop hstop
    · rw [Std.ExtTreeMap.getElem?_erase]
      by_cases heq : other = other'
      · rw [if_pos (Nat.compare_eq_eq.mpr heq)]
        constructor
        · intro hnone
          cases hnone
        · rintro ⟨range', hrange', hid, hopen'⟩
          rcases hmodify index' range' hrange' with ⟨-, rfl⟩ | ⟨hne, hkept⟩
          · cases hopen'
          · have hlive := (h.live other' index').mpr ⟨range', hkept, hid, hopen'⟩
            rw [← heq, hindex] at hlive
            exact absurd (Option.some.inj hlive).symm hne
      · rw [if_neg fun hcompare => heq (Nat.compare_eq_eq.mp hcompare), h.live]
        constructor
        · rintro ⟨range', hrange', hid, hopen'⟩
          refine ⟨range', ?_, hid, hopen'⟩
          rw [Array.getElem?_modify, if_neg ?_]
          · exact hrange'
          · rintro rfl
            obtain rfl := Option.some.inj (hrange.symm.trans hrange')
            exact heq (hother.symm.trans hid)
        · rintro ⟨range', hrange', hid, hopen'⟩
          rcases hmodify index' range' hrange' with ⟨-, rfl⟩ | ⟨-, hkept⟩
          · cases hopen'
          · exact ⟨range', hkept, hid, hopen'⟩
    · intro range' hrange' hid position instr hcontains hinstr
      obtain ⟨index', hindex'⟩ := Array.mem_iff_getElem?.mp hrange'
      rcases hmodify index' range' hindex' with ⟨-, rfl⟩ | ⟨-, hkept⟩
      · refine h.stored range (Array.mem_of_getElem? hrange) hid position instr ⟨hcontains.1, ?_⟩
          hinstr
        rw [hopen]
        exact fun _ hnone => by cases hnone
      · exact h.stored range' (Array.mem_of_getElem? hkept) hid position instr hcontains hinstr
  next => exact h

theorem foldl {α : Type} {change : Stream → α → Stream}
    (hchange : ∀ stream a, stream.Tabled id → (change stream a).Tabled id) :
    ∀ (as : List α) {stream : Stream}, stream.Tabled id → (as.foldl change stream).Tabled id
  | [], _, h => h
  | a :: as, _, h => foldl hchange as (hchange _ a h)

theorem closeUnassigned (h : stream.Tabled id) (states : Array FlowState) (index : StateIndex) :
    (stream.closeUnassigned states index).Tabled id := by
  rw [Stream.closeUnassigned]
  split
  next =>
    split
    next => exact foldl (fun _ other h => h.closeRange other) _ h
    next => exact h
  next => exact h

theorem openAssigned (h : stream.Tabled id) (states : Array FlowState) (index : StateIndex) :
    (stream.openAssigned states index).Tabled id := by
  rw [Stream.openAssigned]
  split
  next =>
    split
    next =>
      refine foldl (fun stream other h => ?_) _ h
      split
      next => exact h.startRange other _
      next => exact h
    next => exact h
  next => exact h

end Tabled

end Stream

end GuardedMatch
