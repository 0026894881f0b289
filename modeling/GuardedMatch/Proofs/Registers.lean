import GuardedMatch.Flow.State
import Mathlib.Data.Finset.Sort

/-!
# Sets of locals are finite sets

A set of locals is a finite set of numbers, whatever was done to it: inserting and removing, meeting
and joining another set, collecting a list and copying.  Words and finite sets are run beside each
other, and it does not matter how many words are stored.

* `SetKit.run_related`: what every operation keeps, a run keeps.
* `registers_exact`: sets of locals answer as finite sets do after any operations.
-/

namespace GuardedMatch

/-! ## Operations on registers -/

/-- One way to do what can be done to sets of numbers. -/
structure SetKit (σ : Type) where
  empty : σ
  insert : σ → Nat → σ
  erase : σ → Nat → σ
  inter : σ → σ → σ
  union : σ → σ → σ

/-- An operation on numbered registers, each of which holds a set. -/
inductive SetCommand
  | insert (target id : Nat)
  | erase (target id : Nat)
  | inter (target source : Nat)
  | union (target source : Nat)
  | collect (target : Nat) (ids : List Nat)
  | copy (target source : Nat)

namespace SetKit

variable {σ τ : Type}

def perform (kit : SetKit σ) (registers : Nat → σ) : SetCommand → Nat → σ
  | .insert target id => Function.update registers target (kit.insert (registers target) id)
  | .erase target id => Function.update registers target (kit.erase (registers target) id)
  | .inter target source =>
    Function.update registers target (kit.inter (registers target) (registers source))
  | .union target source =>
    Function.update registers target (kit.union (registers target) (registers source))
  | .collect target ids => Function.update registers target (ids.foldl kit.insert kit.empty)
  | .copy target source => Function.update registers target (registers source)

/-- What the registers hold in the end, when they are empty at first. -/
def run (kit : SetKit σ) (commands : List SetCommand) : Nat → σ :=
  commands.foldl kit.perform fun _ => kit.empty

/-- A relation between two kinds of sets that every operation keeps. -/
structure Keeps (kit : SetKit σ) (kit' : SetKit τ) (related : σ → τ → Prop) : Prop where
  empty : related kit.empty kit'.empty
  insert : ∀ {set set'} id, related set set' → related (kit.insert set id) (kit'.insert set' id)
  erase : ∀ {set set'} id, related set set' → related (kit.erase set id) (kit'.erase set' id)
  inter : ∀ {set set' other other'}, related set set' → related other other' →
    related (kit.inter set other) (kit'.inter set' other')
  union : ∀ {set set' other other'}, related set set' → related other other' →
    related (kit.union set other) (kit'.union set' other')

variable {kit : SetKit σ} {kit' : SetKit τ} {related : σ → τ → Prop}

theorem Keeps.perform (h : kit.Keeps kit' related) {registers : Nat → σ} {registers' : Nat → τ}
    (hall : ∀ r, related (registers r) (registers' r)) (command : SetCommand) (r : Nat) :
    related (kit.perform registers command r) (kit'.perform registers' command r) := by
  have update : ∀ {target : Nat} {set : σ} {set' : τ}, related set set' →
      related (Function.update registers target set r)
        (Function.update registers' target set' r) := by
    intro target set set' hset
    rw [Function.update_apply, Function.update_apply]
    split
    next => exact hset
    next => exact hall r
  cases command with
  | insert target id => exact update (h.insert id (hall target))
  | erase target id => exact update (h.erase id (hall target))
  | inter target source => exact update (h.inter (hall target) (hall source))
  | union target source => exact update (h.union (hall target) (hall source))
  | collect target ids =>
    exact update (List.foldl_rel h.empty fun id _ _ _ hset => h.insert id hset)
  | copy target source => exact update (hall source)

theorem run_related (h : kit.Keeps kit' related) (commands : List SetCommand) (r : Nat) :
    related (kit.run commands r) (kit'.run commands r) :=
  List.foldl_rel (r := fun (registers : Nat → σ) (registers' : Nat → τ) =>
    ∀ r, related (registers r) (registers' r)) (fun _ => h.empty)
    (fun command _ _ _ hall => h.perform hall command) r

end SetKit

/-- Finite sets of numbers. -/
def finiteSets : SetKit (Finset Nat) where
  empty := ∅
  insert set id := insert id set
  erase := Finset.erase
  inter set other := set ∩ other
  union set other := set ∪ other

/-- Sets of locals. -/
def LocalSet.kit : SetKit LocalSet :=
  ⟨LocalSet.empty, LocalSet.insert, LocalSet.erase, LocalSet.inter, LocalSet.union⟩

/-- A set of locals contains what the finite set has, after any operations. -/
theorem LocalSet.contains_run (commands : List SetCommand) (r id : Nat) :
    (kit.run commands r).contains id = true ↔ id ∈ finiteSets.run commands r := by
  have hkeeps : kit.Keeps finiteSets fun set members =>
      ∀ id, set.contains id = true ↔ id ∈ members := by
    refine ⟨?_, ?_, ?_, ?_, ?_⟩
    · simp [kit, finiteSets]
    · intro set members id hset other
      simp [kit, finiteSets, hset, @eq_comm _ id]
    · intro set members id hset other
      simp [kit, finiteSets, hset, @eq_comm _ id]
    · intro set members other others hset hother id
      simp [kit, finiteSets, hset, hother]
    · intro set members other others hset hother id
      simp [kit, finiteSets, hset, hother]
  exact SetKit.run_related hkeeps commands r id

/-- The number of members is that of the finite set with the same members. -/
theorem LocalSet.size_eq_card {set : LocalSet} {members : Finset Nat}
    (h : ∀ id, set.contains id = true ↔ id ∈ members) : set.size = members.card := by
  have hnodup : set.toList.Nodup := set.pairwise_toList.imp ne_of_lt
  have hmembers : set.toList.toFinset = members := by
    ext id
    rw [List.mem_toFinset, mem_toList, h]
  rw [← hmembers, List.toFinset_card_of_nodup hnodup, size_eq]

/-- **Sets of locals are finite sets.**  After any operations on registers, sets of locals answer as
finite sets do: what they contain, their members in ascending order, how many there are, and whether
one is a subset of another, however many words they have.  So where two paths meet, just those
locals are assigned that are assigned on both, and on a path that cannot be reached all are. -/
theorem registers_exact (commands : List SetCommand) :
    (∀ r, let set := LocalSet.kit.run commands r
      let members := finiteSets.run commands r
      (∀ id, set.contains id = true ↔ id ∈ members) ∧ (∀ id, id ∈ set.toList ↔ id ∈ members) ∧
        set.toList.Pairwise (· < ·) ∧ set.size = members.card ∧
        ∀ q, set.isSubset (LocalSet.kit.run commands q) = true ↔
          members ⊆ finiteSets.run commands q) ∧
    ∀ (state other : FlowState) (id : LocalId), (state.merge other).isAssigned id = true ↔
      (state.reachable = false ∨ state.assigned.contains id = true) ∧
        (other.reachable = false ∨ other.assigned.contains id = true) := by
  have hcontains := LocalSet.contains_run commands
  refine ⟨fun r => ⟨hcontains r, fun id => ?_, LocalSet.pairwise_toList _,
    LocalSet.size_eq_card (hcontains r), fun q => ?_⟩, fun state other id => ?_⟩
  · rw [LocalSet.mem_toList, hcontains]
  · simp only [LocalSet.isSubset_iff, Finset.subset_iff, hcontains]
  · rw [FlowState.isAssigned_merge]
    simp [FlowState.isAssigned]

end GuardedMatch
