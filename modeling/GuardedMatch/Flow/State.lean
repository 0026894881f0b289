import GuardedMatch.Flow.LocalSet
import GuardedMatch.Index

/-!
# Flow states

A flow state says which locals are definitely assigned at a point of the program, and whether
the point can be reached at all.  At a point that cannot be reached every local counts as
assigned, so such a state is neutral when two paths meet.

After a condition there may be two states, one for each outcome: the flow is split.
-/

namespace GuardedMatch

structure FlowState where
  assigned : LocalSet
  reachable : Bool
deriving DecidableEq

namespace FlowState

def reached (assigned : LocalSet) : FlowState := ⟨assigned, true⟩

def unreachable : FlowState := ⟨LocalSet.empty, false⟩

def isAssigned (state : FlowState) (id : LocalId) : Bool :=
  !state.reachable || state.assigned.contains id

def assign (state : FlowState) (id : LocalId) : FlowState :=
  { state with assigned := state.assigned.insert id }

/-- The state where two paths meet. -/
def merge (state other : FlowState) : FlowState :=
  if !state.reachable then other
  else if !other.reachable then state
  else reached (state.assigned.inter other.assigned)

end FlowState

inductive Flow
  | plain (state : FlowState)
  /-- The states after a condition that came out true and after one that came out false. -/
  | split (whenTrue whenFalse : FlowState)
deriving DecidableEq

namespace Flow

/-- A reachable point at which the given locals are assigned. -/
def initial (locals : List LocalId) : Flow := plain (FlowState.reached (LocalSet.ofList locals))

def dead : Flow := plain FlowState.unreachable

def whenTrue : Flow → FlowState
  | plain state => state
  | split state _ => state

def whenFalse : Flow → FlowState
  | plain state => state
  | split _ state => state

/-- The state when the outcome is not known. -/
def joined : Flow → FlowState
  | plain state => state
  | split t f => t.merge f

/-- Go on only where the condition came out true. -/
def assumeTrue (flow : Flow) : Flow := plain flow.whenTrue

/-- Forget the outcome. -/
def join (flow : Flow) : Flow := plain flow.joined

/-- Exchange the outcomes. -/
def swap : Flow → Flow
  | plain state => plain state
  | split t f => split f t

def merge (flow other : Flow) : Flow := plain (flow.joined.merge other.joined)

def isReachable : Flow → Bool
  | plain state => state.reachable
  | split t f => t.reachable || f.reachable

def isAssigned (flow : Flow) (id : LocalId) : Bool := flow.joined.isAssigned id

def assign (flow : Flow) (id : LocalId) : Flow :=
  match flow with
  | plain state => plain (state.assign id)
  | split t f => split (t.assign id) (f.assign id)

end Flow

/-! ## What is assigned -/

namespace FlowState

@[simp]
theorem isAssigned_assign (state : FlowState) (id other : LocalId) :
    (state.assign id).isAssigned other = (decide (id = other) || state.isAssigned other) := by
  rw [isAssigned, assign, LocalSet.contains_insert, isAssigned, Bool.or_left_comm]

/-- Where two paths meet, what is assigned on both is assigned. -/
@[simp]
theorem isAssigned_merge (state other : FlowState) (id : LocalId) :
    (state.merge other).isAssigned id = (state.isAssigned id && other.isAssigned id) := by
  rcases state with ⟨assigned, _ | _⟩ <;> rcases other with ⟨assigned', _ | _⟩ <;>
    simp [merge, isAssigned, reached]

end FlowState

namespace Flow

/-- The state after a condition that came out as `outcome`. -/
def half (flow : Flow) (outcome : Bool) : FlowState :=
  if outcome then flow.whenTrue else flow.whenFalse

theorem half_swap (flow : Flow) (outcome : Bool) : flow.swap.half outcome = flow.half !outcome := by
  cases flow <;> cases outcome <;> rfl

/-- A local is assigned if it is assigned on both sides of a split. -/
theorem isAssigned_iff {flow : Flow} {id : LocalId} :
    flow.isAssigned id = true ↔ ∀ outcome, (flow.half outcome).isAssigned id = true := by
  rw [Bool.forall_bool]
  cases flow with
  | plain state => exact and_self_iff.symm
  | split t f =>
    rw [isAssigned, joined, FlowState.isAssigned_merge, Bool.and_eq_true]
    exact and_comm

theorem isAssigned_assign {flow : Flow} {binding id : LocalId} :
    (flow.assign binding).isAssigned id = true ↔ binding = id ∨ flow.isAssigned id = true := by
  cases flow with
  | plain state => simp [isAssigned, joined, assign]
  | split t f => simp [isAssigned, joined, assign, or_and_left]

theorem isAssigned_initial {locals : List LocalId} {id : LocalId} :
    (initial locals).isAssigned id = true ↔ id ∈ locals := LocalSet.contains_ofList

end Flow

/-- The states recorded for a pattern.  When its code is left by a failure, what is assigned in
the state `suspend` stays assigned; after it has matched, what is assigned in `resume`.  Both are
there for every pattern: only a guard on nothing would have no state to suspend to, and to analyse
one is a fault. -/
structure Snapshot where
  suspend : StateIndex
  resume : StateIndex
deriving DecidableEq

/-- The states recorded along the way, and the snapshots of patterns among them. -/
structure FlowRecord where
  states : Array FlowState
  snapshots : IdMap Snapshot

namespace FlowRecord

def empty : FlowRecord := ⟨#[], ∅⟩

/-- Record where a flow stands; the new state has the next index. -/
def push (record : FlowRecord) (flow : Flow) : FlowRecord :=
  { record with states := record.states.push flow.joined }

def setSnapshot (record : FlowRecord) (id : PatternId) (snapshot : Snapshot) : FlowRecord :=
  { record with snapshots := record.snapshots.insert id snapshot }

end FlowRecord

end GuardedMatch
