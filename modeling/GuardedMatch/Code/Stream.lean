import GuardedMatch.Fault
import GuardedMatch.Flow.State
import GuardedMatch.Types.Basic

/-!
# Emitted code

Code is a list of instructions over symbolic labels.  A stream collects instructions, hands out
labels, values and slots, and keeps the table of local ranges: for each stretch of instructions
in which a local holds a value, the local, its slot and where the stretch starts and ends.  A
local is live while it has an open range.

When control leaves a pattern, the open ranges are brought into line with a recorded flow
state: locals that are not assigned there are closed, locals that are assigned and have a slot
are opened.
-/

namespace GuardedMatch

inductive Instr
  | placeLabel (label : Label)
  | goto (label : Label)
  /-- Jump to `onFail` unless the value has the type. -/
  | testType (value : ValueId) (ty : Ty) (onFail : Label)
  /-- Read a component of a record. -/
  | project (dest record : ValueId) (component : Nat)
  | storeLocal (id : LocalId) (slot : Nat) (value : ValueId)
  /-- Evaluate an expression. -/
  | evalOperand (dest : ValueId) (expr : ExprId)
  /-- Jump to the target if the value is the given truth value. -/
  | branchIf (value : ValueId) (outcome : Bool) (target : Label)
deriving DecidableEq

/-- A stretch of instructions in which a local is live; it is open as long as it has no stop. -/
structure LocalRange where
  id : LocalId
  slot : Nat
  start : Nat
  stop : Option Nat
deriving DecidableEq

/-- The code of a unit. -/
structure Code where
  instrs : Array Instr
  ranges : Array LocalRange
  slotCount : Nat

structure Stream where
  instrs : Array Instr
  /-- For each label handed out, whether it has been placed. -/
  labels : Array Bool
  valueCount : Nat
  /-- The slots of the locals that have one, numbered as they came. -/
  slots : IdMap Nat
  ranges : Array LocalRange
  /-- For each live local, the position of its open range. -/
  live : IdMap Nat
  /-- Whether ranges are kept at all. -/
  tracking : Bool

namespace Stream

def new (tracking : Bool) : Stream := ⟨#[], #[], 0, ∅, #[], ∅, tracking⟩

/-- The position of the next instruction. -/
def position (stream : Stream) : Nat := stream.instrs.size

def newLabel (stream : Stream) : Label × Stream :=
  let label := stream.labels.size
  (label, { stream with labels := stream.labels.push false })

def newValue (stream : Stream) : ValueId × Stream :=
  (stream.valueCount, { stream with valueCount := stream.valueCount + 1 })

def emit (stream : Stream) (instr : Instr) : Stream :=
  { stream with instrs := stream.instrs.push instr }

/-- Why a label cannot be placed.  It can be placed once, after it was handed out. -/
def placeFault? (stream : Stream) (label : Label) : Option Fault :=
  match stream.labels[label]? with
  | none => some (.unknownLabel label)
  | some true => some (.labelPlacedTwice label)
  | some false => none

/-- Place a label here. -/
def place (stream : Stream) (label : Label) : Stream :=
  { stream with labels := stream.labels.setIfInBounds label true }.emit (.placeLabel label)

/-! ## Locals -/

/-- Slots are numbered below this. -/
def slotLimit : Nat := 65535

def isDeclared (stream : Stream) (id : LocalId) : Bool := stream.slots.contains id

/-- Why a local cannot have a slot: it has none yet, and there is none left. -/
def declareFault? (stream : Stream) (id : LocalId) : Option Fault :=
  if stream.isDeclared id || stream.slots.size < slotLimit then none else some .slotsExhausted

/-- The slot of a local, which is the next one if it has none yet. -/
def declare (stream : Stream) (id : LocalId) : Nat × Stream :=
  match stream.slots[id]? with
  | some slot => (slot, stream)
  | none =>
    let slot := stream.slots.size
    (slot, { stream with slots := stream.slots.insert id slot })

def isLive (stream : Stream) (id : LocalId) : Bool := stream.live.contains id

/-- The live locals in ascending order. -/
def liveLocals (stream : Stream) : List LocalId := stream.live.keys

/-- Whether a range can be started for a local: ranges are kept, and it is not live. -/
def canStart (stream : Stream) (id : LocalId) : Bool := stream.tracking && !stream.isLive id

/-- Start a range for a local with a slot, if one can be started. -/
def startRange (stream : Stream) (id : LocalId) (slot : Nat) : Stream :=
  if stream.canStart id then
    let start := stream.position
    let index := stream.ranges.size
    { stream with
      ranges := stream.ranges.push ⟨id, slot, start, none⟩
      live := stream.live.insert id index }
  else stream

/-- Declare a local and start a range for it, if one can be started. -/
def openRange (stream : Stream) (id : LocalId) : Stream :=
  if stream.canStart id then
    let (slot, declared) := stream.declare id
    declared.startRange id slot
  else stream

/-- End the range of a local. -/
def closeRange (stream : Stream) (id : LocalId) : Stream :=
  match stream.live[id]? with
  | some index =>
    let stop := stream.position
    { stream with
      live := stream.live.erase id
      ranges := stream.ranges.modify index fun range => { range with stop := some stop } }
  | none => stream

/-- Close what is not assigned in a state.  A state that cannot be reached says nothing. -/
def closeUnassigned (stream : Stream) (states : Array FlowState) (index : StateIndex) : Stream :=
  match states[index]? with
  | some state =>
    if state.reachable then
      (stream.liveLocals.filter fun id => !state.assigned.contains id).foldl closeRange stream
    else stream
  | none => stream

/-- Open what is assigned in a state and has a slot. -/
def openAssigned (stream : Stream) (states : Array FlowState) (index : StateIndex) : Stream :=
  match states[index]? with
  | some state =>
    if state.reachable then
      state.assigned.toList.foldl (fun stream id =>
        match stream.slots[id]? with
        | some slot => stream.startRange id slot
        | none => stream) stream
    else stream
  | none => stream

/-- Declare a local, store a value in its slot and open its range. -/
def store (stream : Stream) (id : LocalId) (value : ValueId) : Stream :=
  let (slot, declared) := stream.declare id
  (declared.emit (.storeLocal id slot value)).startRange id slot

def finish (stream : Stream) : Code := ⟨stream.instrs, stream.ranges, stream.slots.size⟩

end Stream

end GuardedMatch
