import GuardedMatch.Code.Plan
import GuardedMatch.Proofs.Matching
import Mathlib.Data.List.Nodup
import Mathlib.Logic.Function.Basic

/-!
# Running emitted code

A machine runs a list of instructions.  It keeps what has been computed so far in cells, and
it gets stuck when it reads a cell that holds nothing.  A jump goes to the place of its label;
a label that has no place in the code is a way out of the code, and the end of the code is another
one.

What a piece of code does is said where it is embedded in some larger code: from its first
instruction the larger code runs just as it does from a target or from the end of the piece.

* `Step.deterministic`, `Runs.deterministic`: the machine leaves the code in one way at most.
* `Goes`: how the code runs from a position.
-/

namespace GuardedMatch

/-- The label that an instruction places. -/
def Instr.placed? : Instr → Option Label
  | .placeLabel label => some label
  | _ => none

/-- The labels that code places, in order. -/
def placedLabels (code : List Instr) : List Label := code.filterMap Instr.placed?

@[simp]
theorem placedLabels_nil : placedLabels [] = [] := rfl

@[simp]
theorem placedLabels_append (code rest : List Instr) :
    placedLabels (code ++ rest) = placedLabels code ++ placedLabels rest :=
  List.filterMap_append

@[simp]
theorem placedLabels_placeLabel (label : Label) (code : List Instr) :
    placedLabels (.placeLabel label :: code) = label :: placedLabels code := rfl

theorem mem_placedLabels {code : List Instr} {label : Label} :
    label ∈ placedLabels code ↔ .placeLabel label ∈ code := by
  rw [placedLabels, List.mem_filterMap]
  constructor
  · rintro ⟨instr, hinstr, hplaced⟩
    cases instr <;> simp_all [Instr.placed?]
  · exact fun h => ⟨_, h, rfl⟩

/-- A label that is placed once is found where it is placed. -/
theorem idxOf?_placeLabel {code : List Instr} {position : Nat} {label : Label}
    (hnodup : (placedLabels code).Nodup) (h : code[position]? = some (.placeLabel label)) :
    code.idxOf? (.placeLabel label) = some position := by
  obtain ⟨hlt, hget⟩ := List.getElem?_eq_some_iff.mp h
  refine List.findIdx?_eq_some_iff_getElem.mpr ⟨hlt, by simp [hget], fun other hother hsame => ?_⟩
  have hpair := List.pairwise_iff_getElem.mp (List.pairwise_filterMap.mp hnodup) other position
    (hother.trans hlt) hlt hother
  rw [beq_iff_eq] at hsame
  rw [hsame, hget] at hpair
  exact hpair label rfl label rfl rfl

namespace Machine

/-- What is held under the number of a value. -/
structure Cell (Value : Type) where
  value : Value
  /-- Whether it counts as true, if it is an operand. -/
  truth : Option Bool

/-- The cells that hold something. -/
abbrev Cells (Value : Type) := ValueId → Option (Cell Value)

/-- What the machine does next. -/
inductive Progress (Value : Type)
  | next (position : Nat) (cells : Cells Value)
  /-- Leave the code to a label, or at its end. -/
  | leave (exit : Option Label)

section

variable {pool : Pool} {model : ValueModel pool}

def jump (code : List Instr) (label : Label) (cells : Cells model.Value) :
    Progress model.Value :=
  match code.idxOf? (.placeLabel label) with
  | some position => .next position cells
  | none => .leave (some label)

/-- One step of the machine. -/
inductive Step (env : Env model) (code : List Instr) (position : Nat)
    (cells : Cells model.Value) : Progress model.Value → Prop
  | finish (h : code[position]? = none) : Step env code position cells (.leave none)
  | placeLabel {label : Label} (h : code[position]? = some (.placeLabel label)) :
      Step env code position cells (.next (position + 1) cells)
  | goto {label : Label} (h : code[position]? = some (.goto label)) :
      Step env code position cells (jump code label cells)
  | pass {value : ValueId} {ty : Ty} {onFail : Label} {cell : Cell model.Value}
      (h : code[position]? = some (.testType value ty onFail)) (hcell : cells value = some cell)
      (hinst : model.inst cell.value ty) : Step env code position cells (.next (position + 1) cells)
  | fail {value : ValueId} {ty : Ty} {onFail : Label} {cell : Cell model.Value}
      (h : code[position]? = some (.testType value ty onFail)) (hcell : cells value = some cell)
      (hinst : ¬ model.inst cell.value ty) :
      Step env code position cells (jump code onFail cells)
  | project {dest record : ValueId} {component : Nat} {cell : Cell model.Value}
      (h : code[position]? = some (.project dest record component))
      (hcell : cells record = some cell) :
      Step env code position cells (.next (position + 1)
        (Function.update cells dest (some ⟨model.proj cell.value component, none⟩)))
  | storeLocal {id : LocalId} {slot : Nat} {value : ValueId} {cell : Cell model.Value}
      (h : code[position]? = some (.storeLocal id slot value)) (hcell : cells value = some cell) :
      Step env code position cells (.next (position + 1) cells)
  | evalOperand {dest : ValueId} {expr : ExprId}
      (h : code[position]? = some (.evalOperand dest expr)) :
      Step env code position cells (.next (position + 1)
        (Function.update cells dest (some ⟨env.operand expr, some (env.truth expr)⟩)))
  | branch {value : ValueId} {outcome : Bool} {target : Label} {cell : Cell model.Value}
      (h : code[position]? = some (.branchIf value outcome target))
      (hcell : cells value = some cell) (htruth : cell.truth = some outcome) :
      Step env code position cells (jump code target cells)
  | stay {value : ValueId} {outcome : Bool} {target : Label} {cell : Cell model.Value}
      (h : code[position]? = some (.branchIf value outcome target))
      (hcell : cells value = some cell) (htruth : cell.truth = some !outcome) :
      Step env code position cells (.next (position + 1) cells)

/-- Running the code from a position leaves it through an exit. -/
inductive Runs (env : Env model) (code : List Instr) :
    Nat → Cells model.Value → Option Label → Prop
  | leave {position : Nat} {cells : Cells model.Value} {exit : Option Label}
      (h : Step env code position cells (.leave exit)) : Runs env code position cells exit
  | next {position after : Nat} {cells cells' : Cells model.Value} {exit : Option Label}
      (h : Step env code position cells (.next after cells'))
      (hrest : Runs env code after cells' exit) : Runs env code position cells exit

variable {env : Env model} {code : List Instr} {position : Nat} {cells : Cells model.Value}

theorem Step.deterministic {progress progress' : Progress model.Value}
    (h : Step env code position cells progress) (h' : Step env code position cells progress') :
    progress = progress' := by
  cases h <;> cases h' <;> simp_all

theorem Runs.deterministic {exit exit' : Option Label} (h : Runs env code position cells exit)
    (h' : Runs env code position cells exit') : exit = exit' := by
  induction h with
  | leave hstep =>
    cases h' with
    | leave hstep' => exact Progress.leave.inj (hstep.deterministic hstep')
    | next hstep' => exact nomatch hstep.deterministic hstep'
  | next hstep _ ih =>
    cases h' with
    | leave hstep' => exact nomatch hstep.deterministic hstep'
    | next hstep' hrest' =>
      obtain ⟨rfl, rfl⟩ := Progress.next.inj (hstep.deterministic hstep')
      exact ih hrest'

/-! ## Where control goes -/

/-- Going on after a step leaves the code through an exit. -/
def Continues (env : Env model) (code : List Instr) (progress : Progress model.Value)
    (exit : Option Label) : Prop :=
  match progress with
  | .next position cells => Runs env code position cells exit
  | .leave out => exit = out

/-- Jumping to a label leaves the code through an exit. -/
def Lands (env : Env model) (code : List Instr) (label : Label) (cells : Cells model.Value)
    (exit : Option Label) : Prop := Continues env code (jump code label cells) exit

/-- Going to a target, or to a position if there is none, leaves the code through an exit. -/
def Leaves (env : Env model) (code : List Instr) (stop : Nat) (target : Option Label)
    (cells : Cells model.Value) (exit : Option Label) : Prop :=
  match target with
  | some label => Lands env code label cells exit
  | none => Runs env code stop cells exit

theorem runs_iff {progress : Progress model.Value} {exit : Option Label}
    (h : Step env code position cells progress) :
    Runs env code position cells exit ↔ Continues env code progress exit := by
  constructor
  · intro hruns
    cases hruns with
    | leave hstep =>
      rw [h.deterministic hstep]
      exact rfl
    | next hstep hrest =>
      rw [h.deterministic hstep]
      exact hrest
  · intro hcontinues
    cases progress with
    | next => exact .next h hcontinues
    | leave =>
      rw [Continues] at hcontinues
      exact hcontinues ▸ .leave h

theorem runs_end {exit : Option Label} (h : code.length ≤ position) :
    Runs env code position cells exit ↔ exit = none :=
  runs_iff (.finish (List.getElem?_eq_none h))

/-- A label that is placed once is landed on where it is placed. -/
theorem lands_iff_runs {label : Label} {exit : Option Label} (hnodup : (placedLabels code).Nodup)
    (h : code[position]? = some (.placeLabel label)) :
    Lands env code label cells exit ↔ Runs env code position cells exit := by
  rw [Lands, jump, idxOf?_placeLabel hnodup h, Continues]

theorem lands_iff_eq {label : Label} {exit : Option Label} (h : label ∉ placedLabels code) :
    Lands env code label cells exit ↔ exit = some label := by
  have hidx : code.idxOf? (.placeLabel label) = none := by
    rw [List.idxOf?_eq_none_iff]
    exact fun hmem => h (mem_placedLabels.mpr hmem)
  rw [Lands, jump, hidx, Continues]

/-! ## Pieces of code -/

/-- The piece of code stands at a position of the code. -/
def Embeds (code : List Instr) (position : Nat) (piece : List Instr) : Prop :=
  ∀ offset instr, piece[offset]? = some instr → code[position + offset]? = some instr

theorem embeds_self (code : List Instr) : Embeds code 0 code := by
  intro offset instr h
  rwa [Nat.zero_add]

theorem embeds_append {piece rest : List Instr} :
    Embeds code position (piece ++ rest) ↔
      Embeds code position piece ∧ Embeds code (position + piece.length) rest := by
  constructor
  · intro h
    refine ⟨fun offset instr hinstr => h offset instr ?_, fun offset instr hinstr => ?_⟩
    · rw [List.getElem?_append_left (List.getElem?_eq_some_iff.mp hinstr).1, hinstr]
    · rw [Nat.add_assoc]
      refine h _ instr ?_
      rw [List.getElem?_append_right (Nat.le_add_right ..), Nat.add_sub_cancel_left, hinstr]
  · rintro ⟨hpiece, hrest⟩ offset instr hinstr
    rw [List.getElem?_append] at hinstr
    split at hinstr
    next => exact hpiece offset instr hinstr
    next hle =>
      have := hrest _ instr hinstr
      rwa [Nat.add_assoc, Nat.add_sub_cancel' (Nat.le_of_not_lt hle)] at this

theorem embeds_cons {instr : Instr} {rest : List Instr} :
    Embeds code position (instr :: rest) ↔
      code[position]? = some instr ∧ Embeds code (position + 1) rest := by
  rw [← List.singleton_append, embeds_append]
  refine and_congr_left fun _ => ⟨fun h => h 0 instr rfl, fun h offset other hother => ?_⟩
  cases offset with
  | zero => rwa [← Option.some.inj hother]
  | succ => simp at hother

/-- From a position the code runs as it does from a target, or from `stop` if there is none. -/
def Goes (env : Env model) (code : List Instr) (position : Nat) (cells : Cells model.Value)
    (stop : Nat) (target : Option Label) (cells' : Cells model.Value) : Prop :=
  ∀ exit, Runs env code position cells exit ↔ Leaves env code stop target cells' exit

namespace Goes

variable {stop : Nat} {target : Option Label} {cells' : Cells model.Value}

theorem refl : Goes env code position cells position none cells := fun _ => Iff.rfl

theorem trans {mid : Nat} {between : Cells model.Value}
    (h : Goes env code position cells mid none between)
    (h' : Goes env code mid between stop target cells') :
    Goes env code position cells stop target cells' := fun exit => (h exit).trans (h' exit)

theorem single {after : Nat} (hstep : Step env code position cells (.next after cells')) :
    Goes env code position cells after none cells' := fun _ => runs_iff hstep

theorem jump {label : Label} (hstep : Step env code position cells (jump code label cells)) :
    Goes env code position cells stop (some label) cells := fun _ => runs_iff hstep

/-- A target that is placed once is as good as going on where it is placed. -/
theorem land {label : Label} {place : Nat}
    (h : Goes env code position cells stop (some label) cells')
    (hnodup : (placedLabels code).Nodup) (hplace : code[place]? = some (.placeLabel label)) :
    Goes env code position cells place none cells' :=
  fun exit => (h exit).trans (lands_iff_runs hnodup hplace)

end Goes

/-- The code that goes to a target. -/
def jumpCode : Option Label → List Instr
  | some label => [.goto label]
  | none => []

theorem goes_jumpCode {target : Option Label} (h : Embeds code position (jumpCode target)) :
    Goes env code position cells (position + (jumpCode target).length) target cells := by
  cases target with
  | none => exact .refl
  | some label => exact .jump (.goto (embeds_cons.mp h).1)

/-- The code that branches on a truth value. -/
def branchCode (id : ValueId) (targets : Targets) : List Instr :=
  match targets.whenTrue, targets.whenFalse with
  | some t, some f => [.branchIf id true t, .goto f]
  | some t, none => [.branchIf id true t]
  | none, some f => [.branchIf id false f]
  | none, none => []

theorem goes_branchCode {id : ValueId} {cell : Cell model.Value} {outcome : Bool}
    (hcell : cells id = some cell) (htruth : cell.truth = some outcome) (targets : Targets)
    (h : Embeds code position (branchCode id targets)) :
    Goes env code position cells (position + (branchCode id targets).length)
      (if outcome then targets.whenTrue else targets.whenFalse) cells := by
  match targets with
  | ⟨some t, some f⟩ =>
    obtain ⟨hbranch, hgoto, -⟩ := (embeds_cons.mp h).imp_right embeds_cons.mp
    cases outcome with
    | true => exact .jump (.branch hbranch hcell htruth)
    | false => exact (Goes.single (.stay hbranch hcell htruth)).trans (.jump (.goto hgoto))
  | ⟨some t, none⟩ =>
    have hbranch := (embeds_cons.mp h).1
    cases outcome with
    | true => exact .jump (.branch hbranch hcell htruth)
    | false => exact .single (.stay hbranch hcell htruth)
  | ⟨none, some f⟩ =>
    have hbranch := (embeds_cons.mp h).1
    cases outcome with
    | true => exact .single (.stay hbranch hcell htruth)
    | false => exact .jump (.branch hbranch hcell htruth)
  | ⟨none, none⟩ => cases outcome <;> exact .refl

end

end Machine

end GuardedMatch
