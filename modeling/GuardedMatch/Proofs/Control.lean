import GuardedMatch.Proofs.Machine
import Mathlib.Data.Set.Insert

/-!
# Paths through emitted code

A path takes tests and branches either way, so it is there whatever the values are.  If labels are
placed once, and after all jumps to them, every path goes forward.  Then one pass over the code
finds all that can have happened before each instruction: the fronts of the pass are the histories
with which control comes to the next instruction, and those with which it is under way to a label.

* `Forward.lt_of_edge`, `Forward.wellFounded_step`: control only goes forward, so every run ends.
* `Forward.mem_entering`, `Forward.mem_run`: what happened on a path is among the fronts.
-/

namespace GuardedMatch

namespace Instr

/-- The label that an instruction may jump to. -/
def target? : Instr → Option Label
  | goto label | testType _ _ label | branchIf _ _ label => some label
  | placeLabel _ | project .. | storeLocal .. | evalOperand .. => none

/-- Whether control may go on after the instruction. -/
def continues : Instr → Bool
  | goto _ => false
  | _ => true

/-- The value that an instruction computes. -/
def dest? : Instr → Option ValueId
  | project dest _ _ | evalOperand dest _ => some dest
  | placeLabel _ | goto _ | testType .. | storeLocal .. | branchIf .. => none

end Instr

/-- The values that code computes, in order. -/
def destinations (code : List Instr) : List ValueId := code.filterMap Instr.dest?

@[simp]
theorem destinations_append (code rest : List Instr) :
    destinations (code ++ rest) = destinations code ++ destinations rest := List.filterMap_append

theorem eq_of_placed_once {code : List Instr} (hnodup : (placedLabels code).Nodup) {label : Label}
    {position other : Nat} (h : code[position]? = some (.placeLabel label))
    (hother : code[other]? = some (.placeLabel label)) : position = other := by
  have hpairs := List.pairwise_iff_getElem.mp (List.pairwise_filterMap.mp hnodup)
  obtain ⟨hlt, hget⟩ := List.getElem?_eq_some_iff.mp h
  obtain ⟨hlt', hget'⟩ := List.getElem?_eq_some_iff.mp hother
  rcases Nat.lt_trichotomy position other with hless | heq | hless
  · have hne := hpairs position other hlt hlt' hless
    rw [hget, hget'] at hne
    exact absurd rfl (hne label rfl label rfl)
  · exact heq
  · have hne := hpairs other position hlt' hlt hless
    rw [hget, hget'] at hne
    exact absurd rfl (hne label rfl label rfl)

namespace Machine

/-! ## Paths -/

/-- Control may go from one position to another. -/
inductive Edge (code : List Instr) (position : Nat) : Nat → Prop
  | next {instr : Instr} (hinstr : code[position]? = some instr) (hnext : instr.continues = true) :
      Edge code position (position + 1)
  | jump {instr : Instr} {label : Label} {after : Nat} (hinstr : code[position]? = some instr)
      (htarget : instr.target? = some label) (hplace : code[after]? = some (.placeLabel label)) :
      Edge code position after

/-- A path from the first instruction to a position, and what is executed on it. -/
inductive Path (code : List Instr) : List Instr → Nat → Prop
  | start : Path code [] 0
  | step {executed : List Instr} {position after : Nat} {instr : Instr}
      (h : Path code executed position) (hinstr : code[position]? = some instr)
      (hedge : Edge code position after) : Path code (executed ++ [instr]) after

/-- A path that leaves the code, at its end or to a label that is not placed in it. -/
inductive Walk (code : List Instr) : List Instr → Option Label → Prop
  | finish {executed : List Instr} {position : Nat} (h : Path code executed position)
      (hend : code[position]? = none) : Walk code executed none
  | leave {executed : List Instr} {position : Nat} {instr : Instr} {label : Label}
      (h : Path code executed position) (hinstr : code[position]? = some instr)
      (htarget : instr.target? = some label) (hout : label ∉ placedLabels code) :
      Walk code (executed ++ [instr]) (some label)

/-! ## Forward jumps -/

/-- Every jump goes to an exit, or to a label that is placed later. -/
def JumpsForward (exits : Label → Prop) (code : List Instr) : Prop :=
  ∀ (position : Nat) instr label, code[position]? = some instr → instr.target? = some label →
    exits label ∨ ∃ later > position, code[later]? = some (.placeLabel label)

/-- Code in which labels are placed once and after all jumps to them, but for exits, which are not
placed at all. -/
structure Forward (exits : Label → Prop) (code : List Instr) : Prop where
  once : (placedLabels code).Nodup
  jumps : JumpsForward exits code
  outside : ∀ label ∈ placedLabels code, ¬ exits label

namespace Forward

variable {exits : Label → Prop} {code : List Instr} {position after : Nat}

/-- A jump to a label that is placed goes forward. -/
theorem lt_of_jump (h : Forward exits code) {instr : Instr} {label : Label}
    (hinstr : code[position]? = some instr) (htarget : instr.target? = some label)
    (hplace : code[after]? = some (.placeLabel label)) : position < after := by
  rcases h.jumps position instr label hinstr htarget with hexit | ⟨later, hlater, hplace'⟩
  · exact absurd hexit (h.outside label (mem_placedLabels.2 (List.mem_of_getElem? hplace)))
  · rwa [eq_of_placed_once h.once hplace hplace']

/-- **Control only goes forward.** -/
theorem lt_of_edge (h : Forward exits code) (hedge : Edge code position after) :
    position < after := by
  cases hedge with
  | next => omega
  | jump hinstr htarget hplace => exact h.lt_of_jump hinstr htarget hplace

end Forward

section

variable {pool : Pool} {model : ValueModel pool} {env : Env model} {code : List Instr}

/-- A step of the machine goes along an edge. -/
theorem Step.edge {position after : Nat} {cells cells' : Cells model.Value}
    (h : Step env code position cells (.next after cells')) : Edge code position after := by
  -- Jumping ends where the label is placed, or outside.
  have hjump : ∀ {instr label}, code[position]? = some instr → instr.target? = some label →
      jump code label cells = .next after cells' → Edge code position after := by
    intro instr label hinstr htarget hjump
    rw [jump] at hjump
    split at hjump
    next found hfound =>
      obtain ⟨hlt, hget, _⟩ := List.findIdx?_eq_some_iff_getElem.mp hfound
      cases hjump
      refine .jump hinstr htarget (List.getElem?_eq_some_iff.mpr ⟨hlt, ?_⟩)
      simpa using hget
    next => cases hjump
  generalize hprogress : Progress.next after cells' = progress at h
  cases h with
  | finish => cases hprogress
  | placeLabel hinstr | pass hinstr | project hinstr | storeLocal hinstr | evalOperand hinstr
  | stay hinstr =>
    cases hprogress
    exact .next hinstr rfl
  | goto hinstr | fail hinstr | branch hinstr => exact hjump hinstr rfl hprogress.symm

/-- **Every run of forward code ends**: there is no way to take steps forever. -/
theorem Forward.wellFounded_step {exits : Label → Prop} (h : Forward exits code) :
    WellFounded fun after before : Nat × Cells model.Value =>
      Step env code before.1 before.2 (.next after.1 after.2) := by
  refine Subrelation.wf (r := InvImage (· < ·) fun state => code.length - state.1) ?_
    (InvImage.wf _ Nat.lt_wfRel.wf)
  rintro ⟨after, cells'⟩ ⟨before, cells⟩ hstep
  have hlt := h.lt_of_edge hstep.edge
  have hin : before < code.length := by
    cases hstep.edge with
    | next hinstr | jump hinstr => exact (List.getElem?_eq_some_iff.mp hinstr).1
  show code.length - after < code.length - before
  omega

end

end Machine

/-! ## Histories -/

/-- What is kept of an instruction that was executed. -/
inductive Event
  | evaluated (expr : ExprId)
  | stored (id : LocalId)
deriving DecidableEq

def Instr.event? : Instr → Option Event
  | .evalOperand _ expr => some (.evaluated expr)
  | .storeLocal id _ _ => some (.stored id)
  | _ => none

/-- What happens when instructions are executed. -/
def events (executed : List Instr) : List Event := executed.filterMap Instr.event?

theorem events_append (executed rest : List Instr) :
    events (executed ++ rest) = events executed ++ events rest := List.filterMap_append

theorem events_singleton (instr : Instr) : events [instr] = instr.event?.toList := by
  cases instr <;> rfl

theorem mem_events_stored {executed : List Instr} {id : LocalId} :
    .stored id ∈ events executed ↔ ∃ slot value, .storeLocal id slot value ∈ executed := by
  rw [events, List.mem_filterMap]
  constructor
  · rintro ⟨instr, hinstr, hevent⟩
    cases instr <;> cases hevent
    exact ⟨_, _, hinstr⟩
  · rintro ⟨slot, value, hmem⟩
    exact ⟨_, hmem, rfl⟩

/-- An instruction that jumps does nothing else. -/
theorem Instr.event?_of_target? {instr : Instr} {label : Label} (h : instr.target? = some label) :
    instr.event? = none := by
  cases instr <;> first | rfl | cases h

/-- The histories with which control comes to the next instruction, and those with which it is under
way to a label. -/
structure Fronts where
  here : Set (List Event)
  pending : Label → Set (List Event)

namespace Fronts

/-- Before the first instruction nothing has happened. -/
def start : Fronts := ⟨{[]}, fun _ => ∅⟩

/-- The histories with which control comes to an instruction.  Those that are under way to a label
come to where it is placed. -/
def entering (fronts : Fronts) (instr : Instr) : Set (List Event) :=
  match instr.placed? with
  | some label => fronts.here ∪ fronts.pending label
  | none => fronts.here

/-- The fronts after an instruction. -/
def step (fronts : Fronts) (instr : Instr) : Fronts where
  here := {history | instr.continues = true ∧
    ∃ before ∈ fronts.entering instr, history = before ++ instr.event?.toList}
  pending label := {history | history ∈ fronts.pending label ∨
    instr.target? = some label ∧ history ∈ fronts.entering instr}

/-- The fronts after code. -/
def run (fronts : Fronts) (code : List Instr) : Fronts := code.foldl step fronts

@[simp]
theorem run_cons (fronts : Fronts) (instr : Instr) (code : List Instr) :
    fronts.run (instr :: code) = (fronts.step instr).run code := rfl

theorem run_append (fronts : Fronts) (code rest : List Instr) :
    fronts.run (code ++ rest) = (fronts.run code).run rest := List.foldl_append

theorem here_subset_entering (fronts : Fronts) (instr : Instr) :
    fronts.here ⊆ fronts.entering instr := by
  rw [entering]
  split
  next => exact Set.subset_union_left
  next => exact subset_rfl

/-- What is under way to a label stays so. -/
theorem pending_subset_run (label : Label) : ∀ (code : List Instr) (fronts : Fronts),
    fronts.pending label ⊆ (fronts.run code).pending label := by
  intro code
  induction code with
  | nil => exact fun fronts => subset_rfl
  | cons instr code ih =>
    intro fronts history hhistory
    exact ih (fronts.step instr) (Or.inl hhistory)

end Fronts

namespace Machine.Forward

variable {exits : Label → Prop} {code executed : List Instr} {position : Nat}

/-- **What happened on a path is among what can have happened** before the instruction it leads to,
or before the end of the code. -/
theorem mem_entering (h : Forward exits code) (hpath : Path code executed position) :
    (∀ instr, code[position]? = some instr →
      events executed ∈ (Fronts.start.run (code.take position)).entering instr) ∧
    (code[position]? = none → events executed ∈ (Fronts.start.run code).here) := by
  induction hpath with
  | start =>
    refine ⟨fun instr _ => Fronts.here_subset_entering _ _ rfl, fun hend => ?_⟩
    obtain rfl : code = [] := List.eq_nil_of_length_eq_zero (by simpa using hend)
    exact rfl
  | @step executed position after instr _ hinstr hedge ih =>
    have hentering := ih.1 instr hinstr
    have htake : code.take (position + 1) = code.take position ++ [instr] := by
      rw [List.take_add_one, hinstr, Option.toList_some]
    rw [events_append, events_singleton]
    cases hedge with
    | next hinstr' hnext =>
      obtain rfl := Option.some.inj (hinstr.symm.trans hinstr')
      have hhere : events executed ++ instr.event?.toList ∈
          (Fronts.start.run (code.take (position + 1))).here := by
        rw [htake, Fronts.run_append]
        exact ⟨hnext, _, hentering, rfl⟩
      refine ⟨fun _ _ => Fronts.here_subset_entering _ _ hhere, fun hend => ?_⟩
      rwa [List.take_of_length_le (List.getElem?_eq_none_iff.mp hend)] at hhere
    | @jump instr' label _ hinstr' htarget hplace =>
      obtain rfl := Option.some.inj (hinstr.symm.trans hinstr')
      have hlt := h.lt_of_jump hinstr htarget hplace
      rw [Instr.event?_of_target? htarget, Option.toList_none, List.append_nil]
      refine ⟨fun instr' hinstr' => ?_, fun hend => ?_⟩
      · obtain rfl := Option.some.inj (hplace.symm.trans hinstr')
        -- The history is under way from the jump on, and so it is when the label is placed.
        have hsplit : code.take after = code.take (position + 1) ++
            (code.drop (position + 1)).take (after - (position + 1)) := by
          rw [← List.take_add]
          congr 1
          omega
        refine Or.inr ?_
        rw [hsplit, Fronts.run_append]
        refine Fronts.pending_subset_run label _ _ ?_
        rw [htake, Fronts.run_append]
        exact Or.inr ⟨htarget, hentering⟩
      · rw [hplace] at hend
        cases hend

/-- **What happened on a path that leaves the code is among the fronts after the code.** -/
theorem mem_run (h : Forward exits code) {exit : Option Label} (hwalk : Walk code executed exit) :
    match exit with
    | none => events executed ∈ (Fronts.start.run code).here
    | some label => events executed ∈ (Fronts.start.run code).pending label := by
  cases hwalk with
  | finish hpath hend => exact (h.mem_entering hpath).2 hend
  | @leave executed position instr label hpath hinstr htarget _ =>
    have hentering := (h.mem_entering hpath).1 instr hinstr
    have hsplit : code = code.take position ++ instr :: code.drop (position + 1) := by
      obtain ⟨hlt, hget⟩ := List.getElem?_eq_some_iff.mp hinstr
      rw [← hget, List.getElem_cons_drop, List.take_append_drop]
    rw [events_append, events_singleton, Instr.event?_of_target? htarget, Option.toList_none,
      List.append_nil]
    show events executed ∈ (Fronts.start.run code).pending label
    rw [hsplit, Fronts.run_append, Fronts.run_cons]
    exact Fronts.pending_subset_run label _ _ (Or.inr ⟨htarget, hentering⟩)

end Machine.Forward

end GuardedMatch
