import GuardedMatch.Proofs.Control

/-!
# What happens during a test

Testing a value against a pattern stores locals and evaluates operands, and comes out as a match or
not.  Nothing is said about values here: a type test may come out either way, and so may an operand
that is evaluated.  So the outcomes of a test are a relation between what happens and how it comes
out, and they are put together as the patterns and conditions are.

A piece of code plays a test if, from wherever it is entered, control leaves it only after what
happens during the test, and only toward where the outcome leads.

* `Pattern.outcomes`, `Expr.outcomes`: what happens during the test of a pattern or a condition.
* `Plays.both`, `Plays.jump`, `Plays.place`, ...: how pieces that play tests are put together.
-/

namespace GuardedMatch

/-! ## Outcomes -/

/-- What may happen during a test, and how the test comes out then. -/
abbrev Outcomes := List Event → Bool → Prop

namespace Outcomes

/-- The outcome is known and nothing happens. -/
def known (outcome : Bool) : Outcomes := fun events outcome' => events = [] ∧ outcome' = outcome

/-- Nothing happens, and the test comes out either way. -/
def either : Outcomes := fun events _ => events = []

/-- A local is stored, if there is one. -/
def stored (binds : Option LocalId) : Outcomes :=
  fun events outcome => events = (binds.map Event.stored).toList ∧ outcome = true

/-- Something happens before the test. -/
def after (event : Option Event) (outcomes : Outcomes) : Outcomes :=
  fun events outcome => ∃ rest, events = event.toList ++ rest ∧ outcomes rest outcome

/-- The second test is made if the first comes out true. -/
def both (first second : Outcomes) : Outcomes := fun events outcome =>
  outcome = false ∧ first events false ∨
    ∃ before rest, events = before ++ rest ∧ first before true ∧ second rest outcome

def flip (outcomes : Outcomes) : Outcomes := fun events outcome => outcomes events !outcome

/-- The second test is made if the first comes out false. -/
def orElse (first second : Outcomes) : Outcomes := (first.flip.both second.flip).flip

end Outcomes

mutual

/-- What happens when a value is tested against a pattern. -/
def Pattern.outcomes : Pattern → Outcomes
  | .type _ _ binds _ => Outcomes.both .either (.stored binds)
  | .record _ _ components _ => Outcomes.both .either (Pattern.outcomesAll components)
  | .guarded _ patterns condition _ =>
    Outcomes.both (Pattern.outcomesAll patterns) (match condition.skippable with
      | some outcome => .known outcome
      | none => condition.outcomes)
  | .any .. => .known true
  | .missing _ => fun _ _ => False

/-- What happens when patterns are tested one after the other, as long as they match. -/
def Pattern.outcomesAll : List Pattern → Outcomes
  | [] => .known true
  | pattern :: patterns => Outcomes.both pattern.outcomes (Pattern.outcomesAll patterns)

/-- What happens when a condition is evaluated.  A constant on the left need not be. -/
def Expr.outcomes : Expr → Outcomes
  | .bool _ value _ => .known value
  | .unary _ .not operand _ => operand.outcomes.flip
  | .binary _ .and left right _ => match left.skippable with
    | some true => right.outcomes
    | some false => .known false
    | none => Outcomes.both left.outcomes right.outcomes
  | .binary _ .or left right _ => match left.skippable with
    | some false => right.outcomes
    | some true => .known true
    | none => Outcomes.orElse left.outcomes right.outcomes
  | .instanceOf _ tested pattern _ => .after (some (.evaluated tested.id)) pattern.outcomes
  | .missing _ => fun _ _ => False
  | operand => .after (some (.evaluated operand.id)) .either

end

/-- A condition that is evaluated as a whole may come out either way. -/
theorem Expr.outcomes_operand {expr : Expr} (h : expr.IsOperand) :
    expr.outcomes = .after (some (.evaluated expr.id)) .either := by
  rw [Expr.outcomes.eq_def]
  split <;> first | cases h | rfl

/-! ## Where outcomes lead -/

/-- Whether control may leave through an exit after an outcome; without an exit it leaves at the
end. -/
abbrev Exits := Bool → Option Label → Prop

/-- After one of the outcomes control may go to a label as well. -/
def Exits.also (exits : Exits) (outcome : Bool) (label : Label) : Exits :=
  fun outcome' exit => exits outcome' exit ∨ outcome' = outcome ∧ exit = some label

namespace Targets

def on (targets : Targets) (outcome : Bool) : Option Label :=
  if outcome then targets.whenTrue else targets.whenFalse

/-- Where the outcomes of a test lead.  Without a false target, a failure may as well go to the
label that stands right after the test. -/
def Exits (targets : Targets) (fallthrough : Option Label) : GuardedMatch.Exits :=
  fun outcome exit => exit = targets.on outcome ∨
    outcome = false ∧ targets.whenFalse = none ∧ exit = fallthrough

/-- Labels below a bound are where the outcomes of a test lead. -/
def Within (targets : Targets) (fallthrough : Option Label) (bound : Label) : Prop :=
  ∀ outcome label, targets.Exits fallthrough outcome (some label) → label < bound

theorem Within.mono {targets : Targets} {fallthrough : Option Label} {bound bound' : Label}
    (h : targets.Within fallthrough bound) (hle : bound ≤ bound') :
    targets.Within fallthrough bound' :=
  fun outcome label hexit => (h outcome label hexit).trans_le hle

theorem Within.of_fail {fail bound : Label} {fallthrough : Option Label} (h : fail < bound) :
    Within ⟨none, some fail⟩ fallthrough bound := by
  rintro outcome label (hexit | ⟨-, hnone, -⟩)
  · cases outcome with
    | true => cases hexit
    | false => rwa [Option.some.inj hexit]
  · cases hnone

theorem Within.of_success {success bound : Label} {fallthrough : Option Label} (h : success < bound)
    (hfall : ∀ label ∈ fallthrough, label < bound) :
    Within ⟨some success, none⟩ fallthrough bound := by
  rintro outcome label (hexit | ⟨-, -, hexit⟩)
  · cases outcome with
    | true => rwa [Option.some.inj hexit]
    | false => cases hexit
  · exact hfall label hexit.symm

theorem exits_none {targets : Targets} {outcome : Bool} {exit : Option Label} :
    targets.Exits none outcome exit ↔ exit = targets.on outcome := by
  refine ⟨fun h => ?_, Or.inl⟩
  rcases h with h | ⟨rfl, hnone, rfl⟩
  · exact h
  · exact hnone.symm

/-- With a false target, what stands after the test does not matter. -/
theorem exits_some {onTrue : Option Label} {onFalse : Label} (fallthrough : Option Label) :
    Exits ⟨onTrue, some onFalse⟩ fallthrough = Exits ⟨onTrue, some onFalse⟩ none := by
  funext outcome exit
  simp [Exits]

end Targets

namespace Fronts

/-- No jump has gone to a label from `base` on. -/
def Unused (fronts : Fronts) (base : Label) : Prop := ∀ label ≥ base, fronts.pending label = ∅

/-- What has happened after a test that came out in an admitted way. -/
def After (fronts : Fronts) (outcomes : Outcomes) (admits : Bool → Prop) : Set (List Event) :=
  {history | ∃ before ∈ fronts.here, ∃ events outcome, outcomes events outcome ∧ admits outcome ∧
    history = before ++ events}

theorem Unused.mono {fronts : Fronts} {base label bound : Label} (h : fronts.Unused base)
    (hbase : base ≤ label) (hbound : label < bound) : fronts.Unused bound :=
  fun other hother => h other (hbase.trans (hbound.le.trans hother))

theorem Unused.run {fronts : Fronts} {base bound : Label} (h : fronts.Unused base)
    (hle : base ≤ bound) : ∀ {code : List Instr},
    (∀ instr ∈ code, ∀ label ∈ instr.target?, label < bound) → (fronts.run code).Unused bound := by
  intro code
  induction code generalizing fronts base with
  | nil =>
    intro _ label hlabel
    exact h label (hle.trans hlabel)
  | cons instr code ih =>
    intro hcode
    have hstep : (fronts.step instr).Unused bound := by
      intro label hlabel
      refine Set.eq_empty_iff_forall_notMem.mpr fun history hhistory => ?_
      rcases hhistory with hhistory | ⟨htarget, _⟩
      · rwa [h label (hle.trans hlabel)] at hhistory
      · exact absurd (hcode instr (List.mem_cons_self ..) label htarget) hlabel.not_gt
    exact ih hstep le_rfl fun other hother => hcode other (List.mem_cons_of_mem _ hother)

end Fronts

/-! ## Pieces that play tests -/

/-- Control leaves the piece only after what happens during the test, and only to where its outcome
leads, and jumps in it go forward.  Labels from `base` on belong to the piece. -/
structure Plays (base : Label) (exits : Exits) (outcomes : Outcomes) (piece : List Instr) :
    Prop where
  here : ∀ fronts : Fronts, fronts.Unused base →
    (fronts.run piece).here ⊆ fronts.After outcomes (exits · none)
  pending : ∀ fronts : Fronts, fronts.Unused base → ∀ label < base,
    (fronts.run piece).pending label ⊆
      fronts.pending label ∪ fronts.After outcomes (exits · (some label))
  jumps : Machine.JumpsForward (fun label => ∃ outcome, exits outcome (some label)) piece

namespace Plays

variable {base : Label} {exits exits' : Exits} {outcomes outcomes' : Outcomes}
  {piece rest : List Instr}

theorem imp (h : Plays base exits outcomes piece)
    (hexits : ∀ outcome exit, exits outcome exit → exits' outcome exit)
    (houtcomes : ∀ events outcome, outcomes events outcome → outcomes' events outcome) :
    Plays base exits' outcomes' piece where
  here fronts hunused history hhistory := by
    obtain ⟨before, hbefore, events, outcome, hevents, hexit, heq⟩ :=
      h.here fronts hunused hhistory
    exact ⟨before, hbefore, events, outcome, houtcomes _ _ hevents, hexits _ _ hexit, heq⟩
  pending fronts hunused label hlabel history hhistory := by
    rcases h.pending fronts hunused label hlabel hhistory with hold |
      ⟨before, hbefore, events, outcome, hevents, hexit, heq⟩
    · exact Or.inl hold
    · exact Or.inr ⟨before, hbefore, events, outcome, houtcomes _ _ hevents, hexits _ _ hexit, heq⟩
  jumps position instr label hinstr htarget := by
    rcases h.jumps position instr label hinstr htarget with ⟨outcome, hexit⟩ | hlater
    · exact Or.inl ⟨outcome, hexits _ _ hexit⟩
    · exact Or.inr hlater

theorem mono (h : Plays base exits outcomes piece)
    (hexits : ∀ outcome exit, exits outcome exit → exits' outcome exit) :
    Plays base exits' outcomes piece := h.imp hexits fun _ _ => id

/-- Later labels belong to the piece as well. -/
theorem mono_base {base' : Label} (h : Plays base' exits outcomes piece) (hle : base ≤ base') :
    Plays base exits outcomes piece where
  here fronts hunused := h.here fronts fun label hlabel => hunused label (hle.trans hlabel)
  pending fronts hunused label hlabel :=
    h.pending fronts (fun label hlabel => hunused label (hle.trans hlabel)) label
      (hlabel.trans_le hle)
  jumps := h.jumps

/-- A test and its negation are played alike. -/
theorem flip (h : Plays base exits outcomes piece) :
    Plays base (fun outcome => exits !outcome) outcomes.flip piece where
  here fronts hunused history hhistory := by
    obtain ⟨before, hbefore, events, outcome, hevents, hexit, heq⟩ :=
      h.here fronts hunused hhistory
    refine ⟨before, hbefore, events, !outcome, ?_, ?_, heq⟩
    · show outcomes events (!!outcome)
      rwa [Bool.not_not]
    · show exits (!!outcome) none
      rwa [Bool.not_not]
  pending fronts hunused label hlabel history hhistory := by
    rcases h.pending fronts hunused label hlabel hhistory with hold |
      ⟨before, hbefore, events, outcome, hevents, hexit, heq⟩
    · exact Or.inl hold
    · refine Or.inr ⟨before, hbefore, events, !outcome, ?_, ?_, heq⟩
      · show outcomes events (!!outcome)
        rwa [Bool.not_not]
      · show exits (!!outcome) (some label)
        rwa [Bool.not_not]
  jumps position instr label hinstr htarget := by
    rcases h.jumps position instr label hinstr htarget with ⟨outcome, hexit⟩ | hlater
    · refine Or.inl ⟨!outcome, ?_⟩
      rwa [Bool.not_not]
    · exact Or.inr hlater

/-! ### Single instructions -/

theorem nothing (outcome : Bool) (houtcome : outcomes [] outcome) (hexit : exits outcome none) :
    Plays base exits outcomes [] where
  here _ _ history hhistory :=
    ⟨history, hhistory, [], outcome, houtcome, hexit, (List.append_nil _).symm⟩
  pending _ _ _ _ _ hhistory := Or.inl hhistory
  jumps := nofun

/-- An instruction with nothing but a jump, which is taken or not as the test comes out. -/
theorem ofJump {instr : Instr} {target : Label} (hplaced : instr.placed? = none)
    (htarget : instr.target? = some target)
    (hstay : instr.continues = true → ∃ outcome, outcomes [] outcome ∧ exits outcome none)
    (hjump : ∃ outcome, outcomes [] outcome ∧ exits outcome (some target)) :
    Plays base exits outcomes [instr] where
  here fronts _ history hhistory := by
    obtain ⟨hcontinues, before, hbefore, rfl⟩ := hhistory
    obtain ⟨outcome, houtcome, hexit⟩ := hstay hcontinues
    rw [Fronts.entering, hplaced] at hbefore
    rw [Instr.event?_of_target? htarget]
    exact ⟨before, hbefore, [], outcome, houtcome, hexit, rfl⟩
  pending fronts _ label _ history hhistory := by
    rcases hhistory with hold | ⟨hlabel, hentering⟩
    · exact Or.inl hold
    · obtain rfl := Option.some.inj (htarget.symm.trans hlabel)
      obtain ⟨outcome, houtcome, hexit⟩ := hjump
      rw [Fronts.entering, hplaced] at hentering
      exact Or.inr ⟨history, hentering, [], outcome, houtcome, hexit, (List.append_nil _).symm⟩
  jumps position instr' label hinstr hlabel := by
    obtain ⟨outcome, -, hexit⟩ := hjump
    cases position with
    | zero =>
      cases hinstr
      obtain rfl := Option.some.inj (htarget.symm.trans hlabel)
      exact Or.inl ⟨outcome, hexit⟩
    | succ position => simp at hinstr

theorem cons {instr : Instr} (hplaced : instr.placed? = none) (htarget : instr.target? = none)
    (h : Plays base exits outcomes piece) :
    Plays base exits (outcomes.after instr.event?) (instr :: piece) := by
  have hunused : ∀ {fronts : Fronts}, fronts.Unused base → (fronts.step instr).Unused base := by
    intro fronts hunused
    have hrun : (fronts.run [instr]).Unused base := hunused.run le_rfl (by simp [htarget])
    exact hrun
  -- The instruction is part of what happens during the test.
  have hafter : ∀ {fronts : Fronts} {admits : Bool → Prop},
      (fronts.step instr).After outcomes admits ⊆
        fronts.After (outcomes.after instr.event?) admits := by
    rintro fronts admits history
      ⟨_, ⟨-, before, hbefore, rfl⟩, events, outcome, hevents, hexit, rfl⟩
    rw [Fronts.entering, hplaced] at hbefore
    exact ⟨before, hbefore, _, outcome, ⟨events, rfl, hevents⟩, hexit, List.append_assoc ..⟩
  refine ⟨fun fronts hfronts => (h.here _ (hunused hfronts)).trans hafter, ?_, ?_⟩
  · intro fronts hfronts label hlabel history hhistory
    rcases h.pending _ (hunused hfronts) label hlabel hhistory with (hold | ⟨hjump, -⟩) | hnew
    · exact Or.inl hold
    · rw [htarget] at hjump
      cases hjump
    · exact Or.inr (hafter hnew)
  · intro position instr' label hinstr hlabel
    cases position with
    | zero =>
      cases hinstr
      rw [htarget] at hlabel
      cases hlabel
    | succ position =>
      rcases h.jumps position instr' label hinstr hlabel with hexit | ⟨later, hlater, hplace⟩
      · exact Or.inl hexit
      · exact Or.inr ⟨later + 1, Nat.succ_lt_succ hlater, hplace⟩

end Plays

namespace Machine.JumpsForward

variable {exits exits' : Label → Prop} {piece rest : List Instr}

/-- Exits of the first piece are exits of both, or they are placed in the second. -/
theorem append (h : JumpsForward exits piece) (h' : JumpsForward exits' rest)
    (hexits : ∀ label, exits label → exits' label ∨ label ∈ placedLabels rest) :
    JumpsForward exits' (piece ++ rest) := by
  intro position instr label hinstr htarget
  rcases Nat.lt_or_ge position piece.length with hlt | hge
  · rw [List.getElem?_append_left hlt] at hinstr
    rcases h position instr label hinstr htarget with hexit | ⟨later, hlater, hplace⟩
    · rcases hexits label hexit with hexit | hplaced
      · exact Or.inl hexit
      · obtain ⟨offset, hoffset⟩ := List.mem_iff_getElem?.mp (mem_placedLabels.mp hplaced)
        refine Or.inr ⟨piece.length + offset, by omega, ?_⟩
        rwa [List.getElem?_append_right (Nat.le_add_right ..), Nat.add_sub_cancel_left]
    · refine Or.inr ⟨later, hlater, ?_⟩
      rwa [List.getElem?_append_left (List.getElem?_eq_some_iff.mp hplace).1]
  · rw [List.getElem?_append_right hge] at hinstr
    rcases h' _ instr label hinstr htarget with hexit | ⟨later, hlater, hplace⟩
    · exact Or.inl hexit
    · refine Or.inr ⟨piece.length + later, by omega, ?_⟩
      rwa [List.getElem?_append_right (Nat.le_add_right ..), Nat.add_sub_cancel_left]

end Machine.JumpsForward

namespace Plays

variable {base bound : Label} {exits exits' exits'' : Exits} {outcomes outcomes' : Outcomes}
  {piece rest : List Instr}

/-- **Two tests in a row**, the second of which is made if the first comes out true. -/
theorem both (h : Plays base exits outcomes piece) (h' : Plays bound exits' outcomes' rest)
    (hle : base ≤ bound) (hpiece : ∀ instr ∈ piece, ∀ label ∈ instr.target?, label < bound)
    (htrue : ∀ exit, exits true exit → exit = none)
    (hfalse : ∀ exit, exits false exit → exit ≠ none ∧ exits'' false exit)
    (hsecond : ∀ outcome exit, exits' outcome exit → exits'' outcome exit) :
    Plays base exits'' (outcomes.both outcomes') (piece ++ rest) := by
  have hunused : ∀ {fronts : Fronts}, fronts.Unused base → (fronts.run piece).Unused bound :=
    fun hfronts => hfronts.run hle hpiece
  -- Whatever follows the first piece without a jump follows a first test that held.
  have hafter : ∀ {fronts : Fronts} {exit : Option Label}, fronts.Unused base →
      (fronts.run piece).After outcomes' (exits' · exit) ⊆
        fronts.After (outcomes.both outcomes') (exits'' · exit) := by
    rintro fronts exit hfronts history ⟨_, hmiddle, events', outcome', hevents', hexit', rfl⟩
    obtain ⟨before, hbefore, events, outcome, hevents, hexit, rfl⟩ := h.here fronts hfronts hmiddle
    cases outcome with
    | true =>
      exact ⟨before, hbefore, _, outcome', Or.inr ⟨events, events', rfl, hevents, hevents'⟩,
        hsecond _ _ hexit', List.append_assoc ..⟩
    | false => exact absurd rfl (hfalse none hexit).1
  refine ⟨?_, ?_, ?_⟩
  · intro fronts hfronts
    rw [Fronts.run_append]
    exact (h'.here _ (hunused hfronts)).trans (hafter hfronts)
  · intro fronts hfronts label hlabel
    rw [Fronts.run_append]
    intro history hhistory
    rcases h'.pending _ (hunused hfronts) label (hlabel.trans_le hle) hhistory with hold | hnew
    · rcases h.pending fronts hfronts label hlabel hold with hold |
        ⟨before, hbefore, events, outcome, hevents, hexit, rfl⟩
      · exact Or.inl hold
      · cases outcome with
        | true => exact absurd (htrue _ hexit) (by simp)
        | false =>
          exact Or.inr ⟨before, hbefore, events, false, Or.inl ⟨rfl, hevents⟩, (hfalse _ hexit).2,
            rfl⟩
    · exact Or.inr (hafter hfronts hnew)
  · have hjumps :
        Machine.JumpsForward (fun label => ∃ outcome, exits'' outcome (some label)) rest := by
      intro position instr label hinstr htarget
      rcases h'.jumps position instr label hinstr htarget with ⟨outcome, hexit⟩ | hlater
      · exact Or.inl ⟨outcome, hsecond _ _ hexit⟩
      · exact Or.inr hlater
    refine h.jumps.append hjumps fun label ⟨outcome, hexit⟩ => Or.inl ?_
    cases outcome with
    | true => exact absurd (htrue _ hexit) (by simp)
    | false => exact ⟨false, (hfalse _ hexit).2⟩

/-- Where a test goes on at its end, it may jump to a target instead. -/
theorem jump (h : Plays base exits outcomes piece) (target : Option Label)
    (hsome : ∃ outcome, exits outcome none)
    (htarget : ∀ outcome, exits outcome none → exits' outcome target)
    (hother : ∀ outcome label, exits outcome (some label) → exits' outcome (some label)) :
    Plays base exits' outcomes (piece ++ Machine.jumpCode target) := by
  cases target with
  | none =>
    rw [Machine.jumpCode, List.append_nil]
    refine h.mono fun outcome exit hexit => ?_
    cases exit with
    | none => exact htarget outcome hexit
    | some label => exact hother outcome label hexit
  | some target =>
    rw [Machine.jumpCode]
    refine ⟨?_, ?_, ?_⟩
    · intro fronts _ history hhistory
      rw [Fronts.run_append] at hhistory
      cases hhistory.1
    · intro fronts hfronts label hlabel history hhistory
      rw [Fronts.run_append] at hhistory
      rcases hhistory with hold | ⟨hjump, hhere⟩
      · rcases h.pending fronts hfronts label hlabel hold with hold |
          ⟨before, hbefore, events, outcome, hevents, hexit, rfl⟩
        · exact Or.inl hold
        · exact Or.inr ⟨before, hbefore, events, outcome, hevents, hother _ _ hexit, rfl⟩
      · cases hjump
        obtain ⟨before, hbefore, events, outcome, hevents, hexit, rfl⟩ :=
          h.here fronts hfronts hhere
        exact Or.inr ⟨before, hbefore, events, outcome, hevents, htarget _ hexit, rfl⟩
    · have hgoto : Machine.JumpsForward (fun label => ∃ outcome, exits' outcome (some label))
          [.goto target] := by
        obtain ⟨outcome, hnone⟩ := hsome
        intro position instr label hinstr hlabel
        cases position with
        | zero =>
          cases hinstr
          cases hlabel
          exact Or.inl ⟨outcome, htarget outcome hnone⟩
        | succ position => simp at hinstr
      exact h.jumps.append hgoto fun label hexits =>
        Or.inl (hexits.imp fun outcome => hother outcome label)

/-- **A label of the piece is placed at its end.** -/
theorem place {label : Label} (h : Plays bound exits outcomes piece) (hbase : base ≤ label)
    (hbound : label < bound) (hhere : ∀ outcome, exits outcome none → exits' outcome none)
    (hlabel : ∀ outcome, exits outcome (some label) → exits' outcome none)
    (hother : ∀ outcome other, exits outcome (some other) → other ≠ label →
      exits' outcome (some other)) :
    Plays base exits' outcomes (piece ++ [.placeLabel label]) := by
  have hafter : ∀ {fronts : Fronts}, fronts.Unused base →
      ∀ history ∈ (fronts.run piece).entering (.placeLabel label),
        history ∈ fronts.After outcomes (exits' · none) := by
    rintro fronts hfronts history (hhistory | hhistory)
    · obtain ⟨before, hbefore, events, outcome, hevents, hexit, rfl⟩ :=
        h.here fronts (hfronts.mono hbase hbound) hhistory
      exact ⟨before, hbefore, events, outcome, hevents, hhere _ hexit, rfl⟩
    · -- Only the piece has jumped to the label.
      rcases h.pending fronts (hfronts.mono hbase hbound) label hbound hhistory with hold |
        ⟨before, hbefore, events, outcome, hevents, hexit, rfl⟩
      · rw [hfronts label hbase] at hold
        exact hold.elim
      · exact ⟨before, hbefore, events, outcome, hevents, hlabel _ hexit, rfl⟩
  refine ⟨?_, ?_, ?_⟩
  · intro fronts hfronts history hhistory
    rw [Fronts.run_append] at hhistory
    obtain ⟨-, before, hbefore, rfl⟩ := hhistory
    rw [show (Instr.placeLabel label).event? = none from rfl, Option.toList_none, List.append_nil]
    exact hafter hfronts before hbefore
  · intro fronts hfronts other hother' history hhistory
    rw [Fronts.run_append] at hhistory
    rcases hhistory with hold | ⟨hjump, -⟩
    · rcases h.pending fronts (hfronts.mono hbase hbound) other
        (hother'.trans_le (hbase.trans hbound.le)) hold with hold |
        ⟨before, hbefore, events, outcome, hevents, hexit, rfl⟩
      · exact Or.inl hold
      · exact Or.inr ⟨before, hbefore, events, outcome, hevents, hother _ _ hexit
          (hother'.trans_le hbase).ne, rfl⟩
    · cases hjump
  · have hplace : Machine.JumpsForward (fun label => ∃ outcome, exits' outcome (some label))
        [.placeLabel label] := by
      intro position instr target hinstr htarget
      cases position with
      | zero =>
        cases hinstr
        cases htarget
      | succ position => simp at hinstr
    refine h.jumps.append hplace fun other ⟨outcome, hexit⟩ => ?_
    by_cases heq : other = label
    · exact Or.inr (by simp [heq])
    · exact Or.inl ⟨outcome, hother outcome other hexit heq⟩

/-- **A walk through a piece that plays a test is a test**: what happens on it happens during the
test, and it leaves where the outcome leads. -/
theorem outcome_of_walk {executed : List Instr} {exit : Option Label}
    (h : Plays base exits outcomes piece) (honce : (placedLabels piece).Nodup)
    (hbase : ∀ label ∈ placedLabels piece, base ≤ label)
    (hexits : ∀ outcome label, exits outcome (some label) → label < base)
    (hwalk : Machine.Walk piece executed exit) :
    ∃ outcome, outcomes (events executed) outcome ∧ exits outcome exit := by
  have hforward : Machine.Forward (fun label => ∃ outcome, exits outcome (some label)) piece := by
    refine ⟨honce, h.jumps, fun label hlabel ⟨outcome, hexit⟩ => ?_⟩
    exact (hbase label hlabel).not_gt (hexits outcome label hexit)
  have hunused : Fronts.start.Unused base := fun _ _ => rfl
  have hafter : ∀ admits, events executed ∈ Fronts.start.After outcomes admits →
      ∃ outcome, outcomes (events executed) outcome ∧ admits outcome := by
    rintro admits ⟨before, rfl, happened, outcome, houtcome, hadmits, heq⟩
    rw [List.nil_append] at heq
    exact ⟨outcome, heq ▸ houtcome, hadmits⟩
  have hrun := hforward.mem_run hwalk
  cases hwalk with
  | finish => exact hafter _ (h.here _ hunused hrun)
  | leave hpath hinstr htarget hout =>
    -- The walk leaves to an exit, since it jumps to a label that is not placed.
    rcases hforward.jumps _ _ _ hinstr htarget with ⟨outcome, hexit⟩ | ⟨later, -, hplace⟩
    · rcases h.pending _ hunused _ (hexits outcome _ hexit) hrun with hnone | hmem
      · exact hnone.elim
      · exact hafter _ hmem
    · exact absurd (mem_placedLabels.mpr (List.mem_of_getElem? hplace)) hout

end Plays

end GuardedMatch
