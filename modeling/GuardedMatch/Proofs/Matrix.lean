import GuardedMatch.Proofs.Reporting
import GuardedMatch.Proofs.Values
import Mathlib.Data.List.Forall2

/-!
# Rows and value vectors

The coverage check works on rows of patterns.  Here a row is read as a predicate on vectors of
values: every cell matches the value at its position.  Since the check relies on no guard that
may be false, cells are read with exactly those conditions holding that are known to be true.

* `alternatives_iff`: a pattern matches if one of its alternatives does.
* `expandRows_iff`: expanding the first column changes nothing.
* `surely_of_unanimous`: a pattern that covers a type matches its values, if guards do not rely on
  one of several sub-patterns.
* `surely_of_default`, `surely_of_specialize`: what is left of a row, matched, makes the row match.
-/

namespace GuardedMatch

/-! ## Checks -/

namespace Check

@[simp]
theorem andThen_eq_true {first : Check} {second : Unit → Check} :
    andThen first second = .ok true ↔ first = .ok true ∧ second () = .ok true := by
  rw [andThen.eq_def]
  split <;> simp_all

@[simp]
theorem andThen_eq_false {first : Check} {second : Unit → Check} :
    andThen first second = .ok false ↔
      first = .ok false ∨ first = .ok true ∧ second () = .ok false := by
  rw [andThen.eq_def]
  split <;> simp_all

@[simp]
theorem orElse_eq_true {first : Check} {second : Unit → Check} :
    orElse first second = .ok true ↔
      first = .ok true ∨ first = .ok false ∧ second () = .ok true := by
  rw [orElse.eq_def]
  split <;> simp_all

@[simp]
theorem orElse_eq_false {first : Check} {second : Unit → Check} :
    orElse first second = .ok false ↔ first = .ok false ∧ second () = .ok false := by
  rw [orElse.eq_def]
  split <;> simp_all

theorem all_eq_true {α : Type} {check : α → Check} {as : List α} :
    all check as = .ok true ↔ ∀ a ∈ as, check a = .ok true := by
  induction as with
  | nil => simp [all]
  | cons a as ih => simp [all, ih]

theorem exists_of_all_eq_false {α : Type} {check : α → Check} {as : List α}
    (h : all check as = .ok false) : ∃ a ∈ as, check a = .ok false := by
  induction as with
  | nil => simp [all] at h
  | cons a as ih =>
    rw [all, andThen_eq_false] at h
    rcases h with h | ⟨_, h⟩
    · exact ⟨a, by simp, h⟩
    · obtain ⟨b, hb, hcheck⟩ := ih h
      exact ⟨b, by simp [hb], hcheck⟩

end Check

theorem ok_of_bind {α β : Type} {first : Except Fault α} {next : α → Except Fault β} {answer : β}
    (h : first >>= next = .ok answer) : ∃ a, first = .ok a ∧ next a = .ok answer := by
  match first, h with
  | .ok a, h => exact ⟨a, rfl, h⟩

theorem Expr.isVacuous_eq_ok {condition : Expr} {answer : Bool}
    (h : condition.isVacuous = .ok answer) : answer = true ↔ condition.truth = some true := by
  rw [Expr.isVacuous] at h
  split at h
  next => cases h
  next =>
    cases h
    exact beq_iff_eq

/-! ## Steps on rows -/

/-- An action on all elements of a list that succeeds has succeeded on each, and has answered
nothing else. -/
theorem mem_of_mapM_ok {α β : Type} {action : α → Except Fault β} :
    ∀ {as : List α} {bs : List β}, as.mapM action = .ok bs →
      (∀ a ∈ as, ∃ b ∈ bs, action a = .ok b) ∧ ∀ b ∈ bs, ∃ a ∈ as, action a = .ok b := by
  intro as
  induction as with
  | nil =>
    intro bs h
    cases h
    simp
  | cons a as ih =>
    intro bs h
    rw [List.mapM_cons] at h
    obtain ⟨b, hb, h⟩ := ok_of_bind h
    obtain ⟨bs', hbs, h⟩ := ok_of_bind h
    cases h
    obtain ⟨hleft, hright⟩ := ih hbs
    refine ⟨fun a' ha => ?_, fun b' hb' => ?_⟩
    · rcases List.mem_cons.1 ha with rfl | ha
      · exact ⟨b, by simp, hb⟩
      · obtain ⟨b', hb', heq⟩ := hleft a' ha
        exact ⟨b', by simp [hb'], heq⟩
    · rcases List.mem_cons.1 hb' with rfl | hb'
      · exact ⟨a, by simp, hb⟩
      · obtain ⟨a', ha', heq⟩ := hright b' hb'
        exact ⟨a', by simp [ha'], heq⟩

theorem keepRows_eq (step : Row → Except Fault (Option Row)) (rows : List Row) :
    keepRows step rows = (rows.mapM step).map (·.flatMap Option.toList) := by
  induction rows with
  | nil => rfl
  | cons row rows ih =>
    rw [keepRows, List.mapM_cons, ih]
    cases step row with
    | error fault => rfl
    | ok found => cases rows.mapM step <;> rfl

theorem expandRows_eq (rows : List Row) :
    expandRows rows = (rows.mapM Row.expand).map List.flatten := by
  induction rows with
  | nil => rfl
  | cons row rows ih =>
    rw [expandRows, List.mapM_cons, ih]
    cases row.expand with
    | error fault => rfl
    | ok parts => cases rows.mapM Row.expand <;> rfl

/-- The rows that are kept come from the rows there were, and the step has answered at each. -/
theorem mem_keepRows {step : Row → Except Fault (Option Row)} {rows kept : List Row}
    (h : keepRows step rows = .ok kept) :
    (∀ row ∈ rows, ∃ found, step row = .ok found ∧ ∀ row' ∈ found, row' ∈ kept) ∧
      ∀ row' ∈ kept, ∃ row ∈ rows, step row = .ok (some row') := by
  rw [keepRows_eq] at h
  cases hall : rows.mapM step with
  | error fault =>
    rw [hall] at h
    cases h
  | ok founds =>
    rw [hall] at h
    cases h
    obtain ⟨hleft, hright⟩ := mem_of_mapM_ok hall
    refine ⟨fun row hrow => ?_, fun row' hrow' => ?_⟩
    · obtain ⟨found, hfound, hstep⟩ := hleft row hrow
      exact ⟨found, hstep, fun row' hrow' => List.mem_flatMap.2
        ⟨found, hfound, Option.mem_toList.2 hrow'⟩⟩
    · obtain ⟨found, hfound, hrow'⟩ := List.mem_flatMap.1 hrow'
      obtain ⟨row, hrow, hstep⟩ := hright found hfound
      rw [Option.mem_toList.1 hrow'] at hstep
      exact ⟨row, hrow, hstep⟩

/-- The expanded rows are the parts of the rows there were. -/
theorem mem_expandRows {rows expanded : List Row} (h : expandRows rows = .ok expanded) :
    (∀ row ∈ rows, ∃ parts, row.expand = .ok parts ∧ ∀ row' ∈ parts, row' ∈ expanded) ∧
      ∀ row' ∈ expanded, ∃ row ∈ rows, ∃ parts, row.expand = .ok parts ∧ row' ∈ parts := by
  rw [expandRows_eq] at h
  cases hall : rows.mapM Row.expand with
  | error fault =>
    rw [hall] at h
    cases h
  | ok parts =>
    rw [hall] at h
    cases h
    obtain ⟨hleft, hright⟩ := mem_of_mapM_ok hall
    refine ⟨fun row hrow => ?_, fun row' hrow' => ?_⟩
    · obtain ⟨part, hpart, hstep⟩ := hleft row hrow
      exact ⟨part, hstep, fun row' hrow' => List.mem_flatten.2 ⟨part, hpart, hrow'⟩⟩
    · obtain ⟨part, hpart, hrow'⟩ := List.mem_flatten.1 hrow'
      obtain ⟨row, hrow, hstep⟩ := hright part hpart
      exact ⟨row, hrow, part, hstep, hrow'⟩

/-- What a row is that leaves the first column. -/
theorem default_eq_some {pool : Pool} {table : Resolution} {ty : Ty} {row rest : Row}
    (h : row.default? pool table ty = .ok (some rest)) :
    ∃ cell, row = cell :: rest ∧
      ∀ pattern, cell = some pattern → pattern.covers pool table ty = .ok true := by
  match row with
  | some pattern :: cells =>
    rw [Row.default?] at h
    obtain ⟨answer, hcovers, h⟩ := ok_of_bind h
    cases answer <;> cases h
    exact ⟨some pattern, rfl, fun _ heq => Option.some.inj heq ▸ hcovers⟩
  | none :: cells =>
    cases h
    exact ⟨none, rfl, fun _ heq => by cases heq⟩
  | [] => cases h

/-- What a row is that does not match every value of the first column. -/
theorem default_eq_none {pool : Pool} {table : Resolution} {ty : Ty} {row : Row}
    (h : row.default? pool table ty = .ok none) :
    row = [] ∨ ∃ pattern cells, row = some pattern :: cells ∧
      pattern.covers pool table ty = .ok false := by
  match row with
  | some pattern :: cells =>
    rw [Row.default?] at h
    obtain ⟨answer, hcovers, h⟩ := ok_of_bind h
    cases answer <;> cases h
    exact Or.inr ⟨pattern, cells, rfl, hcovers⟩
  | none :: cells => cases h
  | [] => exact Or.inl rfl

/-- A pattern that is taken apart for a record: one for this very record. -/
def Pattern.OpensAs (pool : Pool) (table : Resolution) (ty : Ty) (pattern : Pattern)
    (components : List Pattern) : Prop :=
  ∃ id written span, pattern = .record id written components span ∧
    table.patternTypes[id]? = some ty ∧ components.length = (pool.components ty).length

/-- A first cell that is not taken apart has to cover the record. -/
theorem specialize_cases (pool : Pool) (table : Resolution) (ty : Ty) (pattern : Pattern)
    (cells : Row) :
    (∃ components, pattern.OpensAs pool table ty components ∧
      Row.specialize? pool table ty (some pattern :: cells) =
        .ok (some (components.map some ++ cells))) ∨
    (¬ ∃ components, pattern.OpensAs pool table ty components) ∧
      Row.specialize? pool table ty (some pattern :: cells) = do
        if ← pattern.covers pool table ty then
          return some (List.replicate (pool.components ty).length none ++ cells)
        else return none := by
  cases pattern with
  | record id written components span =>
    rw [Row.specialize?]
    split
    next h => exact Or.inl ⟨components, ⟨id, written, span, rfl, h⟩, rfl⟩
    next h =>
      refine Or.inr ⟨?_, rfl⟩
      rintro ⟨_, _, _, _, heq, hopens⟩
      cases heq
      exact h hopens
  | type | guarded | any | missing =>
    refine Or.inr ⟨?_, rfl⟩
    rintro ⟨_, _, _, _, heq, _⟩
    cases heq

/-- What a row is that can match a record. -/
theorem specialize_eq_some {pool : Pool} {table : Resolution} {ty : Ty} {row rest : Row}
    (h : row.specialize? pool table ty = .ok (some rest)) :
    ∃ cell cells, row = cell :: cells ∧
      ((∃ pattern components, cell = some pattern ∧ pattern.OpensAs pool table ty components ∧
          rest = components.map some ++ cells) ∨
        (rest = List.replicate (pool.components ty).length none ++ cells ∧
          ∀ pattern, cell = some pattern → pattern.covers pool table ty = .ok true)) := by
  match row with
  | some pattern :: cells =>
    refine ⟨some pattern, cells, rfl, ?_⟩
    rcases specialize_cases pool table ty pattern cells with
      ⟨components, hopens, heq⟩ | ⟨_, heq⟩
    · rw [heq] at h
      cases h
      exact Or.inl ⟨pattern, components, rfl, hopens, rfl⟩
    · rw [heq] at h
      obtain ⟨answer, hcovers, h⟩ := ok_of_bind h
      cases answer <;> cases h
      exact Or.inr ⟨rfl, fun _ heq => Option.some.inj heq ▸ hcovers⟩
  | none :: cells =>
    cases h
    exact ⟨none, cells, rfl, Or.inr ⟨rfl, fun _ heq => by cases heq⟩⟩
  | [] => cases h

/-- What a row is that cannot be relied on for a record. -/
theorem specialize_eq_none {pool : Pool} {table : Resolution} {ty : Ty} {row : Row}
    (h : row.specialize? pool table ty = .ok none) :
    row = [] ∨ ∃ pattern cells, row = some pattern :: cells ∧
      pattern.covers pool table ty = .ok false ∧
      ¬ ∃ components, pattern.OpensAs pool table ty components := by
  match row with
  | some pattern :: cells =>
    refine Or.inr ⟨pattern, cells, rfl, ?_⟩
    rcases specialize_cases pool table ty pattern cells with
      ⟨components, _, heq⟩ | ⟨hopens, heq⟩
    · rw [heq] at h
      cases h
    · rw [heq] at h
      obtain ⟨answer, hcovers, h⟩ := ok_of_bind h
      cases answer <;> cases h
      exact ⟨hcovers, hopens⟩
  | none :: cells => cases h
  | [] => exact Or.inl rfl

/-! ## Patterns that match for sure -/

variable {pool : Pool} (model : ValueModel pool) (table : Resolution)

/-- A pattern matches a value although every guard is false that is not known to be true. -/
def Pattern.Surely (pattern : Pattern) (value : model.Value) : Prop :=
  pattern.MatchesUnder model table (fun condition _ => condition.truth = some true) value

/-- Every cell of a row matches the value at its position for sure. -/
def Row.Surely (row : Row) (values : List model.Value) : Prop :=
  List.Forall₂ (fun cell value => ∀ pattern, cell = some pattern → pattern.Surely model table value)
    row values

variable {model table}

/-- A condition that is known to be true holds. -/
def Visit.Sure (holds : Expr → model.Value → Prop) : Visit → Prop
  | expr condition => condition.truth = some true → ∀ value, holds condition value
  | _ => True

mutual

/-- What matches for sure matches whichever further conditions of the pattern hold. -/
theorem Pattern.Surely.matchesUnder_of_each {holds : Expr → model.Value → Prop} :
    ∀ (pattern : Pattern) {value : model.Value}, pattern.Each (Visit.Sure holds) →
      pattern.Surely model table value → pattern.MatchesUnder model table holds value
  | .type .., _, _, h => by simpa [Surely, MatchesUnder] using h
  | .record _ _ components _, _, hsure, h => by
    rw [Surely, MatchesUnder] at h
    rw [MatchesUnder]
    exact ⟨h.1, Pattern.Surely.components components (fun _ => hsure.component) h.2⟩
  | .guarded id patterns condition span, _, hsure, h => by
    rw [Surely, MatchesUnder] at h
    rw [MatchesUnder]
    have hcondition := hsure (.expr condition) (by simp [visits, condition.self_mem_visits])
    exact ⟨Pattern.Surely.all patterns (fun _ => hsure.sub) h.1, hcondition h.2 _⟩
  | .any .., _, _, _ => by simp [MatchesUnder]
  | .missing _, _, _, h => by simp [Surely, MatchesUnder] at h

theorem Pattern.Surely.all {holds : Expr → model.Value → Prop} :
    ∀ (patterns : List Pattern) {value : model.Value},
      (∀ pattern ∈ patterns, pattern.Each (Visit.Sure holds)) →
      Pattern.AllMatchUnder model table (fun condition _ => condition.truth = some true) patterns
        value → Pattern.AllMatchUnder model table holds patterns value
  | [], _, _, _ => by simp [AllMatchUnder]
  | pattern :: patterns, _, hsure, h => by
    rw [AllMatchUnder] at h ⊢
    rw [List.forall_mem_cons] at hsure
    exact ⟨Pattern.Surely.matchesUnder_of_each pattern hsure.1 h.1,
      Pattern.Surely.all patterns hsure.2 h.2⟩

theorem Pattern.Surely.components {holds : Expr → model.Value → Prop} :
    ∀ (patterns : List Pattern) {position : Nat} {value : model.Value},
      (∀ pattern ∈ patterns, pattern.Each (Visit.Sure holds)) →
      Pattern.ComponentsMatchUnder model table (fun condition _ => condition.truth = some true)
        patterns position value →
      Pattern.ComponentsMatchUnder model table holds patterns position value
  | [], _, _, _, _ => by simp [ComponentsMatchUnder]
  | pattern :: patterns, _, _, hsure, h => by
    rw [ComponentsMatchUnder] at h ⊢
    rw [List.forall_mem_cons] at hsure
    exact ⟨Pattern.Surely.matchesUnder_of_each pattern hsure.1 h.1,
      Pattern.Surely.components patterns hsure.2 h.2⟩

end

/-- What matches for sure matches whichever further conditions hold. -/
theorem Pattern.Surely.matchesUnder {holds : Expr → model.Value → Prop}
    (hsure : ∀ condition value, condition.truth = some true → holds condition value)
    (pattern : Pattern) {value : model.Value} (h : pattern.Surely model table value) :
    pattern.MatchesUnder model table holds value := by
  refine Pattern.Surely.matchesUnder_of_each pattern (fun visit _ => ?_) h
  cases visit with
  | expr condition => exact fun htrue value => hsure condition value htrue
  | pattern | binding => trivial

/-! ## Alternatives -/

mutual

/-- Below guards on one pattern each, a pattern matches for sure if one of its alternatives does. -/
theorem alternatives_iff : ∀ (pattern : Pattern) {found : List Pattern} {value : model.Value},
    pattern.Each Visit.Single → pattern.alternatives = .ok found →
      (pattern.Surely model table value ↔ ∃ other ∈ found, other.Surely model table value)
  | .guarded id patterns condition span, found, value, hsingle, h => by
    have hlength : patterns.length = 1 :=
      hsingle (.pattern (.guarded id patterns condition span)) (by simp [Pattern.visits])
    rw [Pattern.Surely, Pattern.MatchesUnder]
    rw [Pattern.alternatives] at h
    split at h
    next hvacuous =>
      rw [(Expr.isVacuous_eq_ok hvacuous).1 rfl]
      simpa using alternativesAll_iff patterns (fun _ => hsingle.sub) hlength h
    next hvacuous =>
      cases h
      have hnot := (Expr.isVacuous_eq_ok hvacuous).not.1 (by decide)
      simp [hnot]
    next => cases h
  | .type .., _, _, _, h | .record .., _, _, _, h | .any .., _, _, _, h => by
    simp only [Pattern.alternatives, Except.ok.injEq] at h
    subst h
    simp
  | .missing _, _, _, _, h => by
    rw [Pattern.alternatives] at h
    cases h

theorem alternativesAll_iff : ∀ (patterns : List Pattern) {found : List Pattern}
    {value : model.Value}, (∀ pattern ∈ patterns, pattern.Each Visit.Single) →
      patterns.length = 1 → Pattern.alternativesAll patterns = .ok found →
      (Pattern.AllMatchUnder model table (fun condition _ => condition.truth = some true) patterns
        value ↔ ∃ other ∈ found, other.Surely model table value)
  | [], _, _, _, hlength, _ => by simp at hlength
  | pattern :: patterns, found, value, hsingle, hlength, h => by
    obtain rfl : patterns = [] := by simpa using hlength
    rw [Pattern.alternativesAll] at h
    obtain ⟨first, hfirst, h⟩ := ok_of_bind h
    rw [Pattern.alternativesAll] at h
    cases h
    rw [List.append_nil, ← alternatives_iff pattern (hsingle pattern (by simp)) hfirst,
      Pattern.AllMatchUnder, Pattern.AllMatchUnder, and_true, Pattern.Surely]

end

/-- A pattern that is not guarded. -/
def Pattern.Plain : Pattern → Prop
  | .guarded .. => False
  | _ => True

mutual

/-- The alternatives of a pattern occur in it, and none of them is guarded. -/
theorem mem_alternatives : ∀ (pattern : Pattern) {found : List Pattern},
    pattern.alternatives = .ok found → ∀ other ∈ found,
      Visit.pattern other ∈ pattern.visits ∧ other.Plain
  | .guarded id patterns condition span, found, h, other, hother => by
    rw [Pattern.alternatives] at h
    split at h
    next =>
      obtain ⟨hvisit, hplain⟩ := mem_alternativesAll patterns h other hother
      refine ⟨?_, hplain⟩
      rw [Pattern.visits, List.mem_cons, List.mem_append]
      exact Or.inr (Or.inl hvisit)
    next =>
      cases h
      simp at hother
    next => cases h
  | .type .., _, h, other, hother | .record .., _, h, other, hother
  | .any .., _, h, other, hother => by
    simp only [Pattern.alternatives, Except.ok.injEq] at h
    subst h
    obtain rfl := List.mem_singleton.1 hother
    simp [Pattern.visits, Pattern.Plain]
  | .missing _, _, h, _, _ => by
    rw [Pattern.alternatives] at h
    cases h

theorem mem_alternativesAll : ∀ (patterns : List Pattern) {found : List Pattern},
    Pattern.alternativesAll patterns = .ok found → ∀ other ∈ found,
      Visit.pattern other ∈ Pattern.visitsAll patterns ∧ other.Plain
  | [], _, h, other, hother => by
    cases h
    simp at hother
  | pattern :: patterns, found, h, other, hother => by
    rw [Pattern.alternativesAll] at h
    obtain ⟨first, hfirst, h⟩ := ok_of_bind h
    obtain ⟨rest, hrest, h⟩ := ok_of_bind h
    cases h
    rw [Pattern.visitsAll, List.mem_append]
    rcases List.mem_append.1 hother with hother | hother
    · obtain ⟨hvisit, hplain⟩ := mem_alternatives pattern hfirst other hother
      exact ⟨Or.inl hvisit, hplain⟩
    · obtain ⟨hvisit, hplain⟩ := mem_alternativesAll patterns hrest other hother
      exact ⟨Or.inr hvisit, hplain⟩

end

/-! ## Rows that fit -/

/-- A row has as many cells as there are columns, and its patterns have a property throughout. -/
structure Row.Fits (property : Visit → Prop) (width : Nat) (row : Row) : Prop where
  length : row.length = width
  each : ∀ pattern, some pattern ∈ row → pattern.Each property

namespace Row.Fits

variable {property : Visit → Prop} {width : Nat}

theorem imp {other : Visit → Prop} (himp : ∀ visit, property visit → other visit) {row : Row}
    (h : Row.Fits property width row) : Row.Fits other width row :=
  ⟨h.length, fun pattern hpattern visit hvisit => himp visit (h.each pattern hpattern visit hvisit)⟩

theorem tail {cell : Option Pattern} {cells : Row}
    (h : Row.Fits property (width + 1) (cell :: cells)) :
    Row.Fits property width cells :=
  ⟨by simpa using h.length,
    fun pattern hpattern => h.each pattern (List.mem_cons_of_mem _ hpattern)⟩

theorem head {pattern : Pattern} {cells : Row}
    (h : Row.Fits property width (some pattern :: cells)) :
    pattern.Each property := h.each pattern (List.mem_cons_self ..)

theorem cons {pattern : Pattern} {cells : Row} (h : Row.Fits property width cells)
    (hpattern : pattern.Each property) : Row.Fits property (width + 1) (some pattern :: cells) := by
  refine ⟨by simpa using h.length, fun other hother => ?_⟩
  rcases List.mem_cons.1 hother with heq | hother
  · cases heq
    exact hpattern
  · exact h.each other hother

theorem append {front cells : Row} {count : Nat} (h : Row.Fits property width cells)
    (hfront : Row.Fits property count front) :
    Row.Fits property (count + width) (front ++ cells) := by
  refine ⟨by rw [List.length_append, hfront.length, h.length], fun pattern hpattern => ?_⟩
  rcases List.mem_append.1 hpattern with hpattern | hpattern
  · exact hfront.each pattern hpattern
  · exact h.each pattern hpattern

theorem replicate (count : Nat) : Row.Fits property count (List.replicate count none) :=
  ⟨List.length_replicate, fun pattern hpattern => by simp at hpattern⟩

theorem expand {row : Row} {parts : List Row} (h : row.expand = .ok parts)
    (hfits : Row.Fits property width row) : ∀ part ∈ parts, Row.Fits property width part := by
  intro part hpart
  match row with
  | some pattern :: cells =>
    rw [Row.expand] at h
    obtain ⟨found, hfound, h⟩ := ok_of_bind h
    cases h
    obtain ⟨other, hother, rfl⟩ := List.mem_map.1 hpart
    obtain ⟨width, rfl⟩ : ∃ rest, width = rest + 1 := ⟨cells.length, hfits.length.symm⟩
    exact hfits.tail.cons (hfits.head.of_visit (mem_alternatives pattern hfound other hother).1)
  | none :: cells | [] =>
    simp only [Row.expand, Except.ok.injEq] at h
    subst h
    obtain rfl := List.mem_singleton.1 hpart
    exact hfits

theorem expandRows {rows expanded : List Row} (h : expandRows rows = .ok expanded)
    (hfits : ∀ row ∈ rows, Row.Fits property width row) :
    ∀ row ∈ expanded, Row.Fits property width row := by
  intro row hrow
  obtain ⟨whole, hwhole, parts, hparts, hrow⟩ := (mem_expandRows h).2 row hrow
  exact (hfits whole hwhole).expand hparts row hrow

theorem default {ty : Ty} {row rest : Row} (h : row.default? pool table ty = .ok (some rest))
    (hfits : Row.Fits property (width + 1) row) : Row.Fits property width rest := by
  obtain ⟨cell, rfl, _⟩ := default_eq_some h
  exact hfits.tail

theorem specialize {ty : Ty} {row rest : Row}
    (h : row.specialize? pool table ty = .ok (some rest))
    (hfits : Row.Fits property (width + 1) row) :
    Row.Fits property ((pool.components ty).length + width) rest := by
  obtain ⟨cell, cells, rfl, hrest⟩ := specialize_eq_some h
  rcases hrest with ⟨_, components, rfl, ⟨id, written, span, rfl, _, hlength⟩, rfl⟩ | ⟨rfl, _⟩
  · refine hfits.tail.append ⟨by simpa using hlength, fun pattern hpattern => ?_⟩
    exact hfits.head.component (by simpa using hpattern)
  · exact hfits.tail.append (.replicate _)

end Row.Fits

theorem foldr_columns {property : List Ty → (List Row → Check) → Prop}
    {step : Ty → (List Row → Check) → List Row → Check}
    (hstep : ∀ ty types rest, property types rest → property (ty :: types) (step ty rest))
    {types : List Ty} {rest : List Row → Check} (h : property types rest) :
    ∀ front : List Ty, property (front ++ types) (front.foldr step rest)
  | [] => h
  | ty :: front => hstep ty _ _ (foldr_columns hstep h front)

/-! ## What a row says about a vector -/

theorem surely_cons {cell : Option Pattern} {cells : Row} {value : model.Value}
    {values : List model.Value} :
    Row.Surely model table (cell :: cells) (value :: values) ↔
      (∀ pattern, cell = some pattern → pattern.Surely model table value) ∧
        Row.Surely model table cells values := by
  rw [Row.Surely, List.forall₂_cons]
  rfl

theorem expand_iff {row : Row} {parts : List Row} {values : List model.Value}
    (h : row.expand = .ok parts)
    (hsingle : ∀ pattern, some pattern ∈ row → pattern.Each Visit.Single) :
    row.Surely model table values ↔ ∃ part ∈ parts, Row.Surely model table part values := by
  match row, values with
  | some pattern :: cells, [] =>
    rw [Row.expand] at h
    obtain ⟨found, _, h⟩ := ok_of_bind h
    cases h
    simp [Row.Surely]
  | some pattern :: cells, value :: values =>
    rw [Row.expand] at h
    obtain ⟨found, hfound, h⟩ := ok_of_bind h
    cases h
    simp only [List.mem_map, exists_exists_and_eq_and, surely_cons, Option.some.injEq,
      forall_eq']
    rw [alternatives_iff pattern (hsingle pattern (by simp)) hfound]
    exact ⟨fun ⟨⟨other, hother, hsure⟩, hcells⟩ => ⟨other, hother, hsure, hcells⟩,
      fun ⟨other, hother, hsure, hcells⟩ => ⟨⟨other, hother, hsure⟩, hcells⟩⟩
  | none :: cells, _ | [], _ =>
    simp only [Row.expand, Except.ok.injEq] at h
    subst h
    simp

/-- **Expanding the first column changes nothing.** -/
theorem expandRows_iff {rows expanded : List Row} {width : Nat} {values : List model.Value}
    (h : expandRows rows = .ok expanded) (hfits : ∀ row ∈ rows, Row.Fits Visit.Single width row) :
    (∃ row ∈ rows, Row.Surely model table row values) ↔
      ∃ row ∈ expanded, Row.Surely model table row values := by
  constructor
  · rintro ⟨row, hrow, hsure⟩
    obtain ⟨parts, hparts, hmem⟩ := (mem_expandRows h).1 row hrow
    obtain ⟨part, hpart, hsure⟩ := (expand_iff hparts (hfits row hrow).each).1 hsure
    exact ⟨part, hmem part hpart, hsure⟩
  · rintro ⟨part, hpart, hsure⟩
    obtain ⟨row, hrow, parts, hparts, hpart⟩ := (mem_expandRows h).2 part hpart
    exact ⟨row, hrow, (expand_iff hparts (hfits row hrow).each).2 ⟨part, hpart, hsure⟩⟩

/-! ## Covering a type -/

theorem inst_of_includes {id : PatternId} {ty : Ty} {value : model.Value}
    (herror : pool.isError ty = false) (h : table.includes pool id ty = true)
    (hvalue : model.inst value ty) : model.inst value (table.patternType id) := by
  rw [Resolution.includes, Bool.and_eq_true, Bool.not_eq_true'] at h
  exact model.inst_mono hvalue herror h.1 h.2

/-- What it takes for a record pattern to cover a type. -/
theorem covers_record {id : PatternId} {written : TypeRef} {components : List Pattern} {span : Span}
    {ty : Ty} (h : (Pattern.record id written components span).covers pool table ty = .ok true) :
    pool.isError ty = false ∧ table.includes pool id ty = true ∧
      components.length = (pool.componentTypes (table.patternType id)).length ∧
      Pattern.coverEach pool table components (pool.componentTypes (table.patternType id)) =
        .ok true := by
  rw [Pattern.covers] at h
  by_cases herror : pool.isError ty = true
  · simp [herror] at h
  by_cases hincludes : table.includes pool id ty = true
  · by_cases hlength : (pool.components (table.patternType id)).length = components.length
    · simp only [herror, hincludes, hlength] at h
      exact ⟨by simpa using herror, hincludes, by simp [Pool.componentTypes, hlength],
        by simpa using h⟩
    · simp [herror, hincludes, hlength] at h
  · simp [herror, hincludes] at h

/-- What it takes for a guarded pattern to cover a type. -/
theorem covers_guarded {id : PatternId} {patterns : List Pattern} {condition : Expr} {span : Span}
    {ty : Ty}
    (h : (Pattern.guarded id patterns condition span).covers pool table ty = .ok true) :
    condition.truth = some true ∧ Pattern.someCovers pool table patterns ty = .ok true := by
  rw [Pattern.covers] at h
  by_cases herror : pool.isError ty = true
  · simp [herror] at h
  · simp only [herror, Bool.false_eq_true, if_false, Check.andThen_eq_true] at h
    exact ⟨(Expr.isVacuous_eq_ok h.1).1 rfl, h.2⟩

section

variable (pool table)

mutual

/-- Wherever a guard has a part in covering a type, all its sub-patterns cover it, not only one. -/
def Pattern.Unanimous : Pattern → Ty → Prop
  | .record id _ components _, _ =>
    Pattern.EachUnanimous components (pool.componentTypes (table.patternType id))
  | .guarded _ patterns _ _, ty => Pattern.AllUnanimous patterns ty
  | .type .., _ | .any .., _ | .missing _, _ => True

/-- The same for patterns and the types at their positions. -/
def Pattern.EachUnanimous : List Pattern → List Ty → Prop
  | pattern :: patterns, ty :: types =>
    pattern.Unanimous ty ∧ Pattern.EachUnanimous patterns types
  | _, _ => True

/-- All patterns cover a type, and so do the sub-patterns of guards in them. -/
def Pattern.AllUnanimous : List Pattern → Ty → Prop
  | [], _ => True
  | pattern :: patterns, ty =>
    pattern.covers pool table ty = .ok true ∧ pattern.Unanimous ty ∧
      Pattern.AllUnanimous patterns ty

end

end

mutual

/-- A guard on one pattern is unanimous. -/
theorem unanimous_of_single : ∀ (pattern : Pattern) {ty : Ty}, pattern.Each Visit.Single →
    pattern.covers pool table ty = .ok true → pattern.Unanimous pool table ty
  | .record id written components span, ty, hsingle, h => by
    rw [Pattern.Unanimous]
    exact eachUnanimous_of_single components (fun _ => hsingle.component) (covers_record h).2.2.2
  | .guarded id patterns condition span, ty, hsingle, h => by
    have hlength : patterns.length = 1 :=
      hsingle (.pattern (.guarded id patterns condition span)) (by simp [Pattern.visits])
    rw [Pattern.Unanimous]
    exact allUnanimous_of_single patterns (fun _ => hsingle.sub) hlength (covers_guarded h).2
  | .type .., _, _, _ | .any .., _, _, _ | .missing _, _, _, _ => by simp [Pattern.Unanimous]

theorem eachUnanimous_of_single : ∀ (patterns : List Pattern) {types : List Ty},
    (∀ pattern ∈ patterns, pattern.Each Visit.Single) →
      Pattern.coverEach pool table patterns types = .ok true →
      Pattern.EachUnanimous pool table patterns types
  | [], _, _, _ | _ :: _, [], _, _ => by simp [Pattern.EachUnanimous]
  | pattern :: patterns, ty :: types, hsingle, h => by
    rw [Pattern.coverEach, Check.andThen_eq_true] at h
    rw [Pattern.EachUnanimous]
    exact ⟨unanimous_of_single pattern (hsingle pattern (by simp)) h.1,
      eachUnanimous_of_single patterns (fun other hother => hsingle other (by simp [hother])) h.2⟩

theorem allUnanimous_of_single : ∀ (patterns : List Pattern) {ty : Ty},
    (∀ pattern ∈ patterns, pattern.Each Visit.Single) → patterns.length = 1 →
      Pattern.someCovers pool table patterns ty = .ok true →
      Pattern.AllUnanimous pool table patterns ty
  | [], _, _, hlength, _ => by simp at hlength
  | pattern :: patterns, ty, hsingle, hlength, h => by
    obtain rfl : patterns = [] := by simpa using hlength
    rw [Pattern.someCovers, Check.orElse_eq_true] at h
    rcases h with h | ⟨_, h⟩
    · rw [Pattern.AllUnanimous, Pattern.AllUnanimous]
      exact ⟨h, unanimous_of_single pattern (hsingle pattern (by simp)) h, trivial⟩
    · rw [Pattern.someCovers] at h
      cases h

end

mutual

/-- **A pattern that covers a type unanimously matches all its values for sure.** -/
theorem surely_of_unanimous : ∀ (pattern : Pattern) {ty : Ty} {value : model.Value},
    pattern.Unanimous pool table ty → pattern.covers pool table ty = .ok true →
      model.inst value ty → pattern.Surely model table value
  | .type id written binds span, ty, value, _, h, hvalue => by
    rw [Pattern.covers] at h
    split at h
    next => cases h
    next herror =>
      rw [Pattern.Surely, Pattern.MatchesUnder]
      exact inst_of_includes (by simpa using herror) (Except.ok.inj h) hvalue
  | .record id written components span, ty, value, hunanimous, h, hvalue => by
    obtain ⟨herror, hincludes, hlength, heach⟩ := covers_record h
    have hinst := inst_of_includes herror hincludes hvalue
    rw [Pattern.Unanimous] at hunanimous
    rw [Pattern.Surely, Pattern.MatchesUnder]
    refine ⟨hinst, components_of_coverEach components hunanimous heach hlength ?_⟩
    intro position component hcomponent
    rw [Nat.zero_add]
    exact model.inst_proj hinst hcomponent
  | .guarded id patterns condition span, ty, value, hunanimous, h, hvalue => by
    rw [Pattern.Unanimous] at hunanimous
    rw [Pattern.Surely, Pattern.MatchesUnder]
    exact ⟨all_of_allUnanimous patterns hunanimous hvalue, (covers_guarded h).1⟩
  | .any .., _, _, _, _, _ => by simp [Pattern.Surely, Pattern.MatchesUnder]
  | .missing _, _, _, _, h, _ => by
    rw [Pattern.covers] at h
    split at h <;> cases h

theorem components_of_coverEach : ∀ (patterns : List Pattern) {types : List Ty} {position : Nat}
    {value : model.Value}, Pattern.EachUnanimous pool table patterns types →
      Pattern.coverEach pool table patterns types = .ok true → patterns.length = types.length →
      (∀ (index : Nat) component, types[index]? = some component →
        model.inst (model.proj value (position + index)) component) →
      Pattern.ComponentsMatchUnder model table (fun condition _ => condition.truth = some true)
        patterns position value
  | [], _, _, _, _, _, _, _ => by simp [Pattern.ComponentsMatchUnder]
  | pattern :: patterns, [], _, _, _, _, hlength, _ => by simp at hlength
  | pattern :: patterns, ty :: types, position, value, hunanimous, h, hlength, hinst => by
    rw [Pattern.coverEach, Check.andThen_eq_true] at h
    rw [Pattern.EachUnanimous] at hunanimous
    rw [Pattern.ComponentsMatchUnder]
    refine ⟨surely_of_unanimous pattern hunanimous.1 h.1 (hinst 0 ty rfl),
      components_of_coverEach patterns hunanimous.2 h.2 (by simpa using hlength)
        fun index component hcomponent => ?_⟩
    rw [Nat.add_right_comm]
    exact hinst (index + 1) component hcomponent

theorem all_of_allUnanimous : ∀ (patterns : List Pattern) {ty : Ty} {value : model.Value},
    Pattern.AllUnanimous pool table patterns ty → model.inst value ty →
      Pattern.AllMatchUnder model table (fun condition _ => condition.truth = some true) patterns
        value
  | [], _, _, _, _ => by simp [Pattern.AllMatchUnder]
  | pattern :: patterns, ty, value, hall, hvalue => by
    rw [Pattern.AllUnanimous] at hall
    rw [Pattern.AllMatchUnder]
    exact ⟨surely_of_unanimous pattern hall.2.1 hall.1 hvalue,
      all_of_allUnanimous patterns hall.2.2 hvalue⟩

end

/-- **A pattern that covers a type matches all its values for sure**, below guards on one pattern
each. -/
theorem surely_of_covers (pattern : Pattern) {ty : Ty} {value : model.Value}
    (hsingle : pattern.Each Visit.Single) (h : pattern.covers pool table ty = .ok true)
    (hvalue : model.inst value ty) : pattern.Surely model table value :=
  surely_of_unanimous pattern (unanimous_of_single pattern hsingle h) h hvalue

/-- **What is left of a row after a type, matched, makes the row match its values.** -/
theorem surely_of_default {ty : Ty} {row rest : Row} {width : Nat} {value : model.Value}
    {values : List model.Value} (h : row.default? pool table ty = .ok (some rest))
    (hfits : Row.Fits Visit.Single width row) (hvalue : model.inst value ty)
    (hrest : Row.Surely model table rest values) :
    Row.Surely model table row (value :: values) := by
  obtain ⟨cell, rfl, hcovers⟩ := default_eq_some h
  refine surely_cons.2 ⟨fun pattern heq => ?_, hrest⟩
  subst heq
  exact surely_of_covers pattern hfits.head (hcovers pattern rfl) hvalue

/-- A vector of values has the types of the columns. -/
def ValueModel.Typed (model : ValueModel pool) (types : List Ty) (values : List model.Value) :
    Prop := List.Forall₂ (fun ty value => model.inst value ty) types values

/-! ## Taking a record apart -/

/-- The components of a value, from the first. -/
def ValueModel.components (model : ValueModel pool) (value : model.Value) (count : Nat) :
    List model.Value := (List.range' 0 count).map (model.proj value)

@[simp]
theorem length_components {value : model.Value} {count : Nat} :
    (model.components value count).length = count := by simp [ValueModel.components]

theorem typed_components {ty : Ty} {value : model.Value} (h : model.inst value ty) :
    model.Typed (pool.componentTypes ty) (model.components value (pool.components ty).length) := by
  have hlength : (pool.componentTypes ty).length = (pool.components ty).length := by
    simp [Pool.componentTypes]
  refine List.forall₂_iff_get.2 ⟨by simp [hlength], fun position hleft hright => ?_⟩
  have hproj : (model.components value (pool.components ty).length).get ⟨position, hright⟩ =
      model.proj value position := by simp [ValueModel.components]
  rw [hproj]
  exact model.inst_proj h (by simp)

theorem surely_append {front cells : Row} {fronts values : List model.Value}
    (hlength : front.length = fronts.length) :
    Row.Surely model table (front ++ cells) (fronts ++ values) ↔
      Row.Surely model table front fronts ∧ Row.Surely model table cells values := by
  induction front generalizing fronts with
  | nil =>
    obtain rfl := List.length_eq_zero_iff.1 hlength.symm
    simp [Row.Surely]
  | cons cell front ih =>
    match fronts, hlength with
    | value :: fronts, hlength =>
      rw [List.cons_append, List.cons_append, surely_cons, surely_cons,
        ih (Nat.succ.inj hlength), and_assoc]

theorem surely_replicate (values : List model.Value) :
    Row.Surely model table (List.replicate values.length none) values := by
  induction values with
  | nil => exact .nil
  | cons value values ih => exact surely_cons.2 ⟨fun _ heq => (by cases heq), ih⟩

theorem components_iff {value : model.Value} (patterns : List Pattern) (position : Nat) :
    Pattern.ComponentsMatchUnder model table (fun condition _ => condition.truth = some true)
        patterns position value ↔
      Row.Surely model table (patterns.map some)
        ((List.range' position patterns.length).map (model.proj value)) := by
  induction patterns generalizing position with
  | nil => simp [Pattern.ComponentsMatchUnder, Row.Surely]
  | cons pattern patterns ih =>
    rw [Pattern.ComponentsMatchUnder, ih, List.map_cons, List.length_cons, List.range'_succ,
      List.map_cons, surely_cons]
    simp [Pattern.Surely]

/-- A record pattern, taken apart for values of its type, matches what its components match. -/
theorem surely_iff_of_opensAs {ty : Ty} {pattern : Pattern} {components : List Pattern}
    {value : model.Value} (h : pattern.OpensAs pool table ty components)
    (hvalue : model.inst value ty) :
    pattern.Surely model table value ↔ Row.Surely model table (components.map some)
      (model.components value (pool.components ty).length) := by
  obtain ⟨id, written, span, rfl, hty, hlength⟩ := h
  have hinst : model.inst value (table.patternType id) := by
    rw [Resolution.patternType, hty]
    exact hvalue
  rw [Pattern.Surely, Pattern.MatchesUnder, components_iff, hlength, ValueModel.components]
  exact and_iff_right hinst

/-- **What is left of a row for the components of a record, matched, makes the row match.** -/
theorem surely_of_specialize {ty : Ty} {row rest : Row} {width : Nat} {value : model.Value}
    {values : List model.Value} (h : row.specialize? pool table ty = .ok (some rest))
    (hfits : Row.Fits Visit.Single width row) (hvalue : model.inst value ty)
    (hrest : Row.Surely model table rest
      (model.components value (pool.components ty).length ++ values)) :
    Row.Surely model table row (value :: values) := by
  obtain ⟨cell, cells, rfl, hcell⟩ := specialize_eq_some h
  rcases hcell with ⟨pattern, components, rfl, hopens, rfl⟩ | ⟨rfl, hcovers⟩
  · have hlength : (components.map some).length =
        (model.components value (pool.components ty).length).length := by
      obtain ⟨_, _, _, _, _, hlength⟩ := hopens
      simpa using hlength
    obtain ⟨hcomponents, hcells⟩ := (surely_append hlength).1 hrest
    refine surely_cons.2 ⟨fun _ heq => ?_, hcells⟩
    cases heq
    exact (surely_iff_of_opensAs hopens hvalue).2 hcomponents
  · have hcells := ((surely_append (by simp)).1 hrest).2
    refine surely_cons.2 ⟨fun pattern heq => ?_, hcells⟩
    subst heq
    exact surely_of_covers pattern hfits.head (hcovers pattern rfl) hvalue

/-! ## The check of a switch -/

/-- A switch is checked on one column, that of the selector. -/
theorem isExhaustive_of_checkSwitch {forest : Forest} {cases : List PatternId} {selector : Ty}
    {span : Span} {report : SwitchReport} {offered : List Diagnostic}
    (h : forest.checkSwitch pool table cases selector span = .ok (report, offered)) :
    isExhaustive pool table forest.depth (cases.map forest.pattern) selector =
      .ok report.exhaustive := by
  rw [Forest.checkSwitch_eq, Forest.findings] at h
  obtain ⟨dominated, _, h⟩ := ok_of_bind h
  obtain ⟨notes, _, h⟩ := ok_of_bind h
  obtain ⟨exhaustive, hexhaustive, h⟩ := ok_of_bind h
  cases h
  exact hexhaustive

theorem fits_cases {property : Visit → Prop} {patterns : List Pattern}
    (h : ∀ pattern ∈ patterns, pattern.Each property) :
    ∀ row ∈ patterns.map fun pattern => [some pattern], Row.Fits property 1 row := by
  intro row hrow
  obtain ⟨pattern, hpattern, rfl⟩ := List.mem_map.1 hrow
  exact Row.Fits.cons ⟨rfl, by simp⟩ (h pattern hpattern)

theorem surely_singleton {pattern : Pattern} {value : model.Value} :
    Row.Surely model table [some pattern] [value] ↔ pattern.Surely model table value := by
  rw [surely_cons]
  exact ⟨fun h => h.1 pattern rfl, fun h => ⟨fun _ heq => Option.some.inj heq ▸ h, .nil⟩⟩

end GuardedMatch
