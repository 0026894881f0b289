import GuardedMatch.Proofs.Numbers

/-!
# Conversions of operands

An operator may require its operands in other types than they have.  A box is then opened, and a
number is widened: the types of numbers are ranked, and an operator works on two numbers in the type
of the higher rank, or in `int` if both ranks are lower.

* `Ty.promoted?`: the type in which an operator works on two numbers, by their ranks.
* `Conversion.target?`: the type that a conversion takes a type to, if it can be applied to it.
* `Pool.Declared.promote_eq_promoted?`: numbers are promoted by their ranks in every pool.
* `Resolver.unary_meets`, `Resolver.logical_meets`, `Resolver.binary_meets`, `Resolver.guard_meets`:
  operators note the conversions that take their operands to the types that they require.
-/

namespace GuardedMatch

/-! ## Ranks -/

namespace Ty

/-- The types of numbers, from the narrowest to the widest. -/
def numbers : List Ty := [char, int, long, double]

/-- The place of a type of numbers. -/
def rank? (ty : Ty) : Option Nat := numbers.idxOf? ty

/-- The type in a box, or the type itself. -/
def bare (ty : Ty) : Ty := ty.unboxed?.getD ty

/-- The type in which an operator works on two numbers. -/
def promoted? (left right : Ty) : Option Ty := do
  let leftRank ← left.bare.rank?
  let rightRank ← right.bare.rank?
  numbers[max 1 (max leftRank rightRank)]?

/-- Whether one type of numbers has a lower rank than another. -/
def narrower (source target : Ty) : Bool :=
  source.rank?.any fun low => target.rank?.any fun high => decide (low < high)

/-- A type is another one or of a lower rank, once its box is opened. -/
def Reaches (source target : Ty) : Prop := source.bare = target ∨ source.bare.narrower target = true

/-- What holds of the built-in types and of all later numbers holds of all types. -/
theorem forall_of_builtin {motive : Ty → Prop} (hbuiltin : ∀ index < 13, motive ⟨index⟩)
    (hlater : ∀ ty : Ty, 13 ≤ ty.index → motive ty) (ty : Ty) : motive ty := by
  by_cases hty : ty.index < 13
  · exact hbuiltin ty.index hty
  · exact hlater ty (Nat.le_of_not_lt hty)

theorem ne_of_later {ty : Ty} (h : 13 ≤ ty.index) {index : Nat} (hindex : index < 13) :
    (⟨index⟩ : Ty) ≠ ty := by
  rintro rfl
  exact absurd h (Nat.not_le_of_lt hindex)

theorem unboxed?_of_later {ty : Ty} (h : 13 ≤ ty.index) : ty.unboxed? = Option.none := by
  have hne : ∀ {index : Nat}, index < 13 → (⟨index⟩ : Ty) ≠ ty := ne_of_later h
  simp [unboxed?, boxes, booleanBox, integerBox, longBox, doubleBox, characterBox, hne]

theorem primitive?_of_later {ty : Ty} (h : 13 ≤ ty.index) :
    Pool.builtin.primitive? ty = Option.none := by
  have hbuiltin : Pool.builtin.Declared fun _ _ => True := .builtin
  have hlarge : ¬ ty.index ≤ char.index := fun hle =>
    Nat.not_lt_of_le h (hle.trans_lt (by decide : char.index < 13))
  rw [Pool.primitive?, hbuiltin.isPrimitive_eq, isPrimitive, decide_eq_false hlarge]
  exact unboxed?_of_later h

theorem rank?_eq_some_iff {ty : Ty} {rank : Nat} :
    ty.rank? = some rank ↔ numbers[rank]? = some ty := by
  rw [rank?, List.idxOf?, List.findIdx?_eq_some_iff_getElem, List.getElem?_eq_some_iff]
  refine exists_congr fun hrank => ⟨fun h => beq_iff_eq.mp h.1, fun h => ⟨beq_iff_eq.mpr h, ?_⟩⟩
  -- No type has two ranks.
  intro earlier hlt heq
  have hsame := beq_iff_eq.mp heq
  rw [← h, List.Nodup.getElem_inj_iff (by decide : numbers.Nodup)] at hsame
  exact absurd hsame hlt.ne

/-- What can be unboxed is no type of numbers itself. -/
theorem box_of_unboxed? {ty primitive : Ty} (h : ty.unboxed? = some primitive) :
    primitive ≠ ty ∧ ty.rank? = Option.none := by
  obtain ⟨box, hbox, rfl⟩ := Option.map_eq_some_iff.mp h
  have hall : ∀ box ∈ boxes, box.1 ≠ box.2 ∧ box.2.rank? = Option.none := by decide
  have heq := List.find?_some hbox
  rw [← beq_iff_eq.mp heq]
  exact hall box (List.mem_of_find?_eq_some hbox)

theorem narrower_iff {source target : Ty} : source.narrower target = true ↔
    ∃ low high, source.rank? = some low ∧ target.rank? = some high ∧ low < high := by
  simp [narrower, Option.any_eq_true]

theorem rank?_bare (ty : Ty) : ty.bare.rank? = (Pool.builtin.primitive? ty).bind rank? := by
  refine forall_of_builtin (motive := fun ty => ty.bare.rank? =
    (Pool.builtin.primitive? ty).bind rank?) (by decide) (fun ty hty => ?_) ty
  have hne : ∀ {index : Nat}, index < 13 → (⟨index⟩ : Ty) ≠ ty := ne_of_later hty
  rw [bare, unboxed?_of_later hty, primitive?_of_later hty]
  simp [rank?, numbers, List.idxOf?_cons, char, int, long, double, hne]

theorem primitive?_eq_boolean_iff (ty : Ty) :
    Pool.builtin.primitive? ty = some boolean ↔ ty.bare = boolean := by
  refine forall_of_builtin (motive := fun ty => Pool.builtin.primitive? ty = some boolean ↔
    ty.bare = boolean) (by decide) (fun ty hty => ?_) ty
  rw [bare, unboxed?_of_later hty, primitive?_of_later hty]
  exact iff_of_false nofun (ne_of_later hty (by decide)).symm

/-- A type of numbers reaches every type of its rank or a higher one. -/
theorem reaches_of_rank {source target : Ty} {low high : Nat} (hlow : source.bare.rank? = some low)
    (hhigh : numbers[high]? = some target) (hle : low ≤ high) : source.Reaches target := by
  rcases hle.eq_or_lt with rfl | hlt
  · exact .inl (Option.some.inj ((rank?_eq_some_iff.mp hlow).symm.trans hhigh))
  · refine .inr ?_
    rw [narrower, hlow, rank?_eq_some_iff.mpr hhigh]
    exact decide_eq_true hlt

theorem reaches_of_promoted? {left right target : Ty} (h : left.promoted? right = some target) :
    left.Reaches target ∧ right.Reaches target := by
  simp only [promoted?, Option.bind_eq_bind, Option.bind_eq_some_iff] at h
  obtain ⟨leftRank, hleft, rightRank, hright, htarget⟩ := h
  exact ⟨reaches_of_rank hleft htarget (by omega), reaches_of_rank hright htarget (by omega)⟩

theorem promoted?_of_boolean {left : Ty} (h : left.bare = boolean) (right : Ty) :
    left.promoted? right = Option.none := by
  rw [promoted?, h]
  rfl

end Ty

namespace Pool

variable {pool : Pool} {allowed : Pool → Ty → Prop}

theorem primitive?_lt {ty primitive : Ty} (h : Pool.builtin.primitive? ty = some primitive) :
    primitive.index < 5 := by
  have hbuiltin : Pool.builtin.Declared fun _ _ => True := .builtin
  rw [primitive?, hbuiltin.isPrimitive_eq] at h
  split at h
  next hty =>
    rw [← Option.some.inj h]
    exact Nat.lt_succ_of_le (of_decide_eq_true hty)
  next =>
    obtain ⟨box, hbox, rfl⟩ := Option.map_eq_some_iff.mp h
    have hall : ∀ box ∈ Ty.boxes, box.1.index < 5 := by decide
    exact hall box (List.mem_of_find?_eq_some hbox)

/-- **Numbers are promoted by their ranks.** -/
theorem Declared.promote_eq_promoted? (h : pool.Declared allowed) (left right : Ty) :
    pool.promote left right = left.promoted? right := by
  rw [h.promote_eq, promote, Ty.promoted?, Ty.rank?_bare, Ty.rank?_bare]
  cases hleft : Pool.builtin.primitive? left with
  | none => rfl
  | some l =>
    cases hright : Pool.builtin.primitive? right with
    | none => exact (Option.bind_fun_none _).symm
    | some r =>
      have hall : ∀ i < 5, ∀ j < 5,
          (if !Pool.builtin.isNumeric ⟨i⟩ || !Pool.builtin.isNumeric ⟨j⟩ then none
          else if (⟨i⟩ : Ty) = Ty.double ∨ (⟨j⟩ : Ty) = Ty.double then some Ty.double
          else if (⟨i⟩ : Ty) = Ty.long ∨ (⟨j⟩ : Ty) = Ty.long then some Ty.long
          else some Ty.int) = (Ty.rank? ⟨i⟩).bind fun leftRank =>
            (Ty.rank? ⟨j⟩).bind fun rightRank =>
              Ty.numbers[max 1 (max leftRank rightRank)]? := by
        decide
      exact hall l.index (primitive?_lt hleft) r.index (primitive?_lt hright)

theorem Declared.isBoolean_iff (h : pool.Declared allowed) (ty : Ty) :
    pool.isBoolean ty = true ↔ ty.bare = Ty.boolean := by
  rw [h.isBoolean_eq, isBoolean, beq_iff_eq, Ty.primitive?_eq_boolean_iff]

end Pool

/-! ## Requirements -/

/-- The type that a conversion takes a type to, if it can be applied: only what is in a box can be
unboxed, and a number can only be widened to a type of a higher rank. -/
def Conversion.target? (source : Ty) : Conversion → Option Ty
  | unbox => source.unboxed?
  | widen target => if source.narrower target then some target else none
  | unboxAndWiden target => source.unboxed?.bind fun primitive =>
    if primitive.narrower target then some target else none

/-- The type after a conversion, or the type itself if there is none. -/
def Conversion.applied? (conversion : Option Conversion) (source : Ty) : Option Ty :=
  conversion.elim (some source) (target? source)

/-- The type that a unary operator requires of its operand. -/
def UnaryOp.required? (op : UnaryOp) (source : Ty) : Option Ty :=
  match op with
  | not => some Ty.boolean
  | neg => source.promoted? Ty.int

/-- The type that a binary operator requires of an operand, one of two of the given types. -/
def BinaryOp.required? (op : BinaryOp) (left right source : Ty) : Option Ty :=
  if op.isLogical then some Ty.boolean
  else if op.isEquality ∧ left.bare = Ty.boolean ∧ right.bare = Ty.boolean then some Ty.boolean
  -- References are compared as they are.
  else if op.isEquality ∧ left.promoted? right = none then some source
  else left.promoted? right

namespace BinaryOp

variable {op : BinaryOp} {left right : Ty}

theorem required?_of_logical (hop : op.isLogical = true) (source : Ty) :
    op.required? left right source = some Ty.boolean := if_pos hop

theorem required?_of_numbers (hop : op.isLogical = false) {promoted : Ty}
    (h : left.promoted? right = some promoted) (source : Ty) :
    op.required? left right source = some promoted := by
  have hbooleans : ¬ (op.isEquality = true ∧ left.bare = Ty.boolean ∧ right.bare = Ty.boolean) := by
    rintro ⟨-, hboolean, -⟩
    rw [Ty.promoted?_of_boolean hboolean] at h
    cases h
  rw [required?, if_neg (Bool.not_eq_true _ ▸ hop), if_neg hbooleans, h,
    if_neg fun hnone => Option.some_ne_none _ hnone.2]

theorem required?_of_booleans (hop : op.isLogical = false) (h : op.isEquality = true ∧
    left.bare = Ty.boolean ∧ right.bare = Ty.boolean) (source : Ty) :
    op.required? left right source = some Ty.boolean := by
  rw [required?, if_neg (Bool.not_eq_true _ ▸ hop), if_pos h]

theorem required?_of_references (hop : op.isLogical = false) (heq : op.isEquality = true)
    (hbooleans : ¬ (op.isEquality = true ∧ left.bare = Ty.boolean ∧ right.bare = Ty.boolean))
    (h : left.promoted? right = none) (source : Ty) :
    op.required? left right source = some source := by
  rw [required?, if_neg (Bool.not_eq_true _ ▸ hop), if_neg hbooleans, if_pos ⟨heq, h⟩]

end BinaryOp

/-- The conversion from one type to another. -/
def Conversion.between (source target : Ty) : Conversion :=
  match source.unboxed? with
  | some primitive => if primitive = target then unbox else unboxAndWiden target
  | none => widen target

theorem Conversion.applied?_between {source target : Ty} (h : source.Reaches target)
    (hne : source ≠ target) : applied? (some (between source target)) source = some target := by
  rw [Ty.Reaches, Ty.bare] at h
  rw [applied?, Option.elim_some, between]
  cases hsource : source.unboxed? with
  | some primitive =>
    rw [hsource, Option.getD_some] at h
    dsimp only
    split
    next heq => rw [target?, hsource, heq]
    next hprimitive => rw [target?, hsource, Option.bind_some, if_pos (h.resolve_left hprimitive)]
  | none =>
    rw [hsource, Option.getD_none] at h
    dsimp only
    rw [target?, if_pos (h.resolve_left hne)]

/-- Every conversion changes the type. -/
theorem Conversion.target?_ne_self (conversion : Conversion) (source : Ty) :
    conversion.target? source ≠ some source := by
  intro h
  cases conversion with
  | unbox => exact (Ty.box_of_unboxed? h).1 rfl
  | widen target =>
    rw [target?, Option.ite_none_right_eq_some] at h
    rw [Option.some.inj h.2] at h
    obtain ⟨low, high, hlow, hhigh, hlt⟩ := Ty.narrower_iff.mp h.1
    exact hlt.ne (Option.some.inj (hlow.symm.trans hhigh))
  | unboxAndWiden target =>
    rw [target?, Option.bind_eq_some_iff] at h
    obtain ⟨primitive, hprimitive, h⟩ := h
    rw [Option.ite_none_right_eq_some] at h
    rw [Option.some.inj h.2] at h
    obtain ⟨_, high, _, hhigh, _⟩ := Ty.narrower_iff.mp h.1
    rw [(Ty.box_of_unboxed? hprimitive).2] at hhigh
    cases hhigh

/-- There is no conversion if and only if the type is already the right one. -/
theorem Conversion.eq_none_iff {conversion : Option Conversion} {source target : Ty}
    (h : applied? conversion source = some target) : conversion = none ↔ source = target := by
  cases conversion with
  | none => exact iff_of_true rfl (Option.some.inj h)
  | some conversion =>
    refine iff_of_false (by simp) ?_
    rintro rfl
    exact conversion.target?_ne_self source h

/-! ## Operators -/

/-- An operand, the type it has and the type it is required to have. -/
structure Demand where
  operand : ExprId
  source : Ty
  required : Option Ty
deriving DecidableEq

/-- A demand is met: the operand is converted to the required type. -/
def Resolution.Met (table : Resolution) (demand : Demand) : Prop :=
  ∃ ty, demand.required = some ty ∧
    Conversion.applied? table.conversions[demand.operand]? demand.source = some ty

namespace Resolver

/-- At most conversions of the operands are noted. -/
structure Notes (operands : List ExprId) (state after : Resolver) : Prop where
  exprs : after.table.exprTypes = state.table.exprTypes
  patterns : after.table.patternTypes = state.table.patternTypes
  conversions : ∀ id ∉ operands, after.table.conversions[id]? = state.table.conversions[id]?
  silent : after.queue.IsSilent → state.queue.IsSilent

/-- An action that notes conversions of operands that have none, and meets demands on them, unless
there is something to report. -/
structure Meets (pool : Pool) (demands : List Demand) {α : Type} (action : ResolveM α) : Prop where
  ensures : ∀ state : Resolver,
    (∀ demand ∈ demands, state.table.conversions[demand.operand]? = none) →
    (demands.map (·.operand)).Nodup →
    Ensures action state (fun _ => True) fun _ after =>
      Notes (demands.map (·.operand)) state after ∧
      (after.queue.IsSilent → (∀ demand ∈ demands, pool.isError demand.source = false) →
        ∀ demand ∈ demands, after.table.Met demand)

variable {pool : Pool} {allowed : Pool → Ty → Prop}

theorem Notes.refl (operands : List ExprId) (state : Resolver) : Notes operands state state :=
  ⟨rfl, rfl, fun _ _ => rfl, fun h => h⟩

theorem Notes.trans {operands : List ExprId} {state mid after : Resolver}
    (h : Notes operands state mid) (h' : Notes operands mid after) : Notes operands state after :=
  ⟨h'.exprs.trans h.exprs, h'.patterns.trans h.patterns,
    fun id hid => (h'.conversions id hid).trans (h.conversions id hid),
    fun hafter => h.silent (h'.silent hafter)⟩

theorem Notes.mono {operands operands' : List ExprId} {state after : Resolver}
    (h : Notes operands state after) (hsub : operands ⊆ operands') : Notes operands' state after :=
  ⟨h.exprs, h.patterns, fun id hid => h.conversions id fun hmem => hid (hsub hmem), h.silent⟩

theorem Notes.offer (operands : List ExprId) (state : Resolver) (diagnostic : Diagnostic) :
    Notes operands state { state with queue := (state.queue.add diagnostic).2 } :=
  ⟨rfl, rfl, fun _ _ => rfl, fun h => by simp at h⟩

/-- If there is nothing wrong with an operand and it has no conversion yet, it is converted to a
type that its own reaches. -/
theorem convert_ensures (operand : ExprId) (source target : Ty) (state : Resolver) :
    Ensures (convert pool operand source target) state (fun _ => True) fun _ after =>
      Notes [operand] state after ∧ after.queue = state.queue ∧
      (pool.isError source = false → state.table.conversions[operand]? = none →
        source.Reaches target → after.table.Met ⟨operand, source, some target⟩) := by
  rw [convert]
  split
  next hconvert =>
    refine Ensures.modifies ⟨⟨rfl, rfl, fun id hid => ?_, fun h => h⟩, rfl,
      fun _ _ hreaches => ⟨target, rfl, ?_⟩⟩
    · refine Std.ExtTreeMap.getElem?_insert.trans (if_neg fun heq => hid ?_)
      exact List.mem_singleton.mpr (Nat.compare_eq_eq.mp heq).symm
    · refine (congrArg (Conversion.applied? · source) Std.ExtTreeMap.getElem?_insert_self).trans ?_
      exact Conversion.applied?_between hreaches hconvert.1
  next hsame =>
    refine Ensures.pure ⟨.refl _ _, rfl, fun herror hnone _ => ⟨target, rfl, ?_⟩⟩
    have heq : source = target := by
      by_contra hne
      exact hsame ⟨hne, by rw [herror]; rfl⟩
    rw [hnone, heq]
    rfl

/-- Other operands keep their conversions. -/
theorem Notes.met {state after : Resolver} {demand : Demand} {operands : List ExprId}
    (h : Notes operands state after) (hmet : state.table.Met demand)
    (hother : demand.operand ∉ operands) : after.table.Met demand := by
  obtain ⟨ty, hrequired, happlied⟩ := hmet
  exact ⟨ty, hrequired, by rw [h.conversions _ hother, happlied]⟩

theorem convert_both_ensures {left right : ExprId} (hne : left ≠ right) (leftTy rightTy : Ty)
    (target : Ty) (state : Resolver) :
    Ensures (do
      convert pool left leftTy target
      convert pool right rightTy target) state (fun _ => True) fun _ after =>
      Notes [left, right] state after ∧
      (pool.isError leftTy = false → pool.isError rightTy = false →
        state.table.conversions[left]? = none → state.table.conversions[right]? = none →
        leftTy.Reaches target → rightTy.Reaches target →
        after.table.Met ⟨left, leftTy, some target⟩ ∧
          after.table.Met ⟨right, rightTy, some target⟩) := by
  refine (convert_ensures left leftTy target state).seq ?_
  rintro _ mid ⟨hmid, -, hmet⟩
  refine (convert_ensures right rightTy target mid).mono ?_
  rintro _ after ⟨hafter, -, hmet'⟩
  refine ⟨(hmid.mono (by simp)).trans (hafter.mono (by simp)), ?_⟩
  intro hleftError hrightError hleft hright hleftReaches hrightReaches
  have hright' : mid.table.conversions[right]? = none := by
    rw [hmid.conversions right (by simpa using hne.symm), hright]
  exact ⟨hafter.met (hmet hleftError hleft hleftReaches) (by simpa using hne),
    hmet' hrightError hright' hrightReaches⟩

theorem expectBoolean_ensures (hpool : pool.Declared allowed) (operand : ExprId) (ty : Ty)
    (state : Resolver) :
    Ensures (expectBoolean pool operand ty) state (fun _ => True) fun ok after =>
      Notes [operand] state after ∧
      (ok = true → pool.isError ty = false → state.table.conversions[operand]? = none →
        after.table.Met ⟨operand, ty, some Ty.boolean⟩) := by
  rw [expectBoolean]
  split
  next hboolean =>
    refine (convert_ensures operand ty Ty.boolean state).seq ?_
    rintro _ after ⟨hafter, -, hmet⟩
    exact Ensures.pure ⟨hafter, fun _ herror hnone =>
      hmet herror hnone (.inl ((hpool.isBoolean_iff ty).mp hboolean))⟩
  next =>
    refine Ensures.pure ⟨.refl _ _, fun hok herror => ?_⟩
    rw [herror] at hok
    cases hok

theorem Meets.one {demand : Demand} {α : Type} {action : ResolveM α}
    (h : ∀ state : Resolver, state.table.conversions[demand.operand]? = none →
      Ensures action state (fun _ => True) fun _ after => Notes [demand.operand] state after ∧
        (after.queue.IsSilent → pool.isError demand.source = false → after.table.Met demand)) :
    Meets pool [demand] action := by
  refine ⟨fun state hnone _ => (h state (hnone _ (List.mem_singleton_self _))).mono ?_⟩
  rintro _ after ⟨hafter, hmet⟩
  refine ⟨hafter, fun hoffered herror other hother => ?_⟩
  rw [List.mem_singleton.mp hother]
  exact hmet hoffered (herror _ (List.mem_singleton_self _))

theorem Meets.two {first second : Demand} {α : Type} {action : ResolveM α}
    (h : ∀ state : Resolver, first.operand ≠ second.operand →
      state.table.conversions[first.operand]? = none →
      state.table.conversions[second.operand]? = none →
      Ensures action state (fun _ => True) fun _ after =>
        Notes [first.operand, second.operand] state after ∧
        (after.queue.IsSilent → pool.isError first.source = false →
          pool.isError second.source = false → after.table.Met first ∧ after.table.Met second)) :
    Meets pool [first, second] action := by
  refine ⟨fun state hnone hnodup => ?_⟩
  have hne : first.operand ≠ second.operand := by simpa using hnodup
  refine (h state hne (hnone _ (by simp)) (hnone _ (by simp))).mono ?_
  rintro _ after ⟨hafter, hmet⟩
  refine ⟨hafter, fun hoffered herror other hother => ?_⟩
  obtain ⟨hfirst, hsecond⟩ := hmet hoffered (herror _ (by simp)) (herror _ (by simp))
  rcases List.mem_pair.mp hother with rfl | rfl
  · exact hfirst
  · exact hsecond

/-- A condition is converted to a truth value. -/
theorem guard_meets (hpool : pool.Declared allowed) (condition : Expr) (ty : Ty) :
    Meets pool [⟨condition.id, ty, some Ty.boolean⟩] (guard pool condition ty) := by
  refine .one fun state hnone => ?_
  rw [guard]
  split
  next hboolean =>
    refine (convert_ensures condition.id ty Ty.boolean state).mono ?_
    rintro _ after ⟨hafter, -, hmet⟩
    exact ⟨hafter, fun _ herror => hmet herror hnone (.inl ((hpool.isBoolean_iff ty).mp hboolean))⟩
  next =>
    split
    next => exact Ensures.modifies ⟨.offer .., fun hoffered => by simp at hoffered⟩
    next hwrong =>
      refine Ensures.pure ⟨.refl _ _, fun _ herror => ?_⟩
      rw [herror] at hwrong
      exact absurd rfl hwrong

theorem unary_meets (hpool : pool.Declared allowed) (span : Span) (op : UnaryOp) (operand : ExprId)
    (ty : Ty) : Meets pool [⟨operand, ty, op.required? ty⟩] (unary pool span op operand ty) := by
  refine .one fun state hnone => ?_
  cases op with
  | not =>
    rw [unary]
    refine (expectBoolean_ensures hpool operand ty state).seq ?_
    rintro ok after ⟨hafter, hmet⟩
    cases ok with
    | true => exact Ensures.pure ⟨hafter, fun _ herror => hmet rfl herror hnone⟩
    | false =>
      exact Ensures.modify_bind (Ensures.pure
        ⟨hafter.trans (.offer ..), fun hoffered => by simp at hoffered⟩)
  | neg =>
    rw [unary, hpool.promote_eq_promoted?, UnaryOp.required?]
    split
    next hwrong =>
      refine Ensures.pure ⟨.refl _ _, fun _ herror => ?_⟩
      rw [hwrong] at herror
      cases herror
    next =>
      cases hpromoted : ty.promoted? Ty.int with
      | some promoted =>
        refine (convert_ensures operand ty promoted state).seq ?_
        rintro _ after ⟨hafter, -, hmet⟩
        exact Ensures.pure ⟨hafter, fun _ herror => hmet herror hnone
          (Ty.reaches_of_promoted? hpromoted).1⟩
      | none =>
        exact Ensures.modify_bind (Ensures.pure ⟨.offer .., fun hoffered => by simp at hoffered⟩)

theorem logical_meets (hpool : pool.Declared allowed) (span : Span) {op : BinaryOp}
    (hop : op.isLogical = true) (left : ExprId) (leftTy : Ty) (right : ExprId) (rightTy : Ty) :
    Meets pool [⟨left, leftTy, op.required? leftTy rightTy leftTy⟩,
      ⟨right, rightTy, op.required? leftTy rightTy rightTy⟩]
      (logical pool span op left leftTy right rightTy) := by
  rw [BinaryOp.required?_of_logical hop, BinaryOp.required?_of_logical hop]
  refine .two fun state hne hleft hright => ?_
  rw [logical]
  refine (expectBoolean_ensures hpool left leftTy state).seq ?_
  rintro leftOk mid ⟨hmid, hleftMet⟩
  refine (expectBoolean_ensures hpool right rightTy mid).seq ?_
  rintro rightOk after ⟨hafter, hrightMet⟩
  have hboth : Notes [left, right] state after :=
    (hmid.mono (by simp)).trans (hafter.mono (by simp))
  have hright' : mid.table.conversions[right]? = none := by
    rw [hmid.conversions right (by simpa using hne.symm), hright]
  split
  next =>
    exact Ensures.modify_bind (Ensures.pure
      ⟨hboth.trans (.offer ..), fun hoffered => by simp at hoffered⟩)
  next hok =>
    rw [Bool.not_eq_true', Bool.not_eq_false, Bool.and_eq_true] at hok
    exact Ensures.pure ⟨hboth, fun _ hleftError hrightError =>
      ⟨hafter.met (hleftMet hok.1 hleftError hleft) (by simpa using hne),
        hrightMet hok.2 hrightError hright'⟩⟩

theorem binary_meets (hpool : pool.Declared allowed) (span : Span) {op : BinaryOp}
    (hop : op.isLogical = false) (left : ExprId) (leftTy : Ty) (right : ExprId) (rightTy : Ty) :
    Meets pool [⟨left, leftTy, op.required? leftTy rightTy leftTy⟩,
      ⟨right, rightTy, op.required? leftTy rightTy rightTy⟩]
      (binary pool span op left leftTy right rightTy) := by
  cases hpromoted : leftTy.promoted? rightTy with
  | some promoted =>
    rw [BinaryOp.required?_of_numbers hop hpromoted, BinaryOp.required?_of_numbers hop hpromoted]
    refine .two fun state hne hleft hright => ?_
    rw [binary, hpool.promote_eq_promoted?, hpromoted]
    dsimp only
    rw [← bind_assoc]
    refine (convert_both_ensures hne leftTy rightTy promoted state).seq ?_
    rintro _ after ⟨hafter, hmet⟩
    obtain ⟨hleftReaches, hrightReaches⟩ := Ty.reaches_of_promoted? hpromoted
    exact Ensures.pure ⟨hafter, fun _ hleftError hrightError =>
      hmet hleftError hrightError hleft hright hleftReaches hrightReaches⟩
  | none =>
    have hbooleans : (op.isEquality && pool.isBoolean leftTy && pool.isBoolean rightTy) = true ↔
        op.isEquality = true ∧ leftTy.bare = Ty.boolean ∧ rightTy.bare = Ty.boolean := by
      rw [Bool.and_eq_true, Bool.and_eq_true, hpool.isBoolean_iff, hpool.isBoolean_iff, and_assoc]
    by_cases hboth : op.isEquality = true ∧ leftTy.bare = Ty.boolean ∧ rightTy.bare = Ty.boolean
    · rw [BinaryOp.required?_of_booleans hop hboth, BinaryOp.required?_of_booleans hop hboth]
      refine .two fun state hne hleft hright => ?_
      rw [binary, hpool.promote_eq_promoted?, hpromoted]
      dsimp only
      rw [if_pos (hbooleans.mpr hboth), ← bind_assoc]
      refine (convert_both_ensures hne leftTy rightTy Ty.boolean state).seq ?_
      rintro _ after ⟨hafter, hmet⟩
      exact Ensures.pure ⟨hafter, fun _ hleftError hrightError => hmet hleftError hrightError hleft
        hright (.inl hboth.2.1) (.inl hboth.2.2)⟩
    · refine .two fun state _ hleft hright => ?_
      rw [binary, hpool.promote_eq_promoted?, hpromoted]
      dsimp only
      rw [if_neg (hbooleans.not.mpr hboth)]
      split
      next hreferences =>
        rw [Bool.and_eq_true, Bool.and_eq_true] at hreferences
        have hown := BinaryOp.required?_of_references hop hreferences.1.1 hboth hpromoted
        refine Ensures.pure ⟨.refl _ _, fun _ _ _ =>
          ⟨⟨leftTy, hown leftTy, ?_⟩, ⟨rightTy, hown rightTy, ?_⟩⟩⟩
        · rw [hleft]
          rfl
        · rw [hright]
          rfl
      next =>
        split
        next =>
          exact Ensures.modify_bind (Ensures.pure ⟨.offer .., fun hoffered => by simp at hoffered⟩)
        next hwrong =>
          refine Ensures.pure ⟨.refl _ _, fun _ hleftError hrightError => ?_⟩
          rw [hleftError, hrightError] at hwrong
          exact absurd rfl hwrong

end Resolver

end GuardedMatch
