import GuardedMatch.Proofs.Folding
import GuardedMatch.Proofs.Hierarchy
import GuardedMatch.Proofs.Resolving

/-!
# Numbers and their types

The types of numbers and truth values are the same in every pool, and so is the type in which an
operator works on two numbers.  Constants are computed without looking at types: whatever its type,
an integer is folded in 64 bits.  So the constant of an expression that works on `int`s need not be
an `int`: `2147483647 + 1` folds to `2147483648`.

* `Pool.Declared.promote_eq`: declarations do not change how numbers are promoted.
* `Expr.resolve_constant`: the type of an expression that is a constant.
* `folded_inhabits_iff`: which constants are values of their type.
* `sum_of_ints_too_large`: `2147483647 + 1` is not.
-/

namespace GuardedMatch

/-! ## Types of numbers -/

namespace Pool

variable {pool : Pool} {allowed : Pool → Ty → Prop}

/-- No primitive type is declared. -/
theorem Declared.isPrimitive_eq (h : pool.Declared allowed) (ty : Ty) :
    pool.isPrimitive ty = ty.isPrimitive := by
  have hsame : Ty.firstDeclared ≤ pool.size ∧ pool.isPrimitive ty = ty.isPrimitive := by
    refine h.induction (motive := fun pool => Ty.firstDeclared ≤ pool.size ∧
      pool.isPrimitive ty = ty.isPrimitive) ⟨by decide, ?_⟩ ?_
    · by_cases hty : ty.index < Pool.builtin.size
      · have hall : ∀ index < Pool.builtin.size,
            Pool.builtin.isPrimitive ⟨index⟩ = Ty.isPrimitive ⟨index⟩ := by decide
        exact hall ty.index hty
      · have hlarge : ¬ ty.index ≤ Ty.char.index := fun hle =>
          hty (hle.trans_lt (by decide))
        rw [isPrimitive, flags, entry_eq_none hty, Ty.isPrimitive, decide_eq_false hlarge]
        rfl
    · rintro pool entry ⟨hsize, hold⟩ hentry -
      rw [size_declare, isPrimitive, flags_declare]
      refine ⟨hsize.trans (Nat.le_succ _), ?_⟩
      split
      next hnew =>
        have hlarge : ¬ ty.index ≤ Ty.char.index := fun hle =>
          absurd (hnew ▸ hsize) (not_le.mpr (hle.trans_lt (by decide)))
        rw [hentry.primitive, Ty.isPrimitive, decide_eq_false hlarge]
      next => exact hold
  exact hsame.2

theorem Declared.primitive?_eq (h : pool.Declared allowed) (ty : Ty) :
    pool.primitive? ty = Pool.builtin.primitive? ty := by
  have hbuiltin : Pool.builtin.Declared allowed := .builtin
  rw [primitive?, primitive?, h.isPrimitive_eq, hbuiltin.isPrimitive_eq]

theorem Declared.isNumeric_eq (h : pool.Declared allowed) (ty : Ty) :
    pool.isNumeric ty = Pool.builtin.isNumeric ty := by
  rw [isNumeric, isNumeric, h.primitive?_eq]

theorem Declared.isBoolean_eq (h : pool.Declared allowed) (ty : Ty) :
    pool.isBoolean ty = Pool.builtin.isBoolean ty := by
  rw [isBoolean, isBoolean, h.primitive?_eq]

/-- **Numbers are promoted alike in every pool.** -/
theorem Declared.promote_eq (h : pool.Declared allowed) (left right : Ty) :
    pool.promote left right = Pool.builtin.promote left right := by
  rw [promote, promote, h.primitive?_eq, h.primitive?_eq]
  cases Pool.builtin.primitive? left with
  | none => rfl
  | some l =>
    cases Pool.builtin.primitive? right with
    | none => rfl
    | some r =>
      dsimp only
      rw [h.isNumeric_eq, h.isNumeric_eq]

/-- An `int` and a `long` are numbers, and together they are a `long`. -/
theorem Declared.promote_integers (h : pool.Declared allowed) (left right : Bool) :
    pool.promote (if left then Ty.int else Ty.long) (if right then Ty.int else Ty.long) =
      some (if left && right then Ty.int else Ty.long) := by
  rw [h.promote_eq]
  revert left right
  decide

theorem Declared.isError_integer (h : pool.Declared allowed) (narrow : Bool) :
    pool.isError (if narrow then Ty.int else Ty.long) = false := by
  rw [isError, h.flags_builtin]
  · revert narrow
    decide
  · cases narrow <;> decide

end Pool

/-! ## Answers of the operators -/

namespace Resolver

variable {pool : Pool}

/-- What an operand converts to is the type of its negation. -/
theorem neg_answers {ty promoted : Ty} (herror : pool.isError ty = false)
    (hpromote : pool.promote ty Ty.int = some promoted) (span : Span) (operand : ExprId)
    (state : Resolver) :
    Ensures (unary pool span .neg operand ty) state (fun _ => True) fun answer _ =>
      answer = promoted := by
  rw [unary, herror, hpromote]
  exact Ensures.skip fun _ _ => Ensures.pure rfl

/-- Two numbers give a number or a truth value. -/
theorem binary_answers {left right promoted : Ty}
    (hpromote : pool.promote left right = some promoted)
    (span : Span) (op : BinaryOp) (leftId rightId : ExprId) (state : Resolver) :
    Ensures (binary pool span op leftId left rightId right) state (fun _ => True) fun answer _ =>
      answer = if op.isArithmetic then promoted else Ty.boolean := by
  rw [binary, hpromote]
  exact Ensures.skip fun _ _ => Ensures.skip fun _ _ => Ensures.pure rfl

/-- A comparison gives a truth value, whatever it compares. -/
theorem comparison_answers {op : BinaryOp} (hop : op.isArithmetic = false) (span : Span)
    (leftId : ExprId) (left : Ty) (rightId : ExprId) (right : Ty) (state : Resolver) :
    Ensures (binary pool span op leftId left rightId right) state (fun _ => True) fun answer _ =>
      answer = Ty.boolean := by
  have hconverted : ∀ target state, Ensures (do
      convert pool leftId left target
      convert pool rightId right target
      return Ty.boolean) state (fun _ => True) fun answer _ => answer = Ty.boolean := fun _ _ =>
    Ensures.skip fun _ _ => Ensures.skip fun _ _ => Ensures.pure rfl
  rw [binary.eq_def, hop]
  split
  next => exact hconverted _ _
  next =>
    split
    next => exact hconverted _ _
    next =>
    split
    next => exact Ensures.pure rfl
    next =>
      dsimp only
      split
      next => exact Ensures.skip fun _ _ => Ensures.pure rfl
      next => exact Ensures.pure rfl

theorem exprHas_noted (id : ExprId) (ty : Ty) (state : Resolver) :
    Ensures (exprHas id ty) state (fun _ => True) fun answer after =>
      after.table.exprTypes[id]? = some answer :=
  Ensures.modify_bind (Ensures.pure Std.ExtTreeMap.getElem?_insert_self)

end Resolver

open Resolver in
/-- The type of an expression is in the table. -/
theorem Expr.resolve_noted {pool : Pool} {locals : Array LocalDecl} (expr : Expr) (scope : Scope)
    (state : Resolver) :
    Ensures (expr.resolve pool locals scope) state (fun _ => True) fun ty after =>
      after.table.exprTypes[expr.id]? = some ty := by
  cases expr with
  | bool id value span | int id value span =>
    rw [Expr.resolve]
    exact exprHas_noted ..
  | ident id name span =>
    rw [Expr.resolve]
    exact Ensures.skip fun _ _ => exprHas_noted ..
  | field | unary | instanceOf | call =>
    rw [Expr.resolve]
    exact Ensures.skip fun _ _ => Ensures.skip fun _ _ => exprHas_noted ..
  | binary id op left right span =>
    rw [Expr.resolve]
    refine Ensures.skip fun _ _ => ?_
    split
    · exact Ensures.skip fun _ _ => Ensures.skip fun _ _ => Ensures.skip fun _ _ => exprHas_noted ..
    · exact Ensures.skip fun _ _ => Ensures.skip fun _ _ => exprHas_noted ..
  | missing id =>
    rw [Expr.resolve]
    exact Ensures.throw trivial

/-! ## Constants -/

namespace Constant

variable {constant : Constant} {op : BinaryOp} {left right : Option Constant}

/-- The type of a constant, where `narrow` says that no literal needs 64 bits. -/
def typeOf (narrow : Bool) : Constant → Ty
  | bool _ => Ty.boolean
  | int _ => if narrow then Ty.int else Ty.long

/-- A constant is a value of a type. -/
def Inhabits : Constant → Ty → Prop
  | bool _, ty => ty = Ty.boolean
  | int value, ty => ty = Ty.long ∨ ty = Ty.int ∧ -2147483648 ≤ value ∧ value < 2147483648

theorem exists_of_checked {value : Int} (h : checked value = some constant) :
    constant = int value := by
  rw [checked] at h
  split at h
  next => exact (Option.some.inj h).symm
  next => cases h

theorem exists_of_not {operand : Option Constant} (h : unary .not operand = some constant) :
    ∃ outcome, constant = bool outcome := by
  rcases operand with _ | outcome | value
  · cases h
  · exact ⟨_, (Option.some.inj h).symm⟩
  · cases h

/-- The negation of a constant is an integer, and so is what is negated. -/
theorem exists_of_neg {operand : Option Constant} (h : unary .neg operand = some constant) :
    ∃ value result, operand = some (int value) ∧ constant = int result := by
  rcases operand with _ | outcome | value
  · cases h
  · cases h
  · exact ⟨value, _, rfl, exists_of_checked h⟩

/-- An operator that needs both sides works on two integers or on two truth values. -/
theorem strict_cases (hop : op.isLogical = false) (h : binary op left right = some constant) :
    (∃ l r, left = some (int l) ∧ right = some (int r) ∧ ofInts op l r = some constant) ∨
      ∃ l r, left = some (bool l) ∧ right = some (bool r) ∧ ofBools op l r = some constant := by
  obtain ⟨l, r, rfl, rfl⟩ := exists_of_strict hop h
  rcases l with l | l <;> rcases r with r | r
  · exact .inr ⟨l, r, rfl, rfl, by cases op <;> first | exact h | cases hop⟩
  · cases op <;> first | cases h | cases hop
  · cases op <;> first | cases h | cases hop
  · exact .inl ⟨l, r, rfl, rfl, by cases op <;> exact h⟩

/-- Arithmetic takes integers to an integer. -/
theorem exists_of_arithmetic (hop : op.isArithmetic = true)
    (h : binary op left right = some constant) :
    ∃ l r result, left = some (int l) ∧ right = some (int r) ∧ constant = int result := by
  have hlogical : op.isLogical = false := by
    cases op <;> first | rfl | cases hop
  obtain ⟨l, r, rfl, rfl, hints⟩ | ⟨l, r, -, -, hbools⟩ := strict_cases hlogical h
  · suffices hresult : ∃ result, constant = int result from
      hresult.elim fun result hresult => ⟨l, r, result, rfl, rfl, hresult⟩
    cases op with
    | add | sub | mul => exact ⟨_, exists_of_checked hints⟩
    | div =>
      rw [ofInts] at hints
      split at hints
      next => cases hints
      next => exact ⟨_, exists_of_checked hints⟩
    | rem =>
      rw [ofInts] at hints
      split at hints
      next => cases hints
      next =>
        obtain ⟨-, -, rfl⟩ := Option.map_eq_some_iff.mp hints
        exact ⟨_, rfl⟩
    | and | or | eq | notEq | lt | ltEq | gt | gtEq => cases hop
  · cases op with
    | add | sub | mul | div | rem => cases hbools
    | and | or | eq | notEq | lt | ltEq | gt | gtEq => cases hop

/-- Any other operator gives a truth value. -/
theorem exists_of_comparison (hop : op.isArithmetic = false)
    (h : binary op left right = some constant) :
    ∃ outcome, constant = bool outcome := by
  rcases op.logical_or_strict with rfl | rfl | hlogical
  · exact decides_and.exists_bool h
  · exact decides_or.exists_bool h
  · obtain ⟨l, r, -, -, hints⟩ | ⟨l, r, -, -, hbools⟩ := strict_cases hlogical h
    · cases op with
      | eq | notEq | lt | ltEq | gt | gtEq => exact ⟨_, (Option.some.inj hints).symm⟩
      | and | or => cases hlogical
      | add | sub | mul | div | rem => cases hop
    · cases op with
      | eq | notEq => exact ⟨_, (Option.some.inj hbools).symm⟩
      | lt | ltEq | gt | gtEq => cases hbools
      | and | or => cases hlogical
      | add | sub | mul | div | rem => cases hop

end Constant

namespace Expr

/-- No integer literal needs 64 bits. -/
def narrow : Expr → Bool
  | int _ value _ => Resolver.literalType value == Ty.int
  | unary _ _ operand _ => operand.narrow
  | binary _ _ left right _ => left.narrow && right.narrow
  | _ => true

open Resolver in
/-- **The type of a constant**: a truth value has the type of truth values, and an integer is a
`long` if and only if one of its literals is. -/
theorem resolve_constant {pool : Pool} {allowed : Pool → Ty → Prop} (hpool : pool.Declared allowed)
    (locals : Array LocalDecl) : ∀ (expr : Expr) (scope : Scope) (state : Resolver),
    Ensures (expr.resolve pool locals scope) state (fun _ => True) fun ty _ =>
      ∀ constant, expr.fold = some constant → ty = constant.typeOf expr.narrow
  | .bool id value span, scope, state => by
    rw [Expr.resolve]
    refine Ensures.modify_bind (Ensures.pure ?_)
    rintro constant ⟨⟩
    rfl
  | .int id value span, scope, state => by
    rw [Expr.resolve]
    refine Ensures.modify_bind (Ensures.pure ?_)
    rintro constant ⟨⟩
    rw [Constant.typeOf, narrow, literalType]
    split <;> rfl
  | .unary id .not operand span, scope, state => by
    refine (resolve_boolean _ scope state).mono fun ty _ hty constant hfold => ?_
    obtain ⟨outcome, rfl⟩ := Constant.exists_of_not hfold
    exact hty trivial
  | .unary id .neg operand span, scope, state => by
    rw [Expr.resolve]
    refine (operand.resolve_constant hpool locals scope state).seq fun operandTy mid hoperand => ?_
    cases hfold : (Expr.unary id .neg operand span).fold with
    | none => exact Ensures.always fun _ _ constant hconstant => by cases hconstant
    | some constant =>
      obtain ⟨value, result, hvalue, rfl⟩ := Constant.exists_of_neg hfold
      have hpromote := hpool.promote_integers operand.narrow true
      rw [Bool.and_true] at hpromote
      rw [hoperand _ hvalue]
      refine (neg_answers (hpool.isError_integer _) hpromote span operand.id
        mid).seq ?_
      rintro ty after rfl
      refine Ensures.modify_bind (Ensures.pure ?_)
      rintro constant ⟨⟩
      rfl
  | .binary id op left right span, scope, state => by
    by_cases hlogical : op.isLogical = true
    · have hop : op.isArithmetic = false := by
        cases op <;> first | rfl | cases hlogical
      refine (resolve_boolean _ scope state).mono fun ty _ hty constant hfold => ?_
      obtain ⟨outcome, rfl⟩ := Constant.exists_of_comparison hop hfold
      exact hty hlogical
    rw [Expr.resolve]
    refine (left.resolve_constant hpool locals scope state).seq fun leftTy mid hleft => ?_
    rw [if_neg hlogical]
    refine (right.resolve_constant hpool locals scope mid).seq fun rightTy mid hright => ?_
    cases hfold : (Expr.binary id op left right span).fold with
    | none => exact Ensures.always fun _ _ constant hconstant => by cases hconstant
    | some constant =>
    cases hop : op.isArithmetic with
    | true =>
      obtain ⟨l, r, result, hl, hr, rfl⟩ := Constant.exists_of_arithmetic hop hfold
      rw [hleft _ hl, hright _ hr]
      refine (binary_answers (hpool.promote_integers left.narrow right.narrow) span
        op left.id right.id mid).seq ?_
      rintro ty after rfl
      refine Ensures.modify_bind (Ensures.pure ?_)
      rintro constant ⟨⟩
      rw [hop]
      rfl
    | false =>
      obtain ⟨outcome, rfl⟩ := Constant.exists_of_comparison hop hfold
      refine Ensures.bind
        ((comparison_answers hop span left.id leftTy right.id rightTy mid).mono ?_)
      rintro ty after rfl
      refine Ensures.modify_bind (Ensures.pure ?_)
      rintro constant ⟨⟩
      rfl
  | .ident .., scope, state | .field .., scope, state | .instanceOf .., scope, state
  | .call .., scope, state | .missing _, scope, state => Ensures.always fun _ _ _ hfold => by
    cases hfold

end Expr

/-- **Which constants are values of their type.**  An expression that folds has the type of truth
values, or `int` or `long` by its literals.  The constant is a value of this type unless it is an
integer that does not fit in 32 bits while all its literals do. -/
theorem folded_inhabits_iff {pool : Pool} {allowed : Pool → Ty → Prop}
    (hpool : pool.Declared allowed) (forest : Forest) (table : Resolution) (id : ExprId)
    (scope : Scope) {resolved : Resolved}
    (hrun : forest.resolveExpr pool table id scope = .ok resolved) {constant : Constant}
    (hfold : (forest.expr id).fold = some constant) :
    resolved.table.exprTypes[(forest.expr id).id]? = some resolved.ty ∧
    resolved.ty = constant.typeOf (forest.expr id).narrow ∧
    (constant.Inhabits resolved.ty ↔ ((forest.expr id).narrow = true →
      ∀ value, constant = .int value → -2147483648 ≤ value ∧ value < 2147483648)) := by
  obtain ⟨after, hafter, htable, -⟩ := Resolution.exists_of_run hrun
  have hty := ((forest.expr id).resolve_constant hpool forest.locals scope _).of_ok hafter _ hfold
  refine ⟨?_, hty, ?_⟩
  · rw [htable]
    exact ((forest.expr id).resolve_noted scope _).of_ok hafter
  · rw [hty]
    cases constant with
    | bool outcome => simp [Constant.Inhabits, Constant.typeOf]
    | int value =>
      cases (forest.expr id).narrow with
      | true => simp [Constant.Inhabits, Constant.typeOf, Ty.int, Ty.long]
      | false => simp [Constant.Inhabits, Constant.typeOf]

/-- `2147483648 - 1` and `2147483647 + 1`. -/
def aroundTheGreatest : Arena where
  patterns := #[]
  exprs := #[.int 2147483648 Span.none, .int 1 Span.none, .binary .sub 0 1 Span.none,
    .int 2147483647 Span.none, .int 1 Span.none, .binary .add 3 4 Span.none]
  locals := #[]

/-- A `long` literal makes a `long`, even of a result with 32 bits. -/
theorem folded_inhabits_longMinusOne : ∃ resolved,
    aroundTheGreatest.forest.resolveExpr Pool.builtin .empty 2 .empty = .ok resolved ∧
    (aroundTheGreatest.forest.expr 2).fold = some (.int 2147483647) ∧
    resolved.ty = Ty.long ∧ (Constant.int 2147483647).Inhabits resolved.ty := by
  have hpool : Pool.builtin.Declared fun _ _ => True := .builtin
  have hfold : (aroundTheGreatest.forest.expr 2).fold = some (.int 2147483647) := by decide +kernel
  have hends : (aroundTheGreatest.forest.resolveExpr Pool.builtin .empty 2 .empty).toOption.isSome =
      true := by decide +kernel
  cases hrun : aroundTheGreatest.forest.resolveExpr Pool.builtin .empty 2 .empty with
  | error fault =>
    rw [hrun] at hends
    cases hends
  | ok resolved =>
    obtain ⟨-, hty, hinhabits⟩ := folded_inhabits_iff hpool _ _ _ _ hrun hfold
    have hnarrow : (aroundTheGreatest.forest.expr 2).narrow = false := by decide +kernel
    rw [hnarrow] at hty hinhabits
    exact ⟨resolved, rfl, hfold, hty, hinhabits.mpr fun h => absurd h (by decide)⟩

/-- The sum of two `int`s is an `int` that does not fit in 32 bits. -/
theorem sum_of_ints_too_large :
    (aroundTheGreatest.forest.expr 5).fold = some (.int 2147483648) ∧
    (aroundTheGreatest.forest.resolveExpr Pool.builtin .empty 5 .empty).toOption.map (·.ty) =
      some Ty.int ∧
    ¬ (Constant.int 2147483648).Inhabits Ty.int := by
  refine ⟨by decide +kernel, by decide +kernel, ?_⟩
  rintro (h | ⟨-, -, h⟩)
  · cases h
  · exact absurd h (by decide)

end GuardedMatch
