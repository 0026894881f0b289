import GuardedMatch.Types.Basic

/-!
# The type pool

A pool holds the built-in types and the types a program declares, in order of declaration.  A
type lists its direct supertypes as declared, which may be numbers of types that come later or
never; it is listed as a direct subtype only of those that were in the pool when it was
declared.  So a sealed hierarchy is declared from the top down.

A number outside the pool behaves like the error type.
-/

namespace GuardedMatch

structure TypeEntry where
  name : String
  kind : Kind
  flags : Flags
  supertypes : List Ty
  subtypes : List Ty
  components : List Component

namespace TypeEntry

def simple (name : String) (kind : Kind) (flags : Flags) : TypeEntry :=
  ⟨name, kind, flags, [], [], []⟩

/-- The entry of a type below `firstDeclared`. -/
def builtin (ty : Ty) : TypeEntry :=
  match ty.builtinName? with
  | none => simple "" .reserved Flags.none
  | some name =>
    if ty.isPrimitive then
      simple name .primitive { Flags.none with primitive := true, final := true }
    else if ty.isError then simple name .error { Flags.none with error := true }
    else if ty = Ty.object then simple name .ordinary Flags.none
    else
      { simple name .ordinary { Flags.none with final := true, boxed := ty != Ty.string } with
        supertypes := [Ty.object] }

/-- List a direct subtype. -/
def addSubtype (entry : TypeEntry) (ty : Ty) : TypeEntry :=
  { entry with subtypes := entry.subtypes ++ [ty] }

/-- List direct supertypes; a type without any extends `Object`. -/
def extending (entry : TypeEntry) (supertypes : List Ty) : TypeEntry :=
  { entry with supertypes := if supertypes.isEmpty then [Ty.object] else supertypes }

end TypeEntry

structure Pool where
  entries : Array TypeEntry
  /-- Newest first, so the newest declaration of a name is found. -/
  names : List (String × Ty)

namespace Pool

/-- The pool of the built-in types.  The error type has no name that can be looked up. -/
def builtin : Pool where
  entries := ((List.range Ty.firstDeclared).map fun index => TypeEntry.builtin ⟨index⟩).toArray
  names := (List.range Ty.error.index).filterMap fun index =>
    (Ty.builtinName? ⟨index⟩).map fun name => (name, ⟨index⟩)

def size (pool : Pool) : Nat := pool.entries.size

def isEmpty (pool : Pool) : Bool := pool.entries.isEmpty

/-! ## Declarations

A declaration answers the new type, which is the next number. -/

def declare (pool : Pool) (entry : TypeEntry) : Ty × Pool :=
  let ty : Ty := ⟨pool.entries.size⟩
  let entries := entry.supertypes.foldl
    (fun entries parent => entries.modify parent.index (·.addSubtype ty)) pool.entries
  (ty, ⟨entries.push entry, (entry.name, ty) :: pool.names⟩)

def declareClass (pool : Pool) (name : String) (supertypes : List Ty) (bits : Nat) : Ty × Pool :=
  pool.declare ((TypeEntry.simple name .ordinary (Flags.declared bits)).extending supertypes)

/-- Interfaces are abstract. -/
def declareInterface (pool : Pool) (name : String) (supertypes : List Ty) (sealed : Bool) :
    Ty × Pool :=
  let flags := { Flags.none with interface := true, abstract := true, sealed := sealed }
  pool.declare ((TypeEntry.simple name .interface flags).extending supertypes)

/-- Records are final. -/
def declareRecord (pool : Pool) (name : String) (components : List Component)
    (interfaces : List Ty) : Ty × Pool :=
  let entry := TypeEntry.simple name .record { Flags.none with record := true, final := true }
  pool.declare ({ entry with components := components }.extending interfaces)

/-! ## Questions about one type -/

def entry? (pool : Pool) (ty : Ty) : Option TypeEntry := pool.entries[ty.index]?

def lookup (pool : Pool) (name : String) : Option Ty := pool.names.lookup name

def name (pool : Pool) (ty : Ty) : String :=
  match pool.entry? ty with
  | some entry => entry.name
  | none => ""

def kind (pool : Pool) (ty : Ty) : Kind :=
  match pool.entry? ty with
  | some entry => entry.kind
  | none => .error

def flags (pool : Pool) (ty : Ty) : Flags :=
  match pool.entry? ty with
  | some entry => entry.flags
  | none => { Flags.none with error := true }

def isError (pool : Pool) (ty : Ty) : Bool := (pool.flags ty).error

def isPrimitive (pool : Pool) (ty : Ty) : Bool := (pool.flags ty).primitive

def isSealed (pool : Pool) (ty : Ty) : Bool := (pool.flags ty).sealed

def isAbstract (pool : Pool) (ty : Ty) : Bool := (pool.flags ty).abstract

def isFinal (pool : Pool) (ty : Ty) : Bool := (pool.flags ty).final

def isInterface (pool : Pool) (ty : Ty) : Bool := (pool.flags ty).interface

def isRecord (pool : Pool) (ty : Ty) : Bool := pool.kind ty == .record

def supertypes (pool : Pool) (ty : Ty) : List Ty :=
  match pool.entry? ty with
  | some entry => entry.supertypes
  | none => []

def components (pool : Pool) (ty : Ty) : List Component :=
  match pool.entry? ty with
  | some entry => entry.components
  | none => []

/-- The types of a record's components. -/
def componentTypes (pool : Pool) (ty : Ty) : List Ty := (pool.components ty).map (·.ty)

/-- The direct subtypes of a sealed type. -/
def permittedSubtypes (pool : Pool) (ty : Ty) : List Ty :=
  match pool.entry? ty with
  | some entry => if entry.flags.sealed then entry.subtypes else []
  | none => []

/-- How a type is called in messages. -/
def display (pool : Pool) (ty : Ty) : String :=
  if pool.isError ty then "<error>" else pool.name ty

/-! ## Primitive types -/

/-- The primitive type itself, or the one in the box. -/
def primitive? (pool : Pool) (ty : Ty) : Option Ty :=
  if pool.isPrimitive ty then some ty else ty.unboxed?

def isNumeric (pool : Pool) (ty : Ty) : Bool :=
  match pool.primitive? ty with
  | some primitive => primitive ∈ [Ty.int, Ty.long, Ty.double, Ty.char]
  | none => false

def isBoolean (pool : Pool) (ty : Ty) : Bool := pool.primitive? ty == some Ty.boolean

/-- The type in which an operator works on two numbers: the wider of the two, and at least
`int`. -/
def promote (pool : Pool) (left right : Ty) : Option Ty :=
  match pool.primitive? left, pool.primitive? right with
  | some l, some r =>
    if !pool.isNumeric l || !pool.isNumeric r then none
    else if l = Ty.double ∨ r = Ty.double then some Ty.double
    else if l = Ty.long ∨ r = Ty.long then some Ty.long
    else some Ty.int
  | _, _ => none

end Pool

end GuardedMatch
