/-!
# Types

A type is a number.  The built-in types have fixed numbers: five primitives, `Object`,
`String`, a box for each primitive, and the error type that stands for whatever could not be
resolved.  Some numbers after them are kept free; declared types follow.
-/

namespace GuardedMatch

structure Ty where
  index : Nat
deriving DecidableEq

namespace Ty

def boolean : Ty := ⟨0⟩
def int : Ty := ⟨1⟩
def long : Ty := ⟨2⟩
def double : Ty := ⟨3⟩
def char : Ty := ⟨4⟩
def object : Ty := ⟨5⟩
def string : Ty := ⟨6⟩
def booleanBox : Ty := ⟨7⟩
def integerBox : Ty := ⟨8⟩
def longBox : Ty := ⟨9⟩
def doubleBox : Ty := ⟨10⟩
def characterBox : Ty := ⟨11⟩
def error : Ty := ⟨12⟩

/-- No type at all; the greatest number of 32 bits. -/
def none : Ty := ⟨4294967295⟩

/-- The number of the first declared type. -/
def firstDeclared : Nat := 32

/-- Whether the number is that of a primitive type. -/
def isPrimitive (ty : Ty) : Bool := ty.index ≤ char.index

/-- Whether this is the built-in error type. -/
def isError (ty : Ty) : Bool := ty == error

def isNone (ty : Ty) : Bool := ty == none

/-- The names of the built-in types, by number. -/
def builtinNames : List String :=
  ["boolean", "int", "long", "double", "char", "Object", "String", "Boolean", "Integer", "Long",
    "Double", "Character", "<error>"]

def builtinName? (ty : Ty) : Option String := builtinNames[ty.index]?

def text (ty : Ty) : String :=
  if ty.isNone then "Idx::NONE"
  else "Idx(" ++ ty.builtinName?.getD (toString ty.index) ++ ")"

/-- The primitive types, each with its box. -/
def boxes : List (Ty × Ty) :=
  [(boolean, booleanBox), (int, integerBox), (long, longBox), (double, doubleBox),
    (char, characterBox)]

/-- The box of a primitive type. -/
def boxed? (ty : Ty) : Option Ty := (boxes.find? (·.1 == ty)).map (·.2)

/-- The primitive type in a box. -/
def unboxed? (ty : Ty) : Option Ty := (boxes.find? (·.2 == ty)).map (·.1)

end Ty

/-- What a type is declared as. -/
inductive Kind
  | primitive
  | ordinary
  | interface
  | record
  | error
  | reserved
deriving DecidableEq

namespace Kind

def text : Kind → String
  | primitive => "Primitive"
  | ordinary => "Class"
  | interface => "Interface"
  | record => "Record"
  | error => "Error"
  | reserved => "Reserved"

end Kind

/-- The properties of a type.  Each has a bit, from `primitive` at the bottom. -/
structure Flags where
  primitive : Bool
  record : Bool
  interface : Bool
  sealed : Bool
  final : Bool
  abstract : Bool
  boxed : Bool
  error : Bool
deriving DecidableEq

namespace Flags

def none : Flags := ⟨false, false, false, false, false, false, false, false⟩

def bits (flags : Flags) : Nat :=
  flags.primitive.toNat + 2 * flags.record.toNat + 4 * flags.interface.toNat +
    8 * flags.sealed.toNat + 16 * flags.final.toNat + 32 * flags.abstract.toNat +
    64 * flags.boxed.toNat + 128 * flags.error.toNat

/-- The flags that a class may declare, `sealed`, `final` and `abstract`; every other bit is
ignored. -/
def declared (bits : Nat) : Flags :=
  { none with sealed := bits.testBit 3, final := bits.testBit 4, abstract := bits.testBit 5 }

end Flags

/-- A component of a record type. -/
structure Component where
  name : String
  ty : Ty
deriving DecidableEq

end GuardedMatch
