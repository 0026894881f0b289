import GuardedMatch.Span

/-!
# Diagnostics

What the passes have to say about a program: a code, a message and labelled spans.  The first
primary label says where the diagnostic belongs.
-/

namespace GuardedMatch

inductive ErrorCode
  | guardNotBoolean
  | unknownType
  | unknownName
  | operandMismatch
  | unassignedLocal
  | guardAlwaysFalse
  | incompatiblePattern
  | notARecord
  | componentCount
  | dominatedCase
  | notExhaustive
  | tooManyErrors
deriving DecidableEq

namespace ErrorCode

def all : List ErrorCode :=
  [guardNotBoolean, unknownType, unknownName, operandMismatch, unassignedLocal,
    guardAlwaysFalse, incompatiblePattern, notARecord, componentCount, dominatedCase,
    notExhaustive, tooManyErrors]

def text : ErrorCode → String
  | guardNotBoolean => "E2001"
  | unknownType => "E2002"
  | unknownName => "E2003"
  | operandMismatch => "E2004"
  | unassignedLocal => "E2005"
  | guardAlwaysFalse => "E3001"
  | incompatiblePattern => "E3002"
  | notARecord => "E3003"
  | componentCount => "E3004"
  | dominatedCase => "E3005"
  | notExhaustive => "E3006"
  | tooManyErrors => "E9002"

def ofText? (text : String) : Option ErrorCode := all.find? (·.text == text)

def description : ErrorCode → String
  | guardNotBoolean => "guard condition must be boolean"
  | unknownType => "unknown type"
  | unknownName => "cannot find name in this scope"
  | operandMismatch => "operator cannot be applied to these operand types"
  | unassignedLocal => "variable might not have been initialized"
  | guardAlwaysFalse => "this guard can never be true"
  | incompatiblePattern => "incompatible pattern type"
  | notARecord => "record pattern requires a record type"
  | componentCount => "wrong number of record components"
  | dominatedCase => "this case label is dominated by a preceding case label"
  | notExhaustive => "the switch does not cover all possible input values"
  | tooManyErrors => "too many errors"

end ErrorCode

/-- A span with a remark. -/
structure Note where
  span : Span
  message : String
  primary : Bool
deriving DecidableEq

structure Diagnostic where
  code : ErrorCode
  message : String
  notes : List Note
deriving DecidableEq

/-- A word of the program, in a message. -/
def quoted (text : String) : String := "`" ++ text ++ "`"

namespace Diagnostic

/-- A diagnostic whose message is the description of its code. -/
def ofCode (code : ErrorCode) : Diagnostic := ⟨code, code.description, []⟩

def withMessage (diagnostic : Diagnostic) (message : String) : Diagnostic :=
  { diagnostic with message := message }

def withNote (diagnostic : Diagnostic) (span : Span) (message : String) : Diagnostic :=
  { diagnostic with notes := diagnostic.notes ++ [⟨span, message, true⟩] }

def withSecondaryNote (diagnostic : Diagnostic) (span : Span) (message : String) : Diagnostic :=
  { diagnostic with notes := diagnostic.notes ++ [⟨span, message, false⟩] }

/-- The span of the first primary note. -/
def primarySpan? (diagnostic : Diagnostic) : Option Span :=
  (diagnostic.notes.find? (·.primary)).map (·.span)

/-- The diagnostic as a headline with one line for each note. -/
def text (diagnostic : Diagnostic) : String :=
  diagnostic.notes.foldl
    (fun lines note => lines ++ "\n  " ++ (if note.primary then "-->" else "...") ++ " " ++
      note.span.text ++ ": " ++ note.message)
    ("error[" ++ diagnostic.code.text ++ "]: " ++ diagnostic.message)

/-! ## The diagnostics of the passes -/

def guardAlwaysFalse (span : Span) : Diagnostic :=
  (ofCode .guardAlwaysFalse).withNote span ("this condition is always " ++ quoted "false")

def guardNotBoolean (span : Span) (found : String) : Diagnostic :=
  ((ofCode .guardNotBoolean).withMessage
    ("guard condition must be " ++ quoted "boolean" ++ ", found " ++ quoted found)).withNote
    span ("expected " ++ quoted "boolean")

def unknownType (span : Span) (name : String) : Diagnostic :=
  ((ofCode .unknownType).withMessage ("cannot find type " ++ quoted name)).withNote
    span "not found in this scope"

def unknownName (span : Span) (name : String) : Diagnostic :=
  ((ofCode .unknownName).withMessage
    ("cannot find value " ++ quoted name ++ " in this scope")).withNote
    span "not found in this scope"

def unknownComponent (span : Span) (component receiver : String) : Diagnostic :=
  ((ofCode .unknownName).withMessage
    ("no component " ++ quoted component ++ " on type " ++ quoted receiver)).withNote
    span "unknown component"

def incompatiblePattern (span : Span) (expected found : String) : Diagnostic :=
  ((ofCode .incompatiblePattern).withMessage
    ("incompatible types: " ++ quoted expected ++ " cannot be converted to " ++
      quoted found)).withNote
    span ("pattern of type " ++ quoted found)

def varRecord (span : Span) : Diagnostic :=
  ((ofCode .notARecord).withMessage
    (quoted "var" ++ " cannot name the type of a record pattern")).withNote
    span "expected a record type"

def notARecord (span : Span) (found : String) : Diagnostic :=
  ((ofCode .notARecord).withMessage (quoted found ++ " is not a record type")).withNote
    span "expected a record type"

def componentCount (span : Span) (record : String) (declared given : Nat) : Diagnostic :=
  ((ofCode .componentCount).withMessage
    ("record " ++ quoted record ++ " has " ++ toString declared ++
      " component(s), but the pattern has " ++ toString given)).withNote
    span "wrong number of components"

def unaryMismatch (span : Span) (symbol operand : String) : Diagnostic :=
  ((ofCode .operandMismatch).withMessage
    ("operator " ++ quoted symbol ++ " cannot be applied to " ++ quoted operand)).withNote
    span "invalid operand types"

def binaryMismatch (span : Span) (symbol left right : String) : Diagnostic :=
  ((ofCode .operandMismatch).withMessage
    ("operator " ++ quoted symbol ++ " cannot be applied to " ++ quoted left ++ " and " ++
      quoted right)).withNote
    span "invalid operand types"

def unassignedLocal (span : Span) (name : String) : Diagnostic :=
  ((ofCode .unassignedLocal).withMessage
    ("variable " ++ quoted name ++ " might not have been initialized")).withNote
    span "read here"

def dominatedCase (span earlier : Span) : Diagnostic :=
  ((ofCode .dominatedCase).withNote span "this case can never match").withSecondaryNote
    earlier "every value it would match is matched here"

def notExhaustive (span : Span) (selector : String) : Diagnostic :=
  ((ofCode .notExhaustive).withMessage
    ("switch over " ++ quoted selector ++ " does not cover all possible values")).withNote
    span "not exhaustive"

def tooManyErrors (span : Span) (limit : Nat) : Diagnostic :=
  ((ofCode .tooManyErrors).withMessage
    ("aborting due to " ++ toString limit ++ " previous errors")).withNote
    span "error limit reached here"

end Diagnostic

end GuardedMatch
