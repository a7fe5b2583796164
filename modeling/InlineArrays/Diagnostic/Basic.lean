/-!
# Diagnostics

A diagnostic is a violated rule at a span of a method's source.  The rule fixes the code; the code
fixes number, name and category; the message and its arguments are read off the violation.
Collections are sorted by position and then by code, and the sort is stable.
-/

namespace InlineArrays

/-- A half-open range of byte offsets. -/
structure SourceSpan where
  start : Nat := 0
  stop : Nat := 0
  deriving DecidableEq, Repr

inductive Category where
  | invalidIndexing
  | readonlyViolation
  | refEscapeViolation
  | missingRequiredMember
  | unassignedField
  | lvalueExpected
  deriving DecidableEq, Repr

def Category.name : Category → String
  | .invalidIndexing => "invalid-indexing"
  | .readonlyViolation => "readonly-violation"
  | .refEscapeViolation => "ref-escape-violation"
  | .missingRequiredMember => "missing-required-member"
  | .unassignedField => "unassigned-field"
  | .lvalueExpected => "lvalue-expected"

inductive Code where
  | indexArgumentCount
  | indexArgumentType
  | namedIndexArgument
  | indexArgumentModifier
  | notIndexable
  | indexOutOfBounds
  | readonlyRefUse
  | readonlyAssignment
  | returnParameterMember
  | returnStructMember
  | returnLocalMember
  | returnScopedParameter
  | returnRefLocal
  | spanMayEscape
  | nonReferenceable
  | missingRequiredMember
  | unassignedField
  | unassignedVariable
  | lvalueExpected
  | refArgumentNotAssignable
  deriving DecidableEq, Repr

namespace Code

/-- The thousands tell the category. -/
def number : Code → Nat
  | .indexArgumentCount => 1001
  | .indexArgumentType => 1002
  | .namedIndexArgument => 1003
  | .indexArgumentModifier => 1004
  | .notIndexable => 1005
  | .indexOutOfBounds => 1006
  | .readonlyRefUse => 2001
  | .readonlyAssignment => 2002
  | .returnParameterMember => 3001
  | .returnStructMember => 3002
  | .returnLocalMember => 3003
  | .returnScopedParameter => 3004
  | .returnRefLocal => 3005
  | .spanMayEscape => 3006
  | .nonReferenceable => 3007
  | .missingRequiredMember => 4001
  | .unassignedField => 5001
  | .unassignedVariable => 5002
  | .lvalueExpected => 6001
  | .refArgumentNotAssignable => 6002

def category : Code → Category
  | .indexArgumentCount | .indexArgumentType | .namedIndexArgument | .indexArgumentModifier
  | .notIndexable | .indexOutOfBounds => .invalidIndexing
  | .readonlyRefUse | .readonlyAssignment => .readonlyViolation
  | .returnParameterMember | .returnStructMember | .returnLocalMember | .returnScopedParameter
  | .returnRefLocal | .spanMayEscape | .nonReferenceable => .refEscapeViolation
  | .missingRequiredMember => .missingRequiredMember
  | .unassignedField | .unassignedVariable => .unassignedField
  | .lvalueExpected | .refArgumentNotAssignable => .lvalueExpected

def name : Code → String
  | .indexArgumentCount => "index-argument-count"
  | .indexArgumentType => "index-argument-type"
  | .namedIndexArgument => "named-index-argument"
  | .indexArgumentModifier => "index-argument-modifier"
  | .notIndexable => "not-indexable"
  | .indexOutOfBounds => "index-out-of-bounds"
  | .readonlyRefUse => "readonly-ref-use"
  | .readonlyAssignment => "readonly-assignment"
  | .returnParameterMember => "return-parameter-member"
  | .returnStructMember => "return-struct-member"
  | .returnLocalMember => "return-local-member"
  | .returnScopedParameter => "return-scoped-parameter"
  | .returnRefLocal => "return-ref-local"
  | .spanMayEscape => "span-may-escape"
  | .nonReferenceable => "non-referenceable"
  | .missingRequiredMember => "missing-required-member"
  | .unassignedField => "unassigned-field"
  | .unassignedVariable => "unassigned-variable"
  | .lvalueExpected => "lvalue-expected"
  | .refArgumentNotAssignable => "ref-argument-not-assignable"

theorem number_injective {a b : Code} (h : a.number = b.number) : a = b := by
  revert h
  cases a <;> cases b <;> decide

end Code

/-- A violated rule with what its message names. -/
inductive Violation where
  | indexArgumentCount (count : Nat)
  | indexArgumentType (type : String)
  | namedIndexArgument (name : String)
  | indexArgumentModifier (modifier : String)
  | notIndexable (type : String)
  /-- The index is spelled as written, `^n` when it counts from the end. -/
  | indexOutOfBounds (index : String) (length : Nat)
  | readonlyRefUse (place : String)
  | readonlyAssignment (place : String)
  | returnParameterMember (parameter : String)
  | returnStructMember
  | returnLocalMember (name : String)
  | returnScopedParameter (parameter : String)
  | returnRefLocal (name : String)
  | spanMayEscape (name : String)
  | nonReferenceable
  | missingRequiredMember (member : String)
  | unassignedField (field : String)
  | unassignedVariable (name : String)
  | lvalueExpected
  | refArgumentNotAssignable
  deriving DecidableEq, Repr

namespace Violation

def code : Violation → Code
  | .indexArgumentCount _ => .indexArgumentCount
  | .indexArgumentType _ => .indexArgumentType
  | .namedIndexArgument _ => .namedIndexArgument
  | .indexArgumentModifier _ => .indexArgumentModifier
  | .notIndexable _ => .notIndexable
  | .indexOutOfBounds .. => .indexOutOfBounds
  | .readonlyRefUse _ => .readonlyRefUse
  | .readonlyAssignment _ => .readonlyAssignment
  | .returnParameterMember _ => .returnParameterMember
  | .returnStructMember => .returnStructMember
  | .returnLocalMember _ => .returnLocalMember
  | .returnScopedParameter _ => .returnScopedParameter
  | .returnRefLocal _ => .returnRefLocal
  | .spanMayEscape _ => .spanMayEscape
  | .nonReferenceable => .nonReferenceable
  | .missingRequiredMember _ => .missingRequiredMember
  | .unassignedField _ => .unassignedField
  | .unassignedVariable _ => .unassignedVariable
  | .lvalueExpected => .lvalueExpected
  | .refArgumentNotAssignable => .refArgumentNotAssignable

/-- What the message is filled in with, in order. -/
def args : Violation → List String
  | .indexArgumentCount count => [toString count]
  | .indexOutOfBounds index length => [index, toString length]
  | .indexArgumentType text | .namedIndexArgument text | .indexArgumentModifier text
  | .notIndexable text | .readonlyRefUse text | .readonlyAssignment text
  | .returnParameterMember text | .returnLocalMember text | .returnScopedParameter text
  | .returnRefLocal text | .spanMayEscape text | .missingRequiredMember text
  | .unassignedField text | .unassignedVariable text => [text]
  | .returnStructMember | .nonReferenceable | .lvalueExpected | .refArgumentNotAssignable => []

def message : Violation → String
  | .indexArgumentCount count =>
    s!"Wrong number of indices inside []; expected 1, found {count}"
  | .indexArgumentType type =>
    s!"Cannot index an inline array with an argument of type '{type}'"
  | .namedIndexArgument name =>
    s!"Inline array element access cannot use the named argument '{name}'"
  | .indexArgumentModifier modifier =>
    s!"Argument of an inline array element access may not be passed with the '{modifier}' keyword"
  | .notIndexable type =>
    s!"Cannot apply indexing with [] to an expression of type '{type}'"
  | .indexOutOfBounds index length =>
    s!"Index {index} is outside the bounds of the inline array of length {length}"
  | .readonlyRefUse place =>
    s!"Cannot use '{place}' as a ref or out value because it is a readonly variable"
  | .readonlyAssignment place =>
    s!"Cannot assign to '{place}' because it is a readonly variable"
  | .returnParameterMember parameter =>
    s!"Cannot return by reference a member of parameter '{parameter}' because it is not a ref " ++
      "or out parameter"
  | .returnStructMember =>
    "Struct members cannot return 'this' or other instance members by reference"
  | .returnLocalMember name =>
    s!"Cannot return a member of local '{name}' by reference because it is not a ref local"
  | .returnScopedParameter parameter =>
    s!"Cannot return a parameter by reference '{parameter}' because it is scoped to the " ++
      "current method"
  | .returnRefLocal name =>
    s!"Cannot return '{name}' by reference because it was initialized to a value that " ++
      "cannot be returned by reference"
  | .spanMayEscape name =>
    s!"Cannot use variable '{name}' in this context because it may expose referenced " ++
      "variables outside of their declaration scope"
  | .nonReferenceable =>
    "An expression cannot be used in this context because it may not be passed or returned by " ++
      "reference"
  | .missingRequiredMember member => s!"Missing compiler required member '{member}'"
  | .unassignedField field => s!"Use of possibly unassigned field '{field}'"
  | .unassignedVariable name => s!"Use of unassigned local variable '{name}'"
  | .lvalueExpected =>
    "The left-hand side of an assignment must be a variable, property or indexer"
  | .refArgumentNotAssignable => "A ref or out value must be an assignable variable"

end Violation

structure Diagnostic where
  violation : Violation
  span : SourceSpan
  deriving DecidableEq, Repr

namespace Diagnostic

def code (d : Diagnostic) : Code := d.violation.code

def message (d : Diagnostic) : String := d.violation.message

/-- Every violation is an error. -/
def severity (_ : Diagnostic) : String := "error"

/-- One line with severity, code, message and span. -/
def line (d : Diagnostic) : String :=
  s!"{d.severity}[{d.code.name}]: {d.message} (at {d.span.start}:{d.span.stop})"

/-- By position, then by code. -/
def precedes (a b : Diagnostic) : Bool :=
  a.span.start < b.span.start ||
    (a.span.start == b.span.start && a.code.number ≤ b.code.number)

def sort (diagnostics : List Diagnostic) : List Diagnostic := diagnostics.mergeSort precedes

def summary (diagnostics : List Diagnostic) : String :=
  match diagnostics.length with
  | 0 => "No issues found"
  | errors => s!"{errors} error(s)"

theorem sort_perm (diagnostics : List Diagnostic) : (sort diagnostics).Perm diagnostics :=
  diagnostics.mergeSort_perm precedes

end Diagnostic

end InlineArrays
