/-!
# Run-time errors

What stops a run.  The name of an error is stable and used in expectations and reports.
-/

namespace InlineArrays

/-- Calls nest no deeper than this. -/
def maxCallDepth : Nat := 256

inductive RuntimeError where
  | indexOutOfRange (index : Int64) (length : Nat)
  | sliceOutOfRange (start count : Int64) (length : Nat)
  | negativeIndex (value : Int64)
  | nullReference
  | typeMismatch (expected found : String)
  | danglingReference
  /-- A reference was followed back to itself. -/
  | cyclicReference
  | undefinedValue (operand : String)
  | unknownMethod (name : String)
  | argumentCount (callee : String) (expected found : Nat)
  | stackOverflow
  | invalidInput (name expected : String)
  deriving DecidableEq, Repr

namespace RuntimeError

def name : RuntimeError → String
  | .indexOutOfRange .. => "index-out-of-range"
  | .sliceOutOfRange .. => "slice-out-of-range"
  | .negativeIndex _ => "negative-index"
  | .nullReference => "null-reference"
  | .typeMismatch .. => "type-mismatch"
  | .danglingReference => "dangling-reference"
  | .cyclicReference => "cyclic-reference"
  | .undefinedValue _ => "undefined-value"
  | .unknownMethod _ => "unknown-method"
  | .argumentCount .. => "argument-count"
  | .stackOverflow => "stack-overflow"
  | .invalidInput .. => "invalid-input"

def message : RuntimeError → String
  | .indexOutOfRange index length =>
    s!"index {index.toInt} is out of range for length {length}"
  | .sliceOutOfRange start count length =>
    s!"slice of {count.toInt} element(s) at {start.toInt} is out of range for length {length}"
  | .negativeIndex value => s!"index value {value.toInt} is negative"
  | .nullReference => "null reference"
  | .typeMismatch expected found => s!"expected {expected}, found {found}"
  | .danglingReference => "reference to storage that no longer exists"
  | .cyclicReference => "reference that leads back to itself"
  | .undefinedValue operand => s!"value {operand} is used before it is defined"
  | .unknownMethod name => s!"method '{name}' was not lowered"
  | .argumentCount callee expected found =>
    s!"'{callee}' expects {expected} argument(s), found {found}"
  | .stackOverflow => s!"call depth exceeded {maxCallDepth}"
  | .invalidInput name expected => s!"invalid input for '{name}': expected {expected}"

end RuntimeError

end InlineArrays
