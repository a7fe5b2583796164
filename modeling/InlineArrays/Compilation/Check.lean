import InlineArrays.Compilation

/-!
# Checking expectations

Every expectation of a scenario that its compilation does not meet is one line with what was
expected and what was found.
-/

namespace InlineArrays

/-- One expectation that was not met. -/
structure Mismatch where
  what : String
  expected : String
  found : String
  deriving DecidableEq, Repr

def Mismatch.line (m : Mismatch) : String :=
  s!"{m.what}: expected {m.expected}, got {m.found}"

/-- A text that may be absent. -/
def describeText : Option String → String
  | some text => s!"Some({Text.quote text})"
  | none => "None"

/-- Compares lists of texts. -/
def compareTexts (what : String) (expected found : List String) : List Mismatch :=
  if expected = found then [] else [⟨what, Text.quoteList expected, Text.quoteList found⟩]

namespace Compilation

def execution? (c : Compilation) : Option Execution := c.run.bind (·.outcome.toOption)

def result? (c : Compilation) : Option Value := c.execution?.bind (·.result)

def runtimeError? (c : Compilation) : Option RuntimeError :=
  c.run.bind fun r ↦
    match r.outcome with
    | .ok _ => none
    | .error e => some e

/-- The expectations that are not met, in the order in which they are written down. -/
def mismatches (c : Compilation) (e : Expectations) : List Mismatch :=
  (e.codes.map (compareTexts "codes" · c.codes)).getD [] ++
  (e.lowered.map (compareTexts "lowered" · c.lowered)).getD [] ++
  e.operations.flatMap (fun (method, operations) ↦
    compareTexts s!"operations of '{method}'" operations
      ((c.outcome? method).map (·.helpers) |>.getD [])) ++
  (match e.result with
    | some expected =>
      if c.result?.any (·.agrees expected) then []
      else [⟨"result", expected.describe, describeText (c.result?.map (·.text))⟩]
    | none => []) ++
  (e.output.map (compareTexts "output" · ((c.execution?.map (·.output)).getD []))).getD [] ++
  (match e.runtimeError with
    | some expected =>
      let found := c.runtimeError?.map (·.name)
      if found = some expected then []
      else [⟨"runtime error", Text.quote expected, describeText found⟩]
    | none => [])

end Compilation

end InlineArrays
