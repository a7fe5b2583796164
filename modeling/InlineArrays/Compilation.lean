import InlineArrays.Code.OfMethod
import InlineArrays.Diagnostic.Report
import InlineArrays.Machine.Run

/-!
# Compilation

Compiling a scenario builds its program, validates and lowers every method by itself and, if the
options say so, runs the entry method on the inputs of the scenario.  What is found wrong with the
methods or with the run is part of the outcome.
-/

namespace InlineArrays

/-- What keeps a scenario from being compiled at all. -/
inductive CompileError where
  | scenario (error : ScenarioError)
  | unknownMember (error : UnknownMember)
  deriving DecidableEq, Repr

def CompileError.message : CompileError → String
  | .scenario error => error.message
  | .unknownMember error => error.message

/-- What became of one method. -/
structure MethodOutcome where
  method : Method
  /-- Sorted by position and code. -/
  diagnostics : List Diagnostic
  routine : Except LoweringError Routine

namespace MethodOutcome

def of (types : TypeTable) (members : MemberTable) (method : Method) : MethodOutcome :=
  let c : Context := { types, members, method }
  { method, diagnostics := c.validate?.getD [], routine := c.routine }

/-- The code, if the method was lowered. -/
def routine? (o : MethodOutcome) : Option Routine := o.routine.toOption

/-- Why a method without errors was not lowered. -/
def failure? (o : MethodOutcome) : Option LoweringError :=
  match o.routine with
  | .ok _ | .error (.invalid ..) => none
  | .error e => some e

/-- The span helpers that the lowered method calls. -/
def helpers (o : MethodOutcome) : List String := (o.routine?.map (·.helpers)).getD []

/-- The diagnostics drawn under the source of the method, if there are any. -/
def report? (o : MethodOutcome) : Option String :=
  if o.diagnostics.isEmpty then none
  else
    some (s!"method '{o.method.name}':\n" ++
      Diagnostic.reports o.method.listing.source o.diagnostics)

end MethodOutcome

structure EntryRun where
  entry : String
  outcome : Except RuntimeError Execution

structure Compilation where
  /-- In the order of declaration. -/
  methods : List MethodOutcome
  run : Option EntryRun

namespace Compilation

def routines (c : Compilation) : List Routine := c.methods.filterMap (·.routine?)

def outcome? (c : Compilation) (method : String) : Option MethodOutcome :=
  c.methods.find? (·.method.name == method)

def errorCount (c : Compilation) : Nat := (c.methods.flatMap (·.diagnostics)).length

/-- The failed lowerings, with the names of the methods. -/
def failures (c : Compilation) : List (String × LoweringError) :=
  c.methods.filterMap fun o ↦ o.failure?.map (o.method.name, ·)

/-- Whether a diagnostic, a lowering or the run went wrong. -/
def hasErrors (c : Compilation) : Bool :=
  c.errorCount > 0 || !c.failures.isEmpty || c.run.any fun r ↦ r.outcome.toOption.isNone

/-- The codes of all diagnostics. -/
def codes (c : Compilation) : List String :=
  c.methods.flatMap fun o ↦ o.diagnostics.map (·.code.name)

/-- The names of the lowered methods. -/
def lowered (c : Compilation) : List String := c.routines.map (·.name)

def summary (c : Compilation) : String :=
  s!"{c.errorCount} error(s) in {c.methods.length} method(s), {c.routines.length} lowered"

/-- Every diagnostic drawn under the source of its method. -/
def reports (c : Compilation) : String := "\n".intercalate (c.methods.filterMap (·.report?))

/-- The code of every lowered method. -/
def text (c : Compilation) : String := "\n".intercalate (c.routines.map (·.text))

end Compilation

/-- Runs a method of a program on a new machine. -/
def Program.run (p : Program) (routines : List Routine) (entry : String)
    (inputs : List (String × Data)) : EntryRun :=
  match (Executable.link p routines).run entry inputs {} with
  | .ok execution _ => ⟨entry, .ok execution⟩
  | .error e _ => ⟨entry, .error e⟩

def Scenario.compile (s : Scenario) (options : Options) : Except CompileError Compilation := do
  let members ← options.members.mapError .unknownMember
  let program ← s.build.mapError .scenario
  let methods := program.methods.map (MethodOutcome.of program.types members)
  let routines := methods.filterMap (·.routine?)
  let run := if options.run then some (program.run routines options.start s.inputs) else none
  return { methods, run }

end InlineArrays
