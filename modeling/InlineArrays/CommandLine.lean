import InlineArrays.Compilation.Check
import InlineArrays.Compilation.Report
import InlineArrays.Scenario.Decode

/-!
# Command line

What the arguments of the program ask for, and the lines it prints for a compiled scenario.
-/

namespace InlineArrays

structure CommandLine where
  /-- The scenario file. -/
  input : Option String := none
  /-- Also show the code. -/
  verbose : Bool := false
  run : Bool := false
  entry : Option String := none
  missingMembers : List String := []
  json : Bool := false
  /-- Compare the outcome with what the scenario expects. -/
  check : Bool := false
  deriving Repr

/-- What a command prints, and whether it failed. -/
structure Transcript where
  output : List String := []
  errors : List String := []
  failed : Bool := false
  deriving Repr

namespace CommandLine

def usage : String :=
  "usage: inline-arrays --input FILE [--verbose] [--run] [--entry METHOD] " ++
    "[--missing-member MEMBER]... [--json] [--no-color] [--check]"

/-- Reads arguments one after the other; `none` for one that is not known. -/
def read? (c : CommandLine) : List String → Option CommandLine
  | [] => some c
  | "-i" :: file :: args | "--input" :: file :: args => { c with input := some file }.read? args
  | "--entry" :: entry :: args => { c with entry := some entry }.read? args
  | "--missing-member" :: m :: args =>
    { c with missingMembers := c.missingMembers ++ [m] }.read? args
  | "-v" :: args | "--verbose" :: args => { c with verbose := true }.read? args
  | "--run" :: args => { c with run := true }.read? args
  | "--json" :: args => { c with json := true }.read? args
  | "--no-color" :: args => c.read? args
  | "--check" :: args => { c with check := true }.read? args
  | _ => none

/-- The options of a scenario with those given on the command line. -/
def options (c : CommandLine) (s : Scenario) : Options :=
  s.options.override c.missingMembers c.run c.entry

def runLines (r : EntryRun) : Transcript :=
  match r.outcome with
  | .ok execution =>
    let last := match execution.result with
      | some value => s!"Run of '{r.entry}' returned: {value.text}"
      | none => s!"Run of '{r.entry}' succeeded"
    { output := execution.output ++ [last] }
  | .error e => { errors := [s!"Run of '{r.entry}' failed: {e.message}"] }

/-- What is printed on a compilation. -/
def compiled (c : CommandLine) (s : Scenario) (compilation : Compilation) : Transcript :=
  let shown : Transcript :=
    if c.json then { output := [(compilation.document c.verbose).render 0] }
    else
      let reports := compilation.reports
      let code :=
        if c.verbose && !compilation.routines.isEmpty then
          ["\n=== Generated MIR ===", compilation.text, "=====================\n"]
        else []
      let run := (compilation.run.map runLines).getD {}
      { output := (if reports.isEmpty then [] else [reports]) ++ code ++ run.output ++
          [compilation.summary]
        errors := (compilation.failures.map fun (method, e) ↦
          s!"Failed to lower '{method}': {e.message}") ++ run.errors }
  let file := c.input.getD ""
  match c.check, s.expect with
  | true, some expected =>
    let mismatches := compilation.mismatches expected
    { shown with
      errors := shown.errors ++ mismatches.map fun m ↦ s!"expectation not met: {m.line}"
      failed := !mismatches.isEmpty }
  | true, none =>
    { shown with
      errors := shown.errors ++ [s!"'{file}' has no [expect] table"]
      failed := compilation.hasErrors }
  | false, _ => { shown with failed := compilation.hasErrors }

/-- What is printed for the text of a scenario. -/
def execute (c : CommandLine) (text : String) : Transcript :=
  match Scenario.parse? text with
  | none => { errors := ["the file describes no scenario"], failed := true }
  | some s =>
    match s.compile (c.options s) with
    | .error e => { errors := [s!"Compilation failed: {e.message}"], failed := true }
    | .ok compilation => c.compiled s compilation

end CommandLine

end InlineArrays
