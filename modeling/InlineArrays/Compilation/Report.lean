import InlineArrays.Compilation
import InlineArrays.Text.Json

/-!
# Machine-readable reports

A compilation as a document: what became of each method, the run if there was one, and a summary.
-/

namespace InlineArrays

open Text (Json)

def Diagnostic.document (d : Diagnostic) : Json :=
  .object [("code", .string d.code.name), ("number", .nat d.code.number),
    ("category", .string d.code.category.name), ("severity", .string d.severity),
    ("message", .string d.message), ("args", .strings d.violation.args),
    ("span", .array [.nat d.span.start, .nat d.span.stop])]

/-- The code of the method is included if `withCode` says so. -/
def MethodOutcome.document (withCode : Bool) (o : MethodOutcome) : Json :=
  let code := if withCode then o.routine?.map fun r ↦ .string r.text else none
  .object ([("name", .string o.method.name),
    ("diagnostics", .array (o.diagnostics.map (·.document))),
    ("lowered", .bool o.routine?.isSome), ("operations", .strings o.helpers)] ++
    Json.present "mir" code ++
    Json.present "failure" (o.failure?.map fun e ↦ .string e.message))

def EntryRun.document (r : EntryRun) : Json :=
  match r.outcome with
  | .ok execution =>
    .object ([("entry", .string r.entry)] ++
      Json.present "result" (execution.result.map fun value ↦ .string value.text) ++
      [("output", .strings execution.output)])
  | .error e =>
    .object [("entry", .string r.entry), ("output", .array []), ("error", .string e.name)]

def Compilation.document (withCode : Bool) (c : Compilation) : Json :=
  .object ([("methods", .array (c.methods.map (·.document withCode)))] ++
    Json.present "execution" (c.run.map (·.document)) ++ [("summary", .string c.summary)])

end InlineArrays
