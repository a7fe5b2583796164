import InlineArrays.Scenario.Basic
import InlineArrays.Toml.Parser

/-!
# Scenarios as documents

A record is a table of known keys, or an array of its values in the order of the keys.  A choice is
a table whose only key names it; one that carries nothing may also be written as its name, and one
that carries a record takes a date for the record without values.  A document that breaks a rule
describes no scenario.
-/

namespace InlineArrays

namespace Toml

def text? : Toml → Option String
  | .string text => some text
  | _ => none

def int? : Toml → Option Int64
  | .integer value => some value
  | _ => none

def nat? : Toml → Option Nat
  | .integer value => if 0 ≤ value.toInt then some value.toInt.toNat else none
  | _ => none

def bool? : Toml → Option Bool
  | .boolean value => some value
  | _ => none

def list? {α : Type} (read : Toml → Option α) : Toml → Option (List α)
  | .array items => items.mapM read
  | _ => none

/-- A table with any keys, ordered by key. -/
def map? {α : Type} (read : Toml → Option α) : Toml → Option (List (String × α))
  | .table entries =>
    entries.foldlM (fun table (key, v) ↦ (read v).map fun v ↦ insertEntry key v table) []
  | _ => none

structure Record where
  entries : List (String × Toml)
  /-- Written as an array, so that only the last values can be left out. -/
  positional : Bool

def record? (keys : List String) : Toml → Option Record
  | .table entries =>
    if entries.all fun entry ↦ keys.contains entry.1 then some ⟨entries, false⟩ else none
  | .array items => some ⟨keys.zip items, true⟩
  | _ => none

/-- The record that a choice carries.  A date stands for one that leaves every value out. -/
def carried? (keys : List String) : Toml → Option Record
  | .datetime _ => some ⟨[], false⟩
  | v => record? keys v

namespace Record

def required {α : Type} (r : Record) (key : String) (read : Toml → Option α) : Option α :=
  (valueAt? key r.entries).bind read

def orDefault {α : Type} (r : Record) (key : String) (read : Toml → Option α) (default : α) :
    Option α :=
  match valueAt? key r.entries with
  | some v => read v
  | none => some default

def optional {α : Type} (r : Record) (key : String) (read : Toml → Option α) :
    Option (Option α) :=
  r.orDefault key (fun v ↦ (read v).map some) none

/-- An optional value that an array cannot leave out. -/
def held {α : Type} (r : Record) (key : String) (read : Toml → Option α) : Option (Option α) :=
  if r.positional then (r.required key read).map some else r.optional key read

end Record

/-- The name of a choice and what it carries. -/
def choice? : Toml → Option (String × Option Toml)
  | .string name => some (name, none)
  | .table [(name, carried)] => some (name, some carried)
  | _ => none

/-- A choice that carries nothing. -/
def word? {α : Type} (words : List (String × α)) (v : Toml) : Option α :=
  match choice? v with
  | some (name, none) | some (name, some (.table [])) | some (name, some (.array [])) =>
    valueAt? name words
  | _ => none

mutual

def data? : Toml → Option Data
  | .boolean value => some (.bool value)
  | .integer value => some (.int value)
  | .array items => (dataItems? items).map .list
  | .table entries => (dataEntries? entries).map .table
  | .string _ | .float _ | .datetime _ => none

def dataItems? : List Toml → Option (List Data)
  | [] => some []
  | item :: items => do return (← item.data?) :: (← dataItems? items)

def dataEntries? : List (String × Toml) → Option (List (String × Data))
  | [] => some []
  | (key, v) :: entries => do
    let data ← v.data?
    return insertEntry key data (← dataEntries? entries)

end

end Toml

open Toml

def StructKind.words : List (String × StructKind) :=
  [("struct", .value), ("readonly-struct", .readonlyValue), ("class", .reference)]

def ReturnKind.words : List (String × ReturnKind) :=
  [("void", .void), ("value", .value), ("ref", .ref), ("ref-readonly", .refReadonly)]

def ParameterKind.words : List (String × ParameterKind) :=
  [("value", .value), ("ref", .ref), ("in", .input), ("out", .output),
    ("ref-readonly", .refReadonly)]

def Modifier.words : List (String × Modifier) :=
  [("none", .none), ("ref", .ref), ("in", .input), ("out", .output)]

def BinaryOp.words : List (String × BinaryOp) := [("add", .add), ("sub", .sub), ("mul", .mul)]

def Argument.ofToml? {ε : Type} (term? : Toml → Option ε) (v : Toml) : Option (Argument ε) := do
  let r ← record? ["value", "name", "modifier"] v
  return {
    value := ← r.required "value" term?
    name := ← r.optional "name" text?
    modifier := ← r.orDefault "modifier" (word? Modifier.words) .none }

namespace Term

/-- Reads an expression that nests at most `depth` deep. -/
def within? : Nat → Toml → Option Term
  | 0, _ => none
  | depth + 1, v =>
    let inner := within? depth
    match choice? v with
    | some ("path", some v) => (text? v).map .path
    | some ("field", some v) => do
      let r ← carried? ["of", "name"] v
      return .field (← r.required "of" inner) (← r.required "name" text?)
    | some ("int", some v) => (int? v).map .int
    | some ("bool", some v) => (bool? v).map .bool
    | some ("string", some v) => (text? v).map .string
    | some ("from-end", some v) => (inner v).map .fromEnd
    | some ("range", some v) => do
      let r ← carried? ["start", "end"] v
      return .range (← r.optional "start" inner) (← r.optional "end" inner)
    | some ("default", some v) => (text? v).map .default
    | some ("call", some v) => do
      let r ← carried? ["callee", "returns", "type"] v
      return .call (← r.required "callee" text?)
        (← r.orDefault "returns" (word? ReturnKind.words) .void) (← r.required "type" text?)
    | some ("index", some v) => do
      let r ← carried? ["of", "at"] v
      return .index (← r.required "of" inner) (← r.required "at" inner)
    | some ("element", some v) => do
      let r ← carried? ["of", "args"] v
      return .element (← r.required "of" inner)
        (← r.required "args" (list? (Argument.ofToml? inner)))
    | some ("span", some v) => do
      let r ← carried? ["of", "readonly"] v
      return .span (← r.required "of" inner) (← r.orDefault "readonly" bool? false)
    | some ("conditional", some v) => do
      let r ← carried? ["receiver", "access"] v
      return .conditional (← r.required "receiver" inner) (← r.required "access" inner)
    | _ => word? [("receiver", .receiver)] v

def ofToml? (v : Toml) : Option Term := within? v.depth v

end Term

def Action.ofToml? (v : Toml) : Option Action :=
  match choice? v with
  | some ("expr", some v) => (Term.ofToml? v).map .expression
  | some ("assign", some v) => do
    let r ← carried? ["target", "value"] v
    return .assign (← r.required "target" Term.ofToml?) (← r.required "value" Term.ofToml?)
  | some ("compound", some v) => do
    let r ← carried? ["target", "op", "value"] v
    return .compound (← r.required "target" Term.ofToml?)
      (← r.required "op" (word? BinaryOp.words)) (← r.required "value" Term.ofToml?)
  | some ("ref-local", some v) => do
    let r ← carried? ["name", "readonly", "type", "init"] v
    return .refLocal (← r.required "name" text?) (← r.orDefault "readonly" bool? false)
      (← r.required "type" text?) (← r.required "init" Term.ofToml?)
  | some ("call", some v) => do
    let r ← carried? ["callee", "args"] v
    return .call (← r.required "callee" text?)
      (← r.orDefault "args" (list? (Argument.ofToml? Term.ofToml?)) [])
  | some ("return", some v) => do
    let r ← carried? ["value"] v
    return .ret (← r.optional "value" Term.ofToml?)
  | _ => none

def ArrayDecl.ofToml? (v : Toml) : Option ArrayDecl := do
  let r ← record? ["name", "element", "length"] v
  return {
    name := ← r.required "name" text?
    element := ← r.required "element" text?
    length := ← r.required "length" nat? }

def FieldDecl.ofToml? (v : Toml) : Option FieldDecl := do
  let r ← record? ["name", "type", "readonly"] v
  return {
    name := ← r.required "name" text?
    type := ← r.required "type" text?
    readonly := ← r.orDefault "readonly" bool? false }

def StructDecl.ofToml? (v : Toml) : Option StructDecl := do
  let r ← record? ["name", "kind", "fields"] v
  return {
    name := ← r.required "name" text?
    kind := ← r.orDefault "kind" (word? StructKind.words) .value
    fields := ← r.orDefault "fields" (list? FieldDecl.ofToml?) [] }

def OwnerDecl.ofToml? (v : Toml) : Option OwnerDecl := do
  let r ← record? ["type", "readonly", "unscoped-ref"] v
  return {
    type := ← r.required "type" text?
    readonly := ← r.orDefault "readonly" bool? false
    unscopedRef := ← r.orDefault "unscoped-ref" bool? false }

def ParameterDecl.ofToml? (v : Toml) : Option ParameterDecl := do
  let r ← record? ["name", "kind", "type", "scoped"] v
  return {
    name := ← r.required "name" text?
    kind := ← r.orDefault "kind" (word? ParameterKind.words) .value
    type := ← r.required "type" text?
    confined := ← r.orDefault "scoped" bool? false }

def LocalDecl.ofToml? (v : Toml) : Option LocalDecl := do
  let r ← record? ["name", "type", "initialized"] v
  return {
    name := ← r.required "name" text?
    type := ← r.required "type" text?
    assigned := ← r.orDefault "initialized" bool? false }

def MethodDecl.ofToml? (v : Toml) : Option MethodDecl := do
  let r ← record?
    ["name", "returns", "return-type", "instance", "parameters", "locals", "body"] v
  return {
    name := ← r.required "name" text?
    returns := ← r.orDefault "returns" (word? ReturnKind.words) .void
    returnType := ← r.optional "return-type" text?
    owner := ← r.optional "instance" OwnerDecl.ofToml?
    parameters := ← r.orDefault "parameters" (list? ParameterDecl.ofToml?) []
    locals := ← r.orDefault "locals" (list? LocalDecl.ofToml?) []
    body := ← r.orDefault "body" (list? Action.ofToml?) [] }

def Options.ofToml? (v : Toml) : Option Options := do
  let r ← record? ["missing-members", "run", "entry"] v
  return {
    missingMembers := ← r.orDefault "missing-members" (list? text?) []
    run := ← r.orDefault "run" bool? false
    entry := ← r.optional "entry" text? }

def Expectations.ofToml? (v : Toml) : Option Expectations := do
  let r ← record? ["codes", "lowered", "operations", "result", "output", "runtime-error"] v
  return {
    codes := ← r.held "codes" (list? text?)
    lowered := ← r.held "lowered" (list? text?)
    operations := ← r.orDefault "operations" (map? (list? text?)) []
    result := ← r.held "result" data?
    output := ← r.held "output" (list? text?)
    runtimeError := ← r.held "runtime-error" text? }

namespace Scenario

def ofToml? (v : Toml) : Option Scenario := do
  let r ← record? ["options", "inline-arrays", "structs", "methods", "inputs", "expect"] v
  return {
    options := ← r.orDefault "options" Options.ofToml? {}
    arrays := ← r.orDefault "inline-arrays" (list? ArrayDecl.ofToml?) []
    structs := ← r.orDefault "structs" (list? StructDecl.ofToml?) []
    methods := ← r.orDefault "methods" (list? MethodDecl.ofToml?) []
    inputs := ← r.orDefault "inputs" (map? data?) []
    expect := ← r.optional "expect" Expectations.ofToml? }

/-- The scenario that a text in TOML describes. -/
def parse? (text : String) : Option Scenario := (Toml.parse? text).bind ofToml?

end Scenario

end InlineArrays
