import InlineArrays.Toml.Basic

/-!
# Tables under construction

While a document is read its tables grow: a header opens a table and the tables above it, a dotted
key opens tables of its own, and `[[name]]` adds a table to a list.  Where each table came from
decides who may still add to it, so that none is defined twice.
-/

namespace InlineArrays.Toml

inductive Source where
  /-- Named by a header. -/
  | header
  /-- Above a table that a header names. -/
  | implied
  /-- Opened by a dotted key. -/
  | dotted
  deriving DecidableEq

inductive Draft where
  | value (value : Toml)
  | table (source : Source) (entries : List (String × Draft))
  /-- The tables of a list; entries are added to the last one. -/
  | tables (closed : List (List (String × Draft))) (last : List (String × Draft))

namespace Draft

abbrev Entries := List (String × Draft)

/-- Replaces what a key holds, or adds it at the end; `change` sees what was there. -/
def update? (key : String) (change : Option Draft → Option Draft) : Entries → Option Entries
  | [] => (change none).map fun d ↦ [(key, d)]
  | (k, d) :: entries =>
    if k = key then (change (some d)).map fun d ↦ (k, d) :: entries
    else (update? key change entries).map ((k, d) :: ·)

/-- Adds a value below dotted keys; a table that a header named is closed to them, and the last
table on the way must be one that dotted keys opened. -/
def insertDotted? (key : String) (v : Toml) : List String → Entries → Option Entries
  | [], entries =>
    update? key (fun
      | none => some (.value v)
      | some _ => none) entries
  | [part], entries =>
    update? part (fun
      | none => some (.table .dotted [(key, .value v)])
      | some (.table .dotted inner) => (insertDotted? key v [] inner).map (.table .dotted ·)
      | some _ => none) entries
  | part :: path, entries =>
    update? part (fun
      | none => (insertDotted? key v path []).map (.table .dotted ·)
      | some (.table .header _) => none
      | some (.table source inner) => (insertDotted? key v path inner).map (.table source ·)
      | some (.tables closed last) => (insertDotted? key v path last).map (.tables closed ·)
      | some (.value _) => none) entries

/-- Changes the table that a header path names, opening the tables above it. -/
def below? (change : Entries → Option Entries) : List String → Entries → Option Entries
  | [], entries => change entries
  | part :: path, entries =>
    update? part (fun
      | none => (below? change path []).map (.table .implied ·)
      | some (.table source inner) => (below? change path inner).map (.table source ·)
      | some (.tables closed last) => (below? change path last).map (.tables closed ·)
      | some (.value _) => none) entries

/-- Opens the table of a header. -/
def openTable? (key : String) : Entries → Option Entries :=
  update? key fun
    | none => some (.table .header [])
    | some (.table .implied entries) => some (.table .header entries)
    | some _ => none

/-- Adds a table to the list of a doubled header. -/
def openItem? (key : String) : Entries → Option Entries :=
  update? key fun
    | none => some (.tables [] [])
    | some (.tables closed last) => some (.tables (closed ++ [last]) [])
    | some _ => none

mutual

def finish : Draft → Toml
  | .value v => v
  | .table _ entries => .table (finishEntries entries)
  | .tables closed last =>
    .array (finishTables closed ++ [.table (finishEntries last)])

def finishEntries : List (String × Draft) → List (String × Toml)
  | [] => []
  | (key, draft) :: entries => (key, draft.finish) :: finishEntries entries

def finishTables : List (List (String × Draft)) → List Toml
  | [] => []
  | entries :: rest => .table (finishEntries entries) :: finishTables rest

end

end Draft

end InlineArrays.Toml
