import InlineArrays.Data
import InlineArrays.Machine.Default
import InlineArrays.Machine.Memory
import InlineArrays.Types.Name

/-!
# Inputs

Plain data as values of a type.  A list given for a span is put on the heap, and so is the object
that a table for a class describes; fields that a table does not give have their default values.
-/

namespace InlineArrays

/-- An index: its offset, or a table that gives it from the end. -/
def Offset.ofData? : Data → Option Offset
  | .int value => some ⟨value, false⟩
  | .table entries =>
    match valueAt? "from-end" entries with
    | some (.int value) => some ⟨value, true⟩
    | _ => none
  | _ => none

/-- The bounds of a range; an omitted start is the first position and an omitted end the last. -/
def Value.rangeOfData? (entries : List (String × Data)) : Option Value := do
  let start ← (valueAt? "start" entries).elim (some ⟨0, false⟩) Offset.ofData?
  let stop ← (valueAt? "end" entries).elim (some ⟨0, true⟩) Offset.ofData?
  return .range start stop

section

variable (types : TypeTable) (name : String)

def invalidInput {α : Type} (type : TypeId) : Run α :=
  throw (.invalidInput name (types.format type))

mutual

/-- The value of a type that data describes; `name` is what the data was given for. -/
def inputValue (type : TypeId) : Data → Run Value
  | .int value =>
    match types.get type with
    | .int | .dynamic => return .int value
    | .index => return .index ⟨value, false⟩
    | _ => invalidInput types name type
  | .bool value =>
    match types.get type with
    | .bool | .dynamic => return .bool value
    | _ => invalidInput types name type
  | .list items =>
    match types.get type with
    | .array array =>
      if items.length = array.length then return .array (← inputItems array.element items)
      else invalidInput types name type
    | .span element readonly => do
      let base ← box (.array (← inputItems element items))
      return .span { base := some base, length := items.length, readonly }
    | _ => invalidInput types name type
  | .table entries =>
    match types.get type with
    | .index =>
      match Offset.ofData? (.table entries) with
      | some offset => return .index offset
      | none => invalidInput types name type
    | .range =>
      match Value.rangeOfData? entries with
      | some range => return range
      | none => invalidInput types name type
    | .struct struct => do
      if entries.any fun (key, _) ↦ (struct.field? key).isNone then
        invalidInput types name type
      let fields ← struct.fields.mapM fun f ↦ do return (f.name, ← inputField f entries)
      if struct.isClass then allocateObject (.struct fields) else return .struct fields
    | _ => invalidInput types name type
termination_by structural data => data

def inputItems (element : TypeId) : List Data → Run (List Value)
  | [] => return []
  | item :: items => do
    let item ← inputValue element item
    return item :: (← inputItems element items)
termination_by structural items => items

def inputField (field : Field) : List (String × Data) → Run Value
  | [] => return defaultValue types field.type
  | (key, data) :: entries =>
    if key = field.name then inputValue field.type data else inputField field entries
termination_by structural entries => entries

end

end

end InlineArrays
