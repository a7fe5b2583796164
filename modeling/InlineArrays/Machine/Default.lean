import InlineArrays.Machine.Value
import InlineArrays.Types.Table

/-!
# Default values

The value a variable holds before it is assigned.  Classes default to null, so a default value is
finite as soon as no struct contains itself by value; the types nested in one are then distinct and
no more than the table holds.
-/

namespace InlineArrays

def defaultWithin (types : TypeTable) : Nat → TypeId → Value
  | 0, _ => .null
  | depth + 1, id =>
    match types.get id with
    | .int | .dynamic => .int 0
    | .bool => .bool false
    | .string | .error => .null
    | .index => .index ⟨0, false⟩
    | .range => .range ⟨0, false⟩ ⟨0, true⟩
    | .array type => .array (List.replicate type.length (defaultWithin types depth type.element))
    | .struct type =>
      if type.isClass then .null
      else .struct (type.fields.map fun f ↦ (f.name, defaultWithin types depth f.type))
    | .span _ readonly => .span { readonly }

def defaultValue (types : TypeTable) (id : TypeId) : Value := defaultWithin types types.size id

/-- A new object of a class: its fields with their default values. -/
def defaultObject (types : TypeTable) (id : TypeId) : Value :=
  match types.struct? id with
  | some type => .struct (type.fields.map fun f ↦ (f.name, defaultValue types f.type))
  | none => .null

end InlineArrays
