import InlineArrays.Types.Table

/-!
# Containment by value

A struct holds its fields and an inline array its elements in place; classes and spans refer to what
they hold.  A type that contains itself by value would have no finite default value.
-/

namespace InlineArrays.TypeTable

/-- The types a value of this type holds in place. -/
def parts (t : TypeTable) (id : TypeId) : List TypeId :=
  match t.get id with
  | .struct type => if type.isClass then [] else type.fields.map (·.type)
  | .array type => [type.element]
  | _ => []

/-- Adds to a set of types the parts of its members, `rounds` times over. -/
def closeParts (t : TypeTable) : Nat → List TypeId → List TypeId
  | 0, found => found
  | rounds + 1, found =>
    closeParts t rounds <| (found.flatMap t.parts).foldl
      (fun found id ↦ if found.contains id then found else found ++ [id]) found

/-- Whether a value of this type holds a value of the same type; each round but the last finds a
type that is new, so as many rounds as there are types find all. -/
def containsItself (t : TypeTable) (id : TypeId) : Bool :=
  (t.closeParts t.size (t.parts id)).contains id

end InlineArrays.TypeTable
