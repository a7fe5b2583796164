import InlineArrays.Machine.Memory

/-!
# Materialized values

The result of a run and the arguments of calls that leave the program are shown with every
reference, span and object replaced by the data it stands for.
-/

namespace InlineArrays.Memory

/-- What the next `count` elements from `position` on give, up to the first error. -/
def eachElement (f : Nat → Except RuntimeError Value) (position : Nat) :
    Nat → Except RuntimeError (List Value)
  | 0 => .ok []
  | count + 1 => do
    let item ← f position
    return item :: (← eachElement f (position + 1) count)

/-- Follows references at most so deep. -/
def materializeWithin (m : Memory) : Nat → Value → Except RuntimeError Value
  | 0, _ => .error .cyclicReference
  | depth + 1, value =>
    match value with
    | .address target => do m.materializeWithin depth (← m.read target)
    | .object cell =>
      match m.heap[cell]? with
      | some object => m.materializeWithin depth object
      | none => .error .danglingReference
    | .span view => do
      let item (position : Nat) : Except RuntimeError Value :=
        match view.base with
        | some base => m.materializeWithin depth (.address (base.join (.element position)))
        | none => .error .nullReference
      return .array (← eachElement item view.start view.length)
    | .struct fields => do
      return .struct (← fields.mapM fun (name, field) ↦ do
        return (name, ← m.materializeWithin depth field))
    | .array items => do return .array (← items.mapM (m.materializeWithin depth))
    | other => .ok other

/-- A chain of references that does not come back to a value passes each value stored at most
once, through a reference or the element of a span. -/
def materialize (m : Memory) (value : Value) : Except RuntimeError Value :=
  m.materializeWithin (2 * (m.size + value.size) + 2) value

/-- A value as the output shows it. -/
def render (m : Memory) (value : Value) : String :=
  match m.materialize value with
  | .ok value => value.text
  | .error e => s!"<{e.message}>"

end InlineArrays.Memory
