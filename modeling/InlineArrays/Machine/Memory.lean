import InlineArrays.Machine.Error
import InlineArrays.Machine.Value

/-!
# Memory

The activations on the stack, each with slots for its variables, temporaries and values, and a heap
that only grows.  An address is read and written along its path from its root; through the address
of an activation that has returned neither succeeds.
-/

namespace InlineArrays

/-- The error of finding a value of the wrong kind. -/
def Value.mismatch (expected : String) (found : Value) : RuntimeError :=
  .typeMismatch expected found.kind

namespace Value

/-- A step into a value; `absent` is named as found where a struct lacks the field. -/
def child (absent : String) (v : Value) : Step → Except RuntimeError Value
  | .field name =>
    match v with
    | .struct _ =>
      match v.field? name with
      | some field => .ok field
      | none => .error (.typeMismatch "field" absent)
    | .null => .error .nullReference
    | other => .error (other.mismatch "struct")
  | .element position =>
    match v with
    | .array items =>
      match items[position]? with
      | some item => .ok item
      | none => .error (.indexOutOfRange (Int64.ofNat position) items.length)
    | .null => .error .nullReference
    | other => .error (other.mismatch "inline array")

/-- A value with what is one step inside it replaced. -/
def withChild (v : Value) (new : Value) : Step → Value
  | .field name => v.withField name new
  | .element position =>
    match v with
    | .array items => .array (items.set position new)
    | other => other

def get : Value → List Step → Except RuntimeError Value
  | v, [] => .ok v
  | v, step :: path => do (← v.child "struct" step).get path

def set (new : Value) : Value → List Step → Except RuntimeError Value
  | _, [] => .ok new
  | v, step :: path => do
    let absent := match step with
      | .field name => name
      | .element _ => ""
    return v.withChild (← set new (← v.child absent step) path) step

mutual

/-- The number of values in a value, itself included. -/
def size : Value → Nat
  | .struct fields => fieldSizes fields + 1
  | .array items => itemSizes items + 1
  | _ => 1

def fieldSizes : List (String × Value) → Nat
  | [] => 0
  | (_, value) :: fields => value.size + fieldSizes fields

def itemSizes : List Value → Nat
  | [] => 0
  | item :: items => item.size + itemSizes items

end

end Value

/-- An association list with the entry of a key replaced or added. -/
def assign {α β : Type} [DecidableEq α] (key : α) (value : β) : List (α × β) → List (α × β)
  | [] => [(key, value)]
  | (k, v) :: entries =>
    if k = key then (key, value) :: entries else (k, v) :: assign key value entries

theorem find?_assign {α β : Type} [DecidableEq α] (key k : α) (value : β)
    (entries : List (α × β)) :
    ((assign key value entries).find? (·.1 == k)).map (·.2) =
      if key = k then some value else (entries.find? (·.1 == k)).map (·.2) := by
  induction entries with
  | nil => by_cases h : key = k <;> simp [assign, h]
  | cons entry entries ih =>
    by_cases h : entry.1 = key
    · rw [assign, if_pos h]
      by_cases hk : key = k <;> simp [h, hk]
    · rw [assign, if_neg h]
      by_cases hk : entry.1 = k
      · have : key ≠ k := fun e ↦ h (hk.trans e.symm)
        simp [hk, this]
      · rw [List.find?_cons_of_neg (by simpa using hk), ih,
          List.find?_cons_of_neg (by simpa using hk)]

structure Frame where
  /-- Never used again for another activation. -/
  id : Nat
  slots : List (VariableId × Value)
  temps : List Value
  values : List (Option Value)

namespace Frame

def slot? (f : Frame) (v : VariableId) : Option Value :=
  (f.slots.find? (·.1 == v)).map (·.2)

def setSlot (f : Frame) (v : VariableId) (value : Value) : Frame :=
  { f with slots := assign v value f.slots }

theorem slot?_setSlot (f : Frame) (v w : VariableId) (value : Value) :
    (f.setSlot v value).slot? w = if v = w then some value else f.slot? w :=
  find?_assign v w value f.slots

/-- Stores to a temporary; there are always as many as needed. -/
def setTemp (f : Frame) (t : TempId) (value : Value) : Frame :=
  let room := f.temps ++ List.replicate (t + 1 - f.temps.length) .unit
  { f with temps := room.set t value }

/-- Defines a value that the routine has counted. -/
def define (f : Frame) (dest : ValueId) (value : Value) : Frame :=
  { f with values := f.values.set dest (some value) }

def value? (f : Frame) (id : ValueId) : Option Value := f.values[id]?.join

def size (f : Frame) : Nat :=
  Value.itemSizes (f.slots.map (·.2)) + Value.itemSizes f.temps

end Frame

structure Memory where
  /-- The running activation first. -/
  frames : List Frame := []
  heap : List Value := []
  nextFrame : Nat := 0
  /-- Calls of methods outside the program, in order. -/
  output : List String := []

namespace Memory

def frame? (m : Memory) (id : Nat) : Option Frame := m.frames.find? (·.id == id)

def root? (m : Memory) : Root → Option Value
  | .slot frame v => (m.frame? frame).bind (·.slot? v)
  | .temp frame t => (m.frame? frame).bind (·.temps[t]?)
  | .heap cell => m.heap[cell]?

/-- Changes the activation of an id. -/
def updateFrame (m : Memory) (id : Nat) (change : Frame → Frame) : Memory :=
  { m with frames := m.frames.map fun f ↦ if f.id = id then change f else f }

def setRoot (m : Memory) (value : Value) : Root → Memory
  | .slot frame v => m.updateFrame frame (·.setSlot v value)
  | .temp frame t => m.updateFrame frame (·.setTemp t value)
  | .heap cell => { m with heap := m.heap.set cell value }

def read (m : Memory) (a : Address) : Except RuntimeError Value :=
  match m.root? a.root with
  | some value => value.get a.path
  | none => .error .danglingReference

def write (m : Memory) (a : Address) (new : Value) : Except RuntimeError Memory :=
  match m.root? a.root with
  | some value => (Value.set new value a.path).map fun value ↦ m.setRoot value a.root
  | none => .error .danglingReference

/-- Changes the running activation. -/
def updateTop (m : Memory) (change : Frame → Frame) : Memory :=
  match m.frames with
  | [] => m
  | f :: frames => { m with frames := change f :: frames }

/-- Puts a value on the heap. -/
def allocate (m : Memory) (value : Value) : Nat × Memory :=
  (m.heap.length, { m with heap := m.heap ++ [value] })

/-- The number of values stored. -/
def size (m : Memory) : Nat :=
  m.frames.foldr (fun f total ↦ f.size + total) (Value.itemSizes m.heap)

end Memory

/-- A computation of the machine; what it changed stays changed when it fails. -/
abbrev Run (α : Type) := EStateM RuntimeError Memory α

/-- Puts a class object on the heap and yields a reference to it. -/
def allocateObject (fields : Value) : Run Value :=
  modifyGet fun m ↦ let (cell, m) := m.allocate fields; (.object cell, m)

/-- Puts a value on the heap and yields its address. -/
def box (value : Value) : Run Address :=
  modifyGet fun m ↦ let (cell, m) := m.allocate value; (⟨.heap cell, []⟩, m)

end InlineArrays
