/-!
# Type tables

A table holds each type once and names it by its position.  Seven built-in types come first in
every table.  Span types are interned: a table holds at most one for an element type and an access.
Structs are declared first and get their fields later, so a class may have a field of its own type.
Adding an inline array also interns both span types over its element, so every span type that an
index or a slice can yield is already there when a method body is analysed.
-/

namespace InlineArrays

abbrev TypeId := Nat

inductive StructKind where
  | value
  /-- A value type whose fields are never writable. -/
  | readonlyValue
  /-- A class: its fields live on the heap. -/
  | reference
  deriving DecidableEq, Repr

structure Field where
  name : String
  type : TypeId
  readonly : Bool
  deriving DecidableEq, Repr

structure StructType where
  name : String
  kind : StructKind
  fields : List Field
  deriving DecidableEq, Repr

namespace StructType

def isClass (s : StructType) : Bool := s.kind == .reference

def isReadonly (s : StructType) : Bool := s.kind == .readonlyValue

def field? (s : StructType) (name : String) : Option Field :=
  s.fields.find? (·.name == name)

def position? (s : StructType) (name : String) : Option Nat :=
  s.fields.findIdx? (·.name == name)

end StructType

/-- A value type of exactly `length` consecutive elements of one type. -/
structure ArrayType where
  name : String
  element : TypeId
  length : Nat
  deriving DecidableEq, Repr

inductive TypeData where
  | int
  | bool
  | string
  /-- An offset, possibly counted from the end. -/
  | index
  | range
  /-- A late-bound value, converted to `int` when it is used as an index. -/
  | dynamic
  | error
  | array (type : ArrayType)
  | struct (type : StructType)
  | span (element : TypeId) (readonly : Bool)
  deriving DecidableEq, Repr

/-- The name a type is looked up by; spans are spelled from their element and errors not at all. -/
def TypeData.name? : TypeData → Option String
  | .int => some "int"
  | .bool => some "bool"
  | .string => some "string"
  | .index => some "Index"
  | .range => some "Range"
  | .dynamic => some "dynamic"
  | .array type => some type.name
  | .struct type => some type.name
  | .error | .span .. => none

inductive TypeError where
  | duplicate (name : String)
  | unknown (name : String)
  | notStruct (name : String)
  | emptyArray (name : String)
  deriving DecidableEq, Repr

def TypeError.message : TypeError → String
  | .duplicate name => s!"type '{name}' is already defined"
  | .unknown name => s!"unknown type '{name}'"
  | .notStruct name => s!"type '{name}' is not a struct or class"
  | .emptyArray name => s!"inline array '{name}' must have a length of at least 1"

/-- The types added after the built-in ones, in order. -/
structure TypeTable where
  added : List TypeData := []
  deriving DecidableEq, Repr

namespace TypeTable

def builtin : List TypeData := [.int, .bool, .string, .index, .range, .dynamic, .error]

def int : TypeId := 0
def bool : TypeId := 1
def string : TypeId := 2
def index : TypeId := 3
def range : TypeId := 4
def dynamic : TypeId := 5
def error : TypeId := 6

def entries (t : TypeTable) : List TypeData := builtin ++ t.added

def size (t : TypeTable) : Nat := t.entries.length

def get (t : TypeTable) (id : TypeId) : TypeData := t.entries[id]?.getD .error

def lookup (t : TypeTable) (name : String) : Option TypeId :=
  t.entries.findIdx? (·.name? == some name)

def findSpan (t : TypeTable) (element : TypeId) (readonly : Bool) : Option TypeId :=
  t.entries.findIdx? (· == .span element readonly)

def push (t : TypeTable) (data : TypeData) : TypeId × TypeTable :=
  (t.size, ⟨t.added ++ [data]⟩)

/-- The span type over `element`, added if the table does not hold it yet. -/
def span (t : TypeTable) (element : TypeId) (readonly : Bool) : TypeId × TypeTable :=
  match t.findSpan element readonly with
  | some id => (id, t)
  | none => t.push (.span element readonly)

def addArray (t : TypeTable) (name : String) (element : TypeId) (length : Nat) :
    Except TypeError (TypeId × TypeTable) :=
  if (t.lookup name).isSome then .error (.duplicate name)
  else if length = 0 then .error (.emptyArray name)
  else
    let (id, t) := t.push (.array ⟨name, element, length⟩)
    let (_, t) := t.span element false
    let (_, t) := t.span element true
    .ok (id, t)

/-- Adds a struct or class without fields; `defineFields` attaches them. -/
def declareStruct (t : TypeTable) (name : String) (kind : StructKind) :
    Except TypeError (TypeId × TypeTable) :=
  if (t.lookup name).isSome then .error (.duplicate name)
  else .ok (t.push (.struct ⟨name, kind, []⟩))

def array? (t : TypeTable) (id : TypeId) : Option ArrayType :=
  match t.get id with
  | .array type => some type
  | _ => none

def struct? (t : TypeTable) (id : TypeId) : Option StructType :=
  match t.get id with
  | .struct type => some type
  | _ => none

/-- Element type and read-only flag of a span type. -/
def spanParts? (t : TypeTable) (id : TypeId) : Option (TypeId × Bool) :=
  match t.get id with
  | .span element readonly => some (element, readonly)
  | _ => none

def isClass (t : TypeTable) (id : TypeId) : Bool :=
  (t.struct? id).any (·.isClass)

def isSpan (t : TypeTable) (id : TypeId) : Bool := (t.spanParts? id).isSome

/-- Whether values of this type are copied on assignment. -/
def isValueType (t : TypeTable) (id : TypeId) : Bool :=
  match t.get id with
  | .struct type => !type.isClass
  | .string | .dynamic | .error => false
  | _ => true

@[simp]
theorem size_push (t : TypeTable) (data : TypeData) : (t.push data).2.size = t.size + 1 := by
  simp [push, size, entries]
  omega

theorem get_push_fst (t : TypeTable) (data : TypeData) :
    (t.push data).2.get (t.push data).1 = data := by
  simp [push, get, size, entries]

theorem get_push_of_lt {t : TypeTable} {data : TypeData} {id : TypeId} (h : id < t.size) :
    (t.push data).2.get id = t.get id := by
  have hl : id < (builtin ++ t.added).length := h
  simp only [push, get, entries, ← List.append_assoc]
  rw [List.getElem?_append_left hl]

end TypeTable

end InlineArrays
