import InlineArrays.Code.Operand
import InlineArrays.Data
import InlineArrays.Expr.Basic

/-!
# Run-time values

An address is a root and a path of field and element steps; a span is the address of an inline
array and a window over its elements.  Frames are identified by numbers that are never reused.
-/

namespace InlineArrays

inductive Root where
  | slot (frame : Nat) (target : VariableId)
  | temp (frame : Nat) (temp : TempId)
  /-- A class object or a boxed entry argument. -/
  | heap (cell : Nat)
  deriving DecidableEq, Repr

inductive Step where
  | field (name : String)
  | element (position : Nat)
  deriving DecidableEq, Repr

structure Address where
  root : Root
  path : List Step := []
  deriving DecidableEq, Repr

def Address.join (a : Address) (s : Step) : Address := { a with path := a.path ++ [s] }

/-- The `length` elements from `start` on of the inline array at `base`. -/
structure SpanView where
  /-- Absent in a default span, which is empty. -/
  base : Option Address := none
  start : Nat := 0
  length : Nat := 0
  readonly : Bool
  deriving DecidableEq, Repr

/-- A position that counts from the start or, as `^value`, from the end. -/
structure Offset where
  value : Int64
  fromEnd : Bool := false
  deriving DecidableEq, Repr

namespace Offset

def resolve (o : Offset) (length : Int64) : Int64 :=
  if o.fromEnd then length - o.value else o.value

def text (o : Offset) : String := (if o.fromEnd then "^" else "") ++ toString o.value.toInt

end Offset

inductive Value where
  | unit
  | null
  | int (value : Int64)
  | bool (value : Bool)
  /-- Fields in declaration order. -/
  | struct (fields : List (String × Value))
  | array (items : List Value)
  /-- A reference to a class object. -/
  | object (cell : Nat)
  | address (target : Address)
  | span (view : SpanView)
  | index (offset : Offset)
  | range (start stop : Offset)

namespace Value

def kind : Value → String
  | .unit => "unit"
  | .null => "null"
  | .int _ => "int"
  | .bool _ => "bool"
  | .struct _ => "struct"
  | .array _ => "array"
  | .object _ => "object"
  | .address _ => "address"
  | .span _ => "span"
  | .index _ => "index"
  | .range .. => "range"

def isNull : Value → Bool
  | .null => true
  | _ => false

/-- The first field of a name, in a struct value. -/
def field? (name : String) : Value → Option Value
  | .struct fields => (fields.find? (·.1 == name)).map (·.2)
  | _ => none

/-- The fields with the first one of a name replaced. -/
def setField (name : String) (value : Value) : List (String × Value) → List (String × Value)
  | [] => []
  | (n, v) :: fields =>
    if n = name then (n, value) :: fields else (n, v) :: setField name value fields

/-- A struct value with the first field of a name replaced; other values have no fields. -/
def withField (v : Value) (name : String) (value : Value) : Value :=
  match v with
  | .struct fields => .struct (setField name value fields)
  | other => other

mutual

def text : Value → String
  | .unit => "()"
  | .null => "null"
  | .int value => toString value.toInt
  | .bool value => toString value
  | .struct fields => "\x7b " ++ ", ".intercalate (fieldTexts fields) ++ " \x7d"
  | .array items => "[" ++ ", ".intercalate (itemTexts items) ++ "]"
  | .object cell => s!"object#{cell}"
  | .address _ => "<address>"
  | .span view => s!"<span of {view.length}>"
  | .index offset => offset.text
  | .range start stop => start.text ++ ".." ++ stop.text

def fieldTexts : List (String × Value) → List String
  | [] => []
  | (name, value) :: fields => (name ++ ": " ++ value.text) :: fieldTexts fields

def itemTexts : List Value → List String
  | [] => []
  | item :: items => item.text :: itemTexts items

end

mutual

/-- Whether a value is the expected one; fields that the expectation does not name are free. -/
def agrees (value : Value) : Data → Bool
  | .bool expected =>
    match value with
    | .bool actual => actual == expected
    | _ => false
  | .int expected =>
    match value with
    | .int actual => actual == expected
    | .index offset => !offset.fromEnd && offset.value == expected
    | _ => false
  | .list expected =>
    match value with
    | .array items => agreeItems items expected
    | _ => false
  | .table expected =>
    match value with
    | .struct _ => agreeFields value expected
    | _ => false

def agreeItems (items : List Value) : List Data → Bool
  | [] => items.isEmpty
  | expected :: rest =>
    match items with
    | [] => false
    | item :: items => item.agrees expected && agreeItems items rest

def agreeFields (value : Value) : List (String × Data) → Bool
  | [] => true
  | (name, expected) :: rest =>
    (match value.field? name with
      | some field => field.agrees expected
      | none => false) && agreeFields value rest

end

end Value

end InlineArrays
