import InlineArrays.Diagnostic.Basic
import InlineArrays.Expr.Basic

/-!
# Method bodies

A body holds the variables of a method (receiver, parameters, locals and ref locals), every
expression recorded for it and a flat list of statements.
-/

namespace InlineArrays

inductive ParameterKind where
  | value
  | ref
  | input
  | output
  | refReadonly
  deriving DecidableEq, Repr

namespace ParameterKind

def isByRef (k : ParameterKind) : Bool := k != .value

def isReadonly (k : ParameterKind) : Bool := k == .input || k == .refReadonly

def name : ParameterKind → String
  | .value => "value"
  | .ref => "ref"
  | .input => "in"
  | .output => "out"
  | .refReadonly => "ref readonly"

end ParameterKind

inductive VariableKind where
  | stackLocal
  | refLocal (readonly : Bool)
  | parameter (kind : ParameterKind)
  /-- The object or struct an instance method is called on. -/
  | receiver
  deriving DecidableEq, Repr

def VariableKind.name : VariableKind → String
  | .stackLocal => "local"
  | .refLocal true => "ref readonly local"
  | .refLocal false => "ref local"
  | .parameter kind => "parameter " ++ kind.name
  | .receiver => "this"

structure Variable where
  name : String
  kind : VariableKind
  /-- For a ref local, the type of what it refers to. -/
  type : TypeId
  /-- References to it may not leave the method. -/
  confined : Bool := false
  /-- Assigned on entry. -/
  assigned : Bool := true
  deriving DecidableEq, Repr

/-- The type whose instance method a method is. -/
structure Owner where
  type : TypeId
  /-- The method does not write through its receiver. -/
  readonly : Bool := false
  /-- The receiver may be returned by reference. -/
  unscopedRef : Bool := false
  deriving DecidableEq, Repr

inductive Statement where
  | expression (value : Expr)
  | assign (target value : Expr)
  | compound (target : Expr) (op : BinaryOp) (value : Expr)
  | refLocal (bound : VariableId) (init : Expr)
  | call (callee : String) (args : List (Argument Expr))
  | ret (value : Option Expr)

structure Body where
  name : String
  owner : Option Owner := none
  returns : ReturnKind := .void
  returnType : Option TypeId := none
  /-- Every recorded expression, by id. -/
  exprs : Array Expr := #[]
  vars : Array Variable := #[]
  statements : List Statement := []

namespace Body

/-- A variable by id; ids come from the body itself. -/
def var (b : Body) (v : VariableId) : Variable :=
  b.vars[v]?.getD ⟨"", .stackLocal, TypeTable.error, false, true⟩

def declare (b : Body) (v : Variable) : VariableId × Body :=
  (b.vars.size, { b with vars := b.vars.push v })

/-- Makes the method an instance method and declares its receiver. -/
def own (b : Body) (owner : Owner) : VariableId × Body :=
  { b with owner := some owner }.declare { name := "this", kind := .receiver, type := owner.type }

/-- Records an expression under the next id. -/
def record (b : Body) (make : ExprId → Expr) : Expr × Body :=
  let e := make b.exprs.size
  (e, { b with exprs := b.exprs.push e })

/-- Records a chain of fields of an expression. -/
def recordFields (b : Body) (e : Expr) (names : List String) : Expr × Body :=
  names.foldl (fun (e, b) name ↦ b.record (.field · e name)) (e, b)

def append (b : Body) (s : Statement) : Body := { b with statements := b.statements ++ [s] }

/-- The first variable of a name. -/
def variableNamed? (b : Body) (name : String) : Option VariableId :=
  b.vars.findIdx? (·.name == name)

def receiver? (b : Body) : Option VariableId :=
  b.vars.findIdx? (·.kind == .receiver)

/-- What a ref local is bound to. -/
def refLocalInit? (b : Body) (v : VariableId) : Option Expr :=
  b.statements.findSome? fun
    | .refLocal bound init => if bound = v then some init else none
    | _ => none

/-- The first value assigned to a whole variable. -/
def firstAssignment? (b : Body) (v : VariableId) : Option Expr :=
  b.statements.findSome? fun
    | .assign (.var _ target) value => if target = v then some value else none
    | _ => none

end Body

end InlineArrays
