import InlineArrays.Types.Table

/-!
# Expressions

An inline array access is built from variables, field chains, calls, index and range operands, span
conversions and null-conditional accesses.  Every node carries its id, the position at which its
method body recorded it; two nodes of one body are the same expression when their ids agree.
-/

namespace InlineArrays

abbrev ExprId := Nat

abbrev VariableId := Nat

/-- The keyword in front of an argument. -/
inductive Modifier where
  | none
  | ref
  | input
  | output
  deriving DecidableEq, Repr

def Modifier.keyword : Modifier → String
  | .none => ""
  | .ref => "ref"
  | .input => "in"
  | .output => "out"

structure Argument (ε : Type) where
  value : ε
  name : Option String := none
  modifier : Modifier := .none
  deriving Repr

/-- How a method or a call hands back its result. -/
inductive ReturnKind where
  | void
  | value
  | ref
  | refReadonly
  deriving DecidableEq, Repr

def ReturnKind.isByRef : ReturnKind → Bool
  | .ref | .refReadonly => true
  | .void | .value => false

inductive BinaryOp where
  | add
  | sub
  | mul
  deriving DecidableEq, Repr

def BinaryOp.symbol : BinaryOp → String
  | .add => "+"
  | .sub => "-"
  | .mul => "*"

inductive Expr where
  | var (id : ExprId) (target : VariableId)
  | field (id : ExprId) (receiver : Expr) (name : String)
  /-- A call without arguments; only the shape of its result matters to the caller. -/
  | call (id : ExprId) (callee : String) (returns : ReturnKind) (type : TypeId)
  | int (id : ExprId) (value : Int64)
  | bool (id : ExprId) (value : Bool)
  | string (id : ExprId) (value : String)
  /-- The offset `^n`. -/
  | fromEnd (id : ExprId) (count : Expr)
  /-- The range `a..b`; either bound may be omitted. -/
  | range (id : ExprId) (start stop : Option Expr)
  | default (id : ExprId) (type : TypeId)
  | element (id : ExprId) (receiver : Expr) (args : List (Argument Expr))
  /-- A conversion of an inline array to a span. -/
  | span (id : ExprId) (operand : Expr) (readonly : Bool)
  /-- The access `receiver?.access`, in which a placeholder stands for the receiver. -/
  | conditional (id : ExprId) (receiver access : Expr)
  /-- The receiver of the enclosing conditional access, evaluated and not null. -/
  | placeholder (id : ExprId) (receiver : Expr)

namespace Expr

def id : Expr → ExprId
  | .var id _ | .field id .. | .call id .. | .int id _ | .bool id _ | .string id _
  | .fromEnd id _ | .range id .. | .default id _ | .element id .. | .span id ..
  | .conditional id .. | .placeholder id _ => id

def isVariable : Expr → Bool
  | .var .. => true
  | _ => false

def isElement : Expr → Bool
  | .element .. => true
  | _ => false

def isPlaceholder : Expr → Bool
  | .placeholder .. => true
  | _ => false

end Expr

end InlineArrays
