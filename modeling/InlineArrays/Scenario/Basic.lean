import InlineArrays.Data
import InlineArrays.Method.Basic
import InlineArrays.Options

/-!
# Scenarios

A scenario declares the types and the method bodies of one program by name, with the options to
compile it, the inputs of the entry method and, if wanted, the expected outcome.
-/

namespace InlineArrays

/-- An expression as a scenario writes it. -/
inductive Term where
  /-- A variable and a chain of fields, parted by points. -/
  | path (text : String)
  | field (of : Term) (name : String)
  | int (value : Int64)
  | bool (value : Bool)
  | string (value : String)
  | fromEnd (count : Term)
  | range (start stop : Option Term)
  | default (type : String)
  | call (callee : String) (returns : ReturnKind) (type : String)
  | index (of position : Term)
  | element (of : Term) (args : List (Argument Term))
  | span (of : Term) (readonly : Bool)
  | conditional (receiver access : Term)
  /-- The receiver of the conditional access around it. -/
  | receiver

/-- A statement as a scenario writes it. -/
inductive Action where
  | expression (value : Term)
  | assign (target value : Term)
  | compound (target : Term) (op : BinaryOp) (value : Term)
  | refLocal (name : String) (readonly : Bool) (type : String) (init : Term)
  | call (callee : String) (args : List (Argument Term))
  | ret (value : Option Term)

structure ArrayDecl where
  name : String
  element : String
  length : Nat

structure FieldDecl where
  name : String
  type : String
  readonly : Bool

structure StructDecl where
  name : String
  kind : StructKind
  fields : List FieldDecl

structure OwnerDecl where
  type : String
  readonly : Bool
  unscopedRef : Bool

structure ParameterDecl where
  name : String
  kind : ParameterKind
  type : String
  confined : Bool

structure LocalDecl where
  name : String
  type : String
  /-- Has an initializer. -/
  assigned : Bool

structure MethodDecl where
  name : String
  returns : ReturnKind
  returnType : Option String
  owner : Option OwnerDecl
  parameters : List ParameterDecl
  locals : List LocalDecl
  body : List Action

/-- The expected outcome; what is absent is not checked. -/
structure Expectations where
  /-- Codes of the diagnostics of every method, in order. -/
  codes : Option (List String)
  /-- Names of the methods that were lowered. -/
  lowered : Option (List String)
  /-- Span operations of a lowered method, by its name. -/
  operations : List (String × List String)
  result : Option Data
  /-- Calls of methods outside the scenario. -/
  output : Option (List String)
  runtimeError : Option String

structure Scenario where
  options : Options
  arrays : List ArrayDecl
  structs : List StructDecl
  methods : List MethodDecl
  /-- Arguments of the entry method by name, in order of the names. -/
  inputs : List (String × Data)
  expect : Option Expectations

end InlineArrays
