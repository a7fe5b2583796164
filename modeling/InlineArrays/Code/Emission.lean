import InlineArrays.Code.Instr

/-!
# Emitting code

Instructions are appended to the innermost list under construction, under the span of the statement
they belong to.  While the access of a conditional is emitted, the value of its receiver is bound to
the receiver's expression id.
-/

namespace InlineArrays

inductive LoweringError where
  /-- Validation reports errors. -/
  | invalid (method : String) (count : Nat)
  /-- The types and storage of the method depend on themselves. -/
  | circular (method : String)
  | unsupported (text : String)
  | unboundAccess (text : String)
  | notAddressable (text : String)
  | unboundReceiver (text : String)
  deriving DecidableEq, Repr

def LoweringError.message : LoweringError → String
  | .invalid method count => s!"method '{method}' has {count} error(s) and is not lowered"
  | .circular method => s!"the types of method '{method}' depend on themselves"
  | .unsupported text => s!"'{text}' cannot be lowered"
  | .unboundAccess text => s!"element access '{text}' does not bind"
  | .notAddressable text => s!"'{text}' has no address"
  | .unboundReceiver text => s!"conditional receiver '{text}' used outside of its access"

structure Emission where
  code : List Instr := []
  valueCount : Nat := 0
  tempCount : Nat := 0
  span : Option SourceSpan := none
  /-- Values of the receivers of the conditional accesses being emitted. -/
  receivers : List (ExprId × Operand) := []

abbrev Emit (α : Type) := EStateM LoweringError Emission α

namespace Emission

def emit (make : Note → Instr) (comment : Option String := none) : Emit Unit :=
  modify fun s ↦ { s with code := s.code ++ [make ⟨s.span, comment⟩] }

def freshValue : Emit ValueId :=
  modifyGet fun s ↦ (s.valueCount, { s with valueCount := s.valueCount + 1 })

def freshTemp : Emit TempId :=
  modifyGet fun s ↦ (s.tempCount, { s with tempCount := s.tempCount + 1 })

def define (operation : Operation) (comment : Option String := none) : Emit Operand := do
  let dest ← freshValue
  emit (.define · dest operation) comment
  return .computed dest

/-- Stores a value to a fresh temporary. -/
def spill (value : Operand) : Emit TempId := do
  let temp ← freshTemp
  emit (.storeTemp · temp value)
  return temp

/-- The address of a fresh temporary that holds a value. -/
def spillAddress (value : Operand) : Emit Operand := do
  let temp ← spill value
  define (.tempAddress temp)

def receiver? (s : Emission) (e : ExprId) : Option Operand :=
  (s.receivers.find? (·.1 == e)).map (·.2)

/-- Emits the body of a guard into a list of its own, with a receiver bound meanwhile. -/
def guarded (receiver : ExprId) (tested : Operand) (body : Emit Operand) :
    Emit (List Instr × Operand) := fun outer ↦
  let others (s : Emission) := s.receivers.filter (·.1 != receiver)
  match body { outer with code := [], receivers := (receiver, tested) :: others outer } with
  | .ok result s => .ok (s.code, result) { s with code := outer.code, receivers := others s }
  | .error e s => .error e { s with code := outer.code, receivers := others s }

end Emission

end InlineArrays
