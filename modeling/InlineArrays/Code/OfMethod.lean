import InlineArrays.Code.OfExpr
import InlineArrays.Code.Routine
import InlineArrays.Validation

/-!
# Code of methods

Only a method that validates without errors is lowered.  The target of an assignment is lowered
before the value.
-/

namespace InlineArrays.Context

open Emission

/-- Arguments by reference are addresses; an `in` argument may be that of a temporary. -/
def lowerArgument (c : Context) (arg : Argument Expr) : Emit Operand :=
  match arg.modifier with
  | .none => c.lower .value arg.value
  | .ref | .output => c.lower .address arg.value
  | .input => c.lowerInMemory arg.value

def lowerStatement (c : Context) : Statement → Emit Unit
  | .expression value => do let _ ← c.lower .value value
  | .assign target value => do
    let address ← c.lower .address target
    let value ← c.lower .value value
    emit (.store · address value)
  | .compound target op value => do
    let address ← c.lower .address target
    let current ← define (.load address)
    let value ← c.lower .value value
    let result ← define (.binary op current value)
    emit (.store · address result)
  | .refLocal bound init => do
    let address ← c.lowerInMemory init
    emit (.bind · bound (c.method.var bound).name address)
  | .call callee args => do
    let args ← args.mapM c.lowerArgument
    emit (.call · none callee args)
  | .ret none => emit (.ret · none)
  | .ret (some value) => do
    let value ← c.lower (if c.method.returns.isByRef then .address else .value) value
    emit (.ret · (some value))

def lowerStatements (c : Context) : List (Statement × SourceSpan) → Emit Unit
  | [] => return
  | (statement, span) :: rest => do
    modify fun s ↦ { s with span := some span }
    c.lowerStatement statement
    c.lowerStatements rest

theorem lowerStatements_append (c : Context) (first rest : List (Statement × SourceSpan)) :
    c.lowerStatements (first ++ rest) =
      c.lowerStatements first >>= fun _ ↦ c.lowerStatements rest := by
  induction first with
  | nil => rfl
  | cons pair first ih => simp only [List.cons_append, lowerStatements, ih, bind_assoc]

def parameters (c : Context) : List VariableId :=
  (List.range c.method.vars.size).filter fun v ↦
    match (c.method.var v).kind with
    | .parameter _ => true
    | _ => false

/-- The code of a method, whether it validates or not. -/
def lowerBody (c : Context) : Except LoweringError Routine :=
  match c.lowerStatements (c.method.statements.zip c.method.listing.statements) {} with
  | .error e _ => .error e
  | .ok () s =>
    .ok
      { name := c.method.name, parameters := c.parameters, receiver := c.method.receiver?
        returns := c.method.returns, code := s.code, valueCount := s.valueCount
        tempCount := s.tempCount }

/-- The code of a method. -/
def routine (c : Context) : Except LoweringError Routine :=
  match c.validate? with
  | none => .error (.circular c.method.name)
  | some [] => c.lowerBody
  | some errors => .error (.invalid c.method.name errors.length)

/-- Every statement is lowered, along with its place in the listing. -/
theorem map_fst_listed (c : Context) :
    (c.method.statements.zip c.method.listing.statements).map Prod.fst = c.method.statements := by
  refine List.map_fst_zip (Nat.le_of_eq ?_)
  rw [c.method.listing_eq, Body.length_listing_statements]

theorem lowerBody_eq_ok {c : Context} {r : Routine} (h : c.lowerBody = .ok r) :
    ∃ s, c.lowerStatements (c.method.statements.zip c.method.listing.statements) {} = .ok () s ∧
      r =
        { name := c.method.name, parameters := c.parameters, receiver := c.method.receiver?
          returns := c.method.returns, code := s.code, valueCount := s.valueCount
          tempCount := s.tempCount } := by
  unfold lowerBody at h
  split at h
  · cases h
  · exact ⟨_, ‹_›, (Except.ok.inj h).symm⟩

/-- Only methods that validate have code. -/
theorem routine_eq_ok {c : Context} {r : Routine} :
    c.routine = .ok r ↔ c.validate? = some [] ∧ c.lowerBody = .ok r := by
  unfold routine
  split <;> simp_all

end InlineArrays.Context
