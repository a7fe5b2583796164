import InlineArrays.Code.OfAccess

/-!
# Code of expressions

An expression is lowered to its value or to the address of its storage.  Where an address is wanted
of an expression without one, its value is spilled to a temporary first.
-/

namespace InlineArrays.Context

open Emission

/-- Whether the slot of a variable holds the address of its storage. -/
def holdsAddress (c : Context) (v : Variable) : Bool :=
  match v.kind with
  | .stackLocal => false
  | .refLocal _ => true
  | .parameter kind => kind.isByRef
  | .receiver => c.method.owner.any fun owner ↦ !c.types.isClass owner.type

/-- The code of an expression that has a value but no address. -/
def valueCode (c : Context) (demand : Demand) (e : Expr) (code : Emit Operand) : Emit Operand :=
  match demand with
  | .value => code
  | .address => throw (.notAddressable (c.method.text e))

/-- The address of the storage of a variable. -/
def variableAddress (c : Context) (target : VariableId) : Emit Operand := do
  let v := c.method.var target
  let slot ← define (.addressOf target v.name)
  if c.holdsAddress v then define (.load slot) else return slot

def variableCode (c : Context) (demand : Demand) (target : VariableId) : Emit Operand := do
  let address ← c.variableAddress target
  match demand with
  | .value => define (.load address) (some ("read " ++ (c.method.var target).name))
  | .address => return address

/-- What to lower the receiver of a field to: an object reference, or its storage. -/
def ownerDemand (c : Context) (receiver : Expr) : Demand :=
  if c.types.isClass (c.typeOf receiver) then .value else c.storageDemand receiver

/-- What a field is the field of: an object reference, or an address. -/
def ownerOf (c : Context) (receiver : Expr) (lowered : Operand) : Emit Operand :=
  if c.types.isClass (c.typeOf receiver) then return lowered
  else (c.storageDemand receiver).inMemory lowered

def fieldCode (c : Context) (demand : Demand) (receiver : Expr) (name : String)
    (code : Emit Operand) : Emit Operand := do
  let lowered ← code
  let base ← c.ownerOf receiver lowered
  let address ← define (.fieldAddress base name)
  demand.fromAddress address

/-- A call, which yields an address if it returns by reference. -/
def callCode (c : Context) (demand : Demand) (e : Expr) (callee : String) (returns : ReturnKind) :
    Emit Operand :=
  if returns.isByRef then do
    let dest ← freshValue
    emit (.call · (some dest) callee [])
    demand.fromAddress (.computed dest)
  else
    c.valueCode demand e do
      let dest ← freshValue
      emit (.call · (some dest) callee [])
      return .computed dest

/-- The bound that the value of an expression makes, an offset or an index. -/
def boundBy (c : Context) (e : Expr) (value : Operand) : Bound Operand :=
  if c.typeOf e = TypeTable.int then .int value else .index value

/-- The bound that the value of an expression makes, as an index. -/
def indexBy (c : Context) (e : Expr) (value : Operand) : Emit Operand :=
  if c.typeOf e = TypeTable.int then define (.makeIndex value false) else return value

def rangeCode (start stop : Emit Operand) : Emit Operand := do
  let start ← start
  let stop ← stop
  define (.makeRange start stop)

def rangeLiteralCode (start stop : Emit (Bound Operand)) : Emit (Subscript Operand) := do
  let start ← start
  let stop ← stop
  return .rangeLiteral start stop

/-- A conversion to a span, from the code of its operand. -/
def spanCode (c : Context) (readonly : Bool) (operand : Expr) (code : Emit Operand) :
    Emit Operand :=
  match c.types.array? (c.typeOf operand) with
  | none => throw (.unsupported (c.method.text operand))
  | some type => do
    let lowered ← code
    let address ← (c.storageDemand operand).inMemory lowered
    c.projectSpan (.ofReadonly readonly) (c.typeOf operand) type.element type.length address

/-- A guarded access, from the code of its receiver and of the access. -/
def conditionalCode (receiver : ExprId) (tested access : Emit Operand) : Emit Operand := do
  let tested ← tested
  let dest ← freshValue
  let (body, result) ← guarded receiver tested access
  emit (.guard · dest tested body result)
  return .computed dest

def receiverValue (c : Context) (receiver : Expr) : Emit Operand := do
  match (← get).receiver? receiver.id with
  | some value => return value
  | none => throw (.unboundReceiver (c.method.text receiver))

section BoundReceivers

variable {c : Context} {receiver : Expr} {s : Emission}

theorem receiverValue_of_bound {value : Operand} (h : s.receiver? receiver.id = some value) :
    c.receiverValue receiver s = .ok value s := by
  change (match s.receiver? receiver.id with
    | some value => (return value : Emit Operand)
    | none => throw (LoweringError.unboundReceiver (c.method.text receiver))) s = _
  rw [h]
  rfl

theorem receiverValue_of_unbound (h : s.receiver? receiver.id = none) :
    c.receiverValue receiver s = .error (.unboundReceiver (c.method.text receiver)) s := by
  change (match s.receiver? receiver.id with
    | some value => (return value : Emit Operand)
    | none => throw (LoweringError.unboundReceiver (c.method.text receiver))) s = _
  rw [h]
  rfl

end BoundReceivers

mutual

def lower (c : Context) (demand : Demand) : Expr → Emit Operand
  | .var _ target => c.variableCode demand target
  | .field _ receiver name =>
    c.fieldCode demand receiver name (c.lower (c.ownerDemand receiver) receiver)
  | .element id receiver args =>
    match c.bind (.element id receiver args) with
    | .error _ => throw (.unboundAccess (c.method.text (.element id receiver args)))
    | .ok a => c.accessCode demand a (c.lower (c.receiverDemand a) receiver) (c.lowerSubscript a args)
  | .call id callee returns type =>
    c.callCode demand (.call id callee returns type) callee returns
  | .int id value => c.valueCode demand (.int id value) (return .int value)
  | .bool id value => c.valueCode demand (.bool id value) (return .bool value)
  | .string id value =>
    c.valueCode demand (.string id value) (throw (.unsupported (c.method.text (.string id value))))
  | .fromEnd id count =>
    c.valueCode demand (.fromEnd id count) do
      let value ← c.lower .value count
      define (.makeIndex value true)
  | .range id start stop =>
    c.valueCode demand (.range id start stop) <|
      rangeCode (c.lowerIndex false start) (c.lowerIndex true stop)
  | .default id type =>
    c.valueCode demand (.default id type) (define (.default type (c.types.format type)))
  | .span id operand readonly =>
    c.valueCode demand (.span id operand readonly) <|
      c.spanCode readonly operand (c.lower (c.storageDemand operand) operand)
  | .conditional id receiver access =>
    c.valueCode demand (.conditional id receiver access) <|
      conditionalCode receiver.id (c.lower .value receiver) (c.lower .value access)
  | .placeholder id receiver =>
    c.valueCode demand (.placeholder id receiver) (c.receiverValue receiver)
termination_by structural e => e

/-- The argument of an access that binds. -/
def lowerSubscript (c : Context) (a : Access) : List (Argument Expr) → Emit (Subscript Operand)
  | [⟨.fromEnd _ count, _, _⟩] => .fromEnd <$> c.lower .value count
  | [⟨.range _ start stop, _, _⟩] => rangeLiteralCode (c.lowerBound start) (c.lowerBound stop)
  | [⟨value, _, _⟩] => a.subscript.withValue <$> c.lower .value value
  | _ => throw (.unboundAccess (c.method.text a.expr))
termination_by structural args => args

/-- A bound of a range literal. -/
def lowerBound (c : Context) : Option Expr → Emit (Bound Operand)
  | none => return .omitted
  | some (.fromEnd _ count) => .fromEnd <$> c.lower .value count
  | some bound => c.boundBy bound <$> c.lower .value bound
termination_by structural bound => bound

/-- A bound of a range that is a value of its own. -/
def lowerIndex (c : Context) (isStop : Bool) : Option Expr → Emit Operand
  | none => define (.makeIndex (.int 0) isStop)
  | some bound => c.lower .value bound >>= c.indexBy bound
termination_by structural bound => bound

end

/-- The address of an expression's storage, or of a temporary that holds its value. -/
def lowerInMemory (c : Context) (e : Expr) : Emit Operand := do
  let lowered ← c.lower (c.storageDemand e) e
  (c.storageDemand e).inMemory lowered

end InlineArrays.Context
