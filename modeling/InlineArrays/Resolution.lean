import InlineArrays.Member
import InlineArrays.Method.Listing
import InlineArrays.Storage

/-!
# Types and storage of expressions

The type of an expression follows its structure, except that a slice of an inline array is a mutable
span only over storage that is writable and has an address.  The storage of an expression is that of
the variable it starts from; ref locals and span-typed locals have the storage of what they were
first bound to, and a chain of them that comes back to one of its own is cut there.

A slice asks for the storage of its receiver afresh, without the chain that led to it.  When such a
question leads back to itself it has no answer, and neither has anything built on it: types and
storage are optional, and a method all of whose expressions have both *resolves*.
-/

namespace InlineArrays

/-- What the analysis of one method reads. -/
structure Context where
  types : TypeTable
  members : MemberTable
  method : Method

namespace Context

def findSpan (c : Context) (element : TypeId) (readonly : Bool) : TypeId :=
  (c.types.findSpan element readonly).getD TypeTable.error

/-- The type of an access to a receiver, which is a slice if its argument is a range. -/
def accessType (c : Context) (storage? : Expr → Option Storage) (receiver : Expr)
    (receiverType : TypeId) (slicing? : Option Bool) : Option TypeId := do
  let slicing ← slicing?
  match c.types.get receiverType with
  | .array type =>
    if slicing then return c.findSpan type.element (← storage? receiver).projectsReadonly
    else return type.element
  | .span element _ => return if slicing then receiverType else element
  | _ => return TypeTable.error

/-- The type of an expression, given the storage of the receivers of slices. -/
def typeWith (c : Context) (storage? : Expr → Option Storage) : Expr → Option TypeId
  | .var _ target => some (c.method.var target).type
  | .field _ receiver name => do
    let receiverType ← c.typeWith storage? receiver
    let field? := (c.types.struct? receiverType).bind (·.field? name)
    return (field?.map (·.type)).getD TypeTable.error
  | .call _ _ _ type | .default _ type => some type
  | .int .. => some TypeTable.int
  | .bool .. => some TypeTable.bool
  | .string .. => some TypeTable.string
  | .fromEnd .. => some TypeTable.index
  | .range .. => some TypeTable.range
  | .element _ receiver args => do
    c.accessType storage? receiver (← c.typeWith storage? receiver)
      (match args with
        | [] => some false
        | ⟨value, _, _⟩ :: _ => (c.typeWith storage? value).map (· == TypeTable.range))
  | .span _ operand readonly => do
    let operandType ← c.typeWith storage? operand
    return ((c.types.array? operandType).map fun type ↦
      c.findSpan type.element readonly).getD TypeTable.error
  | .conditional _ _ access => c.typeWith storage? access
  | .placeholder _ receiver => c.typeWith storage? receiver
termination_by structural e => e

/-- The storage of a variable that is no ref local. -/
def fixedStorage (c : Context) (v : Variable) : Storage :=
  match v.kind with
  | .stackLocal => { scope := .currentMethod, origin := .stackLocal v.name }
  | .parameter .value => { scope := .currentMethod, origin := .valueParameter v.name }
  | .parameter .output => { scope := .currentMethod, origin := .scopedParameter v.name }
  | .parameter kind =>
    if v.confined then
      { scope := .currentMethod, origin := .scopedParameter v.name, readonly := kind.isReadonly }
    else { scope := .returnOnly, origin := .refParameter v.name, readonly := kind.isReadonly }
  | .receiver =>
    match c.method.owner with
    | some owner =>
      match c.types.struct? owner.type with
      | some type =>
        if type.isClass then .temporary
        else
          { scope := if owner.unscopedRef then .returnOnly else .currentMethod
            origin := .structReceiver
            readonly := owner.readonly || type.isReadonly }
      | none => .temporary
    | none => .temporary
  | .refLocal _ => .temporary

/-- The storage of a ref local bound to storage `target`; without an address to bind to it lives in
the current method. -/
def refLocalStorage (name : String) (readonly : Bool) (target : Option Storage) : Storage :=
  match target with
  | some s =>
    if s.referenceable then
      { scope := s.scope, origin := .refLocal name, readonly := s.readonly || readonly }
    else { scope := .currentMethod, origin := .refLocal name, readonly }
  | none => { scope := .currentMethod, origin := .refLocal name, readonly }

/-- The storage of a variable of some type, given that of its first value; `cut` where the chain of
locals has come back to it. -/
def variableStorage (c : Context) (target : VariableId) (type : TypeId) (cut : Bool)
    (initStorage? : Expr → Option Storage) : Option Storage :=
  let v := c.method.var target
  match c.types.spanParts? type, v.kind with
  | none, .refLocal readonly =>
    match if cut then none else c.method.refLocalInit? target with
    | none => some (refLocalStorage v.name readonly none)
    | some init => (initStorage? init).map fun s ↦ refLocalStorage v.name readonly (some s)
  | none, _ => some (c.fixedStorage v)
  | some (_, readonly), .stackLocal =>
    let spanLocal (scope : EscapeScope) : Storage :=
      { scope, origin := .spanLocal v.name, readonly }
    if cut then some (spanLocal .currentMethod)
    else
      match c.method.firstAssignment? target with
      | none => some (spanLocal .callingMethod)
      | some init => (initStorage? init).map fun s ↦ spanLocal s.scope
  | some (_, readonly), .parameter _ =>
    some <|
      if v.confined then
        { scope := .currentMethod, origin := .scopedParameter v.name, readonly }
      else { scope := .callingMethod, origin := .valueParameter v.name, readonly }
  | some (_, readonly), _ => some { scope := .callingMethod, origin := .heap, readonly }

/-- The storage of an expression, given the types of expressions and the storage that the value of
a local has when the locals in `active` are being resolved. -/
def storageWith (c : Context) (type? : Expr → Option TypeId)
    (initStorage? : List VariableId → Expr → Option Storage) (active : List VariableId) :
    Expr → Option Storage
  | .var id target => do
    c.variableStorage target (← type? (.var id target)) (active.contains target)
      (initStorage? (target :: active))
  | .field id receiver name => do
    match c.types.spanParts? (← type? (.field id receiver name)) with
    | some (_, readonly) => return { scope := .callingMethod, origin := .heap, readonly }
    | none =>
      match c.types.struct? (← type? receiver) with
      | none => return .temporary
      | some type =>
        let readonly := (type.field? name).any (·.readonly)
        if type.isClass then return { scope := .callingMethod, origin := .heap, readonly }
        else
          let storage ← c.storageWith type? initStorage? active receiver
          return storage.readonlyIf (readonly || type.isReadonly)
  | .call id callee returns type => do
    let storage : Storage := { scope := .callingMethod, origin := .refCall callee }
    match c.types.spanParts? (← type? (.call id callee returns type)), returns with
    | some (_, readonly), _ => return storage.readonlyIf readonly
    | none, .ref => return storage
    | none, .refReadonly => return storage.readonlyIf true
    | none, _ => return .temporary
  | .default id type => do
    match c.types.spanParts? (← type? (.default id type)) with
    | some (_, readonly) => return { scope := .callingMethod, origin := .heap, readonly }
    | none => return .temporary
  | .element id receiver args => do
    let yieldsSpan := c.types.isSpan (← type? (.element id receiver args))
    match c.types.get (← type? receiver) with
    | .array _ => return (← c.storageWith type? initStorage? active receiver).projected
    | .span _ readonly =>
      let storage ← c.storageWith type? initStorage? active receiver
      return if yieldsSpan then storage else { storage with referenceable := true, readonly }
    | _ => return .temporary
  | .span id operand readonly => do
    if c.types.isSpan (← type? (.span id operand readonly)) then
      return (← c.storageWith type? initStorage? active operand).projected.readonlyIf readonly
    else return .temporary
  | e => do
    let _ ← type? e
    return .temporary
termination_by structural e => e

/-- Follows at most `jumps` locals to their values; each is followed once. -/
def followLocals (c : Context) (type? : Expr → Option TypeId) :
    Nat → List VariableId → Expr → Option Storage
  | 0 => c.storageWith type? fun _ _ ↦ none
  | jumps + 1 => c.storageWith type? (c.followLocals type? jumps)

/-- The storage of an expression asked for afresh, within so many questions inside each other. -/
def freshStorage (c : Context) : Nat → Expr → Option Storage
  | 0, _ => none
  | questions + 1, e =>
    c.followLocals (c.typeWith (c.freshStorage questions)) c.method.vars.size [] e

/-- Questions inside each other are all about different expressions, unless they never end. -/
def questions (c : Context) : Nat := c.method.exprs.size + 1

def storageOf? (c : Context) (e : Expr) : Option Storage := c.freshStorage c.questions e

def typeOf? (c : Context) (e : Expr) : Option TypeId := c.typeWith c.storageOf? e

/-- The storage of an expression of a method that resolves. -/
def storageOf (c : Context) (e : Expr) : Storage := (c.storageOf? e).getD .temporary

/-- The type of an expression of a method that resolves. -/
def typeOf (c : Context) (e : Expr) : TypeId := (c.typeOf? e).getD TypeTable.error

/-- Whether every expression has a type and a storage. -/
def resolves (c : Context) : Bool :=
  c.method.exprs.all fun e ↦ (c.typeOf? e).isSome && (c.storageOf? e).isSome

end Context

end InlineArrays
