import InlineArrays.Method.Listing
import InlineArrays.Scenario.Basic
import InlineArrays.Types.Containment
import InlineArrays.Types.Name

/-!
# Building programs

Resolves the names of a scenario.  Structs are declared before the inline arrays and get their
fields after them; then the methods are built in order, over one table of types.
-/

namespace InlineArrays

structure Program where
  types : TypeTable
  methods : List Method

def Program.method? (p : Program) (name : String) : Option Method :=
  p.methods.find? (·.name == name)

inductive ScenarioError where
  | type (error : TypeError)
  | duplicateMethod (name : String)
  | duplicateVariable (method name : String)
  | unknownVariable (method name : String)
  | receiverOutsideConditional (method : String)
  | recursiveStruct (name : String)
  deriving DecidableEq, Repr

def ScenarioError.message : ScenarioError → String
  | .type error => error.message
  | .duplicateMethod name => s!"method '{name}' is declared more than once"
  | .duplicateVariable method name =>
    s!"variable '{name}' is declared more than once in method '{method}'"
  | .unknownVariable method name => s!"unknown variable '{name}' in method '{method}'"
  | .receiverOutsideConditional method =>
    s!"'receiver' used outside of a conditional access in method '{method}'"
  | .recursiveStruct name => s!"struct '{name}' contains itself by value"

/-- A method under construction over a table of types. -/
structure MethodDraft where
  types : TypeTable
  body : Body
  /-- The variables in scope. -/
  names : List (String × VariableId) := []

namespace MethodDraft

abbrev Build (α : Type) := StateT MethodDraft (Except ScenarioError) α

def liftTypes {α : Type} (change : TypeTable → Except TypeError (α × TypeTable)) : Build α :=
  fun d ↦ match change d.types with
    | .ok (a, types) => .ok (a, { d with types })
    | .error e => .error (.type e)

def resolve (name : String) : Build TypeId := liftTypes (·.resolve name.toList)

def onBody {α : Type} (change : Body → α × Body) : Build α :=
  fun d ↦
    let (a, body) := change d.body
    .ok (a, { d with body })

def record (make : ExprId → Expr) : Build Expr := onBody (·.record make)

def append (s : Statement) : Build Unit := onBody fun b ↦ ((), b.append s)

/-- Brings a declared variable into scope under a name that must be new. -/
def bring (name : String) (v : VariableId) : Build Unit :=
  fun d ↦
    if d.names.any (·.1 == name) then .error (.duplicateVariable d.body.name name)
    else .ok ((), { d with names := d.names ++ [(name, v)] })

def declare (v : Variable) : Build VariableId := do
  let id ← onBody (·.declare v)
  bring v.name id
  return id

def variableNamed (name : String) : Build VariableId :=
  fun d ↦ match valueAt? name d.names with
    | some v => .ok (v, d)
    | none => .error (.unknownVariable d.body.name name)

/-- Records a range, from what builds its bounds. -/
def rangeTerm (start stop : Build (Option Expr)) : Build Expr := do
  let start ← start
  let stop ← stop
  record (.range · start stop)

mutual

/-- Builds an expression; `receiver` is that of the conditional access around it. -/
def term (receiver : Option Expr) : Term → Build Expr
  | .path text => do
    let segments := text.splitOn "."
    let root ← variableNamed (segments.headD "")
    let base ← record (.var · root)
    onBody (·.recordFields base segments.tail)
  | .field of name => do
    let of ← term receiver of
    record (.field · of name)
  | .int value => record (.int · value)
  | .bool value => record (.bool · value)
  | .string value => record (.string · value)
  | .fromEnd count => do
    let count ← term receiver count
    record (.fromEnd · count)
  | .range start stop =>
    rangeTerm
      (match start with
        | some bound => some <$> term receiver bound
        | none => pure none)
      (match stop with
        | some bound => some <$> term receiver bound
        | none => pure none)
  | .default type => do
    let type ← resolve type
    record (.default · type)
  | .call callee returns type => do
    let type ← resolve type
    record (.call · callee returns type)
  | .index of position => do
    let of ← term receiver of
    let position ← term receiver position
    record (.element · of [{ value := position }])
  | .element of args => do
    let of ← term receiver of
    let args ← arguments receiver args
    record (.element · of args)
  | .span of readonly => do
    let of ← term receiver of
    record (.span · of readonly)
  | .conditional of access => do
    let of ← term receiver of
    let placeholder ← record (.placeholder · of)
    let access ← term (some placeholder) access
    record (.conditional · of access)
  | .receiver =>
    match receiver with
    | some placeholder => pure placeholder
    | none => fun d ↦ .error (.receiverOutsideConditional d.body.name)
termination_by structural t => t

def arguments (receiver : Option Expr) : List (Argument Term) → Build (List (Argument Expr))
  | [] => pure []
  | arg :: args => do
    let value ← term receiver arg.value
    let rest ← arguments receiver args
    return { value, name := arg.name, modifier := arg.modifier } :: rest
termination_by structural args => args

end

def action : Action → Build Unit
  | .expression value => do append (.expression (← term none value))
  | .assign target value => do
    let target ← term none target
    let value ← term none value
    append (.assign target value)
  | .compound target op value => do
    let target ← term none target
    let value ← term none value
    append (.compound target op value)
  | .refLocal name readonly type init => do
    let type ← resolve type
    let init ← term none init
    let bound ← onBody fun b ↦
      let (bound, b) := b.declare { name, kind := .refLocal readonly, type }
      (bound, b.append (.refLocal bound init))
    bring name bound
  | .call callee args => do append (.call callee (← arguments none args))
  | .ret none => append (.ret none)
  | .ret (some value) => do append (.ret (some (← term none value)))

def parameter (p : ParameterDecl) : Build Unit := do
  let type ← resolve p.type
  let _ ← declare
    { name := p.name, kind := .parameter p.kind, type, confined := p.confined
      assigned := p.kind != .output }

def stackLocal (l : LocalDecl) : Build Unit := do
  let type ← resolve l.type
  let _ ← declare { name := l.name, kind := .stackLocal, type, assigned := l.assigned }

def owner : Option OwnerDecl → Build Unit
  | some owner => do
    let type ← resolve owner.type
    let receiver ← onBody (·.own ⟨type, owner.readonly, owner.unscopedRef⟩)
    bring "this" receiver
  | none => pure ()

def returnType : Option String → Build (Option TypeId)
  | some type => some <$> resolve type
  | none => pure none

def method (m : MethodDecl) : Build Unit := do
  owner m.owner
  let returnType ← returnType m.returnType
  onBody fun b ↦ ((), { b with returns := m.returns, returnType })
  m.parameters.forM parameter
  m.locals.forM stackLocal
  m.body.forM action

end MethodDraft

namespace Scenario

def addArray (types : TypeTable) (d : ArrayDecl) : Except TypeError TypeTable := do
  let (element, types) ← types.resolve d.element.toList
  (types.addArray d.name element d.length).map (·.2)

def addField (state : List Field × TypeTable) (f : FieldDecl) :
    Except TypeError (List Field × TypeTable) := do
  let (type, types) ← state.2.resolve f.type.toList
  return (state.1 ++ [⟨f.name, type, f.readonly⟩], types)

def defineStruct (types : TypeTable) (declared : TypeId × StructDecl) :
    Except TypeError TypeTable := do
  let (fields, types) ← declared.2.fields.foldlM addField ([], types)
  types.defineFields declared.1 fields

/-- The structs and classes, which come right after the built-in types. -/
def declared (s : Scenario) : List (TypeId × StructDecl) :=
  (List.range' TypeTable.builtin.length s.structs.length).zip s.structs

def declareTypes (s : Scenario) : Except TypeError TypeTable := do
  let types ← s.structs.foldlM (fun types d ↦ (types.declareStruct d.name d.kind).map (·.2))
    (({} : TypeTable))
  let types ← s.arrays.foldlM addArray types
  s.declared.foldlM defineStruct types

/-- The types of a scenario, before any method adds span types. -/
def buildTypes (s : Scenario) : Except ScenarioError TypeTable := do
  let types ← s.declareTypes.mapError .type
  match s.declared.find? fun (id, _) ↦ types.containsItself id with
  | some (_, d) => .error (.recursiveStruct d.name)
  | none => .ok types

def addMethod (p : Program) (m : MethodDecl) : Except ScenarioError Program :=
  if p.methods.any (·.name == m.name) then .error (.duplicateMethod m.name)
  else do
    let (_, draft) ← (MethodDraft.method m).run { types := p.types, body := { name := m.name } }
    return { types := draft.types, methods := p.methods ++ [draft.body.finish] }

/-- The program of a scenario. -/
def build (s : Scenario) : Except ScenarioError Program := do
  let types ← s.buildTypes
  s.methods.foldlM addMethod { types, methods := [] }

end Scenario

end InlineArrays
