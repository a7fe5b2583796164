import InlineArrays.Code.Routine
import InlineArrays.Machine.Execute
import InlineArrays.Machine.Input
import InlineArrays.Machine.Materialize
import InlineArrays.Scenario.Program

/-!
# Running programs

A call of a method that has a routine gets an activation of its own; a call of any other name leaves
the program and is recorded with its arguments.  A run starts in an entry method with its parameters
and receiver taken from the inputs.
-/

namespace InlineArrays

/-- The routines of a program, with the methods they are the code of. -/
structure Executable where
  types : TypeTable
  routines : List (Method × Routine)

namespace Executable

/-- Routines that no method has the name of are left out. -/
def link (p : Program) (routines : List Routine) : Executable :=
  ⟨p.types, routines.filterMap fun r ↦ (p.method? r.name).map (·, r)⟩

/-- The last routine of a name. -/
def find? (x : Executable) (name : String) : Option (Method × Routine) :=
  x.routines.reverse.find? (·.2.name == name)

/-- The slots of a new activation: locals by default, ref locals unbound, arguments as given. -/
def slots (x : Executable) (m : Method) (r : Routine) (args : List Value)
    (receiver : Option Value) : List (VariableId × Value) :=
  let declared := m.vars.toList.zipIdx.filterMap fun (v, id) ↦
    match v.kind with
    | .stackLocal => some (id, defaultValue x.types v.type)
    | .refLocal _ => some (id, Value.null)
    | .parameter _ | .receiver => none
  let passed := (r.parameters.zip args).foldl (fun slots (id, value) ↦ assign id value slots) declared
  match r.receiver with
  | some id => assign id (receiver.getD (defaultValue x.types (m.var id).type)) passed
  | none => passed

/-- What becomes of the calls that leave the program. -/
abbrev Host := String → List Value → Run Value

/-- Records a call of a method outside the program. -/
def leave : Host := fun callee args ↦ do
  let m ← get
  let shown := ", ".intercalate (args.map m.render)
  set { m with output := m.output ++ [s!"{callee}({shown})"] }
  return .unit

/-- Runs `body` in a new activation, which is gone afterwards whether it succeeds or fails. -/
def activate (r : Routine) (slots : List (VariableId × Value))
    (body : Nat → Run (Option Value)) : Run Value := fun m ↦
  let id := m.nextFrame
  let frame : Frame :=
    { id, slots, temps := List.replicate r.tempCount .unit
      values := List.replicate r.valueCount none }
  match body id { m with frames := frame :: m.frames, nextFrame := id + 1 } with
  | .ok returned m => .ok (returned.getD .unit) { m with frames := m.frames.tail }
  | .error e m => .error e { m with frames := m.frames.tail }

/-- Calls a method with room for so many activations. -/
def invokeWithin (x : Executable) (host : Host) (room : Nat) (callee : String) (args : List Value)
    (receiver : Option Value) : Run Value :=
  match x.find? callee with
  | none => host callee args
  | some (m, r) =>
    if args.length ≠ r.parameters.length then
      throw (.argumentCount callee r.parameters.length args.length)
    else
      match room with
      | 0 => throw .stackOverflow
      | room + 1 =>
        activate r (x.slots m r args receiver) fun frame ↦
          Instr.runAll x.types (fun callee args ↦ x.invokeWithin host room callee args none) frame
            r.code

def invoke (x : Executable) (host : Host) (callee : String) (args : List Value)
    (receiver : Option Value) : Run Value := do
  x.invokeWithin host (maxCallDepth - (← get).frames.length) callee args receiver

/-- The value that a run starts a parameter or the receiver with. -/
def entryValue (x : Executable) (inputs : List (String × Data)) (name : String) (type : TypeId) :
    Run Value :=
  match valueAt? name inputs with
  | some data => inputValue x.types name type data
  | none => return defaultValue x.types type

def entryArgument (x : Executable) (inputs : List (String × Data)) (v : Variable) : Run Value := do
  let value ← x.entryValue inputs v.name v.type
  match v.kind with
  | .parameter kind => if kind.isByRef then return .address (← box value) else return value
  | _ => return value

def entryReceiver (x : Executable) (inputs : List (String × Data)) (owner : Owner) :
    Run Value := do
  let value ← x.entryValue inputs "this" owner.type
  if x.types.isClass owner.type then
    if value.isNull then allocateObject (defaultObject x.types owner.type) else return value
  else return .address (← box value)

def entryReceiver? (x : Executable) (inputs : List (String × Data)) (m : Method) :
    Run (Option Value) :=
  match m.owner with
  | some owner => some <$> x.entryReceiver inputs owner
  | none => return none

/-- What a method returned, with all references followed. -/
def shown (r : Routine) (returned : Value) : Run (Option Value) := do
  if r.returns = .void then return none
  match (← get).materialize returned with
  | .ok value => return some value
  | .error e => throw e

end Executable

structure Execution where
  /-- Absent for methods that return nothing. -/
  result : Option Value
  /-- Calls of methods outside the program. -/
  output : List String

/-- Runs a method; its result is shown with all references followed. -/
def Executable.runWith (x : Executable) (host : Executable.Host) (entry : String)
    (inputs : List (String × Data)) : Run Execution := do
  match x.find? entry with
  | none => throw (.unknownMethod entry)
  | some (m, r) =>
    let args ← r.parameters.mapM fun id ↦ x.entryArgument inputs (m.var id)
    let receiver ← x.entryReceiver? inputs m
    let returned ← x.invoke host entry args receiver
    let result ← shown r returned
    let output := (← get).output
    modify fun m ↦ { m with output := [] }
    return { result, output }

/-- Runs a method, recording the calls that leave the program. -/
def Executable.run (x : Executable) (entry : String) (inputs : List (String × Data)) :
    Run Execution :=
  x.runWith Executable.leave entry inputs

end InlineArrays
