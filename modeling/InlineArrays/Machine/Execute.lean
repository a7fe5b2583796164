import InlineArrays.Code.Instr
import InlineArrays.Machine.Default
import InlineArrays.Machine.Memory

/-!
# Executing code

Operands are read in the order an instruction names them.  Integers wrap around at 64 bits; an index
or a slice has to lie inside its span.
-/

namespace InlineArrays

namespace Run

def operand (o : Operand) : Run Value := do
  let top := (← get).frames.head?
  match o with
  | .int value => return .int value
  | .bool value => return .bool value
  | .computed id =>
    match top.bind (·.value? id) with
    | some value => return value
    | none => throw (.undefinedValue o.text)
  | .temp id =>
    match top.bind (·.temps[id]?) with
    | some value => return value
    | none => throw (.undefinedValue o.text)

def int (o : Operand) : Run Int64 := do
  match ← operand o with
  | .int value => return value
  | other => throw (other.mismatch "int")

def address (o : Operand) : Run Address := do
  match ← operand o with
  | .address target => return target
  | .null => throw .nullReference
  | other => throw (other.mismatch "address")

def span (o : Operand) : Run SpanView := do
  match ← operand o with
  | .span view => return view
  | other => throw (other.mismatch "span")

/-- An index; an integer counts from the start. -/
def offset (o : Operand) : Run Offset := do
  match ← operand o with
  | .index offset => return offset
  | .int value => return ⟨value, false⟩
  | other => throw (other.mismatch "index")

def range (o : Operand) : Run (Offset × Offset) := do
  match ← operand o with
  | .range start stop => return (start, stop)
  | other => throw (other.mismatch "range")

def read (target : Address) : Run Value := do
  match (← get).read target with
  | .ok value => return value
  | .error e => throw e

def write (target : Address) (value : Value) : Run Unit := do
  match (← get).write target value with
  | .ok m => set m
  | .error e => throw e

def define (dest : ValueId) (value : Value) : Run Unit := modify (·.updateTop (·.define dest value))

section

variable {m m' : Memory} {v : Value} {a : Address}

theorem operand_computed {id : ValueId} (h : m.frames.head?.bind (·.value? id) = some v) :
    operand (.computed id) m = .ok v m := by
  change (match m.frames.head?.bind (·.value? id) with
    | some value => pure value
    | none => throw (.undefinedValue _) : Run Value) m = _
  rw [h]
  rfl

theorem operand_temp {id : TempId} (h : m.frames.head?.bind (·.temps[id]?) = some v) :
    operand (.temp id) m = .ok v m := by
  change (match m.frames.head?.bind (·.temps[id]?) with
    | some value => pure value
    | none => throw (.undefinedValue _) : Run Value) m = _
  rw [h]
  rfl

theorem read_of_ok (h : m.read a = .ok v) : read a m = .ok v m := by
  change (match m.read a with | .ok value => pure value | .error e => throw e : Run Value) m = _
  rw [h]
  rfl

theorem write_of_ok (h : m.write a v = .ok m') : write a v m = .ok () m' := by
  change (match m.write a v with | .ok m => set m | .error e => throw e : Run Unit) m = _
  rw [h]
  rfl

theorem read_of_error {e : RuntimeError} (h : m.read a = .error e) : read a m = .error e m := by
  change (match m.read a with | .ok value => pure value | .error e => throw e : Run Value) m = _
  rw [h]
  rfl

theorem write_of_error {e : RuntimeError} (h : m.write a v = .error e) :
    write a v m = .error e m := by
  change (match m.write a v with | .ok m => set m | .error e => throw e : Run Unit) m = _
  rw [h]
  rfl

end

end Run

def BinaryOp.apply : BinaryOp → Int64 → Int64 → Int64
  | .add, left, right => left + right
  | .sub, left, right => left - right
  | .mul, left, right => left * right

namespace SpanView

/-- The address of an element. -/
def index (view : SpanView) (position : Int64) : Except RuntimeError Address :=
  match view.base with
  | some base =>
    if 0 ≤ position ∧ position.toUInt64.toNat < view.length then
      .ok (base.join (.element (view.start + position.toUInt64.toNat)))
    else .error (.indexOutOfRange position view.length)
  | none => .error (.indexOutOfRange position view.length)

/-- The `count` elements from `start` on, where the position behind the last one is an integer. -/
def slice (view : SpanView) (start count : Int64) : Except RuntimeError SpanView :=
  if 0 ≤ start ∧ 0 ≤ count ∧ !start.toBitVec.saddOverflow count.toBitVec ∧
      (start + count).toUInt64.toNat ≤ view.length then
    .ok
      { view with
        start := view.start + start.toUInt64.toNat
        length := count.toUInt64.toNat }
  else .error (.sliceOutOfRange start count view.length)

end SpanView

/-- The value of an operation in the activation `frame`. -/
def Operation.run (types : TypeTable) (frame : Nat) : Operation → Run Value
  | .addressOf target _ => return .address ⟨.slot frame target, []⟩
  | .tempAddress temp => return .address ⟨.temp frame temp, []⟩
  | .fieldAddress base name => do
    match ← Run.operand base with
    | .address target => return .address (target.join (.field name))
    | .object cell => return .address ⟨.heap cell, [.field name]⟩
    | .null => throw .nullReference
    | other => throw (other.mismatch "address or object")
  | .load source => do Run.read (← Run.address source)
  | .default type _ => return defaultValue types type
  | .project kind base _ _ size => do
    return .span { base := some (← Run.address base), length := size, readonly := kind.isReadonly }
  | .length view => do return .int (Int64.ofNat (← Run.span view).length)
  | .getOffset offset total => do
    let offset ← Run.offset offset
    return .int (offset.resolve (← Run.int total))
  | .makeIndex value fromEnd => do
    let value ← Run.int value
    if value < 0 then throw (.negativeIndex value) else return .index ⟨value, fromEnd⟩
  | .makeRange start stop => do return .range (← Run.offset start) (← Run.offset stop)
  | .rangeStart range => do return .index (← Run.range range).1
  | .rangeEnd range => do return .index (← Run.range range).2
  | .binary op left right => do
    let left ← Run.int left
    return .int (op.apply left (← Run.int right))
  | .index view position => do
    let view ← Run.span view
    match view.index (← Run.int position) with
    | .ok element => return .address element
    | .error e => throw e
  | .slice view start count => do
    let view ← Run.span view
    let start ← Run.int start
    match view.slice start (← Run.int count) with
    | .ok part => return .span part
    | .error e => throw e
  | .convert value => return .int (← Run.int value)

section

variable (types : TypeTable) (invoke : String → List Value → Run Value) (frame : Nat)

mutual

/-- One instruction; a value is returned where the method returns. -/
def Instr.run : Instr → Run (Option Value)
  | .define _ dest operation => do
    Run.define dest (← operation.run types frame)
    return none
  | .store _ target value => do
    let target ← Run.address target
    Run.write target (← Run.operand value)
    return none
  | .storeTemp _ temp value => do
    let value ← Run.operand value
    modify (·.updateTop (·.setTemp temp value))
    return none
  | .bind _ target _ source => do
    let source ← Run.address source
    modify (·.updateTop (·.setSlot target (.address source)))
    return none
  | .call _ dest callee args => do
    let result ← invoke callee (← args.mapM Run.operand)
    match dest with
    | some dest => Run.define dest result
    | none => pure ()
    return none
  | .guard _ dest tested body result => do
    if (← Run.operand tested).isNull then
      Run.define dest .null
      return none
    else
      match ← Instr.runAll body with
      | some returned => return some returned
      | none =>
        Run.define dest (← Run.operand result)
        return none
  | .ret _ none => return some .unit
  | .ret _ (some value) => do return some (← Run.operand value)
termination_by structural i => i

/-- Instructions in order, up to the first that returns. -/
def Instr.runAll : List Instr → Run (Option Value)
  | [] => return none
  | i :: code => do
    match ← Instr.run i with
    | some returned => return some returned
    | none => Instr.runAll code
termination_by structural code => code

end

end

end InlineArrays
