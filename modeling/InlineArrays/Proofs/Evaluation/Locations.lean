import InlineArrays.Code.OfExpr
import InlineArrays.Machine.Execute
import InlineArrays.Proofs.Machine.Materialized

/-!
# What expressions evaluate to

An expression without calls is evaluated over a memory that it does not change.  It is located first:
in memory, or in a copy of the value that it is a part of where that value has no address.  Its value
is what is read there.  Nothing here mentions code; what is lowered from an expression is compared to
its evaluation.
-/

namespace InlineArrays

/-! ## Operations on values -/

namespace Value

def toInt : Value → Except RuntimeError Int64
  | .int n => .ok n
  | other => .error (other.mismatch "int")

def toAddress : Value → Except RuntimeError Address
  | .address target => .ok target
  | .null => .error .nullReference
  | other => .error (other.mismatch "address")

def toSpan : Value → Except RuntimeError SpanView
  | .span view => .ok view
  | other => .error (other.mismatch "span")

/-- An index; an integer counts from the start. -/
def toOffset : Value → Except RuntimeError Offset
  | .index offset => .ok offset
  | .int n => .ok ⟨n, false⟩
  | other => .error (other.mismatch "index")

def toRange : Value → Except RuntimeError (Offset × Offset)
  | .range start stop => .ok (start, stop)
  | other => .error (other.mismatch "range")

section

variable {v : Value}

theorem toAddress_eq_ok {address : Address} (h : v.toAddress = .ok address) :
    v = .address address := by
  cases v with
  | address =>
    cases h
    rfl
  | _ => cases h

theorem toSpan_eq_ok {view : SpanView} (h : v.toSpan = .ok view) :
    v = .span view := by
  cases v with
  | span =>
    cases h
    rfl
  | _ => cases h

end

/-- A field of the object, or of the struct at the address, that the value is. -/
def fieldAddress (name : String) : Value → Except RuntimeError Address
  | .address target => .ok (target.join (.field name))
  | .object cell => .ok ⟨.heap cell, [.field name]⟩
  | .null => .error .nullReference
  | other => .error (other.mismatch "address or object")

def minus (v w : Value) : Except RuntimeError Value := do
  let n ← v.toInt
  return .int (n - (← w.toInt))

/-- A late-bound value as an integer. -/
def converted (v : Value) : Except RuntimeError Value := do return .int (← v.toInt)

/-- The position of an index among so many elements. -/
def positionIn (v length : Value) : Except RuntimeError Value := do
  let offset ← v.toOffset
  return .int (offset.resolve (← length.toInt))

/-- The index that counts a number of elements from one of the ends. -/
def toIndex (v : Value) (fromEnd : Bool) : Except RuntimeError Value := do
  let n ← v.toInt
  if n < 0 then .error (.negativeIndex n) else .ok (.index ⟨n, fromEnd⟩)

def rangeTo (start stop : Value) : Except RuntimeError Value := do
  let start ← start.toOffset
  return .range start (← stop.toOffset)

def rangeStart (v : Value) : Except RuntimeError Value := do return .index (← v.toRange).1

def rangeEnd (v : Value) : Except RuntimeError Value := do return .index (← v.toRange).2

def spanLength (v : Value) : Except RuntimeError Value := do
  return .int (Int64.ofNat (← v.toSpan).length)

def spanElement (v position : Value) : Except RuntimeError Address := do
  let view ← v.toSpan
  view.index (← position.toInt)

def spanPart (v start count : Value) : Except RuntimeError Value := do
  let view ← v.toSpan
  let start ← start.toInt
  (view.slice start (← count.toInt)).map .span

end Value

/-! ## Locations -/

/-- Where an expression lies. -/
inductive Location where
  /-- What a value refers to, which has to be an address or, for its fields, an object. -/
  | referred (v : Value)
  /-- A part of a copy of a value. -/
  | copied (v : Value) (path : List Step)

namespace Location

def stored (address : Address) : Location := .referred (.address address)

/-- A copy of a value as a whole. -/
def whole (v : Value) : Location := .copied v []

def read (m : Memory) : Location → Except RuntimeError Value
  | .referred v => do m.read (← v.toAddress)
  | .copied v path => v.get path

def field (name : String) : Location → Except RuntimeError Location
  | .referred v => stored <$> v.fieldAddress name
  | .copied v path => .ok (.copied v (path ++ [.field name]))

/-- A copy reads as what it is made of. -/
@[simp]
theorem whole_bind_read (m : Memory) (x : Except RuntimeError Value) :
    (x >>= fun v ↦ (whole v).read m) = x := bind_pure x

end Location

/-! ## Elements and parts -/

/-- What is indexed or sliced. -/
inductive Extent where
  /-- A value that has to be a span. -/
  | span (v : Value)
  /-- An inline array that is a part of a copy. -/
  | copied (v : Value) (path : List Step) (length : Nat)

namespace Extent

/-- The elements of an inline array. -/
def ofArray (kind : SpanKind) (length : Nat) : Location → Except RuntimeError Extent
  | .referred v => do return .span (.span ⟨some (← v.toAddress), 0, length, kind.isReadonly⟩)
  | .copied v path => .ok (.copied v path length)

def length : Extent → Except RuntimeError Value
  | .span v => v.spanLength
  | .copied _ _ length => .ok (.int (Int64.ofNat length))

/-- An element at a position. -/
def index (x : Extent) (position : Value) : Except RuntimeError Location :=
  match x with
  | .span v => .stored <$> v.spanElement position
  | .copied v path length => do
    let n ← position.toInt
    if 0 ≤ n ∧ n.toUInt64.toNat < length then
      .ok (.copied v (path ++ [.element n.toUInt64.toNat]))
    else .error (.indexOutOfRange n length)

/-- The part from a position on; there are no spans over copies. -/
def slice (x : Extent) (start count : Value) : Except RuntimeError Location :=
  match x with
  | .span v => .whole <$> v.spanPart start count
  | .copied .. => .error .danglingReference

/-- The part between two positions. -/
def sliceBetween (x : Extent) (start stop : Value) : Except RuntimeError Location := do
  x.slice start (← stop.minus start)

end Extent

/-- The position of a bound among so many elements. -/
def Bound.positionIn (isStop : Bool) (length : Value) : Bound Value → Except RuntimeError Value
  | .omitted => .ok (if isStop then length else .int 0)
  | .int v => .ok v
  | .fromEnd v => length.minus v
  | .index v => v.positionIn length

namespace Subscript

/-- The element or the part of an extent of some length. -/
def locateIn (x : Extent) (length : Value) : Subscript Value → Except RuntimeError Location
  | .int v => x.index v
  | .fromEnd v => do x.index (← length.minus v)
  | .index v => do x.index (← v.positionIn length)
  | .dynamic v => do x.index (← v.converted)
  | .range v => do
    let start ← (← v.rangeStart).positionIn length
    let stop ← (← v.rangeEnd).positionIn length
    x.sliceBetween start stop
  | .rangeLiteral start stop => do
    let start ← start.positionIn false length
    let stop ← stop.positionIn true length
    x.sliceBetween start stop

/-- The element or the part of an extent, whose length is asked for if the subscript depends on it. -/
def locate (x : Extent) (s : Subscript Value) : Except RuntimeError Location :=
  if s.needsLength then do s.locateIn x (← x.length) else s.locateIn x (.int 0)

/-- A value that is used by the type of its expression, as `s` says. -/
def holding {α β : Type} (s : Subscript α) (v : β) : Subscript β :=
  match s with
  | .int _ | .fromEnd _ | .rangeLiteral .. => .int v
  | .index _ => .index v
  | .dynamic _ => .dynamic v
  | .range _ => .range v

end Subscript

/-- What an expression is taken for: its location, or a copy of its value. -/
def Demand.take (demand : Demand) (m : Memory) (l : Location) : Except RuntimeError Location :=
  match demand with
  | .address => .ok l
  | .value => Location.whole <$> l.read m

@[simp]
theorem Demand.take_address (m : Memory) (l : Location) : Demand.address.take m l = .ok l := rfl

/-- Where an expression is evaluated: memory, the running activation, and the values of the receivers
of the conditional accesses around it. -/
structure Situation where
  memory : Memory
  frame : Nat
  receiver? : ExprId → Option Value := fun _ ↦ none

/-- In an access to a receiver, which has been evaluated. -/
def Situation.within (σ : Situation) (receiver : ExprId) (v : Value) : Situation :=
  { σ with receiver? := fun id ↦ if id = receiver then some v else σ.receiver? id }

/-- What is said of expressions that have no code. -/
def noCode : RuntimeError := .undefinedValue ""

namespace Context

/-- The storage of a variable. -/
def variableLocation (c : Context) (σ : Situation) (target : VariableId) :
    Except RuntimeError Location :=
  let slot : Address := ⟨.slot σ.frame target, []⟩
  if c.holdsAddress (c.method.var target) then .referred <$> σ.memory.read slot
  else .ok (.stored slot)

/-- What a field is a field of, from where its receiver lies: an object, or a struct. -/
def ownerLocation (c : Context) (σ : Situation) (receiver : Expr) (l : Location) :
    Except RuntimeError Location :=
  if c.types.isClass (c.typeOf receiver) then .referred <$> l.read σ.memory
  else (c.storageDemand receiver).take σ.memory l

/-- What an access indexes, from where its receiver lies. -/
def extent (c : Context) (σ : Situation) (a : Access) (l : Location) :
    Except RuntimeError Extent :=
  match a.indexed with
  | .array p => do
    Extent.ofArray p.kind p.length (← (c.storageDemand a.receiver).take σ.memory l)
  | .span .. => .span <$> l.read σ.memory

/-- The bound that the value of an expression makes, an offset or an index. -/
def boundOfValue (c : Context) (e : Expr) (v : Value) : Bound Value :=
  if c.typeOf e = TypeTable.int then .int v else .index v

/-- The bound that the value of an expression makes, as an index. -/
def indexOfValue (c : Context) (e : Expr) (v : Value) : Except RuntimeError Value :=
  if c.typeOf e = TypeTable.int then v.toIndex false else .ok v

mutual

/-- Where an expression lies. -/
def locationOf (c : Context) (σ : Situation) : Expr → Except RuntimeError Location
  | .var _ target => c.variableLocation σ target
  | .field _ receiver name => do
    (← c.ownerLocation σ receiver (← c.locationOf σ receiver)).field name
  | .element id receiver args =>
    match c.bind (.element id receiver args) with
    | .error _ => .error noCode
    | .ok a => do
      let x ← c.extent σ a (← c.locationOf σ receiver)
      (← c.subscriptOf σ a args).locate x
  | .int _ n => .ok (.whole (.int n))
  | .bool _ b => .ok (.whole (.bool b))
  | .fromEnd _ count => do
    let count ← (← c.locationOf σ count).read σ.memory
    return .whole (← count.toIndex true)
  | .range _ start stop => do
    let start ← c.indexOf σ false start
    let stop ← c.indexOf σ true stop
    return .whole (← start.rangeTo stop)
  | .default _ type => .ok (.whole (defaultValue c.types type))
  | .conditional _ receiver access => do
    let tested ← (← c.locationOf σ receiver).read σ.memory
    if tested.isNull then return .whole .null
    else return .whole (← (← c.locationOf (σ.within receiver.id tested) access).read σ.memory)
  | .placeholder _ receiver =>
    match σ.receiver? receiver.id with
    | some v => .ok (.whole v)
    | none => .error noCode
  | .call .. | .string .. | .span .. => .error noCode
termination_by structural e => e

/-- The argument of an access that binds. -/
def subscriptOf (c : Context) (σ : Situation) (a : Access) :
    List (Argument Expr) → Except RuntimeError (Subscript Value)
  | [⟨.fromEnd _ count, _, _⟩] => do
    return .fromEnd (← (← c.locationOf σ count).read σ.memory)
  | [⟨.range _ start stop, _, _⟩] => do
    let start ← c.boundOf σ start
    let stop ← c.boundOf σ stop
    return .rangeLiteral start stop
  | [⟨value, _, _⟩] => do
    return a.subscript.holding (← (← c.locationOf σ value).read σ.memory)
  | _ => .error noCode
termination_by structural args => args

/-- A bound of a range literal. -/
def boundOf (c : Context) (σ : Situation) : Option Expr → Except RuntimeError (Bound Value)
  | none => .ok .omitted
  | some (.fromEnd _ count) => do return .fromEnd (← (← c.locationOf σ count).read σ.memory)
  | some bound => do return c.boundOfValue bound (← (← c.locationOf σ bound).read σ.memory)
termination_by structural bound => bound

/-- A bound of a range that is a value of its own. -/
def indexOf (c : Context) (σ : Situation) (isStop : Bool) :
    Option Expr → Except RuntimeError Value
  | none => .ok (.index ⟨0, isStop⟩)
  | some bound => do c.indexOfValue bound (← (← c.locationOf σ bound).read σ.memory)
termination_by structural bound => bound

end

/-- What an expression evaluates to. -/
def valueOf (c : Context) (σ : Situation) (e : Expr) : Except RuntimeError Value := do
  (← c.locationOf σ e).read σ.memory

/-- What an expression is taken for, by what is demanded of it. -/
def resultOf (c : Context) (σ : Situation) (demand : Demand) (e : Expr) :
    Except RuntimeError Location := do
  demand.take σ.memory (← c.locationOf σ e)

section Values

variable {c : Context} {σ : Situation} {id : ExprId}

theorem valueOf_placeholder {receiver : Expr} {v : Value} (h : σ.receiver? receiver.id = some v) :
    c.valueOf σ (.placeholder id receiver) = .ok v := by
  simp only [valueOf, locationOf, h]
  rfl

theorem valueOf_fromEnd (count : Expr) :
    c.valueOf σ (.fromEnd id count) = c.valueOf σ count >>= fun v ↦ v.toIndex true := by
  simp only [valueOf, locationOf, bind_assoc, pure_bind, Location.whole_bind_read]

theorem valueOf_range (start stop : Option Expr) :
    c.valueOf σ (.range id start stop) =
      c.indexOf σ false start >>= fun v ↦ c.indexOf σ true stop >>= v.rangeTo := by
  simp only [valueOf, locationOf, bind_assoc, pure_bind, Location.whole_bind_read]

/-- The access to null is null, without a look at the access. -/
theorem valueOf_conditional (receiver access : Expr) :
    c.valueOf σ (.conditional id receiver access) = c.valueOf σ receiver >>= fun v ↦
      if v.isNull then .ok .null else c.valueOf (σ.within receiver.id v) access := by
  simp only [valueOf, locationOf, bind_assoc]
  congr 1
  funext l
  congr 1
  funext v
  by_cases hnull : v.isNull
  · simp only [if_pos hnull]
    rfl
  · simp only [if_neg hnull, bind_assoc, pure_bind, Location.whole_bind_read]
    rfl

variable {a : Access} {arg : Argument Expr}

theorem subscriptOf_fromEnd (count : Expr) (name : Option String) (modifier : Modifier) :
    c.subscriptOf σ a [⟨.fromEnd id count, name, modifier⟩] = .fromEnd <$> c.valueOf σ count := by
  rw [valueOf, map_bind]
  rfl

/-- An argument that is no literal of its own is used by the type of its value. -/
theorem subscriptOf_value (hform : ∀ id count, arg.value ≠ .fromEnd id count)
    (hform' : ∀ id start stop, arg.value ≠ .range id start stop) :
    c.subscriptOf σ a [arg] = a.subscript.holding <$> c.valueOf σ arg.value := by
  obtain ⟨e, name, modifier⟩ := arg
  rw [valueOf, map_bind]
  cases e with
  | fromEnd id count => exact absurd rfl (hform id count)
  | range id start stop => exact absurd rfl (hform' id start stop)
  | _ => rfl

theorem boundOf_fromEnd (count : Expr) :
    c.boundOf σ (some (.fromEnd id count)) = .fromEnd <$> c.valueOf σ count := by
  rw [valueOf, map_bind]
  rfl

theorem boundOf_value {e : Expr} (hform : ∀ id count, e ≠ .fromEnd id count) :
    c.boundOf σ (some e) = c.boundOfValue e <$> c.valueOf σ e := by
  rw [valueOf, map_bind]
  cases e with
  | fromEnd id count => exact absurd rfl (hform id count)
  | _ => rfl

theorem indexOf_some (isStop : Bool) (e : Expr) :
    c.indexOf σ isStop (some e) = c.valueOf σ e >>= c.indexOfValue e := by
  rw [valueOf, bind_assoc]
  rfl

end Values

end Context

end InlineArrays
