import InlineArrays.Access
import InlineArrays.Code.Emission

/-!
# Code of element accesses

The receiver is viewed as a span, the span is kept in a temporary, the subscript is turned into an
offset, or into a start and a count, and the span is indexed or sliced by it.
-/

namespace InlineArrays

open Emission

/-- What an expression is lowered to. -/
inductive Demand where
  | value
  | address
  deriving DecidableEq, Repr

/-- The address of what was lowered, spilled if it is a value. -/
def Demand.inMemory (demand : Demand) (lowered : Operand) : Emit Operand :=
  match demand with
  | .address => return lowered
  | .value => spillAddress lowered

/-- What an address yields: itself, or what is stored there. -/
def Demand.fromAddress (demand : Demand) (address : Operand) : Emit Operand :=
  match demand with
  | .address => return address
  | .value => define (.load address)

/-- The offset of a bound; `length` is not read unless the bound depends on it. -/
def Bound.offset (isStop : Bool) (length : Operand) : Bound Operand → Emit Operand
  | .omitted => return if isStop then length else .int 0
  | .int value => return value
  | .fromEnd count => define (.binary .sub length count)
  | .index value => define (.getOffset value length)

namespace Subscript

/-- Indexes or slices a span of some length: the address of an element, or a part of the span. -/
def selectIn (span length : Operand) : Subscript Operand → Emit Operand
  | .int position => define (.index span position)
  | .fromEnd count => do
    let position ← define (.binary .sub length count)
    define (.index span position)
  | .index value => do
    let position ← define (.getOffset value length)
    define (.index span position)
  | .dynamic value => do
    let position ← define (.convert value)
    define (.index span position)
  | .range value => do
    let start ← define (.rangeStart value)
    let start ← define (.getOffset start length)
    let stop ← define (.rangeEnd value)
    let stop ← define (.getOffset stop length)
    let count ← define (.binary .sub stop start)
    define (.slice span start count)
  | .rangeLiteral start stop => do
    let start ← start.offset false length
    let stop ← stop.offset true length
    let count ← define (.binary .sub stop start)
    define (.slice span start count)

/-- Indexes or slices a span, whose length is read only if the subscript depends on it. -/
def select (span : Operand) (s : Subscript Operand) : Emit Operand :=
  if s.needsLength then do
    let length ← define (.length span)
    s.selectIn span length
  else s.selectIn span (.int 0)

/-- A value that is used by the type of its expression, as `s` says. -/
def withValue {α : Type} (s : Subscript α) (value : Operand) : Subscript Operand :=
  match s with
  | .int _ | .fromEnd _ | .rangeLiteral .. => .int value
  | .index _ => .index value
  | .dynamic _ => .dynamic value
  | .range _ => .range value

end Subscript

namespace Context

/-- What to lower an expression to so as to have its storage in memory. -/
def storageDemand (c : Context) (e : Expr) : Demand :=
  if !e.isPlaceholder && (c.storageOf e).referenceable then .address else .value

/-- Views the inline array at an address as a span. -/
def projectSpan (c : Context) (kind : SpanKind) (arrayType element : TypeId) (length : Nat)
    (address : Operand) : Emit Operand :=
  define (.project kind address (c.types.format arrayType) (c.types.format element) length)

/-- What to lower the receiver of an access to. -/
def receiverDemand (c : Context) (a : Access) : Demand :=
  match a.indexed with
  | .array _ => c.storageDemand a.receiver
  | .span .. => .value

/-- The lowered receiver of an access as a span. -/
def receiverSpan (c : Context) (a : Access) (lowered : Operand) : Emit Operand :=
  match a.indexed with
  | .array p => do
    let address ← (c.receiverDemand a).inMemory lowered
    c.projectSpan p.kind p.arrayType p.element p.length address
  | .span .. => return lowered

/-- What an access yields, from the code of its receiver and of its subscript. -/
def accessCode (c : Context) (demand : Demand) (a : Access) (receiver : Emit Operand)
    (subscript : Emit (Subscript Operand)) : Emit Operand := do
  let lowered ← receiver
  let span ← c.receiverSpan a lowered
  let temp ← spill span
  let subscript ← subscript
  let selected ← subscript.select (.temp temp)
  if a.isSlice then
    match demand with
    | .value => return selected
    | .address => throw (.notAddressable (c.method.text a.expr))
  else demand.fromAddress selected

end Context

end InlineArrays
