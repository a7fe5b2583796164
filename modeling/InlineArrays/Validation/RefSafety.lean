import InlineArrays.Access
import InlineArrays.Usage

/-!
# Ref safety

References and spans may not outlive the storage they are made of, and nothing is written through a
read-only path.  The check of an expression at one use goes from unchecked to a computed outcome and
from there to a verdict that is final; an access that does not bind is accepted, since it is reported
elsewhere.  Two conditions hold at every use alike: a mutable span conversion needs storage with an
address that may be written, and an array without an address cannot be sliced.  Nothing is reported
for an expression that is built on one already rejected.
-/

namespace InlineArrays

/-- What an expression yields where it is used. -/
inductive ResultShape where
  | ref
  | span
  /-- A value without an address. -/
  | value
  deriving DecidableEq, Repr

def ResultShape.name : ResultShape → String
  | .ref => "ref"
  | .span => "span"
  | .value => "value"

structure Outcome where
  shape : ResultShape
  storage : Storage
  deriving DecidableEq, Repr

inductive CheckState where
  | unchecked
  | computed (outcome : Outcome)
  | accepted
  | rejected (reason : Diagnostic)
  deriving DecidableEq, Repr

/-- What keeps storage from being referenced after the method returns. -/
def Storage.escape? (s : Storage) : Option Violation :=
  if s.referenceable && s.scope.outlives .returnOnly then none
  else
    match s.origin with
    | .valueParameter name => some (.returnParameterMember name)
    | .structReceiver => some .returnStructMember
    | .stackLocal name => some (.returnLocalMember name)
    | .scopedParameter name => some (.returnScopedParameter name)
    | .refLocal name => some (.returnRefLocal name)
    | .spanLocal name => some (.spanMayEscape name)
    | .temporary | .heap | .refParameter _ | .refCall _ => some .nonReferenceable

/-- Whether the use asks more of an expression than its value. -/
def Usage.isChecked : Usage → Bool
  | .read | .receiver | .argument .none => false
  | _ => true

namespace Context

def shapeOf (yieldsSpan : Bool) (s : Storage) : ResultShape :=
  if yieldsSpan then .span else if s.referenceable then .ref else .value

/-- What an expression yields and where that is stored, unless it is an access that does not
bind. -/
def outcome? (c : Context) (e : Expr) : Option Outcome :=
  if e.isElement then
    match c.bind e with
    | .error _ => none
    | .ok a =>
      let storage := match a.indexed with
        | .array p => p.storage
        | .span _ _ storage => { storage with referenceable := true }
      some ⟨shapeOf a.isSlice storage, { storage with readonly := a.indexed.kind.isReadonly }⟩
  else
    let storage := c.storageOf e
    some ⟨shapeOf (c.types.isSpan (c.typeOf e)) storage, storage⟩

/-- What is wrong with putting `e` to a use, given what it yields. -/
def objection? (c : Context) (e : Expr) (usage : Usage) (o : Outcome) : Option Violation :=
  let readonly := o.storage.readonly
  match usage with
  | .read | .receiver | .argument .none | .argument .input => none
  | .assignTarget | .compoundTarget =>
    match o.shape with
    | .ref => if readonly then some (.readonlyAssignment (c.method.text e)) else none
    | .span => if e.isVariable then none else some .lvalueExpected
    | .value => some .lvalueExpected
  | .argument .ref | .argument .output =>
    match o.shape with
    | .ref => if readonly then some (.readonlyRefUse (c.method.text e)) else none
    | .span => if e.isVariable then none else some .refArgumentNotAssignable
    | .value => some .refArgumentNotAssignable
  | .refLocalInit boundReadonly =>
    match o.shape with
    | .ref =>
      if readonly && !boundReadonly then some (.readonlyRefUse (c.method.text e)) else none
    | .span => if e.isVariable then none else some .nonReferenceable
    | .value => some .nonReferenceable
  | .returned kind =>
    if kind.isByRef then
      if o.shape = .value then some .nonReferenceable
      else if kind = .ref && readonly then some (.readonlyRefUse (c.method.text e))
      else o.storage.escape?
    else if o.shape = .span then o.storage.escape?
    else none

def advance (c : Context) (e : Expr) (usage : Usage) : CheckState → CheckState
  | .unchecked =>
    match c.outcome? e with
    | some outcome => .computed outcome
    | none => .accepted
  | .computed outcome =>
    match c.objection? e usage outcome with
    | some violation => .rejected ⟨violation, c.method.span e⟩
    | none => .accepted
  | final => final

/-- The states that the check of a use goes through. -/
def checkStates (c : Context) (e : Expr) (usage : Usage) : List CheckState :=
  let first := c.advance e usage .unchecked
  match first with
  | .computed _ => [.unchecked, first, c.advance e usage first]
  | _ => [.unchecked, first]

/-- The diagnostic on a use, if its check ends in a rejection. -/
def useError? (c : Context) (e : Expr) (usage : Usage) : Option Diagnostic :=
  match c.advance e usage (c.advance e usage .unchecked) with
  | .rejected reason => some reason
  | _ => none

/-- What is wrong with an expression wherever it is used. -/
def innateError? (c : Context) (e : Expr) : Option Diagnostic :=
  match e with
  | .span _ operand false =>
    let storage := c.storageOf operand
    if !storage.referenceable then some ⟨.nonReferenceable, c.method.span e⟩
    else if storage.readonly then
      some ⟨.readonlyRefUse (c.method.text operand), c.method.span operand⟩
    else none
  | .element .. =>
    match c.bind e with
    | .ok a =>
      match a.indexed with
      | .array p =>
        if a.isSlice && p.viaTemporary then some ⟨.nonReferenceable, c.method.span e⟩ else none
      | .span .. => none
    | .error _ => none
  | _ => none

end Context

/-- The expressions rejected so far, and why. -/
structure Rejections where
  rejected : List ExprId := []
  reasons : List Diagnostic := []
  deriving Repr

namespace Rejections

def reject (r : Rejections) (e : Expr) (reason : Diagnostic) : Rejections :=
  ⟨e.id :: r.rejected, r.reasons ++ [reason]⟩

/-- Whether an expression, or a receiver it is built on, was rejected. -/
def covers (r : Rejections) : Expr → Bool
  | .field id receiver _ => r.rejected.contains id || r.covers receiver
  | .element id receiver _ => r.rejected.contains id || r.covers receiver
  | .span id operand _ => r.rejected.contains id || r.covers operand
  | e => r.rejected.contains e.id
termination_by structural e => e

def checkUse (c : Context) (r : Rejections) (use : Use) : Rejections :=
  match c.innateError? use.1 with
  | some reason => r.reject use.1 reason
  | none =>
    if use.2.isChecked && !r.covers use.1 then
      match c.useError? use.1 use.2 with
      | some reason => r.reject use.1 reason
      | none => r
    else r

/-- A span-typed local keeps the scope of its first value; later values may not be narrower. -/
def checkSpanLocal (c : Context) (r : Rejections) : Statement → Rejections
  | .assign target value =>
    match target with
    | .var _ v =>
      let assigned := c.method.var v
      let isFirst := (c.method.firstAssignment? v).any (·.id == value.id)
      if assigned.kind == .stackLocal && c.types.isSpan assigned.type && !isFirst &&
          !r.covers value && !(c.storageOf value).scope.outlives (c.storageOf target).scope then
        r.reject value ⟨.spanMayEscape assigned.name, c.method.span value⟩
      else r
    | _ => r
  | _ => r

def checkStatement (c : Context) (r : Rejections) (s : Statement) : Rejections :=
  ((s.usesAfterParts c.method.toBody).foldl (checkUse c) r).checkSpanLocal c s

end Rejections

def Context.refSafetyErrors (c : Context) : List Diagnostic :=
  (c.method.statements.foldl (Rejections.checkStatement c) {}).reasons

end InlineArrays
