import InlineArrays.Expr.Place
import InlineArrays.Resolution

/-!
# Definite assignment

Locals without an initializer and `out` parameters have to be assigned before they are read.  A
statement checks and assigns places in a fixed order.  Reading an element checks the place of the
array that holds it; taking a reference or a span checks nothing but the operands evaluated on the
way.  A struct is assigned once each of its fields is.
-/

namespace InlineArrays

/-- What is done with the storage that an expression denotes. -/
inductive Access.Mode where
  | read
  /-- Read an element of it. -/
  | readElement
  /-- Refer to it. -/
  | refer
  deriving DecidableEq, Repr

/-- A step of a statement as far as assignment goes. -/
inductive AssignmentEvent where
  | check (e : Expr)
  | assign (e : Expr)

namespace Context

def isSpanTyped (c : Context) (e : Expr) : Bool := c.types.isSpan (c.typeOf e)

/-- Reading an element of something that is no element access: of a span refers to it. -/
def settle (c : Context) (mode : Access.Mode) (e : Expr) : Access.Mode :=
  match mode with
  | .readElement => if c.isSpanTyped e then .refer else .read
  | mode => mode

mutual

/-- The places an expression checks, in order. -/
def checks (c : Context) (mode : Access.Mode) : Expr → List Expr
  | .var id target =>
    match c.settle mode (.var id target) with
    | .refer => []
    | _ => [.var id target]
  | .field id receiver name =>
    match c.settle mode (.field id receiver name) with
    | .refer => c.checks .refer receiver
    | _ =>
      if (receiver.place? c.method.toBody).isSome then [.field id receiver name]
      else c.checks .read receiver
  | .element id receiver args =>
    c.argumentChecks args ++
      match mode with
      | .read =>
        c.checks (if c.isSpanTyped (.element id receiver args) then .refer else .readElement)
          receiver
      | mode => c.checks mode receiver
  | .span _ operand _ => c.checks .refer operand
  | .fromEnd _ count => c.checks .read count
  | .range _ start stop =>
    (match start with
      | some bound => c.checks .read bound
      | none => []) ++
    (match stop with
      | some bound => c.checks .read bound
      | none => [])
  | .conditional id receiver access =>
    c.checks .read receiver ++ c.checks (c.settle mode (.conditional id receiver access)) access
  | .call .. | .int .. | .bool .. | .string .. | .default .. | .placeholder .. => []
termination_by structural e => e

def argumentChecks (c : Context) : List (Argument Expr) → List Expr
  | [] => []
  | arg :: args => c.checks .read arg.value ++ c.argumentChecks args
termination_by structural args => args

end

def checked (c : Context) (mode : Access.Mode) (e : Expr) : List AssignmentEvent :=
  (c.checks mode e).map .check

/-- An assigned variable or field evaluates nothing. -/
def targetEvents (c : Context) : Expr → List AssignmentEvent
  | .var .. | .field .. => []
  | e => c.checked .refer e

def argumentEvents (c : Context) (arg : Argument Expr) : List AssignmentEvent :=
  let refers := match arg.value with
    | .element .. | .span .. => true
    | e => c.isSpanTyped e
  match arg.modifier with
  | .none => c.checked .read arg.value
  | .output => c.checked .refer arg.value ++ [.assign arg.value]
  | .ref | .input => c.checked (if refers then .refer else .read) arg.value

def statementEvents (c : Context) : Statement → List AssignmentEvent
  | .expression value => c.checked .read value
  | .assign target value => c.targetEvents target ++ c.checked .read value ++ [.assign target]
  | .compound target _ value => c.checked .read target ++ c.checked .read value
  | .refLocal _ init => c.checked .refer init
  | .call _ args => args.flatMap c.argumentEvents
  | .ret (some value) => c.checked (if c.method.returns.isByRef then .refer else .read) value
  | .ret none => []

def isTracked (c : Context) (v : VariableId) : Bool :=
  let declared := c.method.var v
  !declared.assigned && (declared.kind == .stackLocal || declared.kind == .parameter .output)

end Context

/-- The type of a place whose variable has type `root`, if all fields and elements exist. -/
def TypeTable.placeType? (t : TypeTable) (root : TypeId) (p : Place) : Option TypeId :=
  p.segments.foldlM
    (fun type segment ↦
      match segment with
      | .member name => ((t.struct? type).bind (·.field? name)).map (·.type)
      | .subscript _ => (t.array? type).map (·.element))
    root

/-- The places assigned or reported so far, and what was reported. -/
structure Assignments where
  places : List Place := []
  reported : List Diagnostic := []
  deriving Repr

namespace Assignments

/-- Whether a place or one above it is assigned, or the fields of its type are. -/
def coversWithin (a : Assignments) (types : TypeTable) (root : TypeId) : Nat → Place → Bool
  | 0, _ => false
  | depth + 1, p =>
    (p :: p.parents).any a.places.contains ||
      match (types.placeType? root p).bind types.struct? with
      | some type =>
        !type.isClass && !type.fields.isEmpty &&
          type.fields.all fun f ↦ a.coversWithin types root depth (p.push (.member f.name))
      | none => false

/-- Structs nest no deeper than the table has types. -/
def covers (a : Assignments) (types : TypeTable) (root : TypeId) (p : Place) : Bool :=
  a.coversWithin types root (types.size + 1) p

/-- The diagnostic on reading a place that is not assigned. -/
def violation (p : Place) : Violation :=
  match p.lastMember? with
  | some field => .unassignedField field
  | none => .unassignedVariable p.root

/-- Reports a place that is not assigned; from then on it counts as assigned. -/
def check (c : Context) (a : Assignments) (e : Expr) : Assignments :=
  match e.place? c.method.toBody with
  | none => a
  | some p =>
    match c.method.variableNamed? p.root with
    | none => a
    | some v =>
      if !c.isTracked v || a.covers c.types (c.method.var v).type p then a
      else ⟨p :: a.places, a.reported ++ [⟨violation p, c.method.span e⟩]⟩

/-- Elements are not tracked one by one. -/
def assign (c : Context) (a : Assignments) (e : Expr) : Assignments :=
  match e with
  | .element .. => a
  | e =>
    match e.place? c.method.toBody with
    | some p => { a with places := p :: a.places }
    | none => a

def step (c : Context) (a : Assignments) : AssignmentEvent → Assignments
  | .check e => a.check c e
  | .assign e => a.assign c e

end Assignments

def Context.assignmentErrors (c : Context) : List Diagnostic :=
  ((c.method.statements.flatMap c.statementEvents).foldl (Assignments.step c) {}).reported

end InlineArrays
