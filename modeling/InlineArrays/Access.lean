import InlineArrays.Projection
import InlineArrays.Types.Name

/-!
# Binding element accesses

An access `receiver[argument]` on an inline array or a span binds if it has one plain argument of a
type that indexes, a constant index lies inside the array, and the environment provides every
member the access calls.  A list of reasons tells why it does not; the list is empty when the access
is built on an expression that is already in error.
-/

namespace InlineArrays

/-- What is being indexed. -/
inductive Indexed where
  /-- An inline array, projected to a span first. -/
  | array (projection : Projection)
  | span (kind : SpanKind) (element : TypeId) (storage : Storage)
  deriving DecidableEq, Repr

namespace Indexed

def kind : Indexed → SpanKind
  | .array p => p.kind
  | .span kind .. => kind

def element : Indexed → TypeId
  | .array p => p.element
  | .span _ element _ => element

/-- The length, where it is known before the program runs. -/
def length? : Indexed → Option Nat
  | .array p => some p.length
  | .span .. => none

def storage : Indexed → Storage
  | .array p => p.storage
  | .span _ _ storage => storage

end Indexed

/-- One bound of a range literal, over what stands for a value. -/
inductive Bound (α : Type) where
  | omitted
  | int (value : α)
  /-- The bound `^n`, with `n`. -/
  | fromEnd (count : α)
  | index (value : α)
  deriving DecidableEq, Repr

namespace Bound

variable {α : Type}

def needsLength (isStop : Bool) : Bound α → Bool
  | .omitted => isStop
  | .int _ => false
  | .fromEnd _ | .index _ => true

def isIndex : Bound α → Bool
  | .index _ => true
  | _ => false

end Bound

/-- The argument of an access, by the way it is turned into an offset. -/
inductive Subscript (α : Type) where
  | int (value : α)
  /-- The index `^n`, with `n`. -/
  | fromEnd (count : α)
  | index (value : α)
  | dynamic (value : α)
  | rangeLiteral (start stop : Bound α)
  | range (value : α)
  deriving DecidableEq, Repr

namespace Subscript

variable {α : Type}

def isSlice : Subscript α → Bool
  | .rangeLiteral .. | .range _ => true
  | _ => false

/-- Whether the offset depends on the length of the span. -/
def needsLength : Subscript α → Bool
  | .int _ | .dynamic _ => false
  | .fromEnd _ | .index _ | .range _ => true
  | .rangeLiteral start stop => start.needsLength false || stop.needsLength true

end Subscript

/-- An element access that binds. -/
structure Access where
  expr : Expr
  receiver : Expr
  indexed : Indexed
  subscript : Subscript Expr
  type : TypeId

namespace Access

def isSlice (a : Access) : Bool := a.subscript.isSlice

/-- The helpers the access calls, in order and possibly more than once. -/
def calls (a : Access) : List Member :=
  let kind := a.indexed.kind
  (match a.indexed with
    | .array p => [p.kind.accessor]
    | .span .. => []) ++
  (if a.subscript.needsLength then [kind.length] else []) ++
  (match a.subscript with
    | .index _ => [.indexGetOffset]
    | .range _ => [.rangeStart, .indexGetOffset, .rangeEnd]
    | .rangeLiteral start stop =>
      if start.isIndex || stop.isIndex then [.indexGetOffset] else []
    | _ => []) ++
  [if a.isSlice then kind.slice else kind.getItem]

/-- The members that have to be there, each once, in the order they are first called. -/
def requiredMembers (a : Access) : List Member :=
  a.calls.foldl (fun members m ↦ if members.contains m then members else members ++ [m]) []

end Access

namespace Context

/-- Why an argument is refused; nothing is said about one whose type is already in error. -/
def refused (c : Context) (e : Expr) : Option Diagnostic :=
  match c.types.get (c.typeOf e) with
  | .error => none
  | _ => some ⟨.indexArgumentType (c.types.format (c.typeOf e)), c.method.span e⟩

def requireInt (c : Context) (e : Expr) : Except (Option Diagnostic) Unit :=
  match c.types.get (c.typeOf e) with
  | .int => .ok ()
  | _ => .error (c.refused e)

def bound (c : Context) : Option Expr → Except (Option Diagnostic) (Bound Expr)
  | none => .ok .omitted
  | some (.fromEnd _ count) => (c.requireInt count).map fun _ ↦ .fromEnd count
  | some e =>
    match c.types.get (c.typeOf e) with
    | .int => .ok (.int e)
    | .index => .ok (.index e)
    | _ => .error (c.refused e)

def subscript (c : Context) : Expr → Except (Option Diagnostic) (Subscript Expr)
  | .fromEnd _ count => (c.requireInt count).map fun _ ↦ .fromEnd count
  | .range _ start stop => do return .rangeLiteral (← c.bound start) (← c.bound stop)
  | e =>
    match c.types.get (c.typeOf e) with
    | .int => .ok (.int e)
    | .index => .ok (.index e)
    | .range => .ok (.range e)
    | .dynamic => .ok (.dynamic e)
    | _ => .error (c.refused e)

/-- A constant index outside an array of known length, as it is written. -/
def outOfBounds? (length : Nat) : Subscript Expr → Option String
  | .int (.int _ n) => if 0 ≤ n.toInt ∧ n.toInt < length then none else some s!"{n.toInt}"
  | .fromEnd (.int _ n) => if 1 ≤ n.toInt ∧ n.toInt ≤ length then none else some s!"^{n.toInt}"
  | _ => none

/-- What `receiver` is as something to index. -/
def indexed (c : Context) (receiver : Expr) : Except (List Diagnostic) Indexed :=
  match c.types.get (c.typeOf receiver) with
  | .array _ =>
    match c.project? receiver with
    | some p => .ok (.array p)
    | none => .error []
  | .span element readonly => .ok (.span (.ofReadonly readonly) element (c.storageOf receiver))
  | .error => .error []
  | _ =>
    .error [⟨.notIndexable (c.types.format (c.typeOf receiver)), c.method.span receiver⟩]

/-- What is wrong with the form of an argument. -/
def formErrors (c : Context) (e : Expr) (arg : Argument Expr) : List Diagnostic :=
  (arg.name.map fun name ↦ (⟨.namedIndexArgument name, c.method.span e⟩ : Diagnostic)).toList ++
    if arg.modifier = .none then []
    else [⟨.indexArgumentModifier arg.modifier.keyword, c.method.span arg.value⟩]

/-- The diagnostics on members that an access calls and the environment lacks. -/
def missing (c : Context) (a : Access) : List Diagnostic :=
  (a.requiredMembers.filter fun m ↦ !c.members.provides m).map fun m ↦
    ⟨.missingRequiredMember m.qualifiedName, c.method.span a.expr⟩

/-- Binds an element access whose argument list is a single argument. -/
def bindOne (c : Context) (e receiver : Expr) (arg : Argument Expr) (indexed : Indexed) :
    Except (List Diagnostic) Access :=
  let errors := c.formErrors e arg
  match c.subscript arg.value with
  | .error refused => .error (errors ++ refused.toList)
  | .ok subscript =>
    let outside := (indexed.length?.bind fun length ↦
      (outOfBounds? length subscript).map fun written ↦
        (⟨.indexOutOfBounds written length, c.method.span e⟩ : Diagnostic)).toList
    match errors ++ outside with
    | [] =>
      let type :=
        if subscript.isSlice then c.findSpan indexed.element indexed.kind.isReadonly
        else indexed.element
      let a : Access := ⟨e, receiver, indexed, subscript, type⟩
      match c.missing a with
      | [] => .ok a
      | missing => .error missing
    | errors => .error errors

def bind (c : Context) (e : Expr) : Except (List Diagnostic) Access :=
  match e with
  | .element _ receiver args =>
    match c.indexed receiver with
    | .error errors => .error errors
    | .ok indexed =>
      match args with
      | [arg] => c.bindOne e receiver arg indexed
      | _ => .error [⟨.indexArgumentCount args.length, c.method.span e⟩]
  | _ => .error []

end Context

end InlineArrays
