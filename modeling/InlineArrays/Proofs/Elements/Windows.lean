import InlineArrays.Machine.Value
import InlineArrays.Resolution
import Mathlib.Logic.Function.Basic

/-!
# Elements reached from a parameter

A place is reached from a parameter by fields of plain structs and constant elements of inline
arrays.  An inline array of integers at such a place is read and written as a whole, through a ref
local bound to it or through a local that holds a constant slice of it; either way what is named is
an element of a window over the array.  `readBack?` follows a body of such writes and says what the
element that it returns holds: the value last written there, or else what it held before.
-/

namespace InlineArrays

/-- The elements `start`, `start + 1`, … of the inline array at a path, `length` of them. -/
structure Window where
  path : List Step
  start : Nat
  length : Nat
  deriving DecidableEq, Repr

/-- The path of an element of a window. -/
def Window.element (w : Window) (i : Nat) : List Step := w.path ++ [.element (w.start + i)]

namespace Expr

/-- The position among `length` elements that a constant `n` or `^n` stands for. -/
def position? (length : Nat) : Expr → Option Nat
  | .int _ n => if 0 ≤ n.toInt ∧ n.toInt < length then some n.toInt.toNat else none
  | .fromEnd _ (.int _ n) =>
    if 1 ≤ n.toInt ∧ n.toInt ≤ length then some (length - n.toInt.toNat) else none
  | _ => none

/-- The position between `length` elements, or at an end of them, that a constant stands for. -/
def boundary? (length : Nat) : Expr → Option Nat
  | .int _ n => if 0 ≤ n.toInt ∧ n.toInt ≤ length then some n.toInt.toNat else none
  | .fromEnd _ (.int _ n) =>
    if 0 ≤ n.toInt ∧ n.toInt ≤ length then some (length - n.toInt.toNat) else none
  | _ => none

/-- Start and length of a constant range of `length` elements. -/
def extent? (length : Nat) : Expr → Option (Nat × Nat)
  | .range _ start stop => do
    let start ← start.elim (some 0) (·.boundary? length)
    let stop ← stop.elim (some length) (·.boundary? length)
    if start ≤ stop then some (start, stop - start) else none
  | _ => none

end Expr

namespace Context

/-- The place in a parameter that an expression names, and its type. -/
def placeIn? (c : Context) (x : VariableId) : Expr → Option (List Step × TypeId)
  | .var _ v => if v = x then some ([], (c.method.var x).type) else none
  | .field _ receiver name => do
    let (path, type) ← c.placeIn? x receiver
    let struct ← c.types.struct? type
    let field ← struct.field? name
    if struct.kind = .value ∧ field.readonly = false then
      some (path ++ [.field name], field.type)
    else none
  | .element _ receiver [⟨position, none, .none⟩] => do
    let (path, type) ← c.placeIn? x receiver
    let array ← c.types.array? type
    let i ← position.position? array.length
    some (path ++ [.element i], array.element)
  | _ => none
termination_by structural e => e

/-- The whole of the inline array of integers that an expression names. -/
def whole? (c : Context) (x : VariableId) (e : Expr) : Option Window := do
  let (path, type) ← c.placeIn? x e
  let array ← c.types.array? type
  if array.element = TypeTable.int then some ⟨path, 0, array.length⟩ else none

/-- The window that a constant slice of such an array gives. -/
def slice? (c : Context) (x : VariableId) : Expr → Option Window
  | .element _ receiver [⟨range, none, .none⟩] => do
    let whole ← c.whole? x receiver
    let (start, length) ← range.extent? whole.length
    some ⟨whole.path, start, length⟩
  | _ => none

end Context

/-- What a body has done so far: the windows its locals stand for, and what each element holds. -/
structure Tracking where
  windows : VariableId → Option Window := fun _ ↦ none
  held : List Step → Int64

namespace Context

/-- The window that an expression gives: that of a local, or a whole array. -/
def window? (c : Context) (x : VariableId) (t : Tracking) : Expr → Option Window
  | .var _ v => t.windows v
  | e => c.whole? x e

/-- The path of the integer that an access to a constant element names. -/
def element? (c : Context) (x : VariableId) (t : Tracking) : Expr → Option (List Step)
  | .element _ receiver [⟨position, none, .none⟩] => do
    let w ← c.window? x t receiver
    (position.position? w.length).map w.element
  | _ => none

/-- What a statement does: it writes a literal to an element, gives a local another window, or binds
a mutable ref local to a whole array. -/
def track? (c : Context) (x : VariableId) (t : Tracking) : Statement → Option Tracking
  | .assign (.var _ v) value => do
    let w ← c.slice? x value
    let local_ := c.method.var v
    if local_.kind = .stackLocal ∧ c.types.get local_.type = .span TypeTable.int false then
      some { t with windows := Function.update t.windows v (some w) }
    else none
  | .assign target (.int _ n) => do
    let path ← c.element? x t target
    some { t with held := Function.update t.held path n }
  | .refLocal v init => do
    let (_, type) ← c.placeIn? x init
    let w ← c.whole? x init
    let local_ := c.method.var v
    if local_.kind = .refLocal false ∧ local_.type = type then
      some { t with windows := Function.update t.windows v (some w) }
    else none
  | _ => none

/-- What the element holds that is returned at the end of a body of such statements. -/
def readBack? (c : Context) (x : VariableId) (t : Tracking) (statements : List Statement) :
    Option Int64 :=
  match statements.getLast? with
  | some (.ret (some value)) => do
    let t ← statements.dropLast.foldlM (c.track? x) t
    (c.element? x t value).map t.held
  | _ => none

end Context

end InlineArrays
