/-!
# Storage

How far a reference to a storage location may travel, where the location comes from, and whether it
has an address and may be written.  Scopes are totally ordered: a wider scope outlives every
narrower one.
-/

namespace InlineArrays

inductive EscapeScope where
  /-- The enclosing block only. -/
  | block
  /-- Anywhere in the method, never returned. -/
  | currentMethod
  /-- May be returned by reference to the caller. -/
  | returnOnly
  /-- Outlives the caller: the heap and returned references. -/
  | callingMethod
  deriving DecidableEq, Repr

namespace EscapeScope

def rank : EscapeScope → Nat
  | .block => 0
  | .currentMethod => 1
  | .returnOnly => 2
  | .callingMethod => 3

def name : EscapeScope → String
  | .block => "local"
  | .currentMethod => "current-method"
  | .returnOnly => "return-only"
  | .callingMethod => "calling-method"

/-- Whether storage of scope `s` may be referenced from `required`. -/
def outlives (s required : EscapeScope) : Bool := required.rank ≤ s.rank

def narrowest (s other : EscapeScope) : EscapeScope := if s.rank ≤ other.rank then s else other

theorem rank_narrowest (s other : EscapeScope) :
    (s.narrowest other).rank = min s.rank other.rank := by
  cases s <;> cases other <;> rfl

end EscapeScope

/-- Where the outermost storage of a place comes from. -/
inductive Origin where
  | stackLocal (name : String)
  | valueParameter (name : String)
  | refParameter (name : String)
  /-- An `out` parameter, or one declared `scoped`. -/
  | scopedParameter (name : String)
  /-- The receiver of a struct's instance method. -/
  | structReceiver
  | heap
  | refLocal (name : String)
  /-- A span-typed local, whose scope is that of its first value. -/
  | spanLocal (name : String)
  | refCall (callee : String)
  | temporary
  deriving DecidableEq, Repr

structure Storage where
  scope : EscapeScope
  origin : Origin
  /-- False for values without a stable address. -/
  referenceable : Bool := true
  readonly : Bool := false
  deriving DecidableEq, Repr

namespace Storage

/-- A value with no storage of its own. -/
def temporary : Storage := ⟨.block, .temporary, false, true⟩

def readonlyIf (s : Storage) (readonly : Bool) : Storage :=
  { s with readonly := s.readonly || readonly }

/-- A span over this storage is mutable only if the storage is writable and has an address. -/
def projectsReadonly (s : Storage) : Bool := s.readonly || !s.referenceable

/-- The storage of an element of an inline array kept in `s`. -/
def projected (s : Storage) : Storage := { s with readonly := s.projectsReadonly }

end Storage

end InlineArrays
