/-!
# Well-known members

Lowering an inline array access calls a handful of helpers of the target environment: the span
accessors, span indexers and slicers, `Index.GetOffset` and the bounds of a `Range`.  An
environment may lack some of them; a `MemberTable` says which it provides.
-/

namespace InlineArrays

inductive Member where
  | arrayAsSpan
  | arrayAsReadonlySpan
  | spanGetItem
  | readonlySpanGetItem
  | spanSlice
  | readonlySpanSlice
  | spanLength
  | readonlySpanLength
  | indexGetOffset
  | rangeStart
  | rangeEnd
  deriving DecidableEq, Repr

namespace Member

def all : List Member :=
  [.arrayAsSpan, .arrayAsReadonlySpan, .spanGetItem, .readonlySpanGetItem, .spanSlice,
    .readonlySpanSlice, .spanLength, .readonlySpanLength, .indexGetOffset, .rangeStart, .rangeEnd]

theorem mem_all (m : Member) : m ∈ all := by
  cases m <;> decide

/-- The name shown in diagnostics. -/
def qualifiedName : Member → String
  | .arrayAsSpan => "<PrivateImplementationDetails>.InlineArrayAsSpan"
  | .arrayAsReadonlySpan => "<PrivateImplementationDetails>.InlineArrayAsReadOnlySpan"
  | .spanGetItem => "System.Span<T>.get_Item"
  | .readonlySpanGetItem => "System.ReadOnlySpan<T>.get_Item"
  | .spanSlice => "System.Span<T>.Slice"
  | .readonlySpanSlice => "System.ReadOnlySpan<T>.Slice"
  | .spanLength => "System.Span<T>.get_Length"
  | .readonlySpanLength => "System.ReadOnlySpan<T>.get_Length"
  | .indexGetOffset => "System.Index.GetOffset"
  | .rangeStart => "System.Range.get_Start"
  | .rangeEnd => "System.Range.get_End"

/-- The short name used in options. -/
def configName : Member → String
  | .arrayAsSpan => "inline-array-as-span"
  | .arrayAsReadonlySpan => "inline-array-as-readonly-span"
  | .spanGetItem => "span-get-item"
  | .readonlySpanGetItem => "readonly-span-get-item"
  | .spanSlice => "span-slice"
  | .readonlySpanSlice => "readonly-span-slice"
  | .spanLength => "span-length"
  | .readonlySpanLength => "readonly-span-length"
  | .indexGetOffset => "index-get-offset"
  | .rangeStart => "range-start"
  | .rangeEnd => "range-end"

/-- Either name of a member designates it. -/
def ofName? (name : String) : Option Member :=
  all.find? fun m ↦ m.configName == name || m.qualifiedName == name

end Member

/-- A name that designates no member. -/
structure UnknownMember where
  name : String
  deriving DecidableEq, Repr

def UnknownMember.message (e : UnknownMember) : String :=
  s!"unknown well-known member '{e.name}'"

structure MemberTable where
  provides : Member → Bool := fun _ ↦ true

namespace MemberTable

def without (t : MemberTable) (m : Member) : MemberTable :=
  ⟨fun x ↦ x != m && t.provides x⟩

/-- The members that are not provided, in declaration order. -/
def missing (t : MemberTable) : List Member :=
  Member.all.filter fun m ↦ !t.provides m

/-- The table without the members that `names` designate. -/
def ofMissing (names : List String) : Except UnknownMember MemberTable := do
  let members ← names.mapM fun name ↦
    match Member.ofName? name with
    | some m => .ok m
    | none => .error ⟨name⟩
  return members.foldl without {}

@[simp]
theorem provides_without (t : MemberTable) (m x : Member) :
    (t.without m).provides x = (x != m && t.provides x) := rfl

theorem mem_missing {t : MemberTable} {m : Member} : m ∈ t.missing ↔ t.provides m = false := by
  simp [missing, Member.mem_all]

end MemberTable

end InlineArrays
