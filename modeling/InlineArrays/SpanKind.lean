import InlineArrays.Member

/-!
# Span kinds

A span is mutable or read-only; each kind has its own helpers.
-/

namespace InlineArrays

inductive SpanKind where
  | mutable
  | readonly
  deriving DecidableEq, Repr

namespace SpanKind

def ofReadonly (readonly : Bool) : SpanKind := if readonly then .readonly else .mutable

def isReadonly : SpanKind → Bool
  | .mutable => false
  | .readonly => true

def name : SpanKind → String
  | .mutable => "Span"
  | .readonly => "ReadOnlySpan"

/-- The helper that turns a reference to an inline array into a span. -/
def accessor : SpanKind → Member
  | .mutable => .arrayAsSpan
  | .readonly => .arrayAsReadonlySpan

def getItem : SpanKind → Member
  | .mutable => .spanGetItem
  | .readonly => .readonlySpanGetItem

def slice : SpanKind → Member
  | .mutable => .spanSlice
  | .readonly => .readonlySpanSlice

def length : SpanKind → Member
  | .mutable => .spanLength
  | .readonly => .readonlySpanLength

@[simp]
theorem isReadonly_ofReadonly (readonly : Bool) : (ofReadonly readonly).isReadonly = readonly := by
  cases readonly <;> rfl

end SpanKind

end InlineArrays
