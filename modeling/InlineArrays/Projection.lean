import InlineArrays.Resolution
import InlineArrays.SpanKind

/-!
# Span projections

An inline array is indexed and sliced through a span over it: a mutable one if its storage is
writable and has an address, a read-only one otherwise.
-/

namespace InlineArrays

structure Projection where
  arrayType : TypeId
  element : TypeId
  length : Nat
  kind : SpanKind
  storage : Storage
  deriving DecidableEq, Repr

/-- The array has no address and is first copied to a temporary. -/
def Projection.viaTemporary (p : Projection) : Bool := !p.storage.referenceable

/-- How an expression is viewed as a span, if it is an inline array. -/
def Context.project? (c : Context) (receiver : Expr) : Option Projection :=
  let arrayType := c.typeOf receiver
  (c.types.array? arrayType).map fun type ↦
    let storage := c.storageOf receiver
    { arrayType, element := type.element, length := type.length
      kind := .ofReadonly storage.projectsReadonly, storage }

end InlineArrays
