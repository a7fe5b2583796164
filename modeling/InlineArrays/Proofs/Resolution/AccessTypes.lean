import InlineArrays.Proofs.Access
import InlineArrays.Proofs.Types.Keys
import Mathlib

/-!
# Types of bound accesses

Binding an access and asking for its type read the argument and the receiver by different means: the
one by the form of the argument and by what the receiver is as something to index, the other by the
type of the argument alone.  They agree, and the type of a slice is a span that the table holds.
-/

namespace InlineArrays

namespace Context

variable {c : Context} {id : ExprId} {receiver : Expr} {x : Indexed}

/-- What is indexed has the element of the receiver's type, and its kind is that of the receiver's
storage or of the receiver's own span type. -/
theorem indexed_cases (h : c.indexed receiver = .ok x) :
    (∃ type, c.types.get (c.typeOf receiver) = .array type ∧ x.element = type.element ∧
      x.kind.isReadonly = (c.storageOf receiver).projectsReadonly) ∨
    c.types.get (c.typeOf receiver) = .span x.element x.kind.isReadonly := by
  unfold indexed at h
  split at h
  · rename_i type harray
    cases hproject : c.project? receiver with
    | none =>
      rw [hproject] at h
      cases h
    | some p =>
      rw [hproject] at h
      cases h
      obtain ⟨type, htype, rfl⟩ := Option.map_eq_some_iff.1 hproject
      refine .inl ⟨type, TypeTable.get_of_array? htype, rfl, ?_⟩
      exact SpanKind.isReadonly_ofReadonly _
  · rename_i element readonly hspan
    cases h
    refine .inr ?_
    rw [hspan]
    exact congrArg _ (SpanKind.isReadonly_ofReadonly readonly).symm
  all_goals cases h

/-- A receiver that can be indexed has a type. -/
theorem typeOf?_of_indexed (h : c.indexed receiver = .ok x) :
    c.typeOf? receiver = some (c.typeOf receiver) := by
  refine typeOf?_of_typeOf rfl fun herror ↦ ?_
  have hget : c.types.get (c.typeOf receiver) = .error := by rw [herror]; rfl
  rcases indexed_cases h with ⟨type, harray, -⟩ | hspan
  · rw [harray] at hget
    cases hget
  · rw [hspan] at hget
    cases hget

/-- An argument that is accepted has a type. -/
theorem isSome_typeOf?_subscript {value : Expr} {s : Subscript Expr}
    (h : c.subscript value = .ok s) : (c.typeOf? value).isSome := by
  unfold subscript at h
  split at h
  · rfl
  · rfl
  · refine Option.isSome_iff_ne_none.2 fun hnone ↦ ?_
    have hget : c.types.get (c.typeOf value) = .error := by
      rw [typeOf, hnone]
      rfl
    rw [hget] at h
    cases h

/-- The type of an access with one argument, whichever way the argument is used. -/
theorem typeOf?_element {arg : Argument Expr} {t : TypeId} {b : Bool}
    (hreceiver : c.typeOf? receiver = some t)
    (harg : (c.typeOf? arg.value).map (· == TypeTable.range) = some b) :
    c.typeOf? (.element id receiver [arg]) = c.accessType c.storageOf? receiver t (some b) := by
  have htype : c.typeOf? (.element id receiver [arg]) =
      (c.typeOf? receiver).bind fun t ↦ c.accessType c.storageOf? receiver t
        ((c.typeOf? arg.value).map (· == TypeTable.range)) := rfl
  rw [htype, hreceiver, harg]
  rfl

/-- The span over what is indexed, of its kind, is in a table that was built. -/
theorem findSpan_of_indexed (hc : c.types.Built) (h : c.indexed receiver = .ok x) :
    ∃ span, c.types.findSpan x.element x.kind.isReadonly = some span := by
  rcases indexed_cases h with ⟨type, harray, helement, -⟩ | hspan
  · have harray : c.types.array? (c.typeOf receiver) = some type := by
      rw [TypeTable.array?, harray]
    obtain ⟨span, hspan, -⟩ := hc.wellFormed.findSpan_array harray x.kind.isReadonly
    exact ⟨span, helement ▸ hspan⟩
  · exact ⟨_, hc.findSpan_eq_some_iff.2 hspan⟩

/-- What an access to the receiver yields, as typing has it, is what binding makes of what is
indexed. -/
theorem accessType_of_indexed (hc : c.types.Built) (h : c.indexed receiver = .ok x)
    (hstorage : (c.storageOf? receiver).isSome) (slicing : Bool) :
    c.accessType c.storageOf? receiver (c.typeOf receiver) (some slicing) =
      some (if slicing then c.findSpan x.element x.kind.isReadonly else x.element) := by
  rcases indexed_cases h with ⟨type, harray, helement, hkind⟩ | hspan
  · obtain ⟨s, hs⟩ := Option.isSome_iff_exists.1 hstorage
    have hstored : c.storageOf receiver = s := by rw [storageOf, hs, Option.getD_some]
    rw [hkind, helement, hstored]
    cases slicing <;> simp [accessType, harray, hs]
  · have hfind : c.findSpan x.element x.kind.isReadonly = c.typeOf receiver := by
      rw [findSpan, hc.findSpan_eq_some_iff.2 hspan, Option.getD_some]
    cases slicing <;> simp [accessType, hspan, hfind]

/-- If an access binds, over a receiver whose storage can be told, then typing gives it the type that
binding gives it; it is a slice exactly if its argument is a range; and if it is one, its type is the
span in the table over the element and of the kind that it is bound with. -/
theorem typeOf?_of_bind (hc : c.types.Built) {args : List (Argument Expr)} {a : Access}
    (h : c.bind (.element id receiver args) = .ok a)
    (hstorage : (c.storageOf? receiver).isSome) :
    c.typeOf? (.element id receiver args) = some a.type ∧
    (∃ arg, args = [arg] ∧ (a.isSlice ↔ c.typeOf? arg.value = some TypeTable.range)) ∧
    (a.isSlice →
      c.types.findSpan a.indexed.element a.indexed.kind.isReadonly = some a.type ∧
      c.types.get a.type = .span a.indexed.element a.indexed.kind.isReadonly) := by
  obtain ⟨-, -, hindexed, arg, rfl, hsubscript, htype⟩ := bind_eq_ok h
  have hslice := isSlice_subscript hc.wellFormed hsubscript
  have harg : (c.typeOf? arg.value).map (· == TypeTable.range) = some a.isSlice := by
    obtain ⟨t, ht⟩ := Option.isSome_iff_exists.1 (isSome_typeOf?_subscript hsubscript)
    rw [ht, Option.some.injEq] at hslice
    rw [ht, Option.map_some, Option.some.injEq, Bool.eq_iff_iff, beq_iff_eq]
    exact hslice.symm
  refine ⟨?_, ⟨arg, rfl, hslice⟩, fun hrange ↦ ?_⟩
  · rw [typeOf?_element (typeOf?_of_indexed hindexed) harg,
      accessType_of_indexed hc hindexed hstorage, htype]
    rfl
  · obtain ⟨span, hspan⟩ := findSpan_of_indexed hc hindexed
    have hspanType : a.type = span := by
      rw [htype, if_pos (show a.subscript.isSlice = true from hrange), findSpan, hspan,
        Option.getD_some]
    rw [hspanType]
    exact ⟨hspan, TypeTable.findSpan_eq_some hspan⟩

end Context

/-- A read-only buffer sliced by a range that is held in a local, and the slice sliced again. -/
def slicesParameter : Context :=
  let slice : Expr := .element 2 (.var 0 0) [{ value := .var 1 1 }]
  let body : Body :=
    { name := "Main"
      exprs := #[.var 0 0, .var 1 1, slice, .range 3 none none,
        .element 4 slice [{ value := .range 3 none none }]]
      vars := #[{ name := "b", kind := .parameter .input, type := TypeTable.builtin.length },
        { name := "r", kind := .stackLocal, type := TypeTable.range }] }
  ⟨bufferTypes, {}, body.finish⟩

theorem slicesParameter_types :
    let slice : Expr := .element 2 (.var 0 0) [{ value := .var 1 1 }]
    let again : Expr := .element 4 slice [{ value := .range 3 none none }]
    slicesParameter.typeOf? slice = some 9 ∧ slicesParameter.typeOf? again = some 9 ∧
      slicesParameter.types.get 9 = .span TypeTable.int true := by
  intro slice again
  let stored : Storage :=
    { scope := .returnOnly, origin := .refParameter "b", readonly := true }
  have hslice : slicesParameter.bind slice =
      .ok ⟨slice, .var 0 0, .array ⟨7, TypeTable.int, 4, .readonly, stored⟩,
        .range (.var 1 1), 9⟩ := by cbv
  have hagain : slicesParameter.bind again =
      .ok ⟨again, slice, .span .readonly TypeTable.int stored,
        .rangeLiteral .omitted .omitted, 9⟩ := by cbv
  have hparts := Context.typeOf?_of_bind bufferTypes_built hslice (by cbv)
  exact ⟨hparts.1, (Context.typeOf?_of_bind bufferTypes_built hagain (by cbv)).1,
    (hparts.2.2 rfl).2⟩

end InlineArrays
