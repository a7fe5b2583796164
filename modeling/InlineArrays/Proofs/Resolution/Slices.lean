import InlineArrays.Proofs.Resolution.Structure
import InlineArrays.Proofs.Types.Table

/-!
# Slices of inline arrays

However often an inline array is sliced, the slices are spans of one kind, over the storage that the
array is in; so an element of a slice is stored as an element of the array is.
-/

namespace InlineArrays

/-- Slices of `a`, each of the one before; the last one comes first. -/
def Expr.sliced (a : Expr) : List (ExprId × Argument Expr) → Expr
  | [] => a
  | (id, bounds) :: slices => .element id (a.sliced slices) [bounds]

namespace Context

variable {c : Context}

/-! ## Accesses with one argument -/

section

variable {id : ExprId} {receiver : Expr} {arg : Argument Expr} {t : TypeId} {s : Storage}

theorem typeForStorage?_of_storageOf? {e : Expr} (h : c.storageOf? e = some s) :
    ∃ t, c.typeForStorage? e = some t := by
  obtain ⟨init, hstorage⟩ := c.storageOf?_eq
  rw [hstorage] at h
  cases e <;>
    · unfold storageWith at h
      exact (Option.bind_eq_some_iff.1 h).imp fun _ h ↦ h.1

theorem typeForStorage?_element (h : c.typeForStorage? (.element id receiver [arg]) = some t) :
    ∃ receiverType argType, c.typeForStorage? receiver = some receiverType ∧
      c.typeForStorage? arg.value = some argType ∧
      c.accessType (c.freshStorage c.method.exprs.size) receiver receiverType
        (some (argType == TypeTable.range)) = some t := by
  obtain ⟨receiverType, hreceiver, h⟩ := Option.bind_eq_some_iff.1 h
  obtain ⟨slicing, hslicing, h⟩ := Option.bind_eq_some_iff.1 h
  obtain ⟨argType, harg, rfl⟩ := Option.map_eq_some_iff.1 hslicing
  exact ⟨receiverType, argType, hreceiver, harg, Option.bind_eq_some_iff.2 ⟨_, rfl, h⟩⟩

theorem typeForStorage?_element_eq {receiverType argType : TypeId}
    (hreceiver : c.typeForStorage? receiver = some receiverType)
    (harg : c.typeForStorage? arg.value = some argType) :
    c.typeForStorage? (.element id receiver [arg]) =
      c.accessType (c.freshStorage c.method.exprs.size) receiver receiverType
        (some (argType == TypeTable.range)) := by
  unfold typeForStorage? at hreceiver harg ⊢
  rw [typeWith, hreceiver, harg]
  rfl

theorem storageOf?_element {receiverType : TypeId}
    (h : c.typeForStorage? (.element id receiver [arg]) = some t)
    (hreceiver : c.typeForStorage? receiver = some receiverType) :
    c.storageOf? (.element id receiver [arg]) =
      match c.types.get receiverType with
      | .array _ => (c.storageOf? receiver).map (·.projected)
      | .span _ readonly => (c.storageOf? receiver).map fun s ↦
          if c.types.isSpan t then s else { s with referenceable := true, readonly }
      | _ => some .temporary := by
  obtain ⟨init, hstorage⟩ := c.storageOf?_eq
  rw [hstorage, hstorage]
  conv => lhs; unfold storageWith
  simp only [h, hreceiver, Option.bind_eq_bind, Option.bind_some]
  cases c.types.get receiverType <;> simp [Option.map_eq_bind, Function.comp_def]

end

/-! ## Slices -/

section

variable {a : Expr} {type : ArrayType} (ha : c.types.array? (c.typeOf a) = some type)
include ha

theorem get_of_typeForStorage? {t : TypeId} (h : c.typeForStorage? a = some t) :
    c.types.get t = .array type := by
  rw [← typeOf_of_typeForStorage h]
  exact TypeTable.get_of_array? ha

variable (htypes : c.types.WellFormed)
include htypes

/-- A slice of an inline array is a span over its elements, and what is asked about it has been asked
about the array. -/
theorem typeForStorage?_sliced {slices : List (ExprId × Argument Expr)} {r : ExprId × Argument Expr}
    (hranges : ∀ r' ∈ r :: slices, c.typeOf r'.2.value = TypeTable.range) {t : TypeId}
    (h : c.typeForStorage? (a.sliced (r :: slices)) = some t) :
    (∃ arrayType, c.typeForStorage? a = some arrayType) ∧ ∃ s, c.storageOf? a = some s ∧
      c.types.get t = .span type.element s.projectsReadonly := by
  obtain ⟨receiverType, argType, hreceiver, harg, h⟩ := typeForStorage?_element h
  have hrange : argType = TypeTable.range :=
    (typeOf_of_typeForStorage harg).symm.trans (hranges r List.mem_cons_self)
  rw [hrange] at h
  cases slices with
  | nil =>
    have hget := get_of_typeForStorage? ha hreceiver
    obtain ⟨s, hs, h⟩ : ∃ s, c.freshStorage c.method.exprs.size a = some s ∧
        c.findSpan type.element s.projectsReadonly = t := by
      simpa [accessType, hget, Expr.sliced, Option.bind_eq_some_iff] using h
    obtain ⟨span, hspan, hspanType⟩ := htypes.findSpan_array ha s.projectsReadonly
    refine ⟨⟨_, hreceiver⟩, s, freshStorage_mono _ _ _ hs, ?_⟩
    rw [← h, findSpan, hspan, Option.getD_some, hspanType]
  | cons r' slices =>
    obtain ⟨harray, s, hs, hget⟩ := typeForStorage?_sliced
      (fun r'' hr ↦ hranges r'' (List.mem_cons_of_mem _ hr)) hreceiver
    refine ⟨harray, s, hs, ?_⟩
    have hsame : receiverType = t := by simpa [accessType, hget] using h
    exact hsame ▸ hget

theorem storageOf?_sliced_cons {slices : List (ExprId × Argument Expr)}
    {r r' : ExprId × Argument Expr}
    (hranges : ∀ r'' ∈ r :: r' :: slices, c.typeOf r''.2.value = TypeTable.range)
    (h : (c.storageOf? (a.sliced (r :: r' :: slices))).isSome) :
    c.storageOf? (a.sliced (r :: r' :: slices)) = c.storageOf? (a.sliced (r' :: slices)) := by
  obtain ⟨s, hs⟩ := Option.isSome_iff_exists.1 h
  obtain ⟨t, ht⟩ := typeForStorage?_of_storageOf? hs
  obtain ⟨receiverType, argType, hreceiver, -⟩ := typeForStorage?_element ht
  have hrest : ∀ r'' ∈ r' :: slices, c.typeOf r''.2.value = TypeTable.range :=
    fun r'' hr ↦ hranges r'' (List.mem_cons_of_mem _ hr)
  obtain ⟨-, s', -, hspan⟩ := typeForStorage?_sliced ha htypes hrest hreceiver
  obtain ⟨-, s'', -, hslice⟩ := typeForStorage?_sliced ha htypes hranges ht
  have hisSpan : c.types.isSpan t := by simp [TypeTable.isSpan, TypeTable.spanParts?, hslice]
  have heq := storageOf?_element ht hreceiver
  simp only [hspan, hisSpan, if_true, Option.map_id'] at heq
  exact heq

/-- A slice is stored as an element of the array is. -/
theorem storageOf?_sliced {slices : List (ExprId × Argument Expr)} {r : ExprId × Argument Expr}
    (hranges : ∀ r' ∈ r :: slices, c.typeOf r'.2.value = TypeTable.range)
    (h : (c.storageOf? (a.sliced (r :: slices))).isSome) :
    c.storageOf? (a.sliced (r :: slices)) = (c.storageOf? a).map (·.projected) := by
  cases slices with
  | nil =>
    obtain ⟨s, hs⟩ := Option.isSome_iff_exists.1 h
    obtain ⟨t, ht⟩ := typeForStorage?_of_storageOf? hs
    obtain ⟨arrayType, argType, harray, -⟩ := typeForStorage?_element ht
    have heq := storageOf?_element ht harray
    rwa [get_of_typeForStorage? ha harray] at heq
  | cons r' slices =>
    have hcons := storageOf?_sliced_cons ha htypes hranges h
    calc c.storageOf? (a.sliced (r :: r' :: slices))
      _ = c.storageOf? (a.sliced (r' :: slices)) := hcons
      _ = (c.storageOf? a).map (·.projected) :=
        storageOf?_sliced (fun r'' hr ↦ hranges r'' (List.mem_cons_of_mem _ hr)) (hcons ▸ h)

/-- An element of a slice is stored where an element of the array is. -/
theorem storageOf?_element_sliced {slices : List (ExprId × Argument Expr)}
    (hranges : ∀ r ∈ slices, c.typeOf r.2.value = TypeTable.range) {id : ExprId} (id' : ExprId)
    {index : Argument Expr} (hindex : c.typeOf index.value = TypeTable.int) {s : Storage}
    (h : c.storageOf? (.element id (a.sliced slices) [index]) = some s) :
    (c.storageOf? (a.sliced slices)).isSome ∧ ∃ base element, c.storageOf? a = some base ∧
      c.storageOf? (.element id' a [index]) = some element ∧ s.scope = element.scope ∧
      s.readonly = element.readonly ∧ s.origin = element.origin ∧
      (base.referenceable → s.referenceable = element.referenceable) := by
  obtain ⟨t, ht⟩ := typeForStorage?_of_storageOf? h
  obtain ⟨receiverType, argType, hreceiver, harg, -⟩ := typeForStorage?_element ht
  have hint : argType = TypeTable.int := (typeOf_of_typeForStorage harg).symm.trans hindex
  -- The element of the array has a type, since the array and the index have.
  have helement : ∀ {arrayType}, c.typeForStorage? a = some arrayType →
      c.storageOf? (.element id' a [index]) = (c.storageOf? a).map (·.projected) := by
    intro arrayType harray
    have htype : c.typeForStorage? (.element id' a [index]) = some type.element := by
      rw [typeForStorage?_element_eq harray harg, accessType, get_of_typeForStorage? ha harray, hint]
      rfl
    rw [storageOf?_element htype harray, get_of_typeForStorage? ha harray]
  have heq := (storageOf?_element ht hreceiver).symm.trans h
  cases slices with
  | nil =>
    rw [get_of_typeForStorage? ha hreceiver] at heq
    obtain ⟨base, hbase, rfl⟩ := Option.map_eq_some_iff.1 heq
    refine ⟨by rw [hbase]; rfl, base, _, hbase, ?_, rfl, rfl, rfl, fun _ ↦ rfl⟩
    change c.storageOf? a = some base at hbase
    rw [helement hreceiver, hbase]
    rfl
  | cons r slices =>
    obtain ⟨⟨arrayType, harray⟩, base, hbase, hspan⟩ :=
      typeForStorage?_sliced ha htypes hranges hreceiver
    simp only [hspan] at heq
    obtain ⟨slice, hslice, rfl⟩ := Option.map_eq_some_iff.1 heq
    have hprojected : slice = base.projected := by
      have hsome := storageOf?_sliced ha htypes hranges (by rw [hslice]; rfl)
      rw [hslice, hbase] at hsome
      exact Option.some.inj hsome
    refine ⟨by rw [hslice]; rfl, base, base.projected, hbase, by rw [helement harray, hbase]; rfl, ?_⟩
    rw [hprojected]
    split
    · exact ⟨rfl, rfl, rfl, fun _ ↦ rfl⟩
    · exact ⟨rfl, rfl, rfl, fun href ↦ href.symm⟩

end

end Context

end InlineArrays
