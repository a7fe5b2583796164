import InlineArrays.Types.Name

/-!
# Tables that are built

No table holds a built-in type twice, and with an inline array it holds both spans over its
elements.  Each way to extend a table keeps this.
-/

namespace InlineArrays

/-- What a table adds to the built-in types. -/
inductive TypeData.IsDeclared : TypeData → Prop
  | array (type : ArrayType) : IsDeclared (.array type)
  | struct (type : StructType) : IsDeclared (.struct type)
  | span (element : TypeId) (readonly : Bool) : IsDeclared (.span element readonly)

namespace TypeTable

variable {t t' : TypeTable} {id : TypeId}

structure WellFormed (t : TypeTable) : Prop where
  declared : ∀ data ∈ t.added, data.IsDeclared
  interned : ∀ type, .array type ∈ t.added → ∀ readonly, .span type.element readonly ∈ t.added

theorem get_of_lt (t : TypeTable) (h : id < builtin.length) :
    t.get id = builtin[id]?.getD .error := by
  rw [get, entries, List.getElem?_append_left h]

theorem get_of_le (t : TypeTable) (h : builtin.length ≤ id) :
    t.get id = t.added[id - builtin.length]?.getD .error := by
  rw [get, entries, List.getElem?_append_right h]

theorem size_eq (t : TypeTable) : t.size = builtin.length + t.added.length := List.length_append

theorem lt_size (h : t.get id ≠ .error) : id < t.size := by
  refine Nat.lt_of_not_le fun hid ↦ h ?_
  rw [get, List.getElem?_eq_none hid]
  rfl

theorem get_eq_error (h : t.size ≤ id) : t.get id = .error := by
  rw [get, List.getElem?_eq_none h]
  rfl

/-- No built-in type is an inline array, a struct or a span. -/
theorem not_isDeclared_builtin {data : TypeData} (h : data ∈ builtin) : ¬ data.IsDeclared := by
  intro hdeclared
  cases hdeclared <;> simp [builtin] at h

theorem mem_added_of_get {data : TypeData} (hdata : data.IsDeclared) (h : t.get id = data) :
    data ∈ t.added := by
  have hne : data ≠ .error := by
    rintro rfl
    cases hdata
  rcases Nat.lt_or_ge id builtin.length with hid | hid
  · rw [get_of_lt t hid, List.getElem?_eq_getElem hid] at h
    exact absurd hdata (not_isDeclared_builtin (h ▸ List.getElem_mem hid))
  · rw [get_of_le t hid] at h
    cases hget : t.added[id - builtin.length]? with
    | none =>
      rw [hget] at h
      exact absurd h.symm hne
    | some added =>
      rw [hget] at h
      obtain rfl : added = data := h
      exact List.mem_of_getElem? hget

/-- What is not declared is a built-in type. -/
theorem WellFormed.lt_builtin (ht : t.WellFormed) {data : TypeData} (h : t.get id = data)
    (hdata : ¬ data.IsDeclared) (hne : data ≠ .error) : id < builtin.length := by
  rcases Nat.lt_or_ge id builtin.length with hid | hid
  · exact hid
  · rw [get_of_le t hid] at h
    cases hget : t.added[id - builtin.length]? with
    | none =>
      rw [hget] at h
      exact absurd h.symm hne
    | some added =>
      rw [hget] at h
      obtain rfl : added = data := h
      exact absurd (ht.declared _ (List.mem_of_getElem? hget)) hdata

/-- Built-in types are at their own places only. -/
theorem WellFormed.eq_range (ht : t.WellFormed) (h : t.get id = .range) : id = range := by
  have hid := ht.lt_builtin h nofun nofun
  have hbuiltin : ∀ id < builtin.length, builtin[id]?.getD .error = .range → id = range := by decide
  exact hbuiltin id hid (get_of_lt t hid ▸ h)

theorem WellFormed.eq_int (ht : t.WellFormed) (h : t.get id = .int) : id = int := by
  have hid := ht.lt_builtin h nofun nofun
  have hbuiltin : ∀ id < builtin.length, builtin[id]?.getD .error = .int → id = int := by decide
  exact hbuiltin id hid (get_of_lt t hid ▸ h)

theorem findSpan_eq_some {element : TypeId} {readonly : Bool}
    (h : t.findSpan element readonly = some id) : t.get id = .span element readonly := by
  obtain ⟨hid, hspan, -⟩ := List.findIdx?_eq_some_iff_getElem.1 h
  rw [get, List.getElem?_eq_getElem hid]
  exact eq_of_beq hspan

theorem isSome_findSpan {element : TypeId} {readonly : Bool}
    (h : .span element readonly ∈ t.added) : (t.findSpan element readonly).isSome := by
  rw [findSpan, List.findIdx?_isSome, List.any_eq_true]
  exact ⟨_, List.mem_append_right _ h, by simp⟩

theorem get_of_array? {type : ArrayType} (h : t.array? id = some type) : t.get id = .array type := by
  unfold array? at h
  split at h
  · rwa [← Option.some.inj h]
  · cases h

/-- The span over the elements of an inline array. -/
theorem WellFormed.findSpan_array (ht : t.WellFormed) {type : ArrayType}
    (h : t.array? id = some type) (readonly : Bool) :
    ∃ span, t.findSpan type.element readonly = some span ∧
      t.get span = .span type.element readonly := by
  have hspan := isSome_findSpan
    (ht.interned type (mem_added_of_get (.array type) (get_of_array? h)) readonly)
  obtain ⟨span, hspan⟩ := Option.isSome_iff_exists.1 hspan
  exact ⟨span, hspan, findSpan_eq_some hspan⟩

theorem empty_wellFormed : ({} : TypeTable).WellFormed := ⟨by simp, by simp⟩

theorem WellFormed.push (ht : t.WellFormed) {data : TypeData} (hdata : data.IsDeclared)
    (harray : ∀ type, data ≠ .array type) : (t.push data).2.WellFormed where
  declared data' h := by
    rcases List.mem_append.1 h with h | h
    · exact ht.declared data' h
    · rwa [List.mem_singleton.1 h]
  interned type h readonly := by
    rcases List.mem_append.1 h with h | h
    · exact List.mem_append_left _ (ht.interned type h readonly)
    · exact absurd (List.mem_singleton.1 h).symm (harray type)

theorem span_added {element : TypeId} {readonly : Bool} :
    t.added ⊆ (t.span element readonly).2.added ∧
      .span element readonly ∈ (t.span element readonly).2.added ∧
      ∀ data ∈ (t.span element readonly).2.added, data ∈ t.added ∨
        data = .span element readonly := by
  unfold span
  split
  · rename_i id h
    exact ⟨List.Subset.refl _, mem_added_of_get (.span element readonly) (findSpan_eq_some h),
      fun data hdata ↦ .inl hdata⟩
  · refine ⟨List.subset_append_left _ _, by simp [push], fun data hdata ↦ ?_⟩
    simpa [push] using hdata

theorem WellFormed.span (ht : t.WellFormed) (element : TypeId) (readonly : Bool) :
    (t.span element readonly).2.WellFormed := by
  unfold TypeTable.span
  split
  · exact ht
  · exact ht.push (.span element readonly) fun _ h ↦ by cases h

/-- The spans over the elements of the new inline array are added with it. -/
theorem WellFormed.addArray (ht : t.WellFormed) {name : String} {element : TypeId} {length : Nat}
    (h : t.addArray name element length = .ok (id, t')) : t'.WellFormed := by
  unfold TypeTable.addArray at h
  split at h
  · cases h
  · split at h
    · cases h
    · generalize hpush : (t.push (.array ⟨name, element, length⟩)).2 = t₁
      obtain rfl : ((t₁.span element false).2.span element true).2 = t' := by
        rw [← hpush]
        exact congrArg Prod.snd (Except.ok.inj h)
      have hpushed : t₁.added = t.added ++ [.array ⟨name, element, length⟩] := by
        rw [← hpush]
        rfl
      obtain ⟨hsub, hmutable, hold⟩ := @span_added t₁ element false
      obtain ⟨hsub', hreadonly, hold'⟩ := @span_added (t₁.span element false).2 element true
      refine ⟨fun data hdata ↦ ?_, fun type htype readonly ↦ ?_⟩
      · rcases hold' data hdata with hdata | rfl
        · rcases hold data hdata with hdata | rfl
          · rw [hpushed, List.mem_append, List.mem_singleton] at hdata
            rcases hdata with hdata | rfl
            · exact ht.declared data hdata
            · exact .array _
          · exact .span _ _
        · exact .span _ _
      · have htype : .array type ∈ t.added ∨ type = ⟨name, element, length⟩ := by
          simpa [hpushed] using (hold _ ((hold' _ htype).resolve_right nofun)).resolve_right nofun
        rcases htype with htype | rfl
        · refine hsub' (hsub ?_)
          rw [hpushed]
          exact List.mem_append_left _ (ht.interned type htype readonly)
        · cases readonly with
          | false => exact hsub' hmutable
          | true => exact hreadonly

theorem WellFormed.declareStruct (ht : t.WellFormed) {name : String} {kind : StructKind}
    (h : t.declareStruct name kind = .ok (id, t')) : t'.WellFormed := by
  unfold TypeTable.declareStruct at h
  split at h
  · cases h
  · cases h
    exact ht.push (.struct _) nofun

theorem WellFormed.resolve (ht : t.WellFormed) {name : List Char}
    (h : t.resolve name = .ok (id, t')) : t'.WellFormed := by
  fun_induction TypeTable.resolve t name generalizing id t' with
  | case1 name found hlookup =>
    cases h
    exact ht
  | case2 name hlookup readonly argument hform _ ih =>
    cases hargument : t.resolve argument with
    | error e =>
      rw [hargument] at h
      cases h
    | ok resolved =>
      rw [hargument] at h
      obtain rfl : (resolved.2.span resolved.1 readonly).2 = t' := by
        simpa using congrArg Prod.snd (Except.ok.inj h)
      exact (ih hargument).span _ _
  | case3 => cases h

theorem WellFormed.defineFields (ht : t.WellFormed) {fields : List Field}
    (h : t.defineFields id fields = .ok t') : t'.WellFormed := by
  unfold TypeTable.defineFields at h
  split at h
  · rename_i type hget
    cases h
    have hstruct : t.added[id - builtin.length]? = some (.struct type) := by
      rcases Nat.lt_or_ge id builtin.length with hid | hid
      · rw [get_of_lt t hid, List.getElem?_eq_getElem hid] at hget
        exact absurd (.struct type) (not_isDeclared_builtin (hget ▸ List.getElem_mem hid))
      · rw [get_of_le t hid] at hget
        cases hadded : t.added[id - builtin.length]? with
        | none =>
          rw [hadded] at hget
          cases hget
        | some added =>
          rw [hadded] at hget
          exact congrArg some hget
    refine ⟨fun data hdata ↦ ?_, fun array harray readonly ↦ ?_⟩
    · rcases List.mem_or_eq_of_mem_set hdata with hdata | rfl
      · exact ht.declared data hdata
      · exact .struct _
    · have harray := (List.mem_or_eq_of_mem_set harray).resolve_right nofun
      obtain ⟨i, hi⟩ := List.mem_iff_getElem?.1 (ht.interned array harray readonly)
      refine List.mem_iff_getElem?.2 ⟨i, ?_⟩
      rw [List.getElem?_set_ne, hi]
      rintro rfl
      rw [hstruct] at hi
      cases hi
  · cases h

/-- The tables that operations build from the empty one. -/
inductive Built : TypeTable → Prop
  | empty : Built {}
  | resolve {t t' : TypeTable} {name : List Char} {id : TypeId} :
    Built t → t.resolve name = .ok (id, t') → Built t'
  | span {t : TypeTable} (element : TypeId) (readonly : Bool) :
    Built t → Built (t.span element readonly).2
  | addArray {t t' : TypeTable} {name : String} {element id : TypeId} {length : Nat} :
    Built t → t.addArray name element length = .ok (id, t') → Built t'
  | declareStruct {t t' : TypeTable} {name : String} {kind : StructKind} {id : TypeId} :
    Built t → t.declareStruct name kind = .ok (id, t') → Built t'
  | defineFields {t t' : TypeTable} {id : TypeId} {fields : List Field} :
    Built t → t.defineFields id fields = .ok t' → Built t'

theorem Built.wellFormed (h : t.Built) : t.WellFormed := by
  induction h with
  | empty => exact empty_wellFormed
  | resolve _ h ih => exact ih.resolve h
  | span element readonly _ ih => exact ih.span element readonly
  | addArray _ h ih => exact ih.addArray h
  | declareStruct _ h ih => exact ih.declareStruct h
  | defineFields _ h ih => exact ih.defineFields h

end TypeTable

/-- A table with an inline array of four integers. -/
def bufferTypes : TypeTable :=
  ⟨[.array ⟨"Buffer4", TypeTable.int, 4⟩, .span TypeTable.int false, .span TypeTable.int true]⟩

theorem bufferTypes_built : bufferTypes.Built := by
  have hadd : ({} : TypeTable).addArray "Buffer4" TypeTable.int 4 =
      .ok (TypeTable.builtin.length, bufferTypes) := by cbv
  exact .addArray .empty hadd

end InlineArrays
