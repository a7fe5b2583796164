import InlineArrays.Proofs.Scenario.Build
import InlineArrays.Proofs.Types.Keys
import InlineArrays.Proofs.Types.Union

/-!
# Tables of programs

The declarations of a scenario build a sound table in which structs nest finitely deep, and methods
only intern spans in it.
-/

namespace InlineArrays

namespace TypeTable

variable {t t' : TypeTable} {id : TypeId}

theorem empty_sound : ({} : TypeTable).Sound := by
  have hbuiltin : ∀ id, (({} : TypeTable).get id).refs = [] := by
    intro id
    rcases Nat.lt_or_ge id ({} : TypeTable).size with hid | hid
    · revert id
      decide
    · rw [get_eq_error hid]
      rfl
  have hspan (id element : TypeId) (readonly : Bool) :
      ({} : TypeTable).get id ≠ .span element readonly := by
    intro h
    have hrefs := hbuiltin id
    rw [h] at hrefs
    cases hrefs
  refine ⟨fun id ref href ↦ ?_, fun id element readonly h ↦ absurd h (hspan id element readonly),
    fun id id' element readonly h ↦ absurd h (hspan id element readonly)⟩
  rw [hbuiltin id] at href
  cases href

/-- An inline array is added with the spans over its elements. -/
theorem addArray_spans {name : String} {element : TypeId} {length : Nat} (helement : element < t.size)
    (h : t.addArray name element length = .ok (id, t')) :
    Spans (t.push (.array ⟨name, element, length⟩)).2 t' := by
  unfold TypeTable.addArray at h
  split at h
  · cases h
  · split at h
    · cases h
    · have hsize := size_push t (.array ⟨name, element, length⟩)
      have h : ((((t.push (.array ⟨name, element, length⟩)).2.span element false).2).span
          element true).2 = t' := congrArg Prod.snd (Except.ok.inj h)
      generalize (t.push (.array ⟨name, element, length⟩)).2 = t₁ at h hsize ⊢
      subst h
      have helement : element < t₁.size := hsize ▸ Nat.lt_succ_of_lt helement
      have hmutable : SpanStep t₁ (t₁.span element false).2 := ⟨element, false, helement, rfl⟩
      exact .tail (.single hmutable)
        ⟨element, true, Nat.lt_of_lt_of_le helement hmutable.size_le, rfl⟩

/-- With an inline array no struct is added. -/
theorem Sound.addArray (ht : t.Sound) {name : String} {element : TypeId} {length : Nat}
    (helement : element < t.size) (h : t.addArray name element length = .ok (id, t')) :
    t'.Sound ∧ t.size ≤ t'.size ∧ ∀ other, t'.struct? other = t.struct? other := by
  have hspans := addArray_spans helement h
  have hpush : (t.push (.array ⟨name, element, length⟩)).2.Sound :=
    ht.push (by simpa [TypeData.refs] using helement) nofun
  refine ⟨hspans.sound hpush, ?_, fun other ↦ ?_⟩
  · exact Nat.le_trans (size_push t _ ▸ Nat.le_succ t.size) hspans.size_le
  · rw [hspans.struct?_eq, struct?, struct?, get_push]
    by_cases hother : other = t.size
    · rw [if_pos hother, hother, get_eq_error (Nat.le_refl _)]
    · rw [if_neg hother]

/-- A struct is declared at the end of the table, without fields. -/
theorem Sound.declareStruct (ht : t.Sound) {name : String} {kind : StructKind}
    (h : t.declareStruct name kind = .ok (id, t')) : t'.Sound ∧ t'.size = t.size + 1 := by
  unfold TypeTable.declareStruct at h
  split at h
  · cases h
  · obtain rfl : (t.push (.struct ⟨name, kind, []⟩)).2 = t' := congrArg Prod.snd (Except.ok.inj h)
    exact ⟨ht.push (by simp [TypeData.refs]) nofun, size_push _ _⟩

/-- Only the fields of the struct change. -/
theorem defineFields_eq_ok {fields : List Field} (h : t.defineFields id fields = .ok t') :
    t'.size = t.size ∧ (t.struct? id).isSome ∧ ∃ type, t'.get id = .struct type ∧
      type.fields = fields ∧ ∀ other ≠ id, t'.get other = t.get other := by
  obtain ⟨hsize, type, hget, hother⟩ := get_defineFields h
  refine ⟨hsize, by simp [struct?, hget], { type with fields }, ?_, rfl, fun other hne ↦ ?_⟩
  · rw [hother, if_pos rfl]
  · rw [hother, if_neg (Ne.symm hne)]

theorem Sound.defineFields (ht : t.Sound) {fields : List Field}
    (hfields : ∀ f ∈ fields, f.type < t.size) (h : t.defineFields id fields = .ok t') :
    t'.Sound := by
  obtain ⟨hsize, -, type, hget, rfl, hother⟩ := defineFields_eq_ok h
  have hspan {other element : TypeId} {readonly : Bool}
      (hspan : t'.get other = .span element readonly) : t.get other = .span element readonly := by
    by_cases heq : other = id
    · rw [heq, hget] at hspan
      cases hspan
    · rwa [hother other heq] at hspan
  refine ⟨fun other ref href ↦ ?_, fun other element readonly h ↦ ?_,
    fun other other' element readonly h h' ↦ ?_⟩
  · rw [hsize]
    by_cases heq : other = id
    · rw [heq, hget] at href
      obtain ⟨f, hf, rfl⟩ := List.mem_map.1 href
      exact hfields f hf
    · rw [hother other heq] at href
      exact ht.closed other ref href
  · exact ht.precedes other element readonly (hspan h)
  · exact ht.unique other other' element readonly (hspan h) (hspan h')

end TypeTable

namespace Scenario

variable {t t' : TypeTable}

theorem addArray_sound {d : ArrayDecl} (ht : t.Sound) (h : addArray t d = .ok t') :
    t'.Sound ∧ ∀ id, t'.struct? id = t.struct? id := by
  obtain ⟨⟨element, mid⟩, hresolve, h⟩ := Except.bind_eq_ok.1 h
  obtain ⟨⟨id, added⟩, hadd, rfl⟩ := Except.map_eq_ok.1 h
  obtain ⟨hspans, helement⟩ := TypeTable.spans_of_resolve hresolve
  obtain ⟨hsound, -, hstruct⟩ := (hspans.sound ht).addArray helement hadd
  exact ⟨hsound, fun id ↦ by rw [hstruct, hspans.struct?_eq]⟩

theorem addFields_spans {fields : List FieldDecl} {known known' : List Field}
    (hknown : ∀ f ∈ known, f.type < t.size)
    (h : fields.foldlM addField (known, t) = .ok (known', t')) :
    TypeTable.Spans t t' ∧ ∀ f ∈ known', f.type < t'.size := by
  induction fields generalizing known t with
  | nil =>
    cases h
    exact ⟨.refl, hknown⟩
  | cons d fields ih =>
    rw [List.foldlM_cons] at h
    obtain ⟨state, hfield, h⟩ := Except.bind_eq_ok.1 h
    obtain ⟨⟨type, mid⟩, hresolve, hstate⟩ := Except.bind_eq_ok.1 hfield
    cases hstate
    obtain ⟨hspans, htype⟩ := TypeTable.spans_of_resolve hresolve
    have hmid : ∀ f ∈ known ++ [⟨d.name, type, d.readonly⟩], f.type < mid.size := by
      intro f hf
      rcases List.mem_append.1 hf with hf | hf
      · exact Nat.lt_of_lt_of_le (hknown f hf) hspans.size_le
      · rwa [List.mem_singleton.1 hf]
    obtain ⟨hspans', hknown'⟩ := ih hmid h
    exact ⟨hspans.trans hspans', hknown'⟩

theorem defineStruct_sound {d : TypeId × StructDecl} (ht : t.Sound)
    (h : defineStruct t d = .ok t') :
    t'.Sound ∧ ∀ id, (t'.struct? id).isSome → (t.struct? id).isSome := by
  obtain ⟨⟨fields, mid⟩, hfields, hdefine⟩ := Except.bind_eq_ok.1 h
  obtain ⟨hspans, hmid⟩ := addFields_spans (by simp) hfields
  refine ⟨(hspans.sound ht).defineFields hmid hdefine, fun id hid ↦ ?_⟩
  obtain ⟨-, hstruct, type, hget, -, hother⟩ := TypeTable.defineFields_eq_ok hdefine
  rw [← hspans.struct?_eq]
  by_cases heq : id = d.1
  · rwa [heq]
  · rwa [TypeTable.struct?, hother id heq] at hid

/-- Structs stand right after the built-in types, in a sound table. -/
theorem declareTypes_sound {s : Scenario} {types : TypeTable} (h : s.declareTypes = .ok types) :
    types.Sound ∧
      ∀ id, (types.struct? id).isSome → id < TypeTable.builtin.length + s.structs.length := by
  obtain ⟨structs, hstructs, h⟩ := Except.bind_eq_ok.1 h
  obtain ⟨arrays, harrays, h⟩ := Except.bind_eq_ok.1 h
  have hstructs : structs.Sound ∧
      structs.size = TypeTable.builtin.length + s.structs.length := by
    have hfold {l : List StructDecl} {t t' : TypeTable} (ht : t.Sound)
        (h : l.foldlM (fun types d ↦ (types.declareStruct d.name d.kind).map (·.2)) t = .ok t') :
        t'.Sound ∧ t'.size = t.size + l.length := by
      induction l generalizing t with
      | nil =>
        cases h
        exact ⟨ht, rfl⟩
      | cons d l ih =>
        rw [List.foldlM_cons] at h
        obtain ⟨mid, hdeclare, h⟩ := Except.bind_eq_ok.1 h
        obtain ⟨⟨id, added⟩, hadded, rfl⟩ := Except.map_eq_ok.1 hdeclare
        obtain ⟨hmid, hsize⟩ := ht.declareStruct hadded
        obtain ⟨hsound, hlength⟩ := ih hmid h
        exact ⟨hsound, by rw [hlength, hsize, List.length_cons]; omega⟩
    exact hfold TypeTable.empty_sound hstructs
  have hbelow : ∀ id, (structs.struct? id).isSome →
      id < TypeTable.builtin.length + s.structs.length := by
    intro id hid
    rw [← hstructs.2]
    obtain ⟨type, htype⟩ := Option.isSome_iff_exists.1 hid
    apply TypeTable.lt_size
    rw [TypeTable.get_of_struct? htype]
    nofun
  let inv (t : TypeTable) : Prop := t.Sound ∧ ∀ id, (t.struct? id).isSome →
    id < TypeTable.builtin.length + s.structs.length
  have harrays : inv arrays := by
    have hstep (t : TypeTable) (d : ArrayDecl) (t' : TypeTable) (ht : inv t)
        (hstep : addArray t d = .ok t') : inv t' := by
      obtain ⟨hsound, hstruct⟩ := addArray_sound ht.1 hstep
      exact ⟨hsound, fun id hid ↦ ht.2 id (by rwa [hstruct] at hid)⟩
    exact Except.foldlM_inv hstep ⟨hstructs.1, hbelow⟩ harrays
  refine Except.foldlM_inv (fun t d t' (ht : inv t) hstep ↦ ?_) harrays h
  obtain ⟨hsound, hstruct⟩ := defineStruct_sound ht.1 hstep
  exact ⟨hsound, fun id hid ↦ ht.2 id (hstruct id hid)⟩

/-- No struct of a scenario contains itself. -/
theorem buildTypes_containsItself {s : Scenario} {types : TypeTable}
    (h : s.buildTypes = .ok types) (id : TypeId) (hid : (types.struct? id).isSome) :
    types.containsItself id = false := by
  obtain ⟨declared, hdeclared, h⟩ := Except.bind_eq_ok.1 h
  obtain ⟨-, hbelow⟩ := declareTypes_sound (Except.mapError_eq_ok.1 hdeclared)
  split at h
  · cases h
  · rename_i hnone
    obtain rfl := Except.ok.inj h
    have hle : TypeTable.builtin.length ≤ id := by
      refine Nat.le_of_not_lt fun hlt ↦ ?_
      obtain ⟨type, htype⟩ := Option.isSome_iff_exists.1 hid
      have hget := TypeTable.get_of_struct? htype
      rw [TypeTable.get_of_lt _ hlt, List.getElem?_eq_getElem hlt] at hget
      refine TypeTable.not_isDeclared_builtin (List.getElem_mem hlt) ?_
      change (some TypeTable.builtin[id]).getD .error = _ at hget
      rw [Option.getD_some] at hget
      rw [hget]
      exact .struct type
    obtain ⟨n, rfl⟩ := Nat.exists_eq_add_of_le hle
    have hn : n < s.structs.length := Nat.lt_of_add_lt_add_left (hbelow _ hid)
    have hmem : (TypeTable.builtin.length + n, s.structs[n]) ∈ s.declared := by
      refine List.mem_iff_getElem?.2 ⟨n, ?_⟩
      simp [Scenario.declared, hn]
    simpa using List.find?_eq_none.1 hnone _ hmem

/-- The types of a scenario make a sound table in which structs nest finitely deep. -/
theorem buildTypes_sound {s : Scenario} {types : TypeTable} (h : s.buildTypes = .ok types) :
    types.Sound ∧ types.Finite := by
  refine ⟨?_, TypeTable.finite_of_not_containsItself (buildTypes_containsItself h)⟩
  obtain ⟨declared, hdeclared, h⟩ := Except.bind_eq_ok.1 h
  obtain ⟨hsound, -⟩ := declareTypes_sound (Except.mapError_eq_ok.1 hdeclared)
  split at h
  · cases h
  · obtain rfl := Except.ok.inj h
    exact hsound

/-! ## Inline arrays -/

/-- Inline arrays stand after the types of their elements, and are as long as declared. -/
def ArraysFrom (declared : List ArrayDecl) (t : TypeTable) : Prop :=
  ∀ id array, t.array? id = some array →
    array.element < id ∧ ∃ d ∈ declared, d.length = array.length

theorem addArray_arrays {d : ArrayDecl} {declared : List ArrayDecl} (hd : d ∈ declared)
    (ht : ArraysFrom declared t) (h : addArray t d = .ok t') : ArraysFrom declared t' := by
  obtain ⟨⟨element, mid⟩, hresolve, h⟩ := Except.bind_eq_ok.1 h
  obtain ⟨⟨id, added⟩, hadd, rfl⟩ := Except.map_eq_ok.1 h
  obtain ⟨hspans, helement⟩ := TypeTable.spans_of_resolve hresolve
  intro other array harray
  rw [(TypeTable.addArray_spans helement hadd).array?_eq, TypeTable.array?, TypeTable.get_push]
    at harray
  by_cases hother : other = mid.size
  · rw [if_pos hother] at harray
    obtain rfl := Option.some.inj harray
    exact ⟨hother ▸ helement, d, hd, rfl⟩
  · rw [if_neg hother, ← TypeTable.array?, hspans.array?_eq] at harray
    exact ht other array harray

theorem defineStruct_arrays {d : TypeId × StructDecl} (h : defineStruct t d = .ok t') (id : TypeId) :
    t'.array? id = t.array? id := by
  obtain ⟨⟨fields, mid⟩, hfields, hdefine⟩ := Except.bind_eq_ok.1 h
  obtain ⟨hspans, -⟩ := addFields_spans (by simp) hfields
  obtain ⟨-, hstruct, type, hget, -, hother⟩ := TypeTable.defineFields_eq_ok hdefine
  rw [← hspans.array?_eq]
  by_cases heq : id = d.1
  · obtain ⟨old, hold⟩ := Option.isSome_iff_exists.1 hstruct
    rw [heq, TypeTable.array?, TypeTable.array?, hget, TypeTable.get_of_struct? hold]
  · rw [TypeTable.array?, TypeTable.array?, hother id heq]

theorem buildTypes_arrays {s : Scenario} {types : TypeTable} (h : s.buildTypes = .ok types) :
    ArraysFrom s.arrays types := by
  obtain ⟨declared, hdeclared, h⟩ := Except.bind_eq_ok.1 h
  obtain ⟨structs, hstructs, hdeclared⟩ := Except.bind_eq_ok.1 (Except.mapError_eq_ok.1 hdeclared)
  obtain ⟨arrays, harrays, hdeclared⟩ := Except.bind_eq_ok.1 hdeclared
  have hnone : ∀ id, structs.array? id = none := by
    refine Except.foldlM_inv (fun t d t' (ht : ∀ id, t.array? id = none) hstep id ↦ ?_) ?_ hstructs
    · obtain ⟨⟨added, t₁⟩, hadd, rfl⟩ := Except.map_eq_ok.1 hstep
      unfold TypeTable.declareStruct at hadd
      split at hadd
      · cases hadd
      · obtain rfl : (t.push _).2 = t₁ := congrArg Prod.snd (Except.ok.inj hadd)
        rw [TypeTable.array?, TypeTable.get_push]
        by_cases hid : id = t.size
        · rw [if_pos hid]
        · rw [if_neg hid]
          exact ht id
    · intro id
      rw [TypeTable.array?]
      split
      · rename_i type hget
        exact absurd (TypeTable.mem_added_of_get (.array type) hget) List.not_mem_nil
      · rfl
  have harrays : ArraysFrom s.arrays arrays :=
    Except.foldlM_inv_of_mem (fun t d hd t' ht hstep ↦ addArray_arrays hd ht hstep)
      (fun id array harray ↦ by rw [hnone id] at harray; cases harray) harrays
  have hdefined : ArraysFrom s.arrays declared := by
    refine Except.foldlM_inv (fun t d t' ht hstep ↦ ?_) harrays hdeclared
    intro id array harray
    exact ht id array (by rwa [defineStruct_arrays hstep] at harray)
  split at h
  · cases h
  · obtain rfl := Except.ok.inj h
    exact hdefined

end Scenario

end InlineArrays
