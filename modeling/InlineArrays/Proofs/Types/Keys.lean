import InlineArrays.Proofs.Except
import InlineArrays.Proofs.Types.Embedding

/-!
# What types are found by

A declared type is found by its name and a span by its element and access.  In a table that was built
no two types are found by the same, so a type is at the place where it is found and nowhere else.
What is done to a table later keeps all its types, but for the fields of a struct.
-/

namespace InlineArrays

inductive TypeKey where
  | name (name : String)
  | span (element : TypeId) (readonly : Bool)
  deriving DecidableEq

namespace TypeData

def key? : TypeData → Option TypeKey
  | .span element readonly => some (.span element readonly)
  | data => data.name?.map .name

theorem key?_eq_name {data : TypeData} {name : String} :
    data.key? = some (.name name) ↔ data.name? = some name := by
  cases data <;> simp [key?, name?]

theorem key?_eq_span {data : TypeData} {element : TypeId} {readonly : Bool} :
    data.key? = some (.span element readonly) ↔ data = .span element readonly := by
  cases data <;> simp [key?, name?]

/-- The same type, or the same struct with other fields. -/
inductive Continues : TypeData → TypeData → Prop
  | same (data : TypeData) : Continues data data
  | fields (type : StructType) (fields : List Field) :
    Continues (.struct type) (.struct { type with fields })

theorem Continues.trans {a b c : TypeData} (h : Continues a b) (h' : Continues b c) :
    Continues a c := by
  cases h with
  | same => exact h'
  | fields type fields =>
    cases h' with
    | same => exact .fields type fields
    | fields _ fields => exact .fields type fields

end TypeData

namespace TypeTable

variable {t t' t'' : TypeTable} {id : TypeId} {key : TypeKey}

/-! ## Searching by key -/

def find (t : TypeTable) (key : TypeKey) : Option TypeId :=
  t.entries.findIdx? (·.key? == some key)

theorem find_name (t : TypeTable) (name : String) : t.find (.name name) = t.lookup name := by
  refine congrArg t.entries.findIdx? (funext fun data ↦ ?_)
  rw [Bool.eq_iff_iff, beq_iff_eq, beq_iff_eq, TypeData.key?_eq_name]

theorem find_span (t : TypeTable) (element : TypeId) (readonly : Bool) :
    t.find (.span element readonly) = t.findSpan element readonly := by
  refine congrArg t.entries.findIdx? (funext fun data ↦ ?_)
  rw [Bool.eq_iff_iff, beq_iff_eq, beq_iff_eq, TypeData.key?_eq_span]

theorem key?_of_find (h : t.find key = some id) : (t.get id).key? = some key := by
  obtain ⟨hid, hkey, -⟩ := List.findIdx?_eq_some_iff_getElem.1 h
  rw [get, List.getElem?_eq_getElem hid]
  exact eq_of_beq hkey

theorem find_push (t : TypeTable) (data : TypeData) (key : TypeKey) :
    (t.push data).2.find key = (t.find key).or (if data.key? = some key then some t.size else none) := by
  simp only [find, push, entries, ← List.append_assoc, List.findIdx?_append, size]
  by_cases hkey : data.key? = some key <;> simp [hkey]

/-- Nothing but the keys decides where a type is found. -/
theorem find_congr (h : ∀ id, (t'.get id).key? = (t.get id).key?) (hsize : t'.size = t.size)
    (key : TypeKey) : t'.find key = t.find key := by
  have hkeys : t'.entries.map TypeData.key? = t.entries.map TypeData.key? := by
    refine List.ext_getElem (by simpa [size] using hsize) fun i hi hi' ↦ ?_
    rw [List.length_map] at hi hi'
    have hkey := h i
    rw [get, get, List.getElem?_eq_getElem hi, List.getElem?_eq_getElem hi'] at hkey
    simpa using hkey
  have hfind (u : TypeTable) :
      u.find key = (u.entries.map TypeData.key?).findIdx? (· == some key) := by
    rw [find, List.findIdx?_map]
    rfl
  rw [hfind, hfind, hkeys]

/-! ## Each key once -/

/-- A type is found at every place where it is. -/
def Distinct (t : TypeTable) : Prop := ∀ id key, (t.get id).key? = some key → t.find key = some id

theorem empty_distinct : ({} : TypeTable).Distinct := by
  have hsmall : ∀ id < ({} : TypeTable).size, ∀ key ∈ (({} : TypeTable).get id).key?,
      ({} : TypeTable).find key = some id := by decide
  intro id key h
  rcases Nat.lt_or_ge id ({} : TypeTable).size with hid | hid
  · exact hsmall id hid key h
  · rw [get_eq_error hid] at h
    cases h

theorem Distinct.push (ht : t.Distinct) {data : TypeData}
    (hnew : ∀ key, data.key? = some key → t.find key = none) : (t.push data).2.Distinct := by
  intro id key h
  rw [get_push] at h
  rw [find_push]
  split at h
  · rename_i hid
    rw [hnew key h, if_pos h, hid]
    rfl
  · rw [ht id key h]
    rfl

theorem Distinct.span (ht : t.Distinct) (element : TypeId) (readonly : Bool) :
    (t.span element readonly).2.Distinct := by
  unfold TypeTable.span
  cases h : t.findSpan element readonly with
  | some id => exact ht
  | none =>
    refine ht.push fun key hkey ↦ ?_
    obtain rfl : TypeKey.span element readonly = key := Option.some.inj hkey
    rw [find_span, h]

/-- A name that is not yet taken may be declared. -/
theorem Distinct.declare (ht : t.Distinct) {data : TypeData} {name : String}
    (hdata : data.key? = some (.name name)) (hname : ¬ (t.lookup name).isSome) :
    (t.push data).2.Distinct := by
  refine ht.push fun key hkey ↦ ?_
  obtain rfl : TypeKey.name name = key := Option.some.inj (hdata.symm.trans hkey)
  rw [find_name]
  simpa using hname

theorem Distinct.addArray (ht : t.Distinct) {name : String} {element : TypeId} {length : Nat}
    (h : t.addArray name element length = .ok (id, t')) : t'.Distinct := by
  unfold TypeTable.addArray at h
  split at h
  · cases h
  · rename_i hname
    split at h
    · cases h
    · obtain rfl := congrArg Prod.snd (Except.ok.inj h)
      have hpush : (t.push (.array ⟨name, element, length⟩)).2.Distinct := ht.declare rfl hname
      exact (hpush.span element false).span element true

theorem Distinct.declareStruct (ht : t.Distinct) {name : String} {kind : StructKind}
    (h : t.declareStruct name kind = .ok (id, t')) : t'.Distinct := by
  unfold TypeTable.declareStruct at h
  split at h
  · cases h
  · rename_i hname
    cases h
    exact ht.declare rfl hname

theorem Distinct.resolve (ht : t.Distinct) {name : List Char}
    (h : t.resolve name = .ok (id, t')) : t'.Distinct := by
  fun_induction TypeTable.resolve t name generalizing id t' with
  | case1 name found hlookup =>
    cases h
    exact ht
  | case2 name hlookup readonly argument hform _ ih =>
    obtain ⟨⟨element, mid⟩, hargument, h⟩ := Except.map_eq_ok.1 h
    obtain rfl : (mid.span element readonly).2 = t' := congrArg Prod.snd h
    exact (ih hargument).span element readonly
  | case3 => cases h

/-- Attaching fields replaces the fields of one struct, and nothing else. -/
theorem get_defineFields {fields : List Field} (h : t.defineFields id fields = .ok t') :
    t'.size = t.size ∧ ∃ type, t.get id = .struct type ∧
      ∀ other, t'.get other = if id = other then .struct { type with fields } else t.get other := by
  unfold TypeTable.defineFields at h
  split at h
  · rename_i type hget
    obtain rfl := Except.ok.inj h
    have hle : builtin.length ≤ id := by
      refine Nat.le_of_not_lt fun hid ↦ ?_
      rw [get_of_lt t hid, List.getElem?_eq_getElem hid] at hget
      exact not_isDeclared_builtin (hget ▸ List.getElem_mem hid) (.struct type)
    refine ⟨by simp [size_eq], type, hget, fun other ↦ ?_⟩
    unfold get entries
    dsimp only
    rw [← List.set_append_right _ _ hle, List.getElem?_set]
    split
    · have hlength : id < (builtin ++ t.added).length := lt_size (by rw [hget]; nofun)
      rw [if_pos hlength]
      rfl
    · rfl
  · cases h

theorem find_defineFields {fields : List Field} (h : t.defineFields id fields = .ok t')
    (key : TypeKey) : t'.find key = t.find key := by
  obtain ⟨hsize, type, hget, hother⟩ := get_defineFields h
  refine find_congr (fun other ↦ ?_) hsize key
  rw [hother]
  split
  · rename_i heq
    rw [← heq, hget]
    rfl
  · rfl

theorem Distinct.defineFields (ht : t.Distinct) {fields : List Field}
    (h : t.defineFields id fields = .ok t') : t'.Distinct := by
  obtain ⟨-, type, hget, hother⟩ := get_defineFields h
  intro other key hkey
  rw [find_defineFields h]
  rw [hother] at hkey
  split at hkey
  · rename_i heq
    exact ht other key (by rw [← heq, hget]; exact hkey)
  · exact ht other key hkey

theorem Built.distinct (h : t.Built) : t.Distinct := by
  induction h with
  | empty => exact empty_distinct
  | resolve _ h ih => exact ih.resolve h
  | span element readonly _ ih => exact ih.span element readonly
  | addArray _ h ih => exact ih.addArray h
  | declareStruct _ h ih => exact ih.declareStruct h
  | defineFields _ h ih => exact ih.defineFields h

theorem Distinct.find_eq_some_iff (ht : t.Distinct) :
    t.find key = some id ↔ (t.get id).key? = some key :=
  ⟨key?_of_find, ht id key⟩

theorem Built.findSpan_eq_some_iff (h : t.Built) {element : TypeId} {readonly : Bool} :
    t.findSpan element readonly = some id ↔ t.get id = .span element readonly := by
  rw [← find_span, h.distinct.find_eq_some_iff, TypeData.key?_eq_span]

theorem Built.lookup_eq_some_iff (h : t.Built) {name : String} :
    t.lookup name = some id ↔ (t.get id).name? = some name := by
  rw [← find_name, h.distinct.find_eq_some_iff, TypeData.key?_eq_name]

/-! ## Types stay -/

/-- The types of `t` stay where they are. -/
structure Keeps (t t' : TypeTable) : Prop where
  size_le : t.size ≤ t'.size
  get : ∀ id < t.size, (t.get id).Continues (t'.get id)

theorem Keeps.refl (t : TypeTable) : t.Keeps t := ⟨Nat.le_refl _, fun _ _ ↦ .same _⟩

theorem Keeps.trans (h : t.Keeps t') (h' : t'.Keeps t'') : t.Keeps t'' where
  size_le := Nat.le_trans h.size_le h'.size_le
  get id hid := (h.get id hid).trans (h'.get id (Nat.lt_of_lt_of_le hid h.size_le))

theorem keeps_push (t : TypeTable) (data : TypeData) : t.Keeps (t.push data).2 where
  size_le := size_push t data ▸ Nat.le_succ _
  get id hid := by
    rw [get_push_of_lt hid]
    exact .same _

theorem keeps_span (t : TypeTable) (element : TypeId) (readonly : Bool) :
    t.Keeps (t.span element readonly).2 := by
  unfold span
  cases t.findSpan element readonly with
  | some id => exact .refl t
  | none => exact keeps_push t _

/-- The id of the new array is of the new table. -/
theorem keeps_addArray {name : String} {element : TypeId} {length : Nat}
    (h : t.addArray name element length = .ok (id, t')) : t.Keeps t' ∧ id < t'.size := by
  unfold addArray at h
  split at h
  · cases h
  · split at h
    · cases h
    · obtain rfl := congrArg Prod.fst (Except.ok.inj h)
      obtain rfl := congrArg Prod.snd (Except.ok.inj h)
      have hspans := (keeps_span (t.push (.array ⟨name, element, length⟩)).2 element false).trans
        (keeps_span _ element true)
      refine ⟨(keeps_push t _).trans hspans, Nat.lt_of_lt_of_le ?_ hspans.size_le⟩
      rw [size_push]
      exact Nat.lt_succ_self _

theorem keeps_declareStruct {name : String} {kind : StructKind}
    (h : t.declareStruct name kind = .ok (id, t')) : t.Keeps t' ∧ id < t'.size := by
  unfold declareStruct at h
  split at h
  · cases h
  · cases h
    exact ⟨keeps_push t _, size_push t _ ▸ Nat.lt_succ_self _⟩

theorem keeps_resolve {name : List Char} (h : t.resolve name = .ok (id, t')) : t.Keeps t' := by
  fun_induction TypeTable.resolve t name generalizing id t' with
  | case1 name found hlookup =>
    cases h
    exact .refl t
  | case2 name hlookup readonly argument hform _ ih =>
    obtain ⟨⟨element, mid⟩, hargument, h⟩ := Except.map_eq_ok.1 h
    obtain rfl : (mid.span element readonly).2 = t' := congrArg Prod.snd h
    exact (ih hargument).trans (keeps_span mid element readonly)
  | case3 => cases h

theorem keeps_defineFields {fields : List Field} (h : t.defineFields id fields = .ok t') :
    t.Keeps t' := by
  obtain ⟨hsize, type, hget, hother⟩ := get_defineFields h
  refine ⟨Nat.le_of_eq hsize.symm, fun other _ ↦ ?_⟩
  rw [hother]
  split
  · rename_i heq
    rw [← heq, hget]
    exact .fields type fields
  · exact .same _

end TypeTable

end InlineArrays
