import InlineArrays.Proofs.Types.Embedding

/-!
# Tables without errors in them

A type is proper if it is in the table and is not the error type.  A table is faultless if its types
are made of proper ones.  Names stand for proper types only, so whatever is declared by name leaves a
faultless table faultless, and a type that is proper stays so as the table grows.
-/

namespace InlineArrays.TypeTable

variable {t t' : TypeTable} {id : TypeId}

def Proper (t : TypeTable) (id : TypeId) : Prop := t.get id ≠ .error

instance : Decidable (t.Proper id) := inferInstanceAs (Decidable (_ ≠ _))

def Faultless (t : TypeTable) : Prop := ∀ id, ∀ ref ∈ (t.get id).refs, t.Proper ref

theorem Proper.ne_error (h : t.Proper id) : id ≠ error := by
  rintro rfl
  exact h (get_of_lt t (by decide))

/-- Every built-in type but the error type is proper in every table. -/
theorem proper_builtin (t : TypeTable) (id : TypeId) (hid : id < builtin.length) (hne : id ≠ error) :
    t.Proper id := by
  have hbuiltin : ∀ id < builtin.length, id ≠ error → builtin[id]?.getD .error ≠ .error := by decide
  rw [Proper, get_of_lt t hid]
  exact hbuiltin id hid hne

theorem proper_of_lookup {name : String} (h : t.lookup name = some id) : t.Proper id := by
  obtain ⟨hid, hname, -⟩ := List.findIdx?_eq_some_iff_getElem.1 h
  intro hget
  rw [get, List.getElem?_eq_getElem hid, Option.getD_some] at hget
  rw [hget] at hname
  cases hname

theorem proper_of_findSpan {element : TypeId} {readonly : Bool}
    (h : t.findSpan element readonly = some id) : t.Proper id := by
  rw [Proper, findSpan_eq_some h]
  nofun

theorem Proper.push (h : t.Proper id) (data : TypeData) : (t.push data).2.Proper id := by
  rw [Proper, get_push_of_lt (lt_size h)]
  exact h

theorem Proper.span (h : t.Proper id) (element : TypeId) (readonly : Bool) :
    (t.span element readonly).2.Proper id := by
  rcases span_cases t element readonly with ⟨-, heq⟩ | ⟨-, heq⟩
  · rwa [heq]
  · rw [heq]
    exact h.push _

theorem proper_span_fst (t : TypeTable) (element : TypeId) (readonly : Bool) :
    (t.span element readonly).2.Proper (t.span element readonly).1 := by
  rw [Proper, get_span_fst]
  nofun

/-- Nothing built in is made of other types. -/
theorem empty_faultless : ({} : TypeTable).Faultless := by
  intro id ref href
  rcases Nat.lt_or_ge id ({} : TypeTable).size with hid | hid
  · have hbuiltin : ∀ id < ({} : TypeTable).size, (({} : TypeTable).get id).refs = [] := by decide
    rw [hbuiltin id hid] at href
    cases href
  · rw [get_eq_error hid] at href
    cases href

theorem Faultless.push (ht : t.Faultless) {data : TypeData} (hdata : ∀ ref ∈ data.refs, t.Proper ref) :
    (t.push data).2.Faultless := by
  intro id ref href
  rw [get_push] at href
  split at href
  · exact (hdata ref href).push data
  · exact (ht id ref href).push data

theorem Faultless.span (ht : t.Faultless) {element : TypeId} (helement : t.Proper element)
    (readonly : Bool) : (t.span element readonly).2.Faultless := by
  rcases span_cases t element readonly with ⟨-, heq⟩ | ⟨-, heq⟩
  · rwa [heq]
  · rw [heq]
    exact ht.push (by simpa [TypeData.refs] using helement)

/-- A name stands for a proper type, and reading it keeps all others. -/
theorem Faultless.resolve (ht : t.Faultless) {name : List Char} (h : t.resolve name = .ok (id, t')) :
    t'.Faultless ∧ t'.Proper id ∧ ∀ other, t.Proper other → t'.Proper other := by
  fun_induction TypeTable.resolve t name generalizing id t' with
  | case1 name found hlookup =>
    cases h
    exact ⟨ht, proper_of_lookup hlookup, fun _ hother ↦ hother⟩
  | case2 name hlookup readonly argument hform _ ih =>
    cases hargument : t.resolve argument with
    | error e =>
      rw [hargument] at h
      cases h
    | ok resolved =>
      obtain ⟨element, t₁⟩ := resolved
      rw [hargument] at h
      obtain ⟨rfl, rfl⟩ := Prod.ext_iff.1 (Except.ok.inj h)
      obtain ⟨hfaultless, helement, hkept⟩ := ih hargument
      exact ⟨hfaultless.span helement readonly, proper_span_fst t₁ element readonly,
        fun other hother ↦ (hkept other hother).span element readonly⟩
  | case3 => cases h

theorem Faultless.addArray (ht : t.Faultless) {name : String} {element : TypeId} {length : Nat}
    (helement : t.Proper element) (h : t.addArray name element length = .ok (id, t')) :
    t'.Faultless := by
  unfold TypeTable.addArray at h
  split at h
  · cases h
  · split at h
    · cases h
    · have hpush : (t.push (.array ⟨name, element, length⟩)).2.Faultless :=
        ht.push (by simpa [TypeData.refs] using helement)
      have helement := helement.push (.array ⟨name, element, length⟩)
      obtain rfl := congrArg Prod.snd (Except.ok.inj h)
      exact (hpush.span helement false).span (helement.span element false) true

theorem Faultless.declareStruct (ht : t.Faultless) {name : String} {kind : StructKind}
    (h : t.declareStruct name kind = .ok (id, t')) : t'.Faultless := by
  unfold TypeTable.declareStruct at h
  split at h
  · cases h
  · obtain rfl := congrArg Prod.snd (Except.ok.inj h)
    exact ht.push (by simp [TypeData.refs])

end InlineArrays.TypeTable
