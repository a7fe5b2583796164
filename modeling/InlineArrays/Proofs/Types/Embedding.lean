import InlineArrays.Proofs.Types.Nesting
import InlineArrays.Proofs.Types.Table
import Mathlib.Logic.Relation

/-!
# Tables inside tables

A table is sound if what its types refer to is in it, with the element of a span before the span, and
no span is in it twice.  One sound table embeds into another if its types are there under other ids;
then everything that is read off a type by its id is read off the other table by the other id.
-/

namespace InlineArrays

/-! ## Types under other ids -/

def Field.rename (ρ : TypeId → TypeId) (f : Field) : Field := { f with type := ρ f.type }

def StructType.rename (ρ : TypeId → TypeId) (s : StructType) : StructType :=
  { s with fields := s.fields.map (·.rename ρ) }

def ArrayType.rename (ρ : TypeId → TypeId) (a : ArrayType) : ArrayType :=
  { a with element := ρ a.element }

def TypeData.rename (ρ : TypeId → TypeId) : TypeData → TypeData
  | .array type => .array (type.rename ρ)
  | .struct type => .struct (type.rename ρ)
  | .span element readonly => .span (ρ element) readonly
  | data => data

/-- The types that a type refers to. -/
def TypeData.refs : TypeData → List TypeId
  | .array type => [type.element]
  | .struct type => type.fields.map (·.type)
  | .span element _ => [element]
  | _ => []

theorem StructType.field?_rename (ρ : TypeId → TypeId) (s : StructType) (name : String) :
    (s.rename ρ).field? name = (s.field? name).map (·.rename ρ) := by
  rw [field?, field?, StructType.rename, List.find?_map]
  rfl

theorem TypeData.rename_congr {ρ σ : TypeId → TypeId} {data : TypeData}
    (h : ∀ id ∈ data.refs, ρ id = σ id) : data.rename ρ = data.rename σ := by
  cases data with
  | array type => simp [rename, ArrayType.rename, h type.element (by simp [refs])]
  | struct type =>
    have hfields : type.fields.map (·.rename ρ) = type.fields.map (·.rename σ) := by
      refine List.map_congr_left fun f hf ↦ ?_
      simp [Field.rename, h f.type (List.mem_map_of_mem hf)]
    simp [rename, StructType.rename, hfields]
  | span element readonly => simp [rename, h element (by simp [refs])]
  | _ => rfl

theorem TypeData.rename_id (data : TypeData) : data.rename (fun id ↦ id) = data := by
  cases data with
  | struct type => simp [rename, StructType.rename, Field.rename]
  | _ => rfl

namespace TypeTable

/-! ## Sound tables -/

structure Sound (t : TypeTable) : Prop where
  closed : ∀ id, ∀ ref ∈ (t.get id).refs, ref < t.size
  precedes : ∀ id element readonly, t.get id = .span element readonly → element < id
  unique : ∀ id id' element readonly, t.get id = .span element readonly →
    t.get id' = .span element readonly → id = id'

variable {t t' u : TypeTable} {id : TypeId}

theorem get_push (t : TypeTable) (data : TypeData) (id : TypeId) :
    (t.push data).2.get id = if id = t.size then data else t.get id := by
  split
  · rename_i h
    rw [h]
    exact get_push_fst t data
  · rename_i hne
    rcases Nat.lt_or_ge id t.size with hid | hid
    · exact get_push_of_lt hid
    · rw [get_eq_error (t := t) hid, get_eq_error]
      rw [size_push]
      exact Nat.lt_of_le_of_ne hid (Ne.symm hne)

/-- A new type may refer to the types already there, and is no span that is already there. -/
theorem Sound.push (ht : t.Sound) {data : TypeData}
    (hrefs : ∀ ref ∈ data.refs, ref < t.size)
    (hnew : ∀ id element readonly, data = .span element readonly →
      t.get id ≠ .span element readonly) : (t.push data).2.Sound where
  closed id ref href := by
    rw [get_push] at href
    rw [size_push]
    split at href
    · exact Nat.lt_succ_of_lt (hrefs ref href)
    · exact Nat.lt_succ_of_lt (ht.closed id ref href)
  precedes id element readonly h := by
    rw [get_push] at h
    split at h
    · rename_i hid
      rw [hid]
      exact hrefs element (by simp [h, TypeData.refs])
    · exact ht.precedes id element readonly h
  unique id id' element readonly h h' := by
    rw [get_push] at h h'
    split at h
    · rename_i hid
      split at h'
      · rename_i hid'
        rw [hid, hid']
      · exact absurd h' (hnew id' element readonly h)
    · split at h'
      · exact absurd h (hnew id element readonly h')
      · exact ht.unique id id' element readonly h h'

theorem findSpan_eq_some_iff (ht : t.Sound) {element : TypeId} {readonly : Bool} :
    t.findSpan element readonly = some id ↔ t.get id = .span element readonly := by
  refine ⟨findSpan_eq_some, fun h ↦ ?_⟩
  obtain ⟨found, hfound⟩ :=
    Option.isSome_iff_exists.1 (isSome_findSpan (mem_added_of_get (.span element readonly) h))
  rw [hfound, ht.unique found id element readonly (findSpan_eq_some hfound) h]

/-! ## Interning spans -/

/-- A span type over a type of the table is interned. -/
def SpanStep (t t' : TypeTable) : Prop :=
  ∃ element readonly, element < t.size ∧ t' = (t.span element readonly).2

/-- Span types are interned, any number of them. -/
def Spans : TypeTable → TypeTable → Prop := Relation.ReflTransGen SpanStep

/-- Interning either finds the span or adds it at the end. -/
theorem span_cases (t : TypeTable) (element : TypeId) (readonly : Bool) :
    (t.get (t.span element readonly).1 = .span element readonly ∧
      (t.span element readonly).2 = t) ∨
    ((∀ id, t.get id ≠ .span element readonly) ∧
      t.span element readonly = t.push (.span element readonly)) := by
  unfold span
  cases h : t.findSpan element readonly with
  | some id => exact .inl ⟨findSpan_eq_some h, rfl⟩
  | none =>
    refine .inr ⟨fun id hget ↦ ?_, rfl⟩
    have hsome := isSome_findSpan (mem_added_of_get (.span element readonly) hget)
    rw [h] at hsome
    cases hsome

theorem get_span_fst (t : TypeTable) (element : TypeId) (readonly : Bool) :
    (t.span element readonly).2.get (t.span element readonly).1 = .span element readonly := by
  rcases span_cases t element readonly with ⟨hget, heq⟩ | ⟨-, heq⟩
  · rw [heq, hget]
  · rw [heq]
    exact get_push_fst t _

theorem SpanStep.size_le (h : SpanStep t t') : t.size ≤ t'.size := by
  obtain ⟨element, readonly, -, rfl⟩ := h
  rcases span_cases t element readonly with ⟨-, heq⟩ | ⟨-, heq⟩
  · exact Nat.le_of_eq (by rw [heq])
  · rw [heq, size_push]
    exact Nat.le_succ _

theorem SpanStep.get_eq (h : SpanStep t t') (hid : id < t.size) : t'.get id = t.get id := by
  obtain ⟨element, readonly, -, rfl⟩ := h
  rcases span_cases t element readonly with ⟨-, heq⟩ | ⟨-, heq⟩
  · rw [heq]
  · rw [heq, get_push_of_lt hid]

theorem SpanStep.sound (h : SpanStep t t') (ht : t.Sound) : t'.Sound := by
  obtain ⟨element, readonly, helement, rfl⟩ := h
  rcases span_cases t element readonly with ⟨-, heq⟩ | ⟨hnew, heq⟩
  · rwa [heq]
  · rw [heq]
    refine ht.push (by simpa [TypeData.refs] using helement) ?_
    rintro id _ _ ⟨⟩
    exact hnew id

/-- Spans are not looked up by a name. -/
theorem SpanStep.lookup_eq (h : SpanStep t t') (name : String) : t'.lookup name = t.lookup name := by
  obtain ⟨element, readonly, -, rfl⟩ := h
  rcases span_cases t element readonly with ⟨-, heq⟩ | ⟨-, heq⟩
  · rw [heq]
  · rw [heq]
    simp [lookup, push, entries, ← List.append_assoc, List.findIdx?_append, TypeData.name?]

theorem Spans.trans {t t' t'' : TypeTable} (h : Spans t t') (h' : Spans t' t'') : Spans t t'' :=
  Relation.ReflTransGen.trans h h'

theorem Spans.size_le (h : Spans t t') : t.size ≤ t'.size := by
  induction h with
  | refl => exact Nat.le_refl _
  | tail _ hstep ih => exact Nat.le_trans ih hstep.size_le

theorem Spans.get_eq (h : Spans t t') (hid : id < t.size) : t'.get id = t.get id := by
  induction h with
  | refl => rfl
  | tail hspans hstep ih => rw [hstep.get_eq (Nat.lt_of_lt_of_le hid (Spans.size_le hspans)), ih]

theorem Spans.sound (h : Spans t t') (ht : t.Sound) : t'.Sound := by
  induction h with
  | refl => exact ht
  | tail _ hstep ih => exact hstep.sound ih

theorem Spans.lookup_eq (h : Spans t t') (name : String) : t'.lookup name = t.lookup name := by
  induction h with
  | refl => rfl
  | tail _ hstep ih => rw [hstep.lookup_eq, ih]

/-- Past the end of the first table there are spans only. -/
theorem Spans.get_of_le (h : Spans t t') (hid : t.size ≤ id) :
    t'.get id = .error ∨ ∃ element readonly, t'.get id = .span element readonly := by
  induction h with
  | refl => exact .inl (get_eq_error hid)
  | @tail mid last _ hstep ih =>
    obtain ⟨element, readonly, -, rfl⟩ := hstep
    rcases span_cases mid element readonly with ⟨-, heq⟩ | ⟨-, heq⟩
    · rwa [heq]
    · rw [heq, get_push]
      split
      · exact .inr ⟨element, readonly, rfl⟩
      · exact ih

/-! ## Embeddings -/

/-- The types of `t` are those of `u` under other ids. -/
structure Embeds (ρ : TypeId → TypeId) (t u : TypeTable) : Prop where
  wellFormed : t.WellFormed
  source : t.Sound
  target : u.Sound
  sourceFinite : t.Finite
  targetFinite : u.Finite
  builtin : ∀ id < builtin.length, ρ id = id
  lt : ∀ id, ρ id < u.size
  get : ∀ id, u.get (ρ id) = (t.get id).rename ρ
  lookup : ∀ name, u.lookup name = (t.lookup name).map ρ

namespace Embeds

variable {ρ : TypeId → TypeId}

theorem error (h : Embeds ρ t u) : ρ error = TypeTable.error := h.builtin _ (by decide)

theorem eq_int_iff (h : Embeds ρ t u) : ρ id = int ↔ id = int := by
  refine ⟨fun hid ↦ h.wellFormed.eq_int ?_, fun hid ↦ by rw [hid]; exact h.builtin _ (by decide)⟩
  have hget := h.get id
  rw [hid] at hget
  have hint : u.get int = .int := get_of_lt u (by decide)
  rw [hint] at hget
  cases hdata : t.get id <;> rw [hdata] at hget <;> first | rfl | cases hget

theorem eq_range_iff (h : Embeds ρ t u) : ρ id = range ↔ id = range := by
  refine ⟨fun hid ↦ h.wellFormed.eq_range ?_, fun hid ↦ by rw [hid]; exact h.builtin _ (by decide)⟩
  have hget := h.get id
  rw [hid] at hget
  have hrange : u.get range = .range := get_of_lt u (by decide)
  rw [hrange] at hget
  cases hdata : t.get id <;> rw [hdata] at hget <;> first | rfl | cases hget

theorem array? (h : Embeds ρ t u) (id : TypeId) :
    u.array? (ρ id) = (t.array? id).map (·.rename ρ) := by
  rw [TypeTable.array?, TypeTable.array?, h.get]
  cases t.get id <;> rfl

theorem struct? (h : Embeds ρ t u) (id : TypeId) :
    u.struct? (ρ id) = (t.struct? id).map (·.rename ρ) := by
  rw [TypeTable.struct?, TypeTable.struct?, h.get]
  cases t.get id <;> rfl

theorem spanParts? (h : Embeds ρ t u) (id : TypeId) :
    u.spanParts? (ρ id) = (t.spanParts? id).map fun parts ↦ (ρ parts.1, parts.2) := by
  rw [TypeTable.spanParts?, TypeTable.spanParts?, h.get]
  cases t.get id <;> rfl

@[simp]
theorem isSpan (h : Embeds ρ t u) (id : TypeId) : u.isSpan (ρ id) = t.isSpan id := by
  rw [TypeTable.isSpan, TypeTable.isSpan, h.spanParts?, Option.isSome_map]

@[simp]
theorem isClass (h : Embeds ρ t u) (id : TypeId) : u.isClass (ρ id) = t.isClass id := by
  rw [TypeTable.isClass, TypeTable.isClass, h.struct?, Option.any_map]
  rfl

theorem findSpan (h : Embeds ρ t u) {element span : TypeId} {readonly : Bool}
    (hspan : t.get span = .span element readonly) :
    u.findSpan (ρ element) readonly = some (ρ span) := by
  rw [findSpan_eq_some_iff h.target, h.get, hspan]
  rfl

@[simp]
theorem format (h : Embeds ρ t u) (id : TypeId) : u.format (ρ id) = t.format id := by
  induction id using Nat.strongRecOn with
  | ind id ih =>
    rw [TypeTable.format, TypeTable.format, h.get]
    cases hget : t.get id with
    | span element readonly =>
      have hlt := h.source.precedes id element readonly hget
      have hlt' : ρ element < ρ id := by
        apply h.target.precedes (ρ id) (ρ element) readonly
        rw [h.get, hget]
        rfl
      simp only [TypeData.rename, hlt, hlt', if_true, ih element hlt]
    | _ => rfl

theorem nestsWithin (h : Embeds ρ t u) {depth : Nat} {id : TypeId} :
    u.NestsWithin depth (ρ id) ↔ t.NestsWithin depth id := by
  induction depth generalizing id with
  | zero => exact Iff.rfl
  | succ depth ih =>
    simp only [NestsWithin, h.struct?]
    cases t.struct? id with
    | none => simp
    | some type =>
      simp only [Option.map_some, Option.some.injEq, forall_eq']
      refine imp_congr Iff.rfl ?_
      simp [StructType.rename, Field.rename, ih]

end Embeds

end TypeTable

end InlineArrays
