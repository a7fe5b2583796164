import InlineArrays.Proofs.Except
import InlineArrays.Proofs.Types.Embedding
import InlineArrays.Types.Name

/-!
# Unions of tables

Interning spans keeps what a table is and what its names mean.  Two tables that grew out of one by
interning spans both embed into a third, in which the types of the first have the ids they had.
-/

namespace InlineArrays

namespace TypeTable

variable {base t t' : TypeTable} {id : TypeId}

theorem lt_of_lookup {name : String} (h : t.lookup name = some id) : id < t.size :=
  (List.findIdx?_eq_some_iff_getElem.1 h).1

theorem span_lt (t : TypeTable) (element : TypeId) (readonly : Bool) :
    (t.span element readonly).1 < (t.span element readonly).2.size := by
  apply lt_size
  rw [get_span_fst]
  nofun

theorem span_of_findSpan {element : TypeId} {readonly : Bool}
    (h : t.findSpan element readonly = some id) : t.span element readonly = (id, t) := by
  unfold span
  rw [h]

/-- Resolving a name interns spans and nothing else. -/
theorem spans_of_resolve {name : List Char} (h : t.resolve name = .ok (id, t')) :
    Spans t t' ∧ id < t'.size := by
  fun_induction TypeTable.resolve t name generalizing id t' with
  | case1 name found hlookup =>
    cases h
    exact ⟨.refl, lt_of_lookup hlookup⟩
  | case2 name hlookup readonly argument hform _ ih =>
    obtain ⟨⟨element, mid⟩, hargument, h⟩ := Except.map_eq_ok.1 h
    obtain rfl : (mid.span element readonly).1 = id := congrArg Prod.fst h
    obtain rfl : (mid.span element readonly).2 = t' := congrArg Prod.snd h
    obtain ⟨hspans, helement⟩ := ih hargument
    exact ⟨.tail hspans ⟨element, readonly, helement, rfl⟩, span_lt mid element readonly⟩
  | case3 => cases h

theorem Spans.struct?_eq (h : Spans t t') (id : TypeId) : t'.struct? id = t.struct? id := by
  unfold struct?
  rcases Nat.lt_or_ge id t.size with hlt | hge
  · rw [h.get_eq hlt]
  · rw [get_eq_error hge]
    rcases h.get_of_le hge with hget | ⟨_, _, hget⟩ <;> rw [hget]

theorem Spans.array?_eq (h : Spans t t') (id : TypeId) : t'.array? id = t.array? id := by
  unfold array?
  rcases Nat.lt_or_ge id t.size with hlt | hge
  · rw [h.get_eq hlt]
  · rw [get_eq_error hge]
    rcases h.get_of_le hge with hget | ⟨_, _, hget⟩ <;> rw [hget]

theorem Spans.finite (h : Spans t t') (ht : t.Finite) : t'.Finite := by
  have hnests {depth : Nat} {id : TypeId} (hdepth : t.NestsWithin depth id) :
      t'.NestsWithin depth id := by
    induction depth generalizing id with
    | zero => cases hdepth
    | succ depth ih =>
      intro type htype hclass f hf
      rw [h.struct?_eq] at htype
      exact ih (hdepth type htype hclass f hf)
  exact fun id ↦ (hnests (ht id)).mono (Nat.succ_le_succ h.size_le)

theorem Spans.wellFormed (h : Spans t t') (ht : t.WellFormed) : t'.WellFormed := by
  induction h with
  | refl => exact ht
  | tail _ hstep ih =>
    obtain ⟨element, readonly, -, rfl⟩ := hstep
    exact ih.span element readonly

/-- The ids of a table in the tables that grow out of it; what is not in it is the error type. -/
def keep (t : TypeTable) (id : TypeId) : TypeId := if id < t.size then id else error

theorem keep_of_lt (h : id < t.size) : t.keep id = id := if_pos h

theorem builtin_le (t : TypeTable) : builtin.length ≤ t.size :=
  (size_eq t).symm ▸ Nat.le_add_right _ _

theorem error_lt (t : TypeTable) : error < t.size :=
  Nat.lt_of_lt_of_le (by decide) t.builtin_le

theorem Spans.embeds (h : Spans t t') (hwell : t.WellFormed) (hsound : t.Sound)
    (hfinite : t.Finite) : Embeds t.keep t t' where
  wellFormed := hwell
  source := hsound
  target := h.sound hsound
  sourceFinite := hfinite
  targetFinite := h.finite hfinite
  builtin id hid := keep_of_lt (Nat.lt_of_lt_of_le hid t.builtin_le)
  lt id := by
    unfold keep
    split
    · rename_i hlt
      exact Nat.lt_of_lt_of_le hlt h.size_le
    · exact t'.error_lt
  get id := by
    rcases Nat.lt_or_ge id t.size with hlt | hge
    · have hrename : (t.get id).rename t.keep = (t.get id).rename fun id ↦ id :=
        TypeData.rename_congr fun ref href ↦ keep_of_lt (hsound.closed id ref href)
      rw [keep_of_lt hlt, h.get_eq hlt, hrename, TypeData.rename_id]
    · have hkeep : t.keep id = error := if_neg (Nat.not_lt.2 hge)
      rw [hkeep, h.get_eq t.error_lt, get_eq_error hge, get_of_lt t (by decide)]
      rfl
  lookup name := by
    rw [h.lookup_eq]
    cases hfound : t.lookup name with
    | none => rfl
    | some found => rw [Option.map_some, keep_of_lt (lt_of_lookup hfound)]

/-- A span is interned on both sides of an embedding. -/
theorem Embeds.span {ρ : TypeId → TypeId} (h : Embeds ρ t t') {element : TypeId} {readonly : Bool}
    (helement : element < t.size) :
    ∃ σ, Embeds σ (t.span element readonly).2 (t'.span (ρ element) readonly).2 := by
  have hsource : SpanStep t (t.span element readonly).2 := ⟨element, readonly, helement, rfl⟩
  have htarget : SpanStep t' (t'.span (ρ element) readonly).2 :=
    ⟨ρ element, readonly, h.lt element, rfl⟩
  have hspan := get_span_fst t' (ρ element) readonly
  have hlt := span_lt t' (ρ element) readonly
  generalize (t'.span (ρ element) readonly).1 = span at hspan hlt
  generalize (t'.span (ρ element) readonly).2 = u at htarget hspan hlt
  let σ (id : TypeId) : TypeId := if id = t.size then span else ρ id
  have hσ : ∀ id < t.size, σ id = ρ id := fun id hid ↦ if_neg (Nat.ne_of_lt hid)
  have hget (id : TypeId) : u.get (ρ id) = (t.get id).rename σ := by
    rw [htarget.get_eq (h.lt id), h.get]
    exact TypeData.rename_congr fun ref href ↦ (hσ ref (h.source.closed id ref href)).symm
  have hlookup (name : String) : u.lookup name = (t.lookup name).map σ := by
    rw [htarget.lookup_eq, h.lookup]
    cases hfound : t.lookup name with
    | none => rfl
    | some found => rw [Option.map_some, Option.map_some, hσ found (lt_of_lookup hfound)]
  have hbuiltin : ∀ id < TypeTable.builtin.length, σ id = id := fun id hid ↦ by
    rw [hσ id (Nat.lt_of_lt_of_le hid t.builtin_le), h.builtin id hid]
  have hfinite : u.Finite := Spans.finite (.single htarget) h.targetFinite
  rcases span_cases t element readonly with ⟨-, heq⟩ | ⟨-, heq⟩
  · rw [heq]
    refine ⟨ρ, ?_⟩
    exact {
      wellFormed := h.wellFormed
      source := h.source
      target := htarget.sound h.target
      sourceFinite := h.sourceFinite
      targetFinite := hfinite
      builtin := h.builtin
      lt := fun id ↦ Nat.lt_of_lt_of_le (h.lt id) htarget.size_le
      get := fun id ↦ by rw [htarget.get_eq (h.lt id), h.get]
      lookup := fun name ↦ by rw [htarget.lookup_eq, h.lookup] }
  · refine ⟨σ, ?_⟩
    exact {
      wellFormed := h.wellFormed.span element readonly
      source := hsource.sound h.source
      target := htarget.sound h.target
      sourceFinite := Spans.finite (.single hsource) h.sourceFinite
      targetFinite := hfinite
      builtin := hbuiltin
      lt := fun id ↦ by
        change (if id = t.size then span else ρ id) < u.size
        split
        · exact hlt
        · exact Nat.lt_of_lt_of_le (h.lt id) htarget.size_le
      get := fun id ↦ by
        change u.get (if id = t.size then span else ρ id) = _
        rw [heq, get_push]
        split
        · rw [hspan, TypeData.rename, hσ element helement]
        · exact hget id
      lookup := fun name ↦ by rw [hsource.lookup_eq, hlookup] }

/-- What two tables added to the same table fits into one table. -/
theorem Spans.exists_union (h : Spans base t) (h' : Spans base t') (hwell : base.WellFormed)
    (hsound : base.Sound) (hfinite : base.Finite) :
    ∃ u ρ, Spans t u ∧ Embeds ρ t' u := by
  induction h' with
  | refl => exact ⟨t, base.keep, .refl, h.embeds hwell hsound hfinite⟩
  | tail _ hstep ih =>
    obtain ⟨u, ρ, hspans, hembeds⟩ := ih
    obtain ⟨element, readonly, helement, rfl⟩ := hstep
    obtain ⟨σ, hσ⟩ := hembeds.span helement
    exact ⟨_, σ, hspans.tail ⟨ρ element, readonly, hembeds.lt element, rfl⟩, hσ⟩

end TypeTable

end InlineArrays
