import InlineArrays.Proofs.Types.Table
import InlineArrays.Types.Containment
import Mathlib.Data.List.Chain
import Mathlib.Data.List.Perm.Subperm

/-!
# Types inside types

A chain of types, each holding the next in place, comes back to one of its own if it is longer than the
table.  Where no struct contains itself, structs nest no deeper than the table has types.
-/

namespace InlineArrays.TypeTable

variable {t : TypeTable} {id : TypeId}

/-- A struct of type `outer` has a field of type `inner` in place. -/
def Holds (t : TypeTable) (outer inner : TypeId) : Prop :=
  ∃ type, t.struct? outer = some type ∧ type.isClass = false ∧ ∃ f ∈ type.fields, f.type = inner

theorem get_of_struct? {type : StructType} (h : t.struct? id = some type) :
    t.get id = .struct type := by
  unfold struct? at h
  split at h
  · rwa [← Option.some.inj h]
  · cases h

theorem Holds.mem_parts {outer inner : TypeId} (h : t.Holds outer inner) : inner ∈ t.parts outer := by
  obtain ⟨type, htype, hclass, f, hf, rfl⟩ := h
  simpa [parts, get_of_struct? htype, hclass] using ⟨f, hf, rfl⟩

/-! ## What is found by following parts -/

/-- The types of a set and the parts of them. -/
def addParts (t : TypeTable) (found : List TypeId) : List TypeId :=
  (found.flatMap t.parts).foldl
    (fun found id ↦ if found.contains id then found else found ++ [id]) found

theorem mem_insertAll (l found : List TypeId) :
    id ∈ l.foldl (fun found id ↦ if found.contains id then found else found ++ [id]) found ↔
      id ∈ found ∨ id ∈ l := by
  induction l generalizing found with
  | nil => simp
  | cons other l ih =>
    rw [List.foldl_cons, ih]
    split
    · rename_i hmem
      have hmem : other ∈ found := by simpa using hmem
      constructor
      · rintro (h | h)
        · exact .inl h
        · exact .inr (List.mem_cons_of_mem _ h)
      · rintro (h | h)
        · exact .inl h
        · rcases List.mem_cons.1 h with rfl | h
          · exact .inl hmem
          · exact .inr h
    · rw [List.mem_append, List.mem_singleton, List.mem_cons, or_assoc]

theorem mem_addParts {found : List TypeId} :
    id ∈ t.addParts found ↔ id ∈ found ∨ ∃ outer ∈ found, id ∈ t.parts outer := by
  rw [addParts, mem_insertAll, List.mem_flatMap]

theorem closeParts_succ (rounds : Nat) (found : List TypeId) :
    t.closeParts (rounds + 1) found = t.addParts (t.closeParts rounds found) := by
  induction rounds generalizing found with
  | zero => rfl
  | succ rounds ih => exact ih (t.addParts found)

theorem closeParts_subset {rounds rounds' : Nat} (h : rounds ≤ rounds') (found : List TypeId) :
    t.closeParts rounds found ⊆ t.closeParts rounds' found := by
  induction h with
  | refl => exact List.Subset.refl _
  | step _ ih =>
    intro id hid
    rw [closeParts_succ]
    exact mem_addParts.2 (.inl (ih hid))

/-- A value of type `outer` holds one of type `inner` in place. -/
def HasPart (t : TypeTable) (outer inner : TypeId) : Prop := inner ∈ t.parts outer

/-- What is reached along a chain is found in as many rounds as the chain is long. -/
theorem mem_closeParts {chain : List TypeId} (hchain : chain.IsChain t.HasPart) {first : Nat}
    (steps : Nat) {start last : TypeId} (hstart : chain[first]? = some start)
    (hlast : chain[first + (steps + 1)]? = some last) :
    last ∈ t.closeParts steps (t.parts start) := by
  have hpart {i : Nat} {outer inner : TypeId} (houter : chain[i]? = some outer)
      (hinner : chain[i + 1]? = some inner) : inner ∈ t.parts outer := by
    obtain ⟨hi, rfl⟩ := List.getElem?_eq_some_iff.1 hinner
    obtain ⟨-, rfl⟩ := List.getElem?_eq_some_iff.1 houter
    exact List.isChain_iff_getElem.1 hchain i hi
  induction steps generalizing last with
  | zero => exact hpart hstart hlast
  | succ steps ih =>
    obtain ⟨hbound, -⟩ := List.getElem?_eq_some_iff.1 hlast
    have hmid : chain[first + (steps + 1)]? = some chain[first + (steps + 1)] :=
      List.getElem?_eq_getElem (by omega)
    rw [closeParts_succ]
    exact mem_addParts.2 (.inr ⟨_, ih hmid, hpart hmid hlast⟩)

/-- A chain longer than the table leads through a type that contains itself. -/
theorem exists_containsItself {chain : List TypeId} (hchain : chain.IsChain t.HasPart)
    (hsize : ∀ id ∈ chain, id < t.size) (hlength : chain.length = t.size + 1) :
    ∃ id ∈ chain, t.containsItself id := by
  have hdup : ¬ chain.Nodup := by
    intro hnodup
    have hsubset : chain ⊆ List.range t.size := fun id hid ↦ List.mem_range.2 (hsize id hid)
    have hle := (List.subperm_of_subset hnodup hsubset).length_le
    rw [List.length_range, hlength] at hle
    omega
  rw [List.Nodup, List.pairwise_iff_getElem] at hdup
  push Not at hdup
  obtain ⟨i, j, hi, hj, hij, heq⟩ := hdup
  refine ⟨chain[i], List.getElem_mem hi, ?_⟩
  obtain ⟨steps, rfl⟩ := Nat.exists_eq_add_of_lt hij
  have hagain : chain[i + (steps + 1)]? = some chain[i] := by
    rw [heq]
    exact List.getElem?_eq_getElem hj
  have hmem := mem_closeParts hchain steps (List.getElem?_eq_getElem hi) hagain
  rw [containsItself, List.contains_iff_mem]
  refine closeParts_subset ?_ _ hmem
  omega

/-! ## Inline arrays -/

/-- Inline arrays stand after the types of their elements. -/
def Layered (t : TypeTable) : Prop := ∀ id array, t.array? id = some array → array.element < id

/-- From nothing nothing is found. -/
theorem closeParts_nil (rounds : Nat) : t.closeParts rounds [] = [] := by
  induction rounds with
  | zero => rfl
  | succ rounds ih => exact ih

/-- What is found from one type is that type, or is found from its parts in fewer rounds. -/
theorem mem_closeParts_singleton {rounds : Nat} {start : TypeId}
    (h : id ∈ t.closeParts rounds [start]) :
    id = start ∨ ∃ fewer < rounds, id ∈ t.closeParts fewer (t.parts start) := by
  induction rounds generalizing id with
  | zero => exact .inl (List.mem_singleton.1 h)
  | succ rounds ih =>
    rw [closeParts_succ] at h
    rcases mem_addParts.1 h with h | ⟨outer, houter, hpart⟩
    · exact (ih h).imp_right fun ⟨fewer, hfewer, hmem⟩ ↦ ⟨fewer, by omega, hmem⟩
    · refine .inr ?_
      rcases ih houter with rfl | ⟨fewer, hfewer, hmem⟩
      · exact ⟨0, by omega, hpart⟩
      · refine ⟨fewer + 1, by omega, ?_⟩
        rw [closeParts_succ]
        exact mem_addParts.2 (.inr ⟨outer, hmem, hpart⟩)

theorem parts_of_array? {array : ArrayType} (h : t.array? id = some array) :
    t.parts id = [array.element] := by
  rw [parts, get_of_array? h]

/-- An inline array can only contain itself through its elements. -/
theorem containsItself_element (ht : t.Layered) {array : ArrayType} (harray : t.array? id = some array)
    (h : t.containsItself id = true) : t.containsItself array.element = true := by
  rw [containsItself, List.contains_iff_mem, parts_of_array? harray] at h
  rcases mem_closeParts_singleton h with heq | ⟨fewer, hfewer, hmem⟩
  · exact absurd heq (Nat.ne_of_gt (ht id array harray))
  · have hback : array.element ∈ t.closeParts (fewer + 1) (t.parts array.element) := by
      rw [closeParts_succ]
      exact mem_addParts.2 (.inr ⟨id, hmem, by simp [parts_of_array? harray]⟩)
    rw [containsItself, List.contains_iff_mem]
    exact closeParts_subset hfewer _ hback

/-- Where no struct contains itself, nothing does. -/
theorem containsItself_eq_false (ht : t.Layered)
    (hstructs : ∀ id, (t.struct? id).isSome → t.containsItself id = false) (id : TypeId) :
    t.containsItself id = false := by
  induction id using Nat.strong_induction_on with
  | _ id ih =>
    cases hdata : t.get id with
    | struct type => exact hstructs id (by rw [struct?, hdata]; rfl)
    | array array =>
      have harray : t.array? id = some array := by rw [array?, hdata]
      rw [Bool.eq_false_iff]
      intro h
      have helement := containsItself_element ht harray h
      rw [ih _ (ht id array harray)] at helement
      cases helement
    | _ =>
      rw [containsItself, parts, hdata]
      dsimp only
      rw [closeParts_nil]
      rfl

/-! ## Depth -/

/-- Structs nest at most so deep in the type. -/
def NestsWithin (t : TypeTable) : Nat → TypeId → Prop
  | 0, _ => False
  | depth + 1, id => ∀ type, t.struct? id = some type → type.isClass = false →
      ∀ f ∈ type.fields, NestsWithin t depth f.type

theorem NestsWithin.succ {depth : Nat} (h : t.NestsWithin depth id) :
    t.NestsWithin (depth + 1) id := by
  induction depth generalizing id with
  | zero => cases h
  | succ depth ih => exact fun type htype hclass f hf ↦ ih (h type htype hclass f hf)

theorem NestsWithin.mono {depth depth' : Nat} (h : t.NestsWithin depth id) (hle : depth ≤ depth') :
    t.NestsWithin depth' id := by
  induction hle with
  | refl => exact h
  | step _ ih => exact ih.succ

/-- Where structs nest deeper, there is a chain of them. -/
theorem exists_chain_of_not_nestsWithin {depth : Nat} (h : ¬ t.NestsWithin (depth + 1) id) :
    ∃ chain : List TypeId, chain.length = depth ∧ (id :: chain).IsChain t.Holds ∧
      ∀ id' ∈ id :: chain, (t.struct? id').isSome := by
  induction depth generalizing id with
  | zero =>
    refine ⟨[], rfl, .singleton id, ?_⟩
    rw [NestsWithin] at h
    push Not at h
    obtain ⟨type, htype, -⟩ := h
    simp [htype]
  | succ depth ih =>
    rw [NestsWithin] at h
    push Not at h
    obtain ⟨type, htype, hclass, f, hf, hfield⟩ := h
    obtain ⟨chain, hlength, hchain, hstructs⟩ := ih hfield
    refine ⟨f.type :: chain, by simp [hlength], .cons_cons ⟨type, htype, hclass, f, hf, rfl⟩ hchain, ?_⟩
    intro id' hid'
    rcases List.mem_cons.1 hid' with rfl | hid'
    · simp [htype]
    · exact hstructs id' hid'

/-- Structs nest no deeper than the table has types. -/
def Finite (t : TypeTable) : Prop := ∀ id, t.NestsWithin (t.size + 1) id

theorem finite_of_not_containsItself
    (h : ∀ id, (t.struct? id).isSome → t.containsItself id = false) : t.Finite := by
  intro id
  by_contra hdeep
  obtain ⟨chain, hlength, hchain, hstructs⟩ := exists_chain_of_not_nestsWithin hdeep
  have hsize : ∀ id' ∈ id :: chain, id' < t.size := by
    intro id' hid'
    obtain ⟨type, htype⟩ := Option.isSome_iff_exists.1 (hstructs id' hid')
    apply lt_size
    rw [get_of_struct? htype]
    nofun
  obtain ⟨id', hid', hcontains⟩ := exists_containsItself (hchain.imp fun _ _ ↦ Holds.mem_parts)
    hsize (by rw [List.length_cons, hlength])
  rw [h id' (hstructs id' hid')] at hcontains
  cases hcontains

end InlineArrays.TypeTable
