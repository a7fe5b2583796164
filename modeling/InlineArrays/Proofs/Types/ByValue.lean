import InlineArrays.Machine.Default
import InlineArrays.Proofs.Types.Nesting
import InlineArrays.Proofs.Types.Union
import Mathlib.Data.Finset.Card
import Mathlib.Logic.Relation

/-!
# Types that contain each other by value

A plain struct holds the types of its fields and an inline array that of its elements; classes and
spans hold nothing.  Following parts for as many rounds as a table has types finds all that a type
contains.  If none contains itself, then containment is well-founded, and what recurses along it
ends: default values are what their types say, to any depth.
-/

namespace InlineArrays.TypeTable

variable {t t' : TypeTable} {id outer inner start : TypeId}

/-- A value of type `outer` has one of type `inner` in place, as a field or an element. -/
inductive HoldsByValue (t : TypeTable) : TypeId → TypeId → Prop
  | field {outer : TypeId} {type : StructType} {f : Field} (hstruct : t.struct? outer = some type)
      (hclass : type.isClass = false) (hf : f ∈ type.fields) : HoldsByValue t outer f.type
  | element {outer : TypeId} {array : ArrayType} (harray : t.array? outer = some array) :
      HoldsByValue t outer array.element

/-- Values of the type contain values of the type, at any depth. -/
def HoldsItself (t : TypeTable) (id : TypeId) : Prop := Relation.TransGen t.HoldsByValue id id

theorem holdsByValue_iff_hasPart : t.HoldsByValue outer inner ↔ t.HasPart outer inner := by
  constructor
  · rintro (⟨hstruct, hclass, hf⟩ | harray)
    · exact Holds.mem_parts ⟨_, hstruct, hclass, _, hf, rfl⟩
    · rw [HasPart, parts_of_array? harray]
      exact List.mem_singleton_self _
  · intro h
    unfold HasPart parts at h
    split at h
    · rename_i type hget
      split at h
      · cases h
      · rename_i hclass
        obtain ⟨f, hf, rfl⟩ := List.mem_map.1 h
        exact .field (by rw [struct?, hget]) (by simpa using hclass) hf
    · rename_i array hget
      obtain rfl := List.mem_singleton.1 h
      exact .element (by rw [array?, hget])
    · cases h

/-! ## What is found by following parts -/

theorem transGen_of_mem_closeParts {rounds : Nat} (h : id ∈ t.closeParts rounds (t.parts start)) :
    Relation.TransGen t.HasPart start id := by
  induction rounds generalizing id with
  | zero => exact .single h
  | succ rounds ih =>
    rw [closeParts_succ] at h
    rcases mem_addParts.1 h with h | ⟨outer, houter, hpart⟩
    · exact ih h
    · exact (ih houter).tail hpart

theorem exists_mem_closeParts (h : Relation.TransGen t.HasPart start id) :
    ∃ rounds, id ∈ t.closeParts rounds (t.parts start) := by
  induction h with
  | single hpart => exact ⟨0, hpart⟩
  | tail _ hpart ih =>
    obtain ⟨rounds, hrounds⟩ := ih
    refine ⟨rounds + 1, ?_⟩
    rw [closeParts_succ]
    exact mem_addParts.2 (.inr ⟨_, hrounds, hpart⟩)

/-- Once a round finds nothing new, no later one does. -/
theorem closeParts_subset_of_stable {k : Nat} {found : List TypeId}
    (hstable : t.closeParts (k + 1) found ⊆ t.closeParts k found) (rounds : Nat) :
    t.closeParts rounds found ⊆ t.closeParts k found := by
  induction rounds with
  | zero => exact closeParts_subset (Nat.zero_le k) found
  | succ rounds ih =>
    intro id hid
    rw [closeParts_succ] at hid
    rcases mem_addParts.1 hid with hid | ⟨outer, houter, hpart⟩
    · exact ih hid
    · apply hstable
      rw [closeParts_succ]
      exact mem_addParts.2 (.inr ⟨outer, ih houter, hpart⟩)

theorem lt_of_mem_parts (hclosed : ∀ id, ∀ ref ∈ (t.get id).refs, ref < t.size)
    (h : inner ∈ t.parts outer) : inner < t.size := by
  apply hclosed outer
  unfold parts at h
  split at h
  · rename_i type hget
    split at h
    · cases h
    · rwa [hget]
  · rename_i array hget
    rwa [hget]
  · cases h

/-- One of the first rounds, as many as there are types, finds nothing new. -/
theorem exists_stable (hclosed : ∀ id, ∀ ref ∈ (t.get id).refs, ref < t.size) (start : TypeId) :
    ∃ k ≤ t.size, t.closeParts (k + 1) (t.parts start) ⊆ t.closeParts k (t.parts start) := by
  by_contra hnone
  push Not at hnone
  let found (k : Nat) : Finset TypeId := (t.closeParts k (t.parts start)).toFinset
  have hbound (k : Nat) : found k ⊆ Finset.range t.size := by
    intro id hid
    obtain ⟨outer, -, hpart⟩ :=
      Relation.TransGen.tail'_iff.1 (transGen_of_mem_closeParts (List.mem_toFinset.1 hid))
    exact Finset.mem_range.2 (lt_of_mem_parts hclosed hpart)
  have hgrows (k : Nat) (hk : k ≤ t.size + 1) : k ≤ (found k).card := by
    induction k with
    | zero => exact Nat.zero_le _
    | succ k ih =>
      have hk' : k ≤ t.size := Nat.le_of_succ_le_succ hk
      have hstrict : found k ⊂ found (k + 1) := by
        refine ⟨fun id hid ↦ ?_, fun hback ↦ hnone k hk' fun id hid ↦ ?_⟩
        · exact List.mem_toFinset.2
            (closeParts_subset (Nat.le_succ k) _ (List.mem_toFinset.1 hid))
        · exact List.mem_toFinset.1 (hback (List.mem_toFinset.2 hid))
      exact Nat.lt_of_le_of_lt (ih (Nat.le_succ_of_le hk')) (Finset.card_lt_card hstrict)
  have hmany := hgrows (t.size + 1) (Nat.le_refl _)
  have hfew := Finset.card_le_card (hbound (t.size + 1))
  rw [Finset.card_range] at hfew
  exact absurd (Nat.le_trans hmany hfew) (Nat.not_succ_le_self _)

/-- A type is found to contain itself exactly if it does. -/
theorem containsItself_iff (hclosed : ∀ id, ∀ ref ∈ (t.get id).refs, ref < t.size) :
    t.containsItself id = true ↔ t.HoldsItself id := by
  have hrelation : t.HoldsByValue = t.HasPart := by
    funext outer inner
    exact propext holdsByValue_iff_hasPart
  rw [containsItself, List.contains_iff_mem, HoldsItself, hrelation]
  refine ⟨transGen_of_mem_closeParts, fun h ↦ ?_⟩
  obtain ⟨rounds, hrounds⟩ := exists_mem_closeParts h
  obtain ⟨k, hk, hstable⟩ := exists_stable hclosed id
  exact closeParts_subset hk _ (closeParts_subset_of_stable hstable rounds hrounds)

/-! ## Where nothing contains itself -/

/-- Each chain of types below the type, each holding the next, is shorter. -/
def Shallow (t : TypeTable) (depth : Nat) (id : TypeId) : Prop :=
  ∀ chain, (id :: chain).IsChain t.HasPart → chain.length < depth

theorem Shallow.pos {depth : Nat} (h : t.Shallow depth id) : 0 < depth := h [] (.singleton id)

theorem Shallow.part {depth : Nat} (h : t.Shallow (depth + 1) outer) (hpart : t.HasPart outer inner) :
    t.Shallow depth inner := fun chain hchain ↦
  Nat.lt_of_succ_lt_succ (h (inner :: chain) (.cons_cons hpart hchain))

theorem lt_of_mem_chain (hclosed : ∀ id, ∀ ref ∈ (t.get id).refs, ref < t.size)
    {chain : List TypeId} (hchain : (start :: chain).IsChain t.HasPart) : ∀ id ∈ chain, id < t.size := by
  induction chain generalizing start with
  | nil => exact nofun
  | cons inner chain ih =>
    obtain ⟨hpart, hchain⟩ := List.isChain_cons_cons.1 hchain
    exact List.forall_mem_cons.2 ⟨lt_of_mem_parts hclosed hpart, ih hchain⟩

theorem shallow_of_not_containsItself (hclosed : ∀ id, ∀ ref ∈ (t.get id).refs, ref < t.size)
    (hnone : ∀ id, t.containsItself id = false) (id : TypeId) : t.Shallow t.size id := by
  intro chain hchain
  by_contra hlong
  have hmem : ∀ other ∈ id :: chain, other < t.size := by
    refine List.forall_mem_cons.2 ⟨lt_size fun hget ↦ ?_, lt_of_mem_chain hclosed hchain⟩
    cases chain with
    | nil => exact hlong (Nat.lt_of_lt_of_le (by decide) t.builtin_le)
    | cons inner chain =>
      have hpart := (List.isChain_cons_cons.1 hchain).1
      rw [HasPart, parts, hget] at hpart
      cases hpart
  obtain ⟨other, -, hcontains⟩ := exists_containsItself (hchain.take (t.size + 1))
    (fun other hother ↦ hmem other (List.mem_of_mem_take hother))
    (by rw [List.length_take, List.length_cons]; omega)
  rw [hnone other] at hcontains
  cases hcontains

theorem Shallow.acc {depth : Nat} (h : t.Shallow depth id) :
    Acc (fun inner outer ↦ t.HoldsByValue outer inner) id := by
  induction depth generalizing id with
  | zero => exact absurd h.pos (Nat.lt_irrefl 0)
  | succ depth ih => exact .intro id fun inner h' ↦ ih (h.part (holdsByValue_iff_hasPart.1 h'))

/-! ## Default values -/

/-- The default value of a type, from those of the types that it holds. -/
def defaultFrom (inner : TypeId → Value) : TypeData → Value
  | .int | .dynamic => .int 0
  | .bool => .bool false
  | .string | .error => .null
  | .index => .index ⟨0, false⟩
  | .range => .range ⟨0, false⟩ ⟨0, true⟩
  | .array type => .array (List.replicate type.length (inner type.element))
  | .struct type =>
    if type.isClass then .null else .struct (type.fields.map fun f ↦ (f.name, inner f.type))
  | .span _ readonly => .span { readonly }

theorem defaultWithin_succ (t : TypeTable) (depth : Nat) (id : TypeId) :
    defaultWithin t (depth + 1) id = defaultFrom (defaultWithin t depth) (t.get id) := by
  rw [defaultWithin]
  cases t.get id <;> rfl

theorem defaultFrom_congr {f g : TypeId → Value}
    (h : ∀ inner, t.HoldsByValue id inner → f inner = g inner) :
    defaultFrom f (t.get id) = defaultFrom g (t.get id) := by
  cases hget : t.get id with
  | array type =>
    rw [defaultFrom, defaultFrom, h type.element (.element (by rw [array?, hget]))]
  | struct type =>
    rw [defaultFrom, defaultFrom]
    split
    · rfl
    · rename_i hclass
      refine congrArg Value.struct (List.map_congr_left fun field hfield ↦ ?_)
      rw [h field.type (.field (by rw [struct?, hget]) (by simpa using hclass) hfield)]
  | _ => rfl

/-- Looking deeper than chains of types go does not change a default value. -/
theorem Shallow.defaultWithin_eq {depth depth' : Nat} (h : t.Shallow depth id) (hle : depth ≤ depth') :
    defaultWithin t depth' id = defaultWithin t depth id := by
  induction depth generalizing id depth' with
  | zero => exact absurd h.pos (Nat.lt_irrefl 0)
  | succ depth ih =>
    obtain ⟨depth', rfl⟩ := Nat.exists_eq_add_of_le' (Nat.le_trans (Nat.le_add_left 1 depth) hle)
    rw [defaultWithin_succ, defaultWithin_succ]
    exact defaultFrom_congr fun inner hholds ↦
      ih (h.part (holdsByValue_iff_hasPart.1 hholds)) (Nat.le_of_succ_le_succ hle)

theorem Shallow.defaultValue_eq (h : t.Shallow t.size id) :
    defaultValue t id = defaultFrom (defaultValue t) (t.get id) := by
  calc defaultValue t id
    _ = defaultWithin t (t.size + 1) id := (h.defaultWithin_eq (Nat.le_succ _)).symm
    _ = defaultFrom (defaultValue t) (t.get id) := defaultWithin_succ t t.size id

end InlineArrays.TypeTable
