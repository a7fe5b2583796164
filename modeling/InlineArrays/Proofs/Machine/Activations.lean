import InlineArrays.Proofs.Machine.Isolation
import InlineArrays.Proofs.Machine.StoreLaws

/-!
# The stack of activations

Memory changes with the activations as they are, with one more on top or with the one on top gone.
Each of these changes keeps their numbers in order and their number within bounds, and brings no
number back: once an activation is gone, nothing is found at its roots.
-/

namespace InlineArrays

namespace Memory

/-- The numbers of the activations on the stack, the running one first. -/
def ids (m : Memory) : List Nat := m.frames.map (·.id)

/-- What a change of memory may do to the stack. -/
inductive Moves (m m' : Memory) : Prop
  | stays (ids : m'.ids = m.ids) (next : m.nextFrame ≤ m'.nextFrame)
  | push (ids : m'.ids = m.nextFrame :: m.ids) (next : m.nextFrame < m'.nextFrame)
      (room : m.frames.length < maxCallDepth)
  | pop (ids : m'.ids = m.ids.tail) (next : m.nextFrame ≤ m'.nextFrame)

/-- The numbers on the stack grow to its top and are below the next one, and there are not too many
activations. -/
structure Stacked (m : Memory) : Prop where
  increasing : m.ids.Pairwise fun above below ↦ below < above
  numbered : ∀ id ∈ m.ids, id < m.nextFrame
  bounded : m.frames.length ≤ maxCallDepth

/-- What `m` may have become: the numbers that it has not reached are still ahead, and of the others
only those on its stack are on the stack. -/
structure Precedes (m m' : Memory) : Prop where
  next : m.nextFrame ≤ m'.nextFrame
  kept : ∀ id ∈ m'.ids, id < m.nextFrame → id ∈ m.ids

variable {m m' m'' : Memory} {id : Nat} {a : Address}

theorem length_ids (m : Memory) : m.ids.length = m.frames.length := List.length_map _

theorem Stacked.start : ({} : Memory).Stacked := ⟨.nil, nofun, Nat.zero_le _⟩

theorem Moves.stacked (h : m.Moves m') (hm : m.Stacked) : m'.Stacked := by
  cases h with
  | stays ids next =>
    refine ⟨ids ▸ hm.increasing, fun id hid ↦ ?_, ?_⟩
    · exact Nat.lt_of_lt_of_le (hm.numbered id (ids ▸ hid)) next
    · rw [← length_ids, ids, length_ids]
      exact hm.bounded
  | push ids next room =>
    refine ⟨?_, fun id hid ↦ ?_, ?_⟩
    · rw [ids]
      exact .cons hm.numbered hm.increasing
    · rw [ids] at hid
      rcases List.mem_cons.1 hid with rfl | hid
      · exact next
      · exact Nat.lt_trans (hm.numbered id hid) next
    · rw [← length_ids, ids, List.length_cons, length_ids]
      exact room
  | pop ids next =>
    refine ⟨ids ▸ hm.increasing.tail, fun id hid ↦ ?_, ?_⟩
    · exact Nat.lt_of_lt_of_le (hm.numbered id (List.mem_of_mem_tail (ids ▸ hid))) next
    · rw [← length_ids, ids, List.length_tail, length_ids]
      exact Nat.le_trans (Nat.sub_le _ _) hm.bounded

theorem Moves.precedes (h : m.Moves m') : m.Precedes m' := by
  cases h with
  | stays ids next => exact ⟨next, fun id hid _ ↦ ids ▸ hid⟩
  | push ids next =>
    refine ⟨next.le, fun id hid hlt ↦ ?_⟩
    rw [ids] at hid
    exact (List.mem_cons.1 hid).resolve_left hlt.ne
  | pop ids next => exact ⟨next, fun id hid _ ↦ List.mem_of_mem_tail (ids ▸ hid)⟩

theorem Precedes.refl (m : Memory) : m.Precedes m := ⟨Nat.le_refl _, fun _ hid _ ↦ hid⟩

theorem Precedes.trans (h : m.Precedes m') (h' : m'.Precedes m'') : m.Precedes m'' where
  next := Nat.le_trans h.next h'.next
  kept id hid hlt := h.kept id (h'.kept id hid (Nat.lt_of_lt_of_le hlt h.next)) hlt

/-- A number that has been on the stack and is gone does not come back. -/
theorem Precedes.not_mem (h : m.Precedes m') (h' : m'.Precedes m'') (hm : m.Stacked)
    (hid : id ∈ m.ids) (hgone : id ∉ m'.ids) : id ∉ m''.ids := fun hback ↦
  hgone (h'.kept id hback (Nat.lt_of_lt_of_le (hm.numbered id hid) h.next))

/-- Nothing is found at an address: it has no storage, and reading and writing fail. -/
structure Dangles (m : Memory) (a : Address) : Prop where
  root : m.root? a.root = none
  read : Run.read a m = .error .danglingReference m
  write : ∀ value, Run.write a value m = .error .danglingReference m

theorem frame?_eq_none : m.frame? id = none ↔ id ∉ m.ids := by
  simp [frame?, ids]

/-- The address of an activation that is not on the stack dangles. -/
theorem dangles_of_not_mem (ha : a.root.InFrame id) (hid : id ∉ m.ids) : m.Dangles a := by
  have hframe : m.frame? id = none := frame?_eq_none.2 hid
  have hroot : m.root? a.root = none := by
    obtain ⟨root, path⟩ := a
    cases root with
    | slot frame target =>
      obtain rfl : frame = id := ha
      simp [root?, hframe]
    | temp frame temp =>
      obtain rfl : frame = id := ha
      simp [root?, hframe]
    | heap cell => cases ha
  refine ⟨hroot, Run.read_of_error ?_, fun value ↦ Run.write_of_error ?_⟩
  · rw [Memory.read, hroot]
  · rw [Memory.write, hroot]

/-! ## Sequences of changes -/

/-- From `m` through these memories, the last of which is `m'`. -/
inductive Leads : Memory → List Memory → Memory → Prop
  | nil (m : Memory) : Leads m [] m
  | cons {m m₁ m' : Memory} {moments : List Memory} (move : m.Moves m₁)
      (rest : Leads m₁ moments m') : Leads m (m₁ :: moments) m'

namespace Leads

variable {moments moments' : List Memory}

theorem single (h : m.Moves m') : Leads m [m'] m' := .cons h (.nil m')

theorem append (h : Leads m moments m') (h' : Leads m' moments' m'') :
    Leads m (moments ++ moments') m'' := by
  induction h with
  | nil => exact h'
  | cons move _ ih => exact .cons move (ih h')

theorem stacked (h : Leads m moments m') (hm : m.Stacked) : ∀ m₁ ∈ moments, m₁.Stacked := by
  induction h with
  | nil => exact nofun
  | cons move _ ih =>
    have hnext := move.stacked hm
    exact List.forall_mem_cons.2 ⟨hnext, ih hnext⟩

theorem precedes (h : Leads m moments m') : ∀ m₁ ∈ moments, m.Precedes m₁ := by
  induction h with
  | nil => exact nofun
  | cons move _ ih =>
    exact List.forall_mem_cons.2
      ⟨move.precedes, fun m₁ hmem ↦ move.precedes.trans (ih m₁ hmem)⟩

theorem pairwise (h : Leads m moments m') : (m :: moments).Pairwise Precedes := by
  induction h with
  | nil => exact List.pairwise_singleton _ _
  | cons move rest ih => exact .cons (Leads.cons move rest).precedes ih

/-- What memory is at one time precedes what it is at that time or later. -/
theorem precedes_of_le (h : Leads m moments m') {i j : Nat} (hij : i ≤ j) {m₁ m₂ : Memory}
    (h₁ : (m :: moments)[i]? = some m₁) (h₂ : (m :: moments)[j]? = some m₂) : m₁.Precedes m₂ := by
  obtain ⟨hi, rfl⟩ := List.getElem?_eq_some_iff.1 h₁
  obtain ⟨hj, rfl⟩ := List.getElem?_eq_some_iff.1 h₂
  rcases Nat.eq_or_lt_of_le hij with rfl | hlt
  · exact .refl _
  · exact List.pairwise_iff_getElem.1 h.pairwise i j hi hj hlt

end Leads

end Memory

end InlineArrays
