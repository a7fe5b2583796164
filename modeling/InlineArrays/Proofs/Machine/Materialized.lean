import InlineArrays.Machine.Materialize
import InlineArrays.Proofs.Machine.Values
import Mathlib.Data.List.Perm.Subperm

/-!
# Materializing without a bound

Materializing follows references at most so deep.  A value that is given up only at the bound would
be given up at any bound: along the references that lead to where it is given up no value comes back,
every second one is stored, and there are no more of these than the bound provides for.  So
materializing is the recursion over what a value refers to or is made of, and the bound shows nowhere.
-/

namespace InlineArrays

/-! ## Values stored -/

namespace Value

mutual

/-- A value and all values in it. -/
def parts : Value → List Value
  | .struct fields => .struct fields :: fieldParts fields
  | .array items => .array items :: itemParts items
  | v => [v]

def fieldParts : List (String × Value) → List Value
  | [] => []
  | (_, value) :: fields => value.parts ++ fieldParts fields

def itemParts : List Value → List Value
  | [] => []
  | item :: items => item.parts ++ itemParts items

end

mutual

theorem length_parts : (v : Value) → v.parts.length = v.size
  | .struct fields => by rw [parts, size, List.length_cons, length_fieldParts fields]
  | .array items => by rw [parts, size, List.length_cons, length_itemParts items]
  | .unit | .null | .int _ | .bool _ | .object _ | .address _ | .span _ | .index _ | .range .. => rfl

theorem length_fieldParts : (fields : List (String × Value)) →
    (fieldParts fields).length = fieldSizes fields
  | [] => rfl
  | (_, value) :: fields => by
    rw [fieldParts, fieldSizes, List.length_append, length_parts value, length_fieldParts fields]

theorem length_itemParts : (items : List Value) → (itemParts items).length = itemSizes items
  | [] => rfl
  | item :: items => by
    rw [itemParts, itemSizes, List.length_append, length_parts item, length_itemParts items]

end

theorem mem_parts_self (v : Value) : v ∈ v.parts := by
  cases v <;> simp [parts]

theorem size_pos (v : Value) : 0 < v.size := by
  rw [← length_parts]
  exact List.length_pos_of_mem v.mem_parts_self

theorem fieldParts_eq (fields : List (String × Value)) :
    fieldParts fields = itemParts (fields.map (·.2)) := by
  induction fields with
  | nil => rfl
  | cons field fields ih => rw [fieldParts, ih, List.map_cons, itemParts]

theorem itemParts_eq (items : List Value) : itemParts items = items.flatMap parts := by
  induction items with
  | nil => rfl
  | cons item items ih => rw [itemParts, ih, List.flatMap_cons]

/-- What a value is directly made of. -/
def children : Value → List Value
  | .struct fields => fields.map (·.2)
  | .array items => items
  | _ => []

mutual

/-- Whatever a part is made of is a part as well. -/
theorem mem_parts_of_mem_children {w u : Value} (hu : u ∈ w.children) :
    (v : Value) → w ∈ v.parts → u ∈ v.parts
  | .struct fields, h => by
    rw [parts] at h ⊢
    apply List.mem_cons_of_mem
    rcases List.mem_cons.1 h with rfl | h
    · rw [fieldParts_eq, itemParts_eq]
      exact List.mem_flatMap.2 ⟨u, hu, mem_parts_self u⟩
    · exact mem_fieldParts_of_mem_children hu fields h
  | .array items, h => by
    rw [parts] at h ⊢
    apply List.mem_cons_of_mem
    rcases List.mem_cons.1 h with rfl | h
    · rw [itemParts_eq]
      exact List.mem_flatMap.2 ⟨u, hu, mem_parts_self u⟩
    · exact mem_itemParts_of_mem_children hu items h
  | .unit, h | .null, h | .int _, h | .bool _, h | .object _, h | .address _, h | .span _, h
  | .index _, h | .range .., h => by
    rw [List.mem_singleton.1 h] at hu
    cases hu

theorem mem_fieldParts_of_mem_children {w u : Value} (hu : u ∈ w.children) :
    (fields : List (String × Value)) → w ∈ fieldParts fields → u ∈ fieldParts fields
  | [], h => nomatch h
  | (_, value) :: fields, h => by
    rw [fieldParts, List.mem_append] at h ⊢
    exact h.imp (mem_parts_of_mem_children hu value) (mem_fieldParts_of_mem_children hu fields)

theorem mem_itemParts_of_mem_children {w u : Value} (hu : u ∈ w.children) :
    (items : List Value) → w ∈ itemParts items → u ∈ itemParts items
  | [], h => nomatch h
  | item :: items, h => by
    rw [itemParts, List.mem_append] at h ⊢
    exact h.imp (mem_parts_of_mem_children hu item) (mem_itemParts_of_mem_children hu items)

end

theorem mem_children_of_child {absent : String} {v w : Value} {step : Step}
    (h : v.child absent step = .ok w) : w ∈ v.children := by
  unfold child at h
  split at h <;> split at h
  · rename_i fields
    split at h
    · rename_i field hfield
      cases h
      obtain ⟨entry, hentry, rfl⟩ := Option.map_eq_some_iff.1 hfield
      exact List.mem_map_of_mem (List.mem_of_find?_eq_some hentry)
    · cases h
  · cases h
  · cases h
  · split at h
    · rename_i item hitem
      cases h
      exact List.mem_of_getElem? hitem
    · cases h
  · cases h
  · cases h

theorem size_lt_of_mem_children {v w : Value} (h : w ∈ v.children) : w.size < v.size := by
  have hle {items : List Value} (h : w ∈ items) : w.size ≤ (itemParts items).length := by
    rw [itemParts_eq, List.flatMap_def, ← length_parts]
    exact (List.sublist_flatten_of_mem (List.mem_map_of_mem h)).length_le
  rw [← length_parts v]
  cases v with
  | struct fields =>
    rw [parts, fieldParts_eq, List.length_cons]
    exact Nat.lt_succ_of_le (hle h)
  | array items =>
    rw [parts, List.length_cons]
    exact Nat.lt_succ_of_le (hle h)
  | _ => cases h

theorem get_append (v : Value) (path rest : List Step) :
    v.get (path ++ rest) = v.get path >>= fun inner ↦ inner.get rest := by
  induction path generalizing v with
  | nil => rfl
  | cons step path ih =>
    rw [List.cons_append, get, get]
    cases v.child "struct" step with
    | error e => rfl
    | ok inner => exact ih inner

/-- Steps into values stay within what they are made of. -/
theorem get_inv {P : Value → Prop} (hP : ∀ v w, P v → w ∈ v.children → P w) {v w : Value}
    {path : List Step} (hv : P v) (h : v.get path = .ok w) : P w := by
  induction path generalizing v with
  | nil =>
    cases h
    exact hv
  | cons step path ih =>
    obtain ⟨inner, hchild, h⟩ := Except.bind_eq_ok.1 h
    exact ih (hP v inner hv (mem_children_of_child hchild)) h

end Value

namespace Memory

/-- All values that addresses may lead to, and those in them. -/
def stored (m : Memory) : List Value :=
  m.frames.flatMap (fun f ↦ Value.itemParts (f.slots.map (·.2)) ++ Value.itemParts f.temps) ++
    Value.itemParts m.heap

theorem length_stored (m : Memory) : m.stored.length = m.size := by
  unfold stored size
  induction m.frames with
  | nil => exact Value.length_itemParts m.heap
  | cons f frames ih =>
    rw [List.flatMap_cons, List.append_assoc, List.length_append, ih, List.foldr_cons, Frame.size,
      List.length_append, Value.length_itemParts, Value.length_itemParts]

theorem mem_stored_of_mem_children {m : Memory} {v w : Value} (hv : v ∈ m.stored)
    (hw : w ∈ v.children) : w ∈ m.stored := by
  unfold stored at hv ⊢
  rw [List.mem_append, List.mem_flatMap] at hv ⊢
  refine hv.imp (fun ⟨f, hf, hv⟩ ↦ ⟨f, hf, ?_⟩) (Value.mem_itemParts_of_mem_children hw _)
  rw [List.mem_append] at hv ⊢
  exact hv.imp (Value.mem_itemParts_of_mem_children hw _)
    (Value.mem_itemParts_of_mem_children hw _)

theorem mem_stored_of_heap {m : Memory} {cell : Nat} {v : Value} (h : m.heap[cell]? = some v) :
    v ∈ m.stored := by
  unfold stored
  rw [List.mem_append, Value.itemParts_eq m.heap]
  exact .inr (List.mem_flatMap.2 ⟨v, List.mem_of_getElem? h, v.mem_parts_self⟩)

theorem mem_stored_of_root? {m : Memory} {root : Root} {v : Value} (h : m.root? root = some v) :
    v ∈ m.stored := by
  have hframe {id : Nat} {f : Frame} (hf : m.frame? id = some f)
      (hv : v ∈ f.slots.map (·.2) ∨ v ∈ f.temps) : v ∈ m.stored := by
    unfold stored
    rw [List.mem_append, List.mem_flatMap]
    refine .inl ⟨f, List.mem_of_find?_eq_some hf, ?_⟩
    rw [List.mem_append, Value.itemParts_eq, Value.itemParts_eq]
    exact hv.imp (fun hv ↦ List.mem_flatMap.2 ⟨v, hv, v.mem_parts_self⟩)
      (fun hv ↦ List.mem_flatMap.2 ⟨v, hv, v.mem_parts_self⟩)
  cases root with
  | slot frame target =>
    obtain ⟨f, hf, hslot⟩ := Option.bind_eq_some_iff.1 h
    obtain ⟨entry, hentry, rfl⟩ := Option.map_eq_some_iff.1 hslot
    exact hframe hf (.inl (List.mem_map_of_mem (List.mem_of_find?_eq_some hentry)))
  | temp frame temp =>
    obtain ⟨f, hf, htemp⟩ := Option.bind_eq_some_iff.1 h
    exact hframe hf (.inr (List.mem_of_getElem? htemp))
  | heap cell => exact mem_stored_of_heap h

theorem mem_stored_of_read {m : Memory} {a : Address} {v : Value} (h : m.read a = .ok v) :
    v ∈ m.stored := by
  unfold read at h
  split at h
  · rename_i root hroot
    exact Value.get_inv (fun _ _ ↦ mem_stored_of_mem_children) (mem_stored_of_root? hroot) h
  · cases h

/-! ## One step of materializing -/

/-- What materializing a value goes on with: what it refers to, or what it is made of. -/
def constituents (m : Memory) : Value → Except RuntimeError (List Value)
  | .address target => (m.read target).map ([·])
  | .object cell =>
    match m.heap[cell]? with
    | some object => .ok [object]
    | none => .error .danglingReference
  | .span view =>
    match view.base with
    | some base =>
      .ok ((List.range' view.start view.length).map fun i ↦ .address (base.join (.element i)))
    | none => if view.length = 0 then .ok [] else .error .nullReference
  | v => .ok v.children

/-- A value that shows what its constituents materialize to. -/
def rebuild : Value → List Value → Value
  | .address _, items | .object _, items => items.headD .unit
  | .span _, items | .array _, items => .array items
  | .struct fields, items => .struct ((fields.map (·.1)).zip items)
  | v, _ => v

theorem eachElement_eq (f : Nat → Except RuntimeError Value) (position count : Nat) :
    eachElement f position count = (List.range' position count).mapM f := by
  induction count generalizing position with
  | zero => rfl
  | succ count ih =>
    rw [eachElement, List.range'_succ, List.mapM_cons, ih]

theorem mapM_fields (f : Value → Except RuntimeError Value) (fields : List (String × Value)) :
    (fields.mapM fun (name, field) ↦ do return (name, ← f field)) =
      ((fields.map (·.2)).mapM f).map ((fields.map (·.1)).zip ·) := by
  induction fields with
  | nil => rfl
  | cons entry fields ih =>
    obtain ⟨name, field⟩ := entry
    rw [List.mapM_cons, ih, List.map_cons, List.map_cons, List.mapM_cons]
    dsimp only
    cases f field with
    | error e => rfl
    | ok v => cases (fields.map (·.2)).mapM f <;> rfl

theorem materializeWithin_succ (m : Memory) (depth : Nat) (v : Value) :
    m.materializeWithin (depth + 1) v = do
      let items ← m.constituents v
      return rebuild v (← items.mapM (m.materializeWithin depth)) := by
  have hsingle (v w : Value) (h : ∀ items, rebuild v items = items.headD .unit) :
      m.materializeWithin depth w =
        (do return rebuild v (← [w].mapM (m.materializeWithin depth))) := by
    rw [List.mapM_cons]
    cases m.materializeWithin depth w with
    | error e => rfl
    | ok shown => exact congrArg Except.ok (h [shown]).symm
  cases v with
  | address target =>
    rw [materializeWithin, constituents]
    cases m.read target with
    | error e => rfl
    | ok w => exact hsingle (.address target) w fun _ ↦ rfl
  | object cell =>
    rw [materializeWithin, constituents]
    cases m.heap[cell]? with
    | none => rfl
    | some object => exact hsingle (.object cell) object fun _ ↦ rfl
  | span view =>
    rw [materializeWithin, constituents]
    simp only [eachElement_eq]
    cases view.base with
    | none =>
      cases view.length with
      | zero => rfl
      | succ length =>
        rw [List.range'_succ, List.mapM_cons]
        rfl
    | some base =>
      change _ = (do return rebuild _ (← List.mapM _ (List.map _ _)))
      rw [List.mapM_map]
      rfl
  | struct fields =>
    rw [materializeWithin, mapM_fields]
    change _ = (do return rebuild (.struct fields) (← List.mapM _ (fields.map Prod.snd)))
    cases (fields.map (·.2)).mapM (m.materializeWithin depth) <;> rfl
  | array items => rfl
  | unit | null | int | bool | index | range => rfl

variable {m : Memory} {depth depth' : Nat} {v w : Value} {items : List Value}

theorem materializeWithin_of_error {e : RuntimeError} (h : m.constituents v = .error e) :
    m.materializeWithin (depth + 1) v = .error e := by
  rw [materializeWithin_succ, h]
  rfl

theorem materializeWithin_of_ok (h : m.constituents v = .ok items) :
    m.materializeWithin (depth + 1) v =
      (items.mapM (m.materializeWithin depth)).map (rebuild v) := by
  rw [materializeWithin_succ, h]
  change (do return rebuild v (← items.mapM (m.materializeWithin depth))) = _
  cases items.mapM (m.materializeWithin depth) <;> rfl

/-! ## Giving up -/

/-- So deep, and not one step less deep, is the value materialized. -/
structure GivesUpAt (m : Memory) (depth : Nat) (v : Value) : Prop where
  cyclic : m.materializeWithin depth v = .error .cyclicReference
  settled : m.materializeWithin (depth + 1) v ≠ .error .cyclicReference

theorem materializeWithin_mono_succ
    (h : m.materializeWithin depth v ≠ .error .cyclicReference) :
    m.materializeWithin depth v = m.materializeWithin (depth + 1) v := by
  induction depth generalizing v with
  | zero => exact absurd rfl h
  | succ depth ih =>
    cases hitems : m.constituents v with
    | error e => rw [materializeWithin_of_error hitems, materializeWithin_of_error hitems]
    | ok items =>
      rw [materializeWithin_of_ok hitems] at h ⊢
      rw [materializeWithin_of_ok hitems]
      have hne : items.mapM (m.materializeWithin depth) ≠ .error .cyclicReference :=
        fun hcyclic ↦ h (by rw [hcyclic]; rfl)
      rw [Except.mapM_eq_of_ne_error (fun w _ ↦ ih) hne]

theorem materializeWithin_mono (hle : depth ≤ depth')
    (h : m.materializeWithin depth v ≠ .error .cyclicReference) :
    m.materializeWithin depth v = m.materializeWithin depth' v := by
  induction hle with
  | refl => rfl
  | step _ ih => exact ih.trans (materializeWithin_mono_succ (ih ▸ h))

theorem GivesUpAt.unique (h : m.GivesUpAt depth v) (h' : m.GivesUpAt depth' v) :
    depth = depth' := by
  have hle {depth depth' : Nat} (h : m.GivesUpAt depth v) (h' : m.GivesUpAt depth' v) :
      depth' ≤ depth := by
    refine Nat.le_of_not_lt fun hlt ↦ h.settled ?_
    rw [materializeWithin_mono hlt h.settled]
    exact h'.cyclic
  exact Nat.le_antisymm (hle h' h) (hle h h')

/-- A value that is given up at some depth has a constituent given up one step earlier. -/
theorem GivesUpAt.exists_constituent (h : m.GivesUpAt (depth + 1) v) :
    ∃ items, m.constituents v = .ok items ∧ ∃ w ∈ items, m.GivesUpAt depth w := by
  have hcyclic := h.cyclic
  have hsettled := h.settled
  cases hitems : m.constituents v with
  | error e =>
    rw [materializeWithin_of_error hitems] at hcyclic hsettled
    exact absurd hcyclic hsettled
  | ok items =>
    rw [materializeWithin_of_ok hitems] at hcyclic hsettled
    refine ⟨items, rfl, Classical.byContradiction fun hnone ↦ hsettled ?_⟩
    have hsame : ∀ w ∈ items, m.materializeWithin depth w = m.materializeWithin (depth + 1) w := by
      intro w hw
      by_cases hgives : m.materializeWithin depth w = .error .cyclicReference
      · refine hgives.trans (Eq.symm (Classical.byContradiction fun hne ↦ hnone ?_))
        exact ⟨w, hw, hgives, hne⟩
      · exact materializeWithin_mono_succ hgives
    rw [← Except.mapM_congr hsame]
    exact hcyclic

/-- Only the elements of a span are neither stored nor part of the value. -/
theorem mem_constituents (h : m.constituents v = .ok items) (hw : w ∈ items) :
    w ∈ m.stored ∨ w ∈ v.children ∨ ∃ a, w = .address a := by
  cases v with
  | address target =>
    obtain ⟨found, hread, rfl⟩ := Except.map_eq_ok.1 h
    rw [List.mem_singleton.1 hw]
    exact .inl (mem_stored_of_read hread)
  | object cell =>
    rw [constituents] at h
    split at h
    · rename_i object hobject
      cases h
      rw [List.mem_singleton.1 hw]
      exact .inl (mem_stored_of_heap hobject)
    · cases h
  | span view =>
    rw [constituents] at h
    split at h
    · cases h
      obtain ⟨i, -, rfl⟩ := List.mem_map.1 hw
      exact .inr (.inr ⟨_, rfl⟩)
    · split at h
      · cases h
        cases hw
      · cases h
  | _ =>
    cases h
    exact .inr (.inl hw)

theorem mem_stored_of_address {a : Address} (h : m.constituents (.address a) = .ok items)
    (hw : w ∈ items) : w ∈ m.stored := by
  obtain ⟨found, hread, rfl⟩ := Except.map_eq_ok.1 h
  rw [List.mem_singleton.1 hw]
  exact mem_stored_of_read hread

/-- Different stored values that are given up at the depth or earlier, at least at every second. -/
structure StoredChain (m : Memory) (depth : Nat) (chain : List Value) : Prop where
  nodup : chain.Nodup
  stored : chain ⊆ m.stored
  givesUp : ∀ w ∈ chain, ∃ i ≤ depth, m.GivesUpAt i w
  long : depth + 1 ≤ 2 * chain.length

/-- A value before a chain of values that are given up earlier. -/
theorem StoredChain.cons {chain : List Value} (h : m.StoredChain depth' chain) (hv : v ∈ m.stored)
    (hgives : m.GivesUpAt depth v) (hlt : depth' < depth) (hle : depth ≤ depth' + 2) :
    m.StoredChain depth (v :: chain) where
  nodup := by
    refine List.nodup_cons.2 ⟨fun hmem ↦ ?_, h.nodup⟩
    obtain ⟨i, hi, hgives'⟩ := h.givesUp v hmem
    have := hgives.unique hgives'
    omega
  stored := List.cons_subset.2 ⟨hv, h.stored⟩
  givesUp w hw := by
    rcases List.mem_cons.1 hw with rfl | hw
    · exact ⟨depth, Nat.le_refl _, hgives⟩
    · obtain ⟨i, hi, hgives'⟩ := h.givesUp w hw
      exact ⟨i, by omega, hgives'⟩
  long := by
    have := h.long
    rw [List.length_cons]
    omega

theorem storedChain_singleton (hv : v ∈ m.stored) (h : m.GivesUpAt depth v) (hle : depth ≤ 1) :
    m.StoredChain depth [v] where
  nodup := List.nodup_cons.2 ⟨List.not_mem_nil, List.nodup_nil⟩
  stored := List.cons_subset.2 ⟨hv, List.nil_subset _⟩
  givesUp w hw := ⟨depth, Nat.le_refl _, List.mem_singleton.1 hw ▸ h⟩
  long := by
    rw [List.length_singleton]
    omega

/-- Of a stored value and two constituents after it, the first or the second is stored again. -/
theorem GivesUpAt.exists_storedChain (hv : v ∈ m.stored) (h : m.GivesUpAt depth v) :
    ∃ chain, m.StoredChain depth chain := by
  induction depth using Nat.strongRecOn generalizing v with
  | ind depth ih =>
    rcases depth with _ | _ | depth
    · exact ⟨[v], storedChain_singleton hv h (by omega)⟩
    · exact ⟨[v], storedChain_singleton hv h (by omega)⟩
    · obtain ⟨items, hitems, w, hw, hgives⟩ := h.exists_constituent
      have hw' : w ∈ m.stored ∨ ∃ a, w = .address a := by
        rcases mem_constituents hitems hw with hw | hw | hw
        · exact .inl hw
        · exact .inl (mem_stored_of_mem_children hv hw)
        · exact .inr hw
      rcases hw' with hw' | ⟨a, rfl⟩
      · obtain ⟨chain, hchain⟩ := ih (depth + 1) (by omega) hw' hgives
        exact ⟨v :: chain, hchain.cons hv h (by omega) (by omega)⟩
      · obtain ⟨items', hitems', u, hu, hgives'⟩ := hgives.exists_constituent
        obtain ⟨chain, hchain⟩ := ih depth (by omega) (mem_stored_of_address hitems' hu) hgives'
        exact ⟨v :: chain, hchain.cons hv h (by omega) (by omega)⟩

/-- A stored value is given up at twice as many steps as there are values stored, or not at all. -/
theorem materializeWithin_of_stored (hv : v ∈ m.stored) (hdepth : 2 * m.size ≤ depth)
    (hdepth' : 2 * m.size ≤ depth') : m.materializeWithin depth v = m.materializeWithin depth' v := by
  by_cases hgives : ∃ i, m.GivesUpAt i v
  · obtain ⟨i, hgives⟩ := hgives
    obtain ⟨chain, hchain⟩ := hgives.exists_storedChain hv
    have hle : chain.length ≤ m.size := by
      rw [← length_stored]
      exact (hchain.nodup.subperm hchain.stored).length_le
    have hi : i + 1 ≤ 2 * m.size := Nat.le_trans hchain.long (Nat.mul_le_mul_left 2 hle)
    calc
      _ = m.materializeWithin (i + 1) v :=
        (materializeWithin_mono (Nat.le_trans hi hdepth) hgives.settled).symm
      _ = _ := materializeWithin_mono (Nat.le_trans hi hdepth') hgives.settled
  · have hcyclic (depth : Nat) : m.materializeWithin depth v = .error .cyclicReference := by
      induction depth with
      | zero => rfl
      | succ depth ih => exact Classical.byContradiction fun hne ↦ hgives ⟨depth, ih, hne⟩
    rw [hcyclic, hcyclic]

/-! ## The recursion without a bound -/

theorem materializeWithin_address {a : Address} (hdepth : 2 * m.size + 1 ≤ depth)
    (hdepth' : 2 * m.size + 1 ≤ depth') :
    m.materializeWithin depth (.address a) = m.materializeWithin depth' (.address a) := by
  obtain ⟨depth, rfl⟩ := Nat.exists_eq_succ_of_ne_zero (show depth ≠ 0 by omega)
  obtain ⟨depth', rfl⟩ := Nat.exists_eq_succ_of_ne_zero (show depth' ≠ 0 by omega)
  cases hitems : m.constituents (.address a) with
  | error e => rw [materializeWithin_of_error hitems, materializeWithin_of_error hitems]
  | ok items =>
    rw [materializeWithin_of_ok hitems, materializeWithin_of_ok hitems]
    congr 1
    exact Except.mapM_congr fun w hw ↦
      materializeWithin_of_stored (mem_stored_of_address hitems hw) (by omega) (by omega)

theorem materializeWithin_stable (hdepth : 2 * m.size + v.size < depth)
    (hdepth' : 2 * m.size + v.size < depth') :
    m.materializeWithin depth v = m.materializeWithin depth' v := by
  induction hsize : v.size using Nat.strongRecOn generalizing v depth depth' with
  | ind size ih =>
    obtain ⟨depth, rfl⟩ := Nat.exists_eq_succ_of_ne_zero (show depth ≠ 0 by omega)
    obtain ⟨depth', rfl⟩ := Nat.exists_eq_succ_of_ne_zero (show depth' ≠ 0 by omega)
    have hpos := v.size_pos
    cases hitems : m.constituents v with
    | error e => rw [materializeWithin_of_error hitems, materializeWithin_of_error hitems]
    | ok items =>
      rw [materializeWithin_of_ok hitems, materializeWithin_of_ok hitems]
      congr 1
      refine Except.mapM_congr fun w hw ↦ ?_
      rcases mem_constituents hitems hw with hw | hw | ⟨a, rfl⟩
      · exact materializeWithin_of_stored hw (by omega) (by omega)
      · have hlt := Value.size_lt_of_mem_children hw
        exact ih w.size (hsize ▸ hlt) (by omega) (by omega) rfl
      · exact materializeWithin_address (by omega) (by omega)

/-- Materializing a value is materializing its constituents. -/
theorem materialize_of_ok (h : m.constituents v = .ok items) :
    m.materialize v = (items.mapM m.materialize).map (rebuild v) := by
  have hpos := v.size_pos
  have hshown : items.mapM (m.materializeWithin (2 * (m.size + v.size) + 1)) =
      items.mapM m.materialize := by
    refine Except.mapM_congr fun w hw ↦ ?_
    rcases mem_constituents h hw with hw | hw | ⟨a, rfl⟩
    · exact materializeWithin_of_stored hw (by omega) (by omega)
    · have hlt := Value.size_lt_of_mem_children hw
      exact materializeWithin_stable (by omega) (by omega)
    · exact materializeWithin_address (by omega) (by omega)
  rw [← hshown]
  exact materializeWithin_of_ok h

/-- A reference is shown as what it leads to. -/
theorem materialize_address {a : Address} (h : m.read a = .ok v) :
    m.materialize (.address a) = m.materialize v := by
  have hitems : m.constituents (.address a) = .ok [v] := by
    rw [constituents, h]
    rfl
  rw [materialize_of_ok hitems, List.mapM_cons]
  cases m.materialize v <;> rfl

theorem read_element {base : Address} {i : Nat} (h : m.read base = .ok (.array items))
    (hi : i < items.length) : m.read (base.join (.element i)) = .ok items[i] := by
  unfold read at h ⊢
  change (match m.root? base.root with
    | some value => value.get (base.path ++ [Step.element i])
    | none => .error .danglingReference) = _
  cases hroot : m.root? base.root with
  | none =>
    rw [hroot] at h
    cases h
  | some root =>
    have hvalue : root.get base.path = .ok (.array items) := by
      rw [hroot] at h
      exact h
    have hchild : (Value.array items).child "struct" (.element i) = .ok items[i] := by
      rw [Value.child]
      simp only [List.getElem?_eq_getElem hi]
    dsimp only
    rw [Value.get_append, hvalue]
    exact Value.get_cons_eq_ok.2 ⟨_, hchild, rfl⟩

/-- A span is shown as the elements in its window, one after the other. -/
theorem materialize_span {view : SpanView} {base : Address} (hbase : view.base = some base)
    (h : m.read base = .ok (.array items)) (hle : view.start + view.length ≤ items.length) :
    m.materialize (.span view) =
      (((items.drop view.start).take view.length).mapM m.materialize).map .array := by
  have hwindow (start length : Nat) (hle : start + length ≤ items.length) :
      (List.range' start length).mapM (fun i ↦ m.materialize (.address (base.join (.element i)))) =
        ((items.drop start).take length).mapM m.materialize := by
    induction length generalizing start with
    | zero => rfl
    | succ length ih =>
      have hfirst : start < items.length := by omega
      rw [List.range'_succ, List.mapM_cons, ih (start + 1) (by omega),
        materialize_address (read_element h hfirst), List.drop_eq_getElem_cons hfirst,
        List.take_succ_cons, List.mapM_cons]
  have hitems : m.constituents (.span view) = .ok ((List.range' view.start view.length).map fun i ↦
      .address (base.join (.element i))) := by
    rw [constituents, hbase]
  rw [materialize_of_ok hitems, List.mapM_map, ← hwindow view.start view.length hle]
  rfl

end Memory

end InlineArrays
