import InlineArrays.Proofs.Machine.Isolation
import InlineArrays.Proofs.Machine.ShownInputs

/-!
# Memory on top of other memory

The activations and the heap of one memory may stand on those of another one: its numbers of
activations and cells are moved up, wherever they occur.  What is read, written and shown through
addresses so moved is the same, and what is below does not matter to it.  Neither does what is in
slots of the first activation that nothing leads to.
-/

namespace InlineArrays

/-- How far the numbers of activations and of cells of the heap are moved up. -/
structure Shift where
  frames : Nat
  cells : Nat

def Root.shift (s : Shift) : Root → Root
  | .slot frame target => .slot (frame + s.frames) target
  | .temp frame index => .temp (frame + s.frames) index
  | .heap cell => .heap (cell + s.cells)

def Address.shift (s : Shift) (a : Address) : Address := { a with root := a.root.shift s }

def SpanView.shift (s : Shift) (view : SpanView) : SpanView :=
  { view with base := view.base.map (·.shift s) }

/-! ## Values -/

namespace Value

mutual

def shift (s : Shift) : Value → Value
  | .struct fields => .struct (shiftFields s fields)
  | .array items => .array (shiftItems s items)
  | .object cell => .object (cell + s.cells)
  | .address target => .address (target.shift s)
  | .span view => .span (view.shift s)
  | v => v

def shiftFields (s : Shift) : List (String × Value) → List (String × Value)
  | [] => []
  | (name, value) :: fields => (name, value.shift s) :: shiftFields s fields

def shiftItems (s : Shift) : List Value → List Value
  | [] => []
  | item :: items => item.shift s :: shiftItems s items

end

variable {s : Shift}

theorem shiftFields_eq (fields : List (String × Value)) :
    shiftFields s fields = fields.map fun entry ↦ (entry.1, entry.2.shift s) := by
  induction fields with
  | nil => rfl
  | cons entry fields ih => rw [shiftFields, ih, List.map_cons]

theorem shiftItems_eq (items : List Value) : shiftItems s items = items.map (·.shift s) := by
  induction items with
  | nil => rfl
  | cons item items ih => rw [shiftItems, ih, List.map_cons]

theorem shift_struct (fields : List (String × Value)) :
    (Value.struct fields).shift s = .struct (fields.map fun entry ↦ (entry.1, entry.2.shift s)) := by
  rw [shift, shiftFields_eq]

theorem shift_array (items : List Value) :
    (Value.array items).shift s = .array (items.map (·.shift s)) := by
  rw [shift, shiftItems_eq]

@[simp] theorem isNull_shift (v : Value) : (v.shift s).isNull = v.isNull := by
  cases v <;> simp [shift, isNull]

theorem field?_shift (name : String) (v : Value) :
    (v.shift s).field? name = (v.field? name).map (·.shift s) := by
  cases v with
  | struct fields =>
    rw [shift_struct, field?, field?, List.find?_map, Option.map_map, Option.map_map]
    rfl
  | _ => rfl

theorem child_shift (absent : String) (v : Value) (step : Step) :
    (v.shift s).child absent step = (v.child absent step).map (·.shift s) := by
  cases step with
  | field name =>
    cases v with
    | struct fields =>
      have hfield := field?_shift (s := s) name (.struct fields)
      rw [shift_struct] at hfield ⊢
      unfold child
      dsimp only
      rw [hfield]
      cases (Value.struct fields).field? name <;> rfl
    | _ => rfl
  | element position =>
    cases v with
    | array items =>
      rw [shift_array]
      unfold child
      dsimp only
      rw [List.getElem?_map, List.length_map]
      cases items[position]? <;> rfl
    | _ => rfl

theorem setField_shift (name : String) (new : Value) (fields : List (String × Value)) :
    setField name (new.shift s) (fields.map fun entry ↦ (entry.1, entry.2.shift s)) =
      (setField name new fields).map fun entry ↦ (entry.1, entry.2.shift s) := by
  induction fields with
  | nil => rfl
  | cons entry fields ih =>
    rw [List.map_cons, setField, setField, ih]
    split <;> rfl

theorem withChild_shift (v new : Value) (step : Step) :
    (v.shift s).withChild (new.shift s) step = (v.withChild new step).shift s := by
  cases step with
  | field name =>
    cases v with
    | struct fields =>
      unfold withChild withField
      rw [shift_struct]
      dsimp only
      rw [setField_shift, shift_struct]
    | _ => rfl
  | element position =>
    cases v with
    | array items =>
      unfold withChild
      rw [shift_array]
      dsimp only
      rw [shift_array, List.map_set]
    | _ => rfl

theorem get_shift (v : Value) (path : List Step) :
    (v.shift s).get path = (v.get path).map (·.shift s) := by
  induction path generalizing v with
  | nil => rfl
  | cons step path ih =>
    rw [get, get, child_shift]
    cases v.child "struct" step with
    | error e => rfl
    | ok inner => exact ih inner

theorem set_shift (new v : Value) (path : List Step) :
    set (new.shift s) (v.shift s) path = (set new v path).map (·.shift s) := by
  induction path generalizing v with
  | nil => rfl
  | cons step path ih =>
    obtain ⟨absent, hset⟩ := exists_set_cons step
    rw [hset, hset, child_shift]
    cases v.child absent step with
    | error e => rfl
    | ok inner =>
      change (do return (v.shift s).withChild (← set (new.shift s) (inner.shift s) path) step) =
        (do return v.withChild (← set new inner path) step : Except RuntimeError Value).map _
      rw [ih]
      cases set new inner path with
      | error e => rfl
      | ok changed => exact congrArg Except.ok (withChild_shift v changed step)

/-- A default value leads nowhere. -/
theorem defaultWithin_shift (types : TypeTable) (depth : Nat) (type : TypeId) :
    (defaultWithin types depth type).shift s = defaultWithin types depth type := by
  induction depth generalizing type with
  | zero => rfl
  | succ depth ih =>
    unfold defaultWithin
    split
    case h_8 array _ => rw [shift_array, List.map_replicate, ih]
    case h_9 struct _ =>
      split
      · rfl
      · rw [shift_struct, List.map_map]
        refine congrArg Value.struct (List.map_congr_left fun f _ ↦ ?_)
        exact congrArg (f.name, ·) (ih f.type)
    all_goals rfl

@[simp] theorem defaultValue_shift (types : TypeTable) (type : TypeId) :
    (defaultValue types type).shift s = defaultValue types type := defaultWithin_shift types _ type

end Value

namespace SpanView

variable {s : Shift}

theorem index_shift (view : SpanView) (position : Int64) :
    (view.shift s).index position = (view.index position).map (·.shift s) := by
  obtain ⟨base, start, length, readonly⟩ := view
  cases base with
  | none => rfl
  | some base =>
    unfold index shift
    dsimp only [Option.map_some]
    split <;> rfl

theorem slice_shift (view : SpanView) (start count : Int64) :
    (view.shift s).slice start count = (view.slice start count).map (·.shift s) := by
  unfold slice shift
  dsimp only
  split <;> rfl

end SpanView

/-! ## Slots -/

section

variable {α β : Type} [DecidableEq α]

theorem assign_map (f : α → β → β) (key : α) (value : β) (entries : List (α × β)) :
    assign key (f key value) (entries.map fun entry ↦ (entry.1, f entry.1 entry.2)) =
      (assign key value entries).map fun entry ↦ (entry.1, f entry.1 entry.2) := by
  induction entries with
  | nil => rfl
  | cons entry entries ih =>
    rw [List.map_cons, assign, assign, ih]
    split <;> rfl

theorem foldl_assign_map (f : α → β → β) (pairs entries : List (α × β)) :
    (pairs.map fun entry ↦ (entry.1, f entry.1 entry.2)).foldl
        (fun entries (key, value) ↦ assign key value entries)
        (entries.map fun entry ↦ (entry.1, f entry.1 entry.2)) =
      (pairs.foldl (fun entries (key, value) ↦ assign key value entries) entries).map
        fun entry ↦ (entry.1, f entry.1 entry.2) := by
  induction pairs generalizing entries with
  | nil => rfl
  | cons pair pairs ih =>
    rw [List.map_cons, List.foldl_cons, List.foldl_cons, ← ih]
    exact congrArg (List.foldl _ · _) (assign_map f pair.1 pair.2 entries)

end

/-! ## What a call is on top of -/

/-- The memory that a call is on top of, how many activations it has less room for than by itself,
and what its own slots hold instead where nothing looks at them. -/
structure Setting where
  base : Memory
  numbered : base.NumbersFrames
  slack : Nat
  seen : VariableId → Prop
  given : VariableId → Value → Value
  given_of_seen {target : VariableId} (h : seen target) (v : Value) : given target v = v

namespace Setting

variable (S : Setting)

/-- How far the numbers of activations and cells are moved up. -/
def extent : Shift := ⟨S.base.nextFrame, S.base.heap.length⟩

/-- The root is not a slot that nothing looks at; the call's own activation is the first. -/
def Reaches (r : Root) : Prop := ∀ target, r = .slot 0 target → S.seen target

/-- What the slot of a variable holds. -/
def slot (frame : Nat) (target : VariableId) (v : Value) : Value :=
  if frame = 0 then S.given target (v.shift S.extent) else v.shift S.extent

def frame (f : Frame) : Frame where
  id := f.id + S.extent.frames
  slots := f.slots.map fun entry ↦ (entry.1, S.slot f.id entry.1 entry.2)
  temps := f.temps.map (·.shift S.extent)
  values := f.values.map (·.map (·.shift S.extent))

/-- Memory on top of the base. -/
def view (m : Memory) : Memory where
  frames := m.frames.map S.frame ++ S.base.frames
  heap := S.base.heap ++ m.heap.map (·.shift S.extent)
  nextFrame := m.nextFrame + S.base.nextFrame
  output := S.base.output ++ m.output

variable {S} {m : Memory} {f : Frame} {target : VariableId}

theorem reaches_temp (frame : Nat) (temp : TempId) : S.Reaches (.temp frame temp) := nofun

theorem reaches_heap (cell : Nat) : S.Reaches (.heap cell) := nofun

theorem reaches_slot {frame : Nat} (h : frame = 0 → S.seen target) :
    S.Reaches (.slot frame target) := by
  rintro _ ⟨⟩
  exact h rfl

theorem slot_of_reaches {frame : Nat} (h : S.Reaches (.slot frame target)) (v : Value) :
    S.slot frame target v = v.shift S.extent := by
  unfold slot
  split
  · rename_i hframe
    exact S.given_of_seen (h target (hframe ▸ rfl)) _
  · rfl

theorem slot?_frame (h : S.Reaches (.slot f.id target)) :
    (S.frame f).slot? target = (f.slot? target).map (·.shift S.extent) := by
  unfold Frame.slot? frame
  rw [List.find?_map, Option.map_map, Option.map_map]
  change (f.slots.find? (·.1 == target)).map _ = _
  cases hfind : f.slots.find? (·.1 == target) with
  | none => rfl
  | some entry =>
    have hkey : entry.1 = target := by simpa using List.find?_some hfind
    exact congrArg some (slot_of_reaches (hkey.symm ▸ h) entry.2)

theorem temp?_frame (f : Frame) (t : TempId) :
    (S.frame f).temps[t]? = f.temps[t]?.map (·.shift S.extent) := List.getElem?_map

theorem value?_frame (f : Frame) (id : ValueId) :
    (S.frame f).value? id = (f.value? id).map (·.shift S.extent) := by
  unfold Frame.value? frame
  rw [List.getElem?_map]
  cases f.values[id]? <;> rfl

theorem setSlot_frame (h : S.Reaches (.slot f.id target)) (v : Value) :
    (S.frame f).setSlot target (v.shift S.extent) = S.frame (f.setSlot target v) := by
  unfold Frame.setSlot frame
  dsimp only
  rw [← slot_of_reaches h v, assign_map (S.slot f.id)]

theorem setTemp_frame (f : Frame) (t : TempId) (v : Value) :
    (S.frame f).setTemp t (v.shift S.extent) = S.frame (f.setTemp t v) := by
  unfold Frame.setTemp frame
  dsimp only
  rw [List.map_set, List.map_append, List.map_replicate, List.length_map]
  rfl

theorem define_frame (f : Frame) (dest : ValueId) (v : Value) :
    (S.frame f).define dest (v.shift S.extent) = S.frame (f.define dest v) := by
  unfold Frame.define frame
  rw [List.map_set]
  rfl

/-! ## Memory -/

theorem view_empty : S.view {} = S.base := by
  simp [view]

theorem heap_view (cell : Nat) :
    (S.view m).heap[cell + S.extent.cells]? = m.heap[cell]?.map (·.shift S.extent) := by
  change (S.base.heap ++ m.heap.map _)[cell + S.base.heap.length]? = _
  rw [List.getElem?_append_right (Nat.le_add_left _ _), Nat.add_sub_cancel, List.getElem?_map]

theorem head?_view (hf : m.frames.head? = some f) :
    (S.view m).frames.head? = some (S.frame f) := by
  change (m.frames.map _ ++ S.base.frames).head? = _
  rw [List.head?_append, List.head?_map, hf]
  rfl

theorem updateTop_view {change change' : Frame → Frame} (hf : m.frames.head? = some f)
    (h : change' (S.frame f) = S.frame (change f)) :
    (S.view m).updateTop change' = S.view (m.updateTop change) := by
  obtain ⟨frames, heap, next, output⟩ := m
  cases frames with
  | nil => cases hf
  | cons g frames =>
    cases hf
    change Memory.mk (change' (S.frame f) :: _) _ _ _ = _
    rw [h]
    rfl

theorem id_ne_of_mem (hf : f ∈ S.base.frames) (id : Nat) : f.id ≠ id + S.extent.frames := by
  have hlt : f.id < S.base.nextFrame := S.numbered f hf
  change f.id ≠ id + S.base.nextFrame
  omega

theorem frame?_view (id : Nat) :
    (S.view m).frame? (id + S.extent.frames) = (m.frame? id).map S.frame := by
  have hnone : S.base.frames.find? (·.id == id + S.extent.frames) = none :=
    List.find?_eq_none.2 fun f hf ↦ by simpa using id_ne_of_mem hf id
  have hsame : (fun f : Frame ↦ (S.frame f).id == id + S.extent.frames) = fun f ↦ f.id == id := by
    funext f
    simp [frame]
  unfold Memory.frame? view
  rw [List.find?_append, hnone, Option.or_none, List.find?_map]
  exact congrArg (fun p ↦ Option.map _ (List.find? p m.frames)) hsame

theorem root?_view {r : Root} (hr : S.Reaches r) :
    (S.view m).root? (r.shift S.extent) = (m.root? r).map (·.shift S.extent) := by
  cases r with
  | slot frame target =>
    rw [Root.shift, Memory.root?, Memory.root?, frame?_view]
    cases hf : m.frame? frame with
    | none => rfl
    | some f =>
      obtain ⟨-, rfl⟩ := Memory.frame?_eq_some hf
      exact slot?_frame hr
  | temp frame temp =>
    rw [Root.shift, Memory.root?, Memory.root?, frame?_view]
    cases m.frame? frame with
    | none => rfl
    | some f => exact temp?_frame f temp
  | heap cell => exact heap_view cell

theorem read_view {a : Address} (ha : S.Reaches a.root) :
    (S.view m).read (a.shift S.extent) = (m.read a).map (·.shift S.extent) := by
  have hroot : (a.shift S.extent).root = a.root.shift S.extent := rfl
  rw [Memory.read, Memory.read, hroot, root?_view ha]
  cases m.root? a.root with
  | none => rfl
  | some value => exact value.get_shift a.path

theorem updateFrame_view {change change' : Frame → Frame} {id : Nat}
    (h : ∀ f : Frame, f.id = id → change' (S.frame f) = S.frame (change f)) :
    (S.view m).updateFrame (id + S.extent.frames) change' = S.view (m.updateFrame id change) := by
  have hbelow : S.base.frames.map (fun f ↦ if f.id = id + S.extent.frames then change' f else f) =
      S.base.frames :=
    (List.map_congr_left fun f hf ↦ if_neg (id_ne_of_mem hf id)).trans (List.map_id _)
  have habove (f : Frame) :
      (if (S.frame f).id = id + S.extent.frames then change' (S.frame f) else S.frame f) =
        S.frame (if f.id = id then change f else f) := by
    have hiff : (S.frame f).id = id + S.extent.frames ↔ f.id = id := Nat.add_right_cancel_iff
    by_cases hid : f.id = id
    · rw [if_pos hid, if_pos (hiff.2 hid), h f hid]
    · rw [if_neg hid, if_neg (mt hiff.1 hid)]
  unfold Memory.updateFrame view
  dsimp only
  rw [List.map_append, hbelow, List.map_map, List.map_map]
  refine congrArg (fun frames ↦ Memory.mk (frames ++ S.base.frames) _ _ _) ?_
  exact List.map_congr_left fun f _ ↦ habove f

theorem setRoot_view {r : Root} (hr : S.Reaches r) (v : Value) :
    (S.view m).setRoot (v.shift S.extent) (r.shift S.extent) = S.view (m.setRoot v r) := by
  cases r with
  | slot frame target =>
    refine updateFrame_view fun f hf ↦ setSlot_frame ?_ v
    rwa [hf]
  | temp frame temp => exact updateFrame_view fun f _ ↦ setTemp_frame f temp v
  | heap cell =>
    change Memory.mk _ ((S.base.heap ++ m.heap.map _).set (cell + S.base.heap.length) _) _ _ =
      Memory.mk _ (S.base.heap ++ (m.heap.set cell v).map _) _ _
    rw [List.set_append_right _ _ (Nat.le_add_left _ _), Nat.add_sub_cancel, List.map_set]
    rfl

theorem write_view {a : Address} (ha : S.Reaches a.root) (v : Value) :
    (S.view m).write (a.shift S.extent) (v.shift S.extent) = (m.write a v).map S.view := by
  have hroot : (a.shift S.extent).root = a.root.shift S.extent := rfl
  have hpath : (a.shift S.extent).path = a.path := rfl
  rw [Memory.write, Memory.write, hroot, hpath, root?_view ha]
  cases m.root? a.root with
  | none => rfl
  | some value =>
    dsimp only [Option.map_some]
    rw [Value.set_shift]
    cases Value.set v value a.path with
    | error e => rfl
    | ok new => exact congrArg Except.ok (setRoot_view ha new)

/-! ## What is shown -/

theorem constituents_view {v : Value} (hv : v.Within S.Reaches) :
    (S.view m).constituents (v.shift S.extent) =
      (m.constituents v).map (·.map (·.shift S.extent)) := by
  cases v with
  | address target =>
    change ((S.view m).read (target.shift S.extent)).map ([·]) = _
    rw [read_view (Value.within_address.1 hv), Memory.constituents]
    cases m.read target <;> rfl
  | object cell =>
    rw [Value.shift, Memory.constituents, Memory.constituents, heap_view]
    cases m.heap[cell]? <;> rfl
  | span view =>
    obtain ⟨root, start, length, readonly⟩ := view
    cases root with
    | none =>
      rw [Value.shift, Memory.constituents, Memory.constituents]
      dsimp only [SpanView.shift, Option.map_none]
      cases length <;> rfl
    | some root =>
      rw [Value.shift, Memory.constituents, Memory.constituents]
      dsimp only [SpanView.shift, Option.map_some]
      change Except.ok _ = Except.ok (List.map (Value.shift S.extent) (List.map _ _))
      rw [List.map_map]
      rfl
  | struct fields =>
    rw [Value.shift_struct]
    change Except.ok (List.map _ (List.map _ fields)) = Except.ok (List.map _ (List.map _ fields))
    rw [List.map_map, List.map_map]
    rfl
  | array items =>
    rw [Value.shift_array]
    rfl
  | _ => rfl

theorem rebuild_shift (s : Shift) (v : Value) (items : List Value) :
    Memory.rebuild (v.shift s) items = Memory.rebuild v items := by
  cases v with
  | struct fields =>
    rw [Value.shift_struct, Memory.rebuild, Memory.rebuild, List.map_map]
    rfl
  | array items => rw [Value.shift_array, Memory.rebuild, Memory.rebuild]
  | _ => rfl

/-- What a value goes on to leads no further than memory does. -/
theorem within_constituents {P : Root → Prop} (hheap : ∀ cell, P (.heap cell))
    (hm : ∀ r v, P r → m.root? r = some v → v.Within P) {v : Value} (hv : v.Within P)
    {items : List Value} (h : m.constituents v = .ok items) : ∀ w ∈ items, w.Within P := by
  intro w hw
  cases v with
  | address target =>
    obtain ⟨found, hread, rfl⟩ := Except.map_eq_ok.1 h
    rw [List.mem_singleton.1 hw]
    unfold Memory.read at hread
    split at hread
    · rename_i stored hstored
      exact (hm target.root stored (Value.within_address.1 hv) hstored).get hread
    · cases hread
  | object cell =>
    rw [Memory.constituents] at h
    split at h
    · rename_i object hobject
      cases h
      rw [List.mem_singleton.1 hw]
      exact hm (.heap cell) object (hheap cell) hobject
    · cases h
  | span view =>
    rw [Memory.constituents] at h
    split at h
    · rename_i base hbase
      cases h
      obtain ⟨i, -, rfl⟩ := List.mem_map.1 hw
      exact Value.within_address.2 (Value.within_span.1 hv base hbase)
    · split at h
      · cases h
        cases hw
      · cases h
  | struct fields =>
    cases h
    obtain ⟨field, hfield, rfl⟩ := List.mem_map.1 hw
    exact Value.within_struct.1 hv field hfield
  | array items =>
    cases h
    exact Value.within_array.1 hv w hw
  | _ =>
    cases h
    cases hw

section

variable (hm : ∀ r v, S.Reaches r → m.root? r = some v → v.Within S.Reaches)
include hm

theorem materializeWithin_view (depth : Nat) {v : Value} (hv : v.Within S.Reaches) :
    (S.view m).materializeWithin depth (v.shift S.extent) = m.materializeWithin depth v := by
  induction depth generalizing v with
  | zero => rfl
  | succ depth ih =>
    have hitems := constituents_view (m := m) hv
    cases h : m.constituents v with
    | error e =>
      rw [h] at hitems
      rw [Memory.materializeWithin_of_error h, Memory.materializeWithin_of_error hitems]
    | ok items =>
      rw [h] at hitems
      rw [Memory.materializeWithin_of_ok h, Memory.materializeWithin_of_ok hitems, List.mapM_map]
      have hshown : items.mapM (fun w ↦ (S.view m).materializeWithin depth (w.shift S.extent)) =
          items.mapM (m.materializeWithin depth) :=
        Except.mapM_congr fun w hw ↦ ih (within_constituents reaches_heap hm hv h w hw)
      exact congrArg₂ Except.map (funext (rebuild_shift S.extent v)) hshown

/-- A value on top of other memory is shown as it is without. -/
theorem materialize_view {v : Value} (hv : v.Within S.Reaches) :
    (S.view m).materialize (v.shift S.extent) = m.materialize v := by
  let depth := 2 * (m.size + v.size) + 2 * ((S.view m).size + (v.shift S.extent).size) + 2
  have hpos := v.size_pos
  have hpos' := (v.shift S.extent).size_pos
  calc
    _ = (S.view m).materializeWithin depth (v.shift S.extent) :=
      Memory.materializeWithin_stable (by omega) (by omega)
    _ = m.materializeWithin depth v := materializeWithin_view hm depth hv
    _ = m.materialize v := Memory.materializeWithin_stable (by omega) (by omega)

theorem render_view {v : Value} (hv : v.Within S.Reaches) :
    (S.view m).render (v.shift S.extent) = m.render v := by
  unfold Memory.render
  rw [materialize_view hm hv]

end

end Setting

end InlineArrays
