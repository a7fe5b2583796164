import InlineArrays.Proofs.Machine.Discipline
import Mathlib

/-!
# Calls are isolated

A call writes to storage of its own, to that of calls nested in it and where its arguments and the
heap lead.  If these lead to no activation on the stack, then the stack is the same after the call,
whether it returns or fails.  The numbers of activations are never used twice, so that no address of
an activation that has returned leads to a later one.
-/

namespace InlineArrays

/-- The root is in none of these activations. -/
def Root.Spares (base : List Frame) (r : Root) : Prop := ∀ f ∈ base, ¬ r.InFrame f.id

/-- The value leads to none of these activations. -/
abbrev Value.Spares (base : List Frame) (v : Value) : Prop := v.Within (Root.Spares base)

namespace Memory

variable {m : Memory} {base : List Frame} {depth : Nat}

theorem NumbersFrames.setRoot (hm : m.NumbersFrames) (v : Value) (r : Root) :
    (m.setRoot v r).NumbersFrames := by
  intro g hg
  obtain ⟨f, hf, hsurvives⟩ := (framesSurvive_setRoot m v r).exists_of_mem hg
  calc g.id = f.id := hsurvives.id_eq
    _ < m.nextFrame := hm f hf
    _ = (m.setRoot v r).nextFrame := by cases r <;> rfl

theorem NumbersFrames.updateTop (hm : m.NumbersFrames) {change : Frame → Frame}
    (hid : ∀ f, (change f).id = f.id) : (m.updateTop change).NumbersFrames := by
  unfold Memory.updateTop
  cases hframes : m.frames with
  | nil => exact hm
  | cons f rest =>
    unfold NumbersFrames at hm
    rw [hframes] at hm
    obtain ⟨hf, hrest⟩ := List.forall_mem_cons.1 hm
    exact List.forall_mem_cons.2 ⟨(hid f).symm ▸ hf, hrest⟩

theorem NumbersFrames.pushed (hm : m.NumbersFrames) (routine : Routine)
    (slots : List (VariableId × Value)) : (Executable.pushed routine slots m).NumbersFrames :=
  List.forall_mem_cons.2 ⟨Nat.lt_succ_self _, fun f hf ↦ Nat.lt_succ_of_lt (hm f hf)⟩

theorem NumbersFrames.below (hm : m.NumbersFrames) : m.below.NumbersFrames :=
  fun f hf ↦ hm f (List.mem_of_mem_tail hf)

/-- `base` is on the stack under `depth` activations, which with the heap lead nowhere into it. -/
structure Apart (base : List Frame) (depth : Nat) (m : Memory) : Prop where
  numbered : m.NumbersFrames
  heap : ∀ v ∈ m.heap, v.Spares base
  frames : ∃ above, m.frames = above ++ base ∧ above.length = depth ∧
    ∀ f ∈ above, f.Within (Root.Spares base)

namespace Apart

theorem start (hm : m.NumbersFrames) (hheap : ∀ v ∈ m.heap, v.Spares m.frames) :
    m.Apart m.frames 0 :=
  ⟨hm, hheap, [], rfl, rfl, nofun⟩

theorem frames_eq (h : m.Apart base 0) : m.frames = base := by
  obtain ⟨above, hframes, hlength, -⟩ := h.frames
  rwa [List.eq_nil_of_length_eq_zero hlength] at hframes

theorem spares_of_nextFrame (h : m.Apart base depth) {r : Root} (hr : r.InFrame m.nextFrame) :
    r.Spares base := by
  obtain ⟨above, hframes, -⟩ := h.frames
  intro f hf hin
  have hlt : f.id < m.nextFrame := h.numbered f (hframes ▸ List.mem_append_right above hf)
  have heq : f.id = m.nextFrame := by cases r <;> first | exact hin.symm.trans hr | cases hr
  exact Nat.lt_irrefl _ (heq ▸ hlt)

theorem top_within (h : m.Apart base (depth + 1)) {f : Frame} (hf : m.frames.head? = some f) :
    f.Within (Root.Spares base) := by
  obtain ⟨_ | ⟨g, above⟩, hframes, hlength, habove⟩ := h.frames
  · cases hlength
  · rw [hframes, List.cons_append, List.head?_cons] at hf
    exact Option.some.inj hf ▸ habove g List.mem_cons_self

/-- An activation that a root is in, and that is not one of `base`, is above them. -/
theorem frame?_within (h : m.Apart base depth) {id : Nat} {f : Frame}
    (hid : ∀ g ∈ base, id ≠ g.id) (hf : m.frame? id = some f) : f.Within (Root.Spares base) := by
  obtain ⟨above, hframes, -, habove⟩ := h.frames
  obtain ⟨hmem, rfl⟩ := frame?_eq_some hf
  rw [hframes] at hmem
  rcases List.mem_append.1 hmem with hmem | hmem
  · exact habove f hmem
  · exact absurd rfl (hid f hmem)

theorem root_within (h : m.Apart base depth) {r : Root} {v : Value} (hr : r.Spares base)
    (hv : m.root? r = some v) : v.Spares base := by
  cases r with
  | slot frame target =>
    obtain ⟨f, hf, hv⟩ := Option.bind_eq_some_iff.1 hv
    exact (h.frame?_within hr hf).slot? hv
  | temp frame temp =>
    obtain ⟨f, hf, hv⟩ := Option.bind_eq_some_iff.1 hv
    exact (h.frame?_within hr hf).temps v (List.mem_of_getElem? hv)
  | heap cell => exact h.heap v (List.mem_of_getElem? hv)

/-- An update of an activation that is not one of `base` is one of those above. -/
theorem updateFrame (h : m.Apart base depth) {id : Nat} {change : Frame → Frame}
    (hid : ∀ g ∈ base, id ≠ g.id) (hnumbered : (m.updateFrame id change).NumbersFrames)
    (hchange : ∀ f, f.Within (Root.Spares base) → (change f).Within (Root.Spares base)) :
    (m.updateFrame id change).Apart base depth := by
  obtain ⟨above, hframes, hlength, habove⟩ := h.frames
  have hbase : (base.map fun f ↦ if f.id = id then change f else f) = base := by
    conv_rhs => rw [← List.map_id base]
    exact List.map_congr_left fun f hf ↦ if_neg (Ne.symm (hid f hf))
  refine ⟨hnumbered, h.heap, above.map fun f ↦ if f.id = id then change f else f, ?_, by simpa, ?_⟩
  · calc (m.updateFrame id change).frames
      _ = (above ++ base).map fun f ↦ if f.id = id then change f else f := by rw [← hframes]; rfl
      _ = _ := by rw [List.map_append, hbase]
  · intro g hg
    obtain ⟨f, hf, rfl⟩ := List.mem_map.1 hg
    split
    · exact hchange f (habove f hf)
    · exact habove f hf

theorem setRoot (h : m.Apart base depth) {r : Root} {v : Value} (hr : r.Spares base)
    (hv : v.Spares base) : (m.setRoot v r).Apart base depth := by
  have hnumbered := h.numbered.setRoot v r
  cases r with
  | slot frame target => exact h.updateFrame hr hnumbered fun _ hf ↦ hf.setSlot hv target
  | temp frame temp => exact h.updateFrame hr hnumbered fun _ hf ↦ hf.setTemp hv temp
  | heap cell =>
    refine ⟨hnumbered, fun w hw ↦ ?_, h.frames⟩
    rcases List.mem_or_eq_of_mem_set hw with hw | rfl
    · exact h.heap w hw
    · exact hv

theorem updateTop (h : m.Apart base (depth + 1)) {change : Frame → Frame}
    (hid : ∀ f, (change f).id = f.id)
    (hchange : ∀ f, f.Within (Root.Spares base) → (change f).Within (Root.Spares base)) :
    (m.updateTop change).Apart base (depth + 1) := by
  have hnumbered := h.numbered.updateTop hid
  obtain ⟨_ | ⟨f, above⟩, hframes, hlength, habove⟩ := h.frames
  · cases hlength
  · have hchanged : m.updateTop change = { m with frames := change f :: (above ++ base) } := by
      unfold Memory.updateTop
      rw [hframes, List.cons_append]
    rw [hchanged] at hnumbered ⊢
    obtain ⟨hf, habove⟩ := List.forall_mem_cons.1 habove
    exact ⟨hnumbered, h.heap, change f :: above, rfl, hlength,
      List.forall_mem_cons.2 ⟨hchange f hf, habove⟩⟩

theorem pushed (h : m.Apart base depth) {routine : Routine} {slots : List (VariableId × Value)}
    (hslots : ∀ entry ∈ slots, entry.2.Spares base) :
    (Executable.pushed routine slots m).Apart base (depth + 1) := by
  obtain ⟨above, hframes, hlength, habove⟩ := h.frames
  refine ⟨h.numbered.pushed routine slots, h.heap, _ :: above, congrArg (_ :: ·) hframes, ?_, ?_⟩
  · rw [List.length_cons, hlength]
  · exact List.forall_mem_cons.2 ⟨Frame.within_pushed (m := m) hslots _ rfl, habove⟩

theorem below (h : m.Apart base (depth + 1)) : m.below.Apart base depth := by
  obtain ⟨_ | ⟨f, above⟩, hframes, hlength, habove⟩ := h.frames
  · cases hlength
  · refine ⟨h.numbered.below, h.heap, above, ?_, Nat.succ.inj hlength, ?_⟩
    · rw [Memory.below, hframes, List.cons_append, List.tail_cons]
    · exact fun g hg ↦ habove g (List.mem_cons_of_mem f hg)

end Apart

end Memory

namespace Discipline

/-- The numbers of activations are never used twice, wherever values lead. -/
def numbering : Discipline where
  reach _ := True
  inv _ := Memory.NumbersFrames
  heap_reach _ := trivial
  next_reach _ _ := trivial
  top_within _ _ := Frame.within_true _
  root_within _ _ _ := Value.within_true _
  setRoot hm _ _ := hm.setRoot _ _
  updateTop hm hid _ := hm.updateTop hid
  allocate hm _ := hm
  pushed hm _ := hm.pushed _ _
  popped hm := hm.below

/-- Activations that no value in use leads to stay as they are. -/
def isolation (base : List Frame) : Discipline where
  reach := Root.Spares base
  inv := Memory.Apart base
  heap_reach _ _ _ := not_false
  next_reach hm := hm.spares_of_nextFrame
  top_within hm := hm.top_within
  root_within hm := hm.root_within
  setRoot hm := hm.setRoot
  updateTop hm := hm.updateTop
  allocate hm hv := ⟨hm.numbered, List.forall_mem_append.2 ⟨hm.heap, by simpa using hv⟩, hm.frames⟩
  pushed hm := hm.pushed
  popped hm := hm.below

end Discipline

namespace Executable

variable (x : Executable)

/-- The activations of a fresh machine are numbered, and they stay numbered at each call. -/
theorem numbersFrames_after_invoke (callee : String) (args : List Value) (receiver : Option Value)
    {m : Memory} (hm : m.NumbersFrames) :
    ((x.invoke leave callee args receiver).after m).NumbersFrames := by
  have hcall : Discipline.numbering.Respects 0 (x.invoke leave callee args receiver)
      Discipline.numbering.Admits :=
    Discipline.invoke (Discipline.hostRespects_leave fun _ _ _ _ _ hm ↦ hm) callee
      (fun v _ ↦ v.within_true) fun v _ ↦ v.within_true
  exact hcall.after hm

/-- If neither its arguments nor its receiver nor the heap lead into the stack, then a call leaves
every activation on the stack as it was, whether it succeeds or fails. -/
theorem frames_after_invoke (callee : String) (args : List Value) (receiver : Option Value)
    {m : Memory} (hm : m.NumbersFrames) (hargs : ∀ v ∈ args, v.Spares m.frames)
    (hreceiver : ∀ v ∈ receiver, v.Spares m.frames) (hheap : ∀ v ∈ m.heap, v.Spares m.frames) :
    ((x.invoke leave callee args receiver).after m).frames = m.frames := by
  have hhost : (Discipline.isolation m.frames).HostRespects x leave :=
    Discipline.hostRespects_leave fun _ _ _ _ _ hm ↦ ⟨hm.numbered, hm.heap, hm.frames⟩
  have hcall : (Discipline.isolation m.frames).Respects 0 (x.invoke leave callee args receiver)
      (Discipline.isolation m.frames).Admits :=
    Discipline.invoke hhost callee hargs hreceiver
  have hend : ((x.invoke leave callee args receiver).after m).Apart m.frames 0 :=
    hcall.after (.start hm hheap)
  exact hend.frames_eq

/-- Adds one to the integer that its parameter leads to, and says so. -/
def bump : Executable :=
  let body : Body :=
    { name := "Bump", vars := #[{ name := "cell", kind := .parameter .ref, type := TypeTable.int }] }
  let routine : Routine :=
    { name := "Bump", parameters := [0], valueCount := 4
      code := [.define {} 0 (.addressOf 0 "cell"), .define {} 1 (.load (.computed 0)),
        .define {} 2 (.load (.computed 1)), .define {} 3 (.binary .add (.computed 2) (.int 1)),
        .store {} (.computed 1) (.computed 3), .call {} none "Log" [.computed 3]] }
  ⟨{}, [(body.finish, routine)]⟩

/-- A caller with a cell on the heap. -/
def bumpCaller : Memory :=
  { frames := [{ id := 0, slots := [(0, .int 7)], temps := [.address ⟨.heap 0, []⟩], values := [] }]
    heap := [.int 4], nextFrame := 1 }

theorem frames_after_bump :
    bumpCaller.NumbersFrames ∧ (Value.address ⟨.heap 0, []⟩).Spares bumpCaller.frames ∧
      (Value.int 4).Spares bumpCaller.frames ∧
      ((bump.invoke leave "Bump" [.address ⟨.heap 0, []⟩] none).after bumpCaller).heap = [.int 5] ∧
      ((bump.invoke leave "Bump" [.address ⟨.heap 0, []⟩] none).after bumpCaller).frames =
        bumpCaller.frames := by
  have hnumbered : bumpCaller.NumbersFrames := by simp [bumpCaller, Memory.NumbersFrames]
  have harg : (Value.address ⟨.heap 0, []⟩).Spares bumpCaller.frames :=
    Value.within_address.2 fun _ _ ↦ not_false
  refine ⟨hnumbered, harg, Value.within_int 4, by cbv, ?_⟩
  exact frames_after_invoke bump "Bump" _ none hnumbered (by simpa using harg)
    (fun _ hv ↦ by cases hv) (by simp [bumpCaller])

end Executable

end InlineArrays
