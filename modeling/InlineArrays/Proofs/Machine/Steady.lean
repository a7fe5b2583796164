import InlineArrays.Proofs.Machine.Activations

/-!
# Computations that leave the stack alone

Operations do not change memory at all.  Single instructions, calls and the preparation of a run
leave the activations that there are, whether they succeed or fail.
-/

namespace InlineArrays

namespace Run

variable {α β : Type} {act act' : Run α} {f : α → Run β}

theorem after_bind (m : Memory) :
    (act >>= f).after m =
      match act m with
      | .ok a m' => (f a).after m'
      | .error _ m' => m' := by
  change Run.after (EStateM.bind act f) m = _
  unfold Run.after EStateM.bind
  cases act m <;> rfl

/-- A computation leaves memory as it is. -/
def Quiet (act : Run α) : Prop := ∀ m, act.after m = m

/-- A computation leaves the numbers of the activations as they are. -/
def Steady (act : Run α) : Prop :=
  ∀ m, (act.after m).ids = m.ids ∧ m.nextFrame ≤ (act.after m).nextFrame

namespace Quiet

theorem pure (a : α) : Quiet (pure a) := fun _ ↦ rfl

theorem throw (e : RuntimeError) : Quiet (throw e : Run α) := fun _ ↦ rfl

theorem bind (hact : Quiet act) (hf : ∀ a, Quiet (f a)) : Quiet (act >>= f) := by
  intro m
  have hm := hact m
  rw [after_bind]
  unfold Run.after at hm
  cases hrun : act m with
  | ok a m' =>
    rw [hrun] at hm
    exact (hf a m').trans hm
  | error e m' =>
    rw [hrun] at hm
    exact hm

theorem get_bind {f : Memory → Run α} (h : ∀ m, Quiet (f m)) : Quiet ((get : Run Memory) >>= f) :=
  fun m ↦ h m m

theorem mapM {f : α → Run β} (h : ∀ a, Quiet (f a)) (l : List α) : Quiet (l.mapM f) := by
  induction l with
  | nil =>
    rw [List.mapM_nil]
    exact pure []
  | cons a l ih =>
    rw [List.mapM_cons]
    exact (h a).bind fun b ↦ ih.bind fun bs ↦ pure (b :: bs)

theorem steady (h : Quiet act) : Steady act := by
  intro m
  rw [h m]
  exact ⟨rfl, Nat.le_refl _⟩

end Quiet

theorem Steady.bind (hact : Steady act) (hf : ∀ a, Steady (f a)) : Steady (act >>= f) := by
  intro m
  have hm := hact m
  rw [after_bind]
  unfold Run.after at hm
  cases hrun : act m with
  | ok a m' =>
    rw [hrun] at hm
    exact ⟨(hf a m').1.trans hm.1, Nat.le_trans hm.2 (hf a m').2⟩
  | error e m' =>
    rw [hrun] at hm
    exact hm

theorem operand_quiet (o : Operand) : Quiet (operand o) := by
  refine .get_bind fun m ↦ ?_
  cases o with
  | int | bool => exact .pure _
  | computed id | temp id =>
    dsimp only
    split
    · exact .pure _
    · exact .throw _

theorem int_quiet (o : Operand) : Quiet (int o) :=
  (operand_quiet o).bind fun v ↦ by cases v <;> first | exact .pure _ | exact .throw _

theorem address_quiet (o : Operand) : Quiet (address o) :=
  (operand_quiet o).bind fun v ↦ by cases v <;> first | exact .pure _ | exact .throw _

theorem span_quiet (o : Operand) : Quiet (span o) :=
  (operand_quiet o).bind fun v ↦ by cases v <;> first | exact .pure _ | exact .throw _

theorem offset_quiet (o : Operand) : Quiet (offset o) :=
  (operand_quiet o).bind fun v ↦ by cases v <;> first | exact .pure _ | exact .throw _

theorem range_quiet (o : Operand) : Quiet (range o) :=
  (operand_quiet o).bind fun v ↦ by cases v <;> first | exact .pure _ | exact .throw _

theorem read_quiet (a : Address) : Quiet (read a) := by
  refine .get_bind fun m ↦ ?_
  cases m.read a with
  | ok v => exact .pure v
  | error e => exact .throw e

theorem operation_quiet {types : TypeTable} {frame : Nat} (op : Operation) :
    Quiet (op.run types frame) := by
  cases op with
  | addressOf | tempAddress | default => exact .pure _
  | fieldAddress base name =>
    exact (operand_quiet base).bind fun v ↦ by cases v <;> first | exact .pure _ | exact .throw _
  | load source => exact (address_quiet source).bind fun a ↦ read_quiet a
  | project kind base array element size => exact (address_quiet base).bind fun _ ↦ .pure _
  | length view => exact (span_quiet view).bind fun _ ↦ .pure _
  | getOffset offset total =>
    exact (offset_quiet offset).bind fun _ ↦ (int_quiet total).bind fun _ ↦ .pure _
  | makeIndex value fromEnd =>
    refine (int_quiet value).bind fun n ↦ ?_
    split
    · exact .throw _
    · exact .pure _
  | makeRange start stop =>
    exact (offset_quiet start).bind fun _ ↦ (offset_quiet stop).bind fun _ ↦ .pure _
  | rangeStart range | rangeEnd range => exact (range_quiet range).bind fun _ ↦ .pure _
  | binary op left right =>
    exact (int_quiet left).bind fun _ ↦ (int_quiet right).bind fun _ ↦ .pure _
  | index view position =>
    refine (span_quiet view).bind fun view ↦ (int_quiet position).bind fun n ↦ ?_
    cases view.index n with
    | ok element => exact .pure _
    | error e => exact .throw e
  | slice view start count =>
    refine (span_quiet view).bind fun view ↦ (int_quiet start).bind fun n ↦
      (int_quiet count).bind fun length ↦ ?_
    cases view.slice n length with
    | ok part => exact .pure _
    | error e => exact .throw e
  | convert value => exact (int_quiet value).bind fun _ ↦ .pure _

theorem shown_quiet {r : Routine} (returned : Value) : Quiet (Executable.shown r returned) := by
  unfold Executable.shown
  split
  · exact .pure none
  · refine .get_bind fun m ↦ ?_
    cases m.materialize returned with
    | ok v => exact .pure (some v)
    | error e => exact .throw e

end Run

namespace Memory

theorem ids_setRoot (m : Memory) (value : Value) (root : Root) :
    (m.setRoot value root).ids = m.ids := by
  have hids {frames frames' : List Frame} (h : FramesSurvive frames frames') :
      frames'.map (·.id) = frames.map (·.id) := by
    induction h with
    | nil => rfl
    | cons h _ ih => rw [List.map_cons, List.map_cons, h.id_eq, ih]
  exact hids (m.framesSurvive_setRoot value root)

theorem nextFrame_setRoot (m : Memory) (value : Value) (root : Root) :
    (m.setRoot value root).nextFrame = m.nextFrame := by
  cases root <;> rfl

theorem ids_updateTop {change : Frame → Frame} (h : ∀ f, (change f).id = f.id) (m : Memory) :
    (m.updateTop change).ids = m.ids := by
  unfold updateTop
  cases hframes : m.frames with
  | nil => rfl
  | cons f rest => rw [ids, ids, hframes, List.map_cons, List.map_cons, h]

theorem nextFrame_updateTop (m : Memory) (change : Frame → Frame) :
    (m.updateTop change).nextFrame = m.nextFrame := by
  unfold updateTop
  split <;> rfl

theorem ids_below (m : Memory) : m.below.ids = m.ids.tail := List.map_tail

end Memory

namespace Run

theorem updateTop_steady (change : Frame → Frame) (h : ∀ f, (change f).id = f.id) :
    Steady (modify (·.updateTop change) : Run Unit) := fun m ↦
  ⟨m.ids_updateTop h, (m.nextFrame_updateTop change).ge⟩

theorem define_steady (dest : ValueId) (value : Value) : Steady (define dest value) :=
  updateTop_steady (·.define dest value) fun _ ↦ rfl

theorem write_steady (a : Address) (value : Value) : Steady (write a value) := by
  intro m
  unfold Run.after
  cases hwrite : m.write a value with
  | error e =>
    rw [write_of_error hwrite]
    exact ⟨rfl, Nat.le_refl _⟩
  | ok m' =>
    obtain ⟨old, new, -, -, rfl⟩ := Memory.write_eq_ok.1 hwrite
    rw [write_of_ok hwrite]
    exact ⟨m.ids_setRoot new a.root, (m.nextFrame_setRoot new a.root).ge⟩

end Run

namespace Discipline

/-- These are the activations below so many others. -/
def stacking (ids : List Nat) (next : Nat) : Discipline where
  reach _ := True
  inv depth m := m.ids.drop depth = ids ∧ next ≤ m.nextFrame
  heap_reach _ := trivial
  next_reach _ _ := trivial
  top_within _ _ := Frame.within_true _
  root_within _ _ _ := Value.within_true _
  setRoot {_ m r v} hm _ _ := by rwa [m.ids_setRoot v r, m.nextFrame_setRoot v r]
  updateTop {_ m change} hm hid _ := by rwa [m.ids_updateTop hid, m.nextFrame_updateTop change]
  allocate hm _ := hm
  pushed hm _ := ⟨hm.1, Nat.le_succ_of_le hm.2⟩
  popped {depth m} hm := by
    refine ⟨?_, hm.2⟩
    rw [m.ids_below, List.drop_tail]
    exact hm.1

variable {x : Executable}

theorem stacking_leave {ids : List Nat} {next : Nat} :
    (stacking ids next).HostRespects x Executable.leave :=
  hostRespects_leave fun _ _ _ _ _ hm ↦ hm

/-- What keeps the activations below so many others keeps all that there are. -/
theorem steady_of_stacking {α : Type} {act : Run α} (post : Discipline → α → Prop)
    (h : ∀ ids next, (stacking ids next).Respects 0 act (post (stacking ids next))) : Run.Steady act := fun m ↦
  (h m.ids m.nextFrame).after ⟨rfl, Nat.le_refl _⟩

end Discipline

namespace Executable

open Run

variable (x : Executable)

/-- A call returns, or fails, with the activations there were. -/
theorem invokeWithin_steady (room : Nat) (callee : String) (args : List Value)
    (receiver : Option Value) : Steady (x.invokeWithin leave room callee args receiver) :=
  Discipline.steady_of_stacking Discipline.Admits fun _ _ ↦
    Discipline.invokeWithin Discipline.stacking_leave room callee (fun v _ ↦ v.within_true)
      fun v _ ↦ v.within_true

theorem invoke_steady (callee : String) (args : List Value) (receiver : Option Value) :
    Steady (x.invoke leave callee args receiver) :=
  Discipline.steady_of_stacking Discipline.Admits fun _ _ ↦
    Discipline.invoke Discipline.stacking_leave callee (fun v _ ↦ v.within_true)
      fun v _ ↦ v.within_true

theorem leave_steady (callee : String) (args : List Value) : Steady (leave callee args) := fun _ ↦
  ⟨rfl, Nat.le_refl _⟩

end Executable

end InlineArrays
