import InlineArrays.Proofs.Machine.Shifted
import InlineArrays.Proofs.Machine.Steady

/-!
# Calls do not see what is below them

A call leads to memory through its arguments, its own activations and what it puts on the heap.  So
it does on top of any other memory what it does by itself, with the numbers moved up: it returns the
same value, or fails with the same error, and records the same calls.  On top of other memory there
may be room for fewer activations; a call that does not run out of room is not changed by having
more of it.  Nor is it changed by what is in a slot that its code does not refer to, as then nothing
ever leads there.
-/

namespace InlineArrays

namespace Setting

variable {S : Setting} {depth : Nat} {m : Memory}

/-- Nothing leads to a slot that is not looked at, and only the last of so many activations is the
first one. -/
structure Encloses (S : Setting) (depth : Nat) (m : Memory) : Prop where
  length : m.ids.length = depth
  started : 0 < m.nextFrame
  inner : 0 ∉ m.ids.dropLast
  heap : ∀ v ∈ m.heap, v.Within S.Reaches
  frames : ∀ f ∈ m.frames, f.Within S.Reaches

namespace Encloses

theorem ne_nil (h : S.Encloses (depth + 1) m) : m.frames ≠ [] :=
  List.ne_nil_of_length_eq_add_one (m.length_ids.symm.trans h.length)

theorem exists_top (h : S.Encloses (depth + 1) m) : ∃ f, m.frames.head? = some f := by
  obtain ⟨f, frames, hframes⟩ := List.exists_cons_of_ne_nil h.ne_nil
  exact ⟨f, by rw [hframes, List.head?_cons]⟩

theorem eq_zero_of_top (h : S.Encloses (depth + 1) m) {f : Frame} (hf : m.frames.head? = some f)
    (hid : f.id = 0) : depth = 0 := by
  obtain ⟨rest, hframes⟩ := List.head?_eq_some_iff.1 hf
  have hlength := h.length
  have hinner := h.inner
  unfold Memory.ids at hlength hinner
  rw [hframes, List.map_cons] at hlength hinner
  cases rest with
  | nil => exact (Nat.succ.inj hlength).symm
  | cons g rest =>
    rw [List.map_cons, List.dropLast_cons_cons, hid] at hinner
    exact absurd List.mem_cons_self hinner

theorem root_within (h : S.Encloses depth m) {r : Root} {v : Value} (hv : m.root? r = some v) :
    v.Within S.Reaches := by
  cases r with
  | slot frame target =>
    obtain ⟨f, hf, hv⟩ := Option.bind_eq_some_iff.1 hv
    exact (h.frames f (Memory.frame?_eq_some hf).1).slot? hv
  | temp frame temp =>
    obtain ⟨f, hf, hv⟩ := Option.bind_eq_some_iff.1 hv
    exact (h.frames f (Memory.frame?_eq_some hf).1).temps v (List.mem_of_getElem? hv)
  | heap cell => exact h.heap v (List.mem_of_getElem? hv)

theorem setRoot (h : S.Encloses depth m) {v : Value} (hv : v.Within S.Reaches) (r : Root) :
    S.Encloses depth (m.setRoot v r) := by
  have hframe {id : Nat} {change : Frame → Frame}
      (hchange : ∀ f, f.Within S.Reaches → (change f).Within S.Reaches) :
      ∀ f ∈ (m.updateFrame id change).frames, f.Within S.Reaches := by
    intro g hg
    obtain ⟨f, hf, rfl⟩ := List.mem_map.1 hg
    split
    · exact hchange f (h.frames f hf)
    · exact h.frames f hf
  have hids := m.ids_setRoot v r
  refine ⟨hids ▸ h.length, (m.nextFrame_setRoot v r).symm ▸ h.started, hids ▸ h.inner, ?_, ?_⟩
  · cases r with
    | slot | temp => exact h.heap
    | heap cell =>
      intro w hw
      rcases List.mem_or_eq_of_mem_set hw with hw | rfl
      · exact h.heap w hw
      · exact hv
  · cases r with
    | slot frame target => exact hframe fun _ hf ↦ hf.setSlot hv target
    | temp frame temp => exact hframe fun _ hf ↦ hf.setTemp hv temp
    | heap cell => exact h.frames

theorem updateTop (h : S.Encloses depth m) {change : Frame → Frame}
    (hid : ∀ f, (change f).id = f.id)
    (hchange : ∀ f, f.Within S.Reaches → (change f).Within S.Reaches) :
    S.Encloses depth (m.updateTop change) := by
  have hids := m.ids_updateTop hid
  refine ⟨hids ▸ h.length, (m.nextFrame_updateTop change).symm ▸ h.started, hids ▸ h.inner, ?_, ?_⟩
  · unfold Memory.updateTop
    split <;> exact h.heap
  · have hframes := h.frames
    unfold Memory.updateTop
    split
    · exact hframes
    · rename_i f rest hcons
      rw [hcons] at hframes
      obtain ⟨hf, hrest⟩ := List.forall_mem_cons.1 hframes
      exact List.forall_mem_cons.2 ⟨hchange f hf, hrest⟩

theorem allocate (h : S.Encloses depth m) {v : Value} (hv : v.Within S.Reaches) :
    S.Encloses depth (m.allocate v).2 :=
  ⟨h.length, h.started, h.inner, List.forall_mem_append.2 ⟨h.heap, by simpa using hv⟩, h.frames⟩

theorem pushed (h : S.Encloses depth m) {r : Routine} {slots : List (VariableId × Value)}
    (hslots : ∀ entry ∈ slots, entry.2.Within S.Reaches) :
    S.Encloses (depth + 1) (Executable.pushed r slots m) := by
  have hids : (Executable.pushed r slots m).ids = m.nextFrame :: m.ids := rfl
  refine ⟨congrArg (· + 1) h.length, Nat.succ_pos _, ?_, h.heap,
    List.forall_mem_cons.2 ⟨Frame.within_pushed (m := m) hslots _ rfl, h.frames⟩⟩
  rw [hids]
  cases hrest : m.ids with
  | nil => exact List.not_mem_nil
  | cons id ids =>
    rw [List.dropLast_cons_cons, ← hrest]
    exact fun hmem ↦ (List.mem_cons.1 hmem).elim (Nat.ne_of_lt h.started) h.inner

theorem below (h : S.Encloses (depth + 1) m) : S.Encloses depth m.below := by
  refine ⟨?_, h.started, fun hmem ↦ h.inner ?_, h.heap,
    fun f hf ↦ h.frames f (List.mem_of_mem_tail hf)⟩
  · rw [m.ids_below, List.length_tail, h.length, Nat.add_sub_cancel]
  · rw [m.ids_below, ← List.tail_dropLast] at hmem
    exact List.mem_of_mem_tail hmem

end Encloses

/-- Nothing ever leads to a slot that is not looked at. -/
def discipline (S : Setting) : Discipline where
  reach := S.Reaches
  inv := S.Encloses
  heap_reach := reaches_heap
  next_reach {_ m r} h hr := by
    rintro target rfl
    exact absurd hr (Nat.ne_of_lt h.started)
  top_within h hf := h.frames _ (List.mem_of_mem_head? hf)
  root_within h _ hv := h.root_within hv
  setRoot h _ hv := h.setRoot hv _
  updateTop h hid hchange := h.updateTop hid hchange
  allocate h hv := h.allocate hv
  pushed h hslots := h.pushed hslots
  popped h := h.below

theorem respects_leave {x : Executable} : S.discipline.HostRespects x Executable.leave :=
  Discipline.hostRespects_leave fun _ _ _ _ _ h ↦ ⟨h.length, h.started, h.inner, h.heap, h.frames⟩

/-- A new activation on top of other memory. -/
theorem pushed_view (r : Routine) (slots : List (VariableId × Value)) (m : Memory) :
    S.view (Executable.pushed r slots m) =
      Executable.pushed r (slots.map fun entry ↦ (entry.1, S.slot m.nextFrame entry.1 entry.2))
        (S.view m) := by
  unfold Executable.pushed view
  dsimp only
  rw [List.map_cons, List.cons_append, frame, List.map_replicate, List.map_replicate,
    Nat.add_right_comm]
  rfl

theorem below_view (h : m.frames ≠ []) : (S.view m).below = S.view m.below := by
  unfold Memory.below view
  rw [List.tail_append_of_ne_nil (by simpa using h), List.map_tail]

end Setting

namespace Run

variable {α β : Type}

/-- What a computation ends with, on top of other memory. -/
def moved (S : Setting) (lift : α → α) :
    EStateM.Result RuntimeError Memory α → EStateM.Result RuntimeError Memory α
  | .ok a m => .ok (lift a) (S.view m)
  | .error e m => .error e (S.view m)

/-- In so many activations of its own, `act'` does on top of other memory what `act` does by itself,
unless it has less room and runs out of it. -/
def Mirrors (S : Setting) (depth : Nat) (lift : α → α) (act act' : Run α) : Prop :=
  ∀ m, S.Encloses depth m →
    act' (S.view m) = moved S lift (act m) ∨
      0 < S.slack ∧ ∃ m', act' (S.view m) = .error .stackOverflow m'

namespace Mirrors

variable {S : Setting} {depth : Nat} {lift : α → α} {lift' : β → β} {act act' : Run α}

theorem pure {a a' : α} (h : lift a = a') : Mirrors S depth lift (pure a) (pure a') :=
  fun _ _ ↦ .inl (h ▸ rfl)

theorem throw (e : RuntimeError) : Mirrors S depth lift (throw e) (throw e) := fun _ _ ↦ .inl rfl

theorem stackOverflow (h : 0 < S.slack) :
    Mirrors S depth lift act (MonadExcept.throw .stackOverflow) :=
  fun _ _ ↦ .inr ⟨h, _, rfl⟩

theorem bind {mid : α → Prop} {f f' : α → Run β} (hkeeps : S.discipline.Respects depth act mid)
    (hact : Mirrors S depth lift act act')
    (hf : ∀ a, mid a → Mirrors S depth lift' (f a) (f' (lift a))) :
    Mirrors S depth lift' (act >>= f) (act' >>= f') := by
  intro m hm
  have hmid := hkeeps hm
  rcases hact m hm with hsame | ⟨hslack, m', hover⟩
  · cases hrun : act m with
    | ok a next =>
      rw [hrun] at hsame hmid
      rw [bind_eq hrun, bind_eq hsame]
      exact hf a hmid.1 next hmid.2
    | error e next =>
      rw [hrun] at hsame
      rw [bind_error hrun, bind_error hsame]
      exact .inl rfl
  · exact .inr ⟨hslack, m', bind_error hover⟩

theorem mapM {post : α → Prop} {f f' : β → Run α}
    (hkeeps : ∀ b, S.discipline.Respects depth (f b) post)
    (hf : ∀ b, Mirrors S depth lift (f b) (f' b)) (l : List β) :
    Mirrors S depth (List.map lift) (l.mapM f) (l.mapM f') := by
  induction l with
  | nil =>
    rw [List.mapM_nil, List.mapM_nil]
    exact pure rfl
  | cons b l ih =>
    rw [List.mapM_cons, List.mapM_cons]
    exact bind (hkeeps b) (hf b) fun a _ ↦
      bind (.mapM fun b _ ↦ hkeeps b) ih fun as _ ↦ pure rfl

theorem updateTop {change change' : Frame → Frame}
    (h : ∀ f : Frame, (f.id = 0 → depth = 0) → change' (S.frame f) = S.frame (change f)) :
    Mirrors S (depth + 1) id (modify (·.updateTop change)) (modify (·.updateTop change')) := by
  intro m hm
  obtain ⟨f, hf⟩ := hm.exists_top
  have htop := S.updateTop_view hf (h f (hm.eq_zero_of_top hf))
  exact .inl (congrArg (EStateM.Result.ok ()) htop)

/-! ## Operands -/

theorem operand (o : Operand) :
    Mirrors S (depth + 1) (Value.shift S.extent) (operand o) (operand o) := by
  intro m hm
  left
  obtain ⟨f, hf⟩ := hm.exists_top
  unfold Run.operand
  rw [Run.bind_eq (rfl : (MonadState.get : Run Memory) m = .ok m m),
    Run.bind_eq (rfl : (MonadState.get : Run Memory) (S.view m) = .ok (S.view m) _), hf,
    Setting.head?_view hf]
  cases o with
  | int | bool => rfl
  | computed id =>
    dsimp only
    rw [Option.bind_some, Option.bind_some, Setting.value?_frame]
    cases f.value? id <;> rfl
  | temp id =>
    dsimp only
    rw [Option.bind_some, Option.bind_some, Setting.temp?_frame]
    cases f.temps[id]? <;> rfl

theorem int (o : Operand) : Mirrors S (depth + 1) id (int o) (int o) :=
  bind (Discipline.operand o) (operand o) fun v _ ↦ by
    cases v <;> first | exact pure rfl | exact throw _

theorem offset (o : Operand) : Mirrors S (depth + 1) id (Run.offset o) (Run.offset o) :=
  bind (Discipline.operand o) (operand o) fun v _ ↦ by
    cases v <;> first | exact pure rfl | exact throw _

theorem range (o : Operand) : Mirrors S (depth + 1) id (range o) (range o) :=
  bind (Discipline.operand o) (operand o) fun v _ ↦ by
    cases v <;> first | exact pure rfl | exact throw _

theorem address (o : Operand) :
    Mirrors S (depth + 1) (Address.shift S.extent) (address o) (address o) :=
  bind (Discipline.operand o) (operand o) fun v _ ↦ by
    cases v <;> first | exact pure rfl | exact throw _

theorem span (o : Operand) :
    Mirrors S (depth + 1) (SpanView.shift S.extent) (span o) (span o) :=
  bind (Discipline.operand o) (operand o) fun v _ ↦ by
    cases v <;> first | exact pure rfl | exact throw _

theorem define (dest : ValueId) (v : Value) :
    Mirrors S (depth + 1) id (define dest v) (define dest (v.shift S.extent)) :=
  updateTop fun f _ ↦ Setting.define_frame f dest v

theorem read {a : Address} (ha : S.Reaches a.root) :
    Mirrors S depth (Value.shift S.extent) (read a) (read (a.shift S.extent)) := by
  intro m _
  have hread := Setting.read_view (m := m) ha
  cases h : m.read a with
  | ok v =>
    rw [h] at hread
    rw [read_of_ok h, read_of_ok hread]
    exact .inl rfl
  | error e =>
    rw [h] at hread
    rw [read_of_error h, read_of_error hread]
    exact .inl rfl

theorem write {a : Address} (ha : S.Reaches a.root) (v : Value) :
    Mirrors S depth id (write a v) (write (a.shift S.extent) (v.shift S.extent)) := by
  intro m _
  have hwrite := Setting.write_view (m := m) ha v
  cases h : m.write a v with
  | ok m' =>
    rw [h] at hwrite
    rw [write_of_ok h, write_of_ok hwrite]
    exact .inl rfl
  | error e =>
    rw [h] at hwrite
    rw [write_of_error h, write_of_error hwrite]
    exact .inl rfl

variable {types : TypeTable} {frame : Nat}

theorem operation (op : Operation) :
    Mirrors S (depth + 1) (Value.shift S.extent) (op.run types frame)
      (op.run types (frame + S.extent.frames)) := by
  cases op with
  | addressOf | tempAddress => exact pure rfl
  | fieldAddress base name =>
    exact bind (Discipline.operand base) (operand base) fun v _ ↦ by
      cases v <;> first | exact pure rfl | exact throw _
  | load source =>
    exact bind (Discipline.address source) (address source) fun a ha ↦ read ha
  | default type name => exact pure (Value.defaultValue_shift types type)
  | project kind base array element size =>
    exact bind (Discipline.address base) (address base) fun _ _ ↦ pure rfl
  | length view => exact bind (Discipline.span view) (span view) fun _ _ ↦ pure rfl
  | getOffset offset total =>
    exact bind (Discipline.offset offset) (Mirrors.offset offset) fun _ _ ↦
      bind (Discipline.int total) (int total) fun _ _ ↦ pure rfl
  | makeIndex value fromEnd =>
    refine bind (Discipline.int value) (int value) fun n _ ↦ ?_
    dsimp only [id]
    split
    · exact throw _
    · exact pure rfl
  | makeRange start stop =>
    exact bind (Discipline.offset start) (offset start) fun _ _ ↦
      bind (Discipline.offset stop) (offset stop) fun _ _ ↦ pure rfl
  | rangeStart range | rangeEnd range =>
    exact bind (Discipline.range range) (Mirrors.range range) fun _ _ ↦ pure rfl
  | binary op left right =>
    exact bind (Discipline.int left) (int left) fun _ _ ↦
      bind (Discipline.int right) (int right) fun _ _ ↦ pure rfl
  | index view position =>
    refine bind (Discipline.span view) (span view) fun view _ ↦
      bind (Discipline.int position) (int position) fun n _ ↦ ?_
    dsimp only [id]
    rw [view.index_shift]
    cases view.index n with
    | ok element => exact pure rfl
    | error e => exact throw e
  | slice view start count =>
    refine bind (Discipline.span view) (span view) fun view _ ↦
      bind (Discipline.int start) (int start) fun first _ ↦
        bind (Discipline.int count) (int count) fun n _ ↦ ?_
    dsimp only [id]
    rw [view.slice_shift]
    cases view.slice first n with
    | ok part => exact pure rfl
    | error e => exact throw e
  | convert value => exact bind (Discipline.int value) (int value) fun _ _ ↦ pure rfl

/-! ## Instructions -/

section

variable {invoke invoke' : String → List Value → Run Value}

mutual

/-- An instruction that refers to slots that are looked at does on top of other memory what it does
by itself if calls do. -/
theorem instr
    (hkeeps : ∀ callee args, (∀ v ∈ args, S.discipline.Admits v) →
      S.discipline.Respects (depth + 1) (invoke callee args) S.discipline.Admits)
    (hinvoke : ∀ callee args, (∀ v ∈ args, S.discipline.Admits v) →
      Mirrors S (depth + 1) (Value.shift S.extent) (invoke callee args)
        (invoke' callee (args.map (Value.shift S.extent)))) :
    (i : Instr) →
      (∀ j ∈ i.flatten, ∀ target ∈ j.variable?, frame = 0 ∨ depth = 0 → S.seen target) →
      Mirrors S (depth + 1) (Option.map (Value.shift S.extent)) (i.run types invoke frame)
        (i.run types invoke' (frame + S.extent.frames))
  | .define _ dest op, hseen => by
    have hslots (target) (ht : target ∈ op.variable?) : S.Reaches (.slot frame target) :=
      Setting.reaches_slot fun hframe ↦ hseen _ List.mem_cons_self target ht (.inl hframe)
    exact bind (Discipline.operation (Setting.reaches_temp frame) op hslots) (operation op)
      fun v hv ↦ bind (Discipline.define dest hv) (define dest v) fun _ _ ↦ pure rfl
  | .store _ target value, _ =>
    bind (Discipline.address target) (address target) fun a ha ↦
      bind (Discipline.operand value) (operand value) fun v hv ↦
        bind (Discipline.write ha hv) (write ha v) fun _ _ ↦ pure rfl
  | .storeTemp _ temp value, _ => by
    refine bind (Discipline.operand value) (operand value) fun v hv ↦ ?_
    have hset : Mirrors S (depth + 1) id (modify (·.updateTop (·.setTemp temp v)))
        (modify (·.updateTop (·.setTemp temp (v.shift S.extent)))) :=
      updateTop fun f _ ↦ Setting.setTemp_frame f temp v
    exact bind (.modify fun _ hm ↦ hm.updateTop (fun _ ↦ rfl) fun _ hf ↦ hf.setTemp hv temp) hset
      fun _ _ ↦ pure rfl
  | .bind _ target _ source, hseen => by
    refine bind (Discipline.address source) (address source) fun a ha ↦ ?_
    have hset : Mirrors S (depth + 1) id (modify (·.updateTop (·.setSlot target (.address a))))
        (modify (·.updateTop (·.setSlot target (.address (a.shift S.extent))))) := by
      refine updateTop fun f htop ↦ Setting.setSlot_frame (Setting.reaches_slot fun hid ↦ ?_) (.address a)
      exact hseen _ List.mem_cons_self target rfl (.inr (htop hid))
    exact bind (.modify fun _ hm ↦ hm.updateTop (fun _ ↦ rfl) fun _ hf ↦
      hf.setSlot (Value.within_address.2 ha) target) hset fun _ _ ↦ pure rfl
  | .call _ dest callee args, _ => by
    refine bind (.mapM fun o _ ↦ Discipline.operand o) (mapM Discipline.operand operand args)
      fun args hargs ↦ bind (hkeeps callee args hargs) (hinvoke callee args hargs)
        fun result hresult ↦ ?_
    cases dest with
    | none => exact pure rfl
    | some dest => exact bind (Discipline.define dest hresult) (define dest result) fun _ _ ↦ pure rfl
  | .guard _ dest tested body result, hseen => by
    refine bind (Discipline.operand tested) (operand tested) fun v _ ↦ ?_
    rw [Value.isNull_shift]
    split
    · exact bind (Discipline.define dest Value.within_null) (define dest .null) fun _ _ ↦ pure rfl
    · have hbody := fun j hj ↦ hseen j (List.mem_cons_of_mem _ hj)
      have hslots (j) (hj : j ∈ Instr.flattenAll body) (target) (ht : target ∈ j.variable?) :
          S.Reaches (.slot frame target) :=
        Setting.reaches_slot fun hframe ↦ hbody j hj target ht (.inl hframe)
      refine bind (Discipline.code hkeeps (Setting.reaches_temp frame) body hslots)
        (code hkeeps hinvoke body hbody) fun returned _ ↦ ?_
      cases returned with
      | some value => exact pure rfl
      | none =>
        exact bind (Discipline.operand result) (operand result) fun v hv ↦
          bind (Discipline.define dest hv) (define dest v) fun _ _ ↦ pure rfl
  | .ret _ none, _ => pure rfl
  | .ret _ (some value), _ => bind (Discipline.operand value) (operand value) fun _ _ ↦ pure rfl

theorem code
    (hkeeps : ∀ callee args, (∀ v ∈ args, S.discipline.Admits v) →
      S.discipline.Respects (depth + 1) (invoke callee args) S.discipline.Admits)
    (hinvoke : ∀ callee args, (∀ v ∈ args, S.discipline.Admits v) →
      Mirrors S (depth + 1) (Value.shift S.extent) (invoke callee args)
        (invoke' callee (args.map (Value.shift S.extent)))) :
    (code : List Instr) →
      (∀ j ∈ Instr.flattenAll code, ∀ target ∈ j.variable?,
        frame = 0 ∨ depth = 0 → S.seen target) →
      Mirrors S (depth + 1) (Option.map (Value.shift S.extent))
        (Instr.runAll types invoke frame code)
        (Instr.runAll types invoke' (frame + S.extent.frames) code)
  | [], _ => pure rfl
  | i :: rest, hseen => by
    obtain ⟨hfirst, hrest⟩ := List.forall_mem_append.1 hseen
    have hslots (j) (hj : j ∈ i.flatten) (target) (ht : target ∈ j.variable?) :
        S.Reaches (.slot frame target) :=
      Setting.reaches_slot fun hframe ↦ hfirst j hj target ht (.inl hframe)
    refine bind (Discipline.instr hkeeps (Setting.reaches_temp frame) i hslots)
      (instr hkeeps hinvoke i hfirst) fun returned _ ↦ ?_
    cases returned with
    | some value => exact pure rfl
    | none => exact code hkeeps hinvoke rest hrest

end

end

end Mirrors

end Run

/-! ## Calls -/

namespace Executable

open Run

variable {x : Executable} {S : Setting} {depth : Nat}

/-- What a local starts with leads nowhere. -/
theorem shift_of_initial? {s : Shift} {v : Variable} {value : Value}
    (h : x.initial? v = some value) : value.shift s = value := by
  unfold initial? at h
  split at h
  · exact Option.some.inj h ▸ Value.defaultValue_shift x.types v.type
  · exact Option.some.inj h ▸ rfl
  · cases h
  · cases h

theorem slots_shift (s : Shift) (m : Method) (r : Routine) (args : List Value) :
    x.slots m r (args.map (Value.shift s)) none =
      (x.slots m r args none).map fun entry ↦ (entry.1, entry.2.shift s) := by
  have hdeclared : (x.declared m).map (fun entry ↦ (entry.1, entry.2.shift s)) = x.declared m :=
    (List.map_congr_left fun entry hentry ↦
      congrArg (entry.1, ·) (shift_of_initial? (mem_declared hentry))).trans (List.map_id _)
  have hpairs : r.parameters.zip (args.map (Value.shift s)) =
      (r.parameters.zip args).map fun entry ↦ (entry.1, entry.2.shift s) := List.zip_map_right ..
  have hpassed := foldl_assign_map (fun _ ↦ Value.shift s) (r.parameters.zip args) (x.declared m)
  rw [hdeclared, ← hpairs] at hpassed
  rw [slots_eq, slots_eq, hpassed]
  cases r.receiver with
  | none => rfl
  | some v =>
    have hvalue : defaultValue x.types (m.var v).type =
        (defaultValue x.types (m.var v).type).shift s :=
      (Value.defaultValue_shift x.types _).symm
    rw [Option.elim_some, Option.getD_none]
    exact (congrArg (assign v · _) hvalue).trans (assign_map (fun _ ↦ Value.shift s) v _ _)

/-- Arguments are recorded as they are without what is below. -/
theorem leave_mirrors (callee : String) {args : List Value}
    (hargs : ∀ v ∈ args, S.discipline.Admits v) :
    Mirrors S depth (Value.shift S.extent) (leave callee args)
      (leave callee (args.map (Value.shift S.extent))) := by
  intro m hm
  have htext : callText (S.view m) callee (args.map (Value.shift S.extent)) =
      callText m callee args := by
    have hshown : (args.map (Value.shift S.extent)).map (S.view m).render = args.map m.render := by
      rw [List.map_map]
      exact List.map_congr_left fun v hv ↦
        Setting.render_view (fun _ _ _ ↦ hm.root_within) (hargs v hv)
    unfold callText
    rw [hshown]
  have hleave (m : Memory) (args : List Value) : leave callee args m =
      .ok .unit { m with output := m.output ++ [callText m callee args] } := rfl
  left
  rw [hleave, hleave, htext]
  unfold moved Setting.view
  dsimp only
  rw [List.append_assoc]
  rfl

theorem activate_eq (r : Routine) (slots : List (VariableId × Value))
    (body : Nat → Run (Option Value)) (m : Memory) :
    activate r slots body m =
      match body m.nextFrame (pushed r slots m) with
      | .ok returned m => .ok (returned.getD .unit) m.below
      | .error e m => .error e m.below := rfl

/-- An activation that starts in memory where nothing leads to a slot that is not looked at. -/
theorem activate_mirrors {m : Memory} {r : Routine} {slots : List (VariableId × Value)}
    {body body' : Nat → Run (Option Value)} {post : Option Value → Prop}
    (hm : S.Encloses (depth + 1) (pushed r slots m))
    (hkeeps : S.discipline.Respects (depth + 1) (body m.nextFrame) post)
    (hbody : Mirrors S (depth + 1) (Option.map (Value.shift S.extent)) (body m.nextFrame)
      (body' (m.nextFrame + S.extent.frames))) :
    activate r (slots.map fun entry ↦ (entry.1, S.slot m.nextFrame entry.1 entry.2)) body'
        (S.view m) = moved S (Value.shift S.extent) (activate r slots body m) ∨
      0 < S.slack ∧ ∃ m', activate r
        (slots.map fun entry ↦ (entry.1, S.slot m.nextFrame entry.1 entry.2)) body' (S.view m) =
          .error .stackOverflow m' := by
  have hstart := hbody _ hm
  have hend := hkeeps hm
  rw [Setting.pushed_view] at hstart
  change body' (S.view m).nextFrame _ = _ ∨
    0 < S.slack ∧ ∃ m', body' (S.view m).nextFrame _ = .error .stackOverflow m' at hstart
  rcases hstart with hsame | ⟨hslack, m', hover⟩
  · left
    rw [activate_eq, activate_eq, hsame]
    cases hrun : body m.nextFrame (pushed r slots m) with
    | ok returned last =>
      rw [hrun] at hend
      have hlast : S.Encloses (depth + 1) last := hend.2
      have hvalue : (returned.map (Value.shift S.extent)).getD .unit =
          (returned.getD .unit).shift S.extent := by cases returned <;> rfl
      exact congrArg₂ EStateM.Result.ok hvalue (Setting.below_view hlast.ne_nil)
    | error e last =>
      rw [hrun] at hend
      have hlast : S.Encloses (depth + 1) last := hend
      exact congrArg (EStateM.Result.error e) (Setting.below_view hlast.ne_nil)
  · right
    rw [activate_eq, hover]
    exact ⟨hslack, _, rfl⟩

theorem activate_encloses {m last : Memory} {r : Routine} {slots : List (VariableId × Value)}
    {body : Nat → Run (Option Value)} {v : Value} (hm : S.Encloses (depth + 1) (pushed r slots m))
    (hkeeps : S.discipline.Respects (depth + 1) (body m.nextFrame) fun returned ↦
      ∀ v ∈ returned, S.discipline.Admits v)
    (h : activate r slots body m = .ok v last) : S.discipline.Admits v ∧ S.Encloses depth last := by
  have hend := hkeeps hm
  rw [activate_eq] at h
  cases hrun : body m.nextFrame (pushed r slots m) with
  | error e last => rw [hrun] at h; cases h
  | ok returned last =>
    rw [hrun] at h hend
    cases h
    have hlast : S.Encloses (depth + 1) last := hend.2
    refine ⟨?_, hlast.below⟩
    cases returned with
    | none => exact Value.within_unit
    | some value => exact hend.1 value rfl

/-- A further call does on top of other memory, with so much less room, what it does by itself. -/
theorem invokeWithin_mirrors (room : Nat) (callee : String) {args : List Value}
    (hargs : ∀ v ∈ args, S.discipline.Admits v) :
    Mirrors S (depth + 1) (Value.shift S.extent)
      (x.invokeWithin leave (room + S.slack) callee args none)
      (x.invokeWithin leave room callee (args.map (Value.shift S.extent)) none) := by
  induction room generalizing depth callee args with
  | zero =>
    cases hfind : x.find? callee with
    | none =>
      rw [invokeWithin_host hfind, invokeWithin_host hfind]
      exact leave_mirrors callee hargs
    | some p =>
      by_cases hcount : args.length = p.2.parameters.length
      · rw [invokeWithin_zero hfind (by rwa [List.length_map])]
        rcases Nat.eq_zero_or_pos S.slack with hslack | hslack
        · rw [hslack, invokeWithin_zero hfind hcount]
          exact .throw _
        · exact .stackOverflow hslack
      · rw [invokeWithin_argumentCount hfind hcount,
          invokeWithin_argumentCount hfind (by rwa [List.length_map]), List.length_map]
        exact .throw _
  | succ room ih =>
    rw [Nat.add_right_comm]
    cases hfind : x.find? callee with
    | none =>
      rw [invokeWithin_host hfind, invokeWithin_host hfind]
      exact leave_mirrors callee hargs
    | some p =>
      by_cases hcount : args.length = p.2.parameters.length
      · rw [invokeWithin_succ hfind hcount, invokeWithin_succ hfind (by rwa [List.length_map]),
          slots_shift]
        intro m hm
        -- The activation is not the first one, so all of its slots may be looked at.
        have hne : m.nextFrame ≠ 0 := Nat.ne_of_gt hm.started
        have hslot : (fun entry : VariableId × Value ↦ (entry.1, entry.2.shift S.extent)) =
            fun entry ↦ (entry.1, S.slot m.nextFrame entry.1 entry.2) :=
          funext fun entry ↦ congrArg (entry.1, ·) (if_neg hne).symm
        have hkeeps (callee : String) (args : List Value)
            (hargs : ∀ v ∈ args, S.discipline.Admits v) :
            S.discipline.Respects (depth + 1 + 1)
              (x.invokeWithin leave (room + S.slack) callee args none) S.discipline.Admits :=
          Discipline.invokeWithin Setting.respects_leave _ callee hargs nofun
        have hslots : ∀ entry ∈ x.slots p.1 p.2 args none, S.discipline.Admits entry.2 :=
          Discipline.slots_admitted hargs nofun
        rw [hslot]
        exact activate_mirrors (hm.pushed hslots)
          (Discipline.code hkeeps (fun _ ↦ S.discipline.next_reach hm rfl) p.2.code
            fun _ _ _ _ ↦ S.discipline.next_reach hm rfl)
          (.code hkeeps (fun callee _ hargs ↦ ih callee hargs) p.2.code
            fun _ _ _ _ h ↦ absurd h (by omega))
      · rw [invokeWithin_argumentCount hfind hcount,
          invokeWithin_argumentCount hfind (by rwa [List.length_map]), List.length_map]
        exact .throw _

end Executable

end InlineArrays
