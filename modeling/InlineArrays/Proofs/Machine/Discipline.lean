import InlineArrays.Proofs.Machine.Links
import InlineArrays.Proofs.Machine.Roots
import InlineArrays.Proofs.Machine.Slots

/-!
# Disciplines of the machine

Some things stay true of memory because of what the values in use lead to: a write goes where an
address leads, and new addresses come from old ones or from the running activation.  A discipline
says where values may lead and what holds of memory meanwhile, and is closed under each thing that
the machine can do to memory; then it is kept by every operation, every instruction and every call,
to any depth, whether they succeed or fail.
-/

namespace InlineArrays

/-- What a frame stores leads to these roots only. -/
structure Frame.Within (P : Root → Prop) (f : Frame) : Prop where
  slots : ∀ entry ∈ f.slots, entry.2.Within P
  temps : ∀ v ∈ f.temps, v.Within P
  values : ∀ v, some v ∈ f.values → v.Within P

namespace Frame

variable {P : Root → Prop} {f : Frame} {value v : Value}

theorem within_true (f : Frame) : f.Within fun _ ↦ True where
  slots entry _ := entry.2.within_true
  temps v _ := v.within_true
  values v _ := v.within_true

theorem Within.define (hf : f.Within P) (hvalue : value.Within P) (dest : ValueId) :
    (f.define dest value).Within P where
  slots := hf.slots
  temps := hf.temps
  values v hv := by
    rcases List.mem_or_eq_of_mem_set hv with hv | hv
    · exact hf.values v hv
    · exact Option.some.inj hv ▸ hvalue

theorem Within.setSlot (hf : f.Within P) (hvalue : value.Within P) (target : VariableId) :
    (f.setSlot target value).Within P where
  slots := forall_mem_assign (P := fun _ (v : Value) ↦ v.Within P) hf.slots hvalue
  temps := hf.temps
  values := hf.values

theorem Within.setTemp (hf : f.Within P) (hvalue : value.Within P) (temp : TempId) :
    (f.setTemp temp value).Within P where
  slots := hf.slots
  temps v hv := by
    rcases List.mem_or_eq_of_mem_set hv with hv | rfl
    · rcases List.mem_append.1 hv with hv | hv
      · exact hf.temps v hv
      · exact List.eq_of_mem_replicate hv ▸ Value.within_unit
    · exact hvalue
  values := hf.values

theorem Within.value? {id : ValueId} (hf : f.Within P) (h : f.value? id = some v) : v.Within P :=
  hf.values v (List.mem_of_getElem? (Option.join_eq_some_iff.1 h))

theorem Within.slot? {target : VariableId} (hf : f.Within P) (h : f.slot? target = some v) :
    v.Within P :=
  hf.slots _ (lookup?_mem h)

/-- A frame has nothing but its slots to start with. -/
theorem within_pushed {m : Memory} {routine : Routine} {slots : List (VariableId × Value)}
    (hslots : ∀ entry ∈ slots, entry.2.Within P) :
    ∀ f, (Executable.pushed routine slots m).frames.head? = some f → f.Within P := by
  rintro f ⟨⟩
  refine ⟨hslots, fun v hv ↦ ?_, fun v hv ↦ ?_⟩
  · exact List.eq_of_mem_replicate hv ▸ Value.within_unit
  · cases List.eq_of_mem_replicate hv

end Frame

/-- The variable of which the operation makes the address. -/
def Operation.variable? : Operation → Option VariableId
  | .addressOf target _ => some target
  | _ => none

/-- The variable whose slot the instruction makes the address of or binds. -/
def Instr.variable? : Instr → Option VariableId
  | .define _ _ operation => operation.variable?
  | .bind _ target _ _ => some target
  | _ => none

/-- Where values may lead, and what holds of memory so many activations above some depth. -/
structure Discipline where
  reach : Root → Prop
  inv : Nat → Memory → Prop
  heap_reach (cell : Nat) : reach (.heap cell)
  /-- The next activation may be led to. -/
  next_reach {depth : Nat} {m : Memory} {r : Root} : inv depth m → r.InFrame m.nextFrame → reach r
  top_within {depth : Nat} {m : Memory} {f : Frame} :
    inv (depth + 1) m → m.frames.head? = some f → f.Within reach
  root_within {depth : Nat} {m : Memory} {r : Root} {v : Value} :
    inv depth m → reach r → m.root? r = some v → v.Within reach
  setRoot {depth : Nat} {m : Memory} {r : Root} {v : Value} :
    inv depth m → reach r → v.Within reach → inv depth (m.setRoot v r)
  updateTop {depth : Nat} {m : Memory} {change : Frame → Frame} :
    inv (depth + 1) m → (∀ f, (change f).id = f.id) →
      (∀ f, f.Within reach → (change f).Within reach) → inv (depth + 1) (m.updateTop change)
  allocate {depth : Nat} {m : Memory} {v : Value} :
    inv depth m → v.Within reach → inv depth (m.allocate v).2
  pushed {depth : Nat} {m : Memory} {routine : Routine} {slots : List (VariableId × Value)} :
    inv depth m → (∀ entry ∈ slots, entry.2.Within reach) →
      inv (depth + 1) (Executable.pushed routine slots m)
  popped {depth : Nat} {m : Memory} : inv (depth + 1) m → inv depth m.below

/-- A call as it is recorded, with its arguments as memory shows them. -/
def Executable.callText (m : Memory) (callee : String) (args : List Value) : String :=
  let shown := ", ".intercalate (args.map m.render)
  s!"{callee}({shown})"

namespace Discipline

variable {α β : Type} (D : Discipline) {depth : Nat}

/-- A value that leads nowhere else. -/
def Admits (v : Value) : Prop := v.Within D.reach

/-- A computation keeps to the discipline, and yields what satisfies `post`. -/
def Respects (depth : Nat) (act : Run α) (post : α → Prop) : Prop :=
  Run.Triple (D.inv depth) act (fun a m ↦ post a ∧ D.inv depth m) fun _ ↦ D.inv depth

variable {D}

namespace Respects

variable {post mid : α → Prop}

theorem pure {a : α} (h : post a) : D.Respects depth (pure a) post := fun _ hm ↦ ⟨h, hm⟩

theorem throw {e : RuntimeError} : D.Respects depth (throw e) post := fun _ hm ↦ hm

/-- What follows may do more than keep to the discipline. -/
theorem bind_triple {act : Run α} {f : α → Run β} {post : β → Memory → Prop}
    (hact : D.Respects depth act mid)
    (hf : ∀ a, mid a → Run.Triple (D.inv depth) (f a) post fun _ ↦ D.inv depth) :
    Run.Triple (D.inv depth) (act >>= f) post fun _ ↦ D.inv depth :=
  Run.Triple.bind hact fun a ↦ .of_pre (fun _ hm ↦ hm.1) fun ha ↦
    (hf a ha).mono (fun _ hm ↦ hm.2) (fun _ _ h ↦ h) fun _ _ h ↦ h

theorem bind {act : Run α} {f : α → Run β} {post : β → Prop} (hact : D.Respects depth act mid)
    (hf : ∀ a, mid a → D.Respects depth (f a) post) : D.Respects depth (act >>= f) post :=
  hact.bind_triple hf

theorem map {act : Run α} {f : α → β} {post : β → Prop}
    (hact : D.Respects depth act (fun a ↦ post (f a))) : D.Respects depth (f <$> act) post :=
  Run.Triple.map hact

theorem mono {act : Run α} (h : D.Respects depth act mid) (hpost : ∀ a, mid a → post a) :
    D.Respects depth act post :=
  Run.Triple.mono h (fun _ h ↦ h) (fun a _ h ↦ ⟨hpost a h.1, h.2⟩) fun _ _ h ↦ h

theorem after {act : Run α} (h : D.Respects depth act post) {m : Memory} (hm : D.inv depth m) :
    D.inv depth (act.after m) :=
  Run.Triple.after h (fun _ _ h ↦ h.2) (fun _ _ h ↦ h) hm

/-- What follows a look at memory may depend on the memory that it finds. -/
theorem get_bind {f : Memory → Run α}
    (h : ∀ m, D.inv depth m → D.Respects depth (f m) post) :
    D.Respects depth ((get : Run Memory) >>= f) post :=
  fun m hm ↦ h m hm hm

theorem modify {change : Memory → Memory} (h : ∀ m, D.inv depth m → D.inv depth (change m)) :
    D.Respects depth (modify change : Run Unit) fun _ ↦ True :=
  Run.Triple.modify fun m hm ↦ ⟨trivial, h m hm⟩

theorem mapM {f : α → Run β} {post : β → Prop} {l : List α}
    (hf : ∀ a ∈ l, D.Respects depth (f a) post) :
    D.Respects depth (l.mapM f) fun bs ↦ ∀ b ∈ bs, post b := by
  induction l with
  | nil =>
    rw [List.mapM_nil]
    exact pure nofun
  | cons a l ih =>
    rw [List.mapM_cons]
    exact (hf a List.mem_cons_self).bind fun b hb ↦
      (ih fun a ha ↦ hf a (List.mem_cons_of_mem _ ha)).bind fun bs hbs ↦
        pure (List.forall_mem_cons.2 ⟨hb, hbs⟩)

end Respects

/-! ## Operands and operations -/

open Run

theorem operand (o : Operand) : D.Respects (depth + 1) (Run.operand o) D.Admits := by
  refine .get_bind fun m hm ↦ ?_
  cases o with
  | int n => exact .pure (Value.within_int n)
  | bool b => exact .pure (Value.within_bool b)
  | computed id =>
    dsimp only
    split
    · rename_i value hvalue
      obtain ⟨f, hf, hvalue⟩ := Option.bind_eq_some_iff.1 hvalue
      exact .pure ((D.top_within hm hf).value? hvalue)
    · exact .throw
  | temp id =>
    dsimp only
    split
    · rename_i value hvalue
      obtain ⟨f, hf, hvalue⟩ := Option.bind_eq_some_iff.1 hvalue
      exact .pure ((D.top_within hm hf).temps _ (List.mem_of_getElem? hvalue))
    · exact .throw

theorem int (o : Operand) : D.Respects (depth + 1) (Run.int o) fun _ ↦ True :=
  (operand o).bind fun v _ ↦ by cases v <;> first | exact .pure trivial | exact .throw

theorem offset (o : Operand) : D.Respects (depth + 1) (Run.offset o) fun _ ↦ True :=
  (operand o).bind fun v _ ↦ by cases v <;> first | exact .pure trivial | exact .throw

theorem range (o : Operand) : D.Respects (depth + 1) (Run.range o) fun _ ↦ True :=
  (operand o).bind fun v _ ↦ by cases v <;> first | exact .pure trivial | exact .throw

theorem address (o : Operand) : D.Respects (depth + 1) (Run.address o) (D.reach ·.root) :=
  (operand o).bind fun v hv ↦ by
    cases v with
    | address target => exact .pure (Value.within_address.1 hv)
    | _ => exact .throw

theorem span (o : Operand) : D.Respects (depth + 1) (Run.span o) (D.Admits <| .span ·) :=
  (operand o).bind fun v hv ↦ by
    cases v with
    | span view => exact .pure hv
    | _ => exact .throw

theorem read {a : Address} (ha : D.reach a.root) : D.Respects depth (Run.read a) D.Admits := by
  refine .get_bind fun m hm ↦ ?_
  cases hread : m.read a with
  | error e => exact .throw
  | ok v =>
    apply Respects.pure
    unfold Memory.read at hread
    split at hread
    · rename_i stored hstored
      exact (D.root_within hm ha hstored).get hread
    · cases hread

theorem write {a : Address} {value : Value} (ha : D.reach a.root) (hvalue : D.Admits value) :
    D.Respects depth (Run.write a value) fun _ ↦ True := by
  refine .get_bind fun m hm ↦ ?_
  cases hwrite : m.write a value with
  | error e => exact .throw
  | ok m' =>
    obtain ⟨stored, new, hstored, hnew, rfl⟩ := Memory.write_eq_ok.1 hwrite
    have hwithin : D.Admits new := (D.root_within hm ha hstored).set hvalue hnew
    exact fun _ _ ↦ ⟨trivial, D.setRoot hm ha hwithin⟩

theorem define (dest : ValueId) {value : Value} (hvalue : D.Admits value) :
    D.Respects (depth + 1) (Run.define dest value) fun _ ↦ True :=
  .modify fun _ hm ↦ D.updateTop hm (fun _ ↦ rfl) fun _ hf ↦ hf.define hvalue dest

theorem box {value : Value} (hvalue : D.Admits value) :
    D.Respects depth (box value) (D.reach ·.root) :=
  fun _ hm ↦ ⟨D.heap_reach _, D.allocate hm hvalue⟩

theorem allocateObject {fields : Value} (hfields : D.Admits fields) :
    D.Respects depth (allocateObject fields) D.Admits :=
  fun _ hm ↦ ⟨Value.within_object _, D.allocate hm hfields⟩

variable {types : TypeTable} {frame : Nat}

/-- An address that an operation makes is in its own activation or where one of its operands leads. -/
theorem operation (htemps : ∀ temp, D.reach (.temp frame temp)) (op : Operation)
    (hslots : ∀ target ∈ op.variable?, D.reach (.slot frame target)) :
    D.Respects (depth + 1) (op.run types frame) D.Admits := by
  cases op with
  | addressOf target name => exact .pure (Value.within_address.2 (hslots target rfl))
  | tempAddress temp => exact .pure (Value.within_address.2 (htemps temp))
  | fieldAddress base name =>
    refine (operand base).bind fun v hv ↦ ?_
    cases v with
    | address target =>
      have htarget : D.reach target.root := Value.within_address.1 hv
      exact .pure (Value.within_address.2 htarget)
    | object cell => exact .pure (Value.within_address.2 (D.heap_reach cell))
    | _ => exact .throw
  | load source => exact (address source).bind fun _ ha ↦ read ha
  | default type name => exact .pure (Value.defaultValue_within types type)
  | project kind base array element size =>
    refine (address base).bind fun target ha ↦ .pure (Value.within_span.2 ?_)
    rintro _ ⟨⟩
    exact ha
  | length view => exact (span view).bind fun _ _ ↦ .pure (Value.within_int _)
  | getOffset offset total =>
    exact (Discipline.offset offset).bind fun _ _ ↦ (int total).bind fun _ _ ↦
      .pure (Value.within_int _)
  | makeIndex value fromEnd =>
    refine (int value).bind fun n _ ↦ ?_
    split
    · exact .throw
    · exact .pure (Value.within_index _)
  | makeRange start stop =>
    exact (offset start).bind fun _ _ ↦ (offset stop).bind fun _ _ ↦ .pure (Value.within_range _ _)
  | rangeStart range => exact (Discipline.range range).bind fun _ _ ↦ .pure (Value.within_index _)
  | rangeEnd range => exact (Discipline.range range).bind fun _ _ ↦ .pure (Value.within_index _)
  | binary op left right =>
    exact (int left).bind fun _ _ ↦ (int right).bind fun _ _ ↦ .pure (Value.within_int _)
  | index view position =>
    refine (span view).bind fun view hview ↦ (int position).bind fun n _ ↦ ?_
    cases hindex : view.index n with
    | ok element => exact .pure (SpanView.within_of_index hview hindex)
    | error e => exact .throw
  | slice view start count =>
    refine (span view).bind fun view hview ↦ (int start).bind fun n _ ↦
      (int count).bind fun length _ ↦ ?_
    cases hslice : view.slice n length with
    | ok part => exact .pure (SpanView.within_of_slice hview hslice)
    | error e => exact .throw
  | convert value => exact (int value).bind fun _ _ ↦ .pure (Value.within_int _)

/-! ## Instructions -/

section

variable {invoke : String → List Value → Run Value}

mutual

/-- An instruction keeps to a discipline if calls do. -/
theorem instr
    (hinvoke : ∀ callee args, (∀ v ∈ args, D.Admits v) →
      D.Respects (depth + 1) (invoke callee args) D.Admits)
    (htemps : ∀ temp, D.reach (.temp frame temp)) :
    (i : Instr) →
      (∀ j ∈ i.flatten, ∀ target ∈ j.variable?, D.reach (.slot frame target)) →
      D.Respects (depth + 1) (i.run types invoke frame) fun returned ↦ ∀ v ∈ returned, D.Admits v
  | .define _ dest op, hslots =>
    (operation htemps op (hslots _ List.mem_cons_self)).bind fun _ hv ↦
      (define dest hv).bind fun _ _ ↦ .pure nofun
  | .store _ target value, _ =>
    (address target).bind fun _ ha ↦ (operand value).bind fun _ hv ↦
      (write ha hv).bind fun _ _ ↦ .pure nofun
  | .storeTemp _ temp value, _ => by
    refine (operand value).bind fun v hv ↦ ?_
    have hset : D.Respects (depth + 1) (modify (·.updateTop (·.setTemp temp v))) fun _ ↦ True :=
      .modify fun _ hm ↦ D.updateTop hm (fun _ ↦ rfl) fun _ hf ↦ hf.setTemp hv temp
    exact hset.bind fun _ _ ↦ .pure nofun
  | .bind _ target _ source, _ => by
    refine (address source).bind fun a ha ↦ ?_
    have hset : D.Respects (depth + 1) (modify (·.updateTop (·.setSlot target (.address a))))
        fun _ ↦ True :=
      .modify fun _ hm ↦ D.updateTop hm (fun _ ↦ rfl) fun _ hf ↦
        hf.setSlot (Value.within_address.2 ha) target
    exact hset.bind fun _ _ ↦ .pure nofun
  | .call _ dest callee args, _ => by
    refine (Respects.mapM fun o _ ↦ operand o).bind fun args hargs ↦
      (hinvoke callee args hargs).bind fun result hresult ↦ ?_
    cases dest with
    | none => exact .pure nofun
    | some dest => exact (define dest hresult).bind fun _ _ ↦ .pure nofun
  | .guard _ dest tested body result, hslots => by
    refine (operand tested).bind fun v _ ↦ ?_
    split
    · exact (define dest Value.within_null).bind fun _ _ ↦ .pure nofun
    · refine (code hinvoke htemps body fun j hj ↦
        hslots j (List.mem_cons_of_mem _ hj)).bind fun returned hreturned ↦ ?_
      cases returned with
      | some value => exact .pure hreturned
      | none =>
        exact (operand result).bind fun _ hv ↦ (define dest hv).bind fun _ _ ↦ .pure nofun
  | .ret _ none, _ => .pure (by rintro v ⟨⟩; exact Value.within_unit)
  | .ret _ (some value), _ =>
    (operand value).bind fun v hv ↦ .pure (by rintro _ ⟨⟩; exact hv)

theorem code
    (hinvoke : ∀ callee args, (∀ v ∈ args, D.Admits v) →
      D.Respects (depth + 1) (invoke callee args) D.Admits)
    (htemps : ∀ temp, D.reach (.temp frame temp)) :
    (code : List Instr) →
      (∀ j ∈ Instr.flattenAll code, ∀ target ∈ j.variable?, D.reach (.slot frame target)) →
      D.Respects (depth + 1) (Instr.runAll types invoke frame code) fun returned ↦
        ∀ v ∈ returned, D.Admits v
  | [], _ => .pure nofun
  | i :: rest, hslots => by
    obtain ⟨hfirst, hrest⟩ := List.forall_mem_append.1 hslots
    refine (instr hinvoke htemps i hfirst).bind fun returned hreturned ↦ ?_
    cases returned with
    | some value => exact .pure hreturned
    | none => exact code hinvoke htemps rest hrest

end

end

/-! ## Calls -/

variable {x : Executable} {host : Executable.Host}

/-- Calls that leave the program keep to the discipline. -/
def HostRespects (D : Discipline) (x : Executable) (host : Executable.Host) : Prop :=
  ∀ depth callee args, x.find? callee = none → (∀ v ∈ args, D.Admits v) →
    D.Respects depth (host callee args) D.Admits

/-- Recording a call only adds a line to the output. -/
theorem hostRespects_leave
    (h : ∀ depth m callee args, x.find? callee = none → D.inv depth m →
      D.inv depth { m with output := m.output ++ [Executable.callText m callee args] }) :
    D.HostRespects x Executable.leave := by
  intro depth callee args hcallee _
  refine .get_bind fun m hm ↦ ?_
  have hset : D.Respects depth
      (set { m with output := m.output ++ [Executable.callText m callee args] } : Run Unit)
      fun _ ↦ True := fun _ _ ↦ ⟨trivial, h depth m callee args hcallee hm⟩
  exact hset.bind fun _ _ ↦ .pure Value.within_unit

theorem slots_admitted {m : Method} {r : Routine} {args : List Value} {receiver : Option Value}
    (hargs : ∀ v ∈ args, D.Admits v) (hreceiver : ∀ v ∈ receiver, D.Admits v) :
    ∀ entry ∈ x.slots m r args receiver, D.Admits entry.2 := by
  apply Executable.slots_forall (P := fun _ v ↦ D.Admits v)
  · exact fun v _ ↦ Value.defaultValue_within x.types _
  · exact fun _ _ _ ↦ Value.within_null
  · exact fun pair hpair ↦ hargs pair.2 (List.of_mem_zip hpair).2
  · intro v _
    cases receiver with
    | none => exact Value.defaultValue_within x.types _
    | some value => exact hreceiver value rfl

/-- The frame of a call is above those that were there, and is gone with what it was used for. -/
theorem activate {r : Routine} {slots : List (VariableId × Value)}
    {invoke : String → List Value → Run Value}
    (hinvoke : ∀ callee args, (∀ v ∈ args, D.Admits v) →
      D.Respects (depth + 1) (invoke callee args) D.Admits)
    (hslots : ∀ entry ∈ slots, D.Admits entry.2) :
    D.Respects depth
      (Executable.activate r slots fun frame ↦ Instr.runAll types invoke frame r.code) D.Admits := by
  refine Executable.activate_triple fun m hm ↦ ?_
  have hcode : D.Respects (depth + 1) (Instr.runAll types invoke m.nextFrame r.code)
      fun returned ↦ ∀ v ∈ returned, D.Admits v :=
    code hinvoke (fun _ ↦ D.next_reach hm rfl) r.code fun _ _ _ _ ↦ D.next_reach hm rfl
  have hstart : D.inv (depth + 1) (Executable.pushed r slots m) := D.pushed hm hslots
  have hrun := hcode hstart
  cases hbody : Instr.runAll types invoke m.nextFrame r.code (Executable.pushed r slots m) with
  | error e m' =>
    rw [hbody] at hrun
    exact D.popped hrun
  | ok returned m' =>
    rw [hbody] at hrun
    refine ⟨?_, D.popped hrun.2⟩
    cases returned with
    | none => exact Value.within_unit
    | some value => exact hrun.1 value rfl

/-- A call keeps to a discipline, with any room for further ones. -/
theorem invokeWithin (hhost : D.HostRespects x host) (room : Nat) (callee : String)
    {args : List Value} {receiver : Option Value} (hargs : ∀ v ∈ args, D.Admits v)
    (hreceiver : ∀ v ∈ receiver, D.Admits v) :
    D.Respects depth (x.invokeWithin host room callee args receiver) D.Admits := by
  induction room generalizing depth callee args receiver with
  | zero =>
    cases hfind : x.find? callee with
    | none =>
      rw [Executable.invokeWithin_host hfind]
      exact hhost depth callee args hfind hargs
    | some p =>
      by_cases hcount : args.length = p.2.parameters.length
      · rw [Executable.invokeWithin_zero hfind hcount]
        exact .throw
      · rw [Executable.invokeWithin_argumentCount hfind hcount]
        exact .throw
  | succ room ih =>
    cases hfind : x.find? callee with
    | none =>
      rw [Executable.invokeWithin_host hfind]
      exact hhost depth callee args hfind hargs
    | some p =>
      by_cases hcount : args.length = p.2.parameters.length
      · rw [Executable.invokeWithin_succ hfind hcount]
        exact activate (fun callee _ hargs ↦ ih callee hargs nofun) (slots_admitted hargs hreceiver)
      · rw [Executable.invokeWithin_argumentCount hfind hcount]
        exact .throw

theorem invoke (hhost : D.HostRespects x host) (callee : String) {args : List Value}
    {receiver : Option Value} (hargs : ∀ v ∈ args, D.Admits v)
    (hreceiver : ∀ v ∈ receiver, D.Admits v) :
    D.Respects depth (x.invoke host callee args receiver) D.Admits :=
  .get_bind fun m _ ↦ invokeWithin hhost (maxCallDepth - m.frames.length) callee hargs hreceiver

/-! ## Runs -/

section

variable (types) (name : String)

theorem invalidInput {α : Type} {post : α → Prop} (type : TypeId) :
    D.Respects depth (invalidInput types name type) post :=
  .throw

mutual

/-- Inputs lead to the heap at most. -/
theorem inputValue (type : TypeId) :
    (data : Data) → D.Respects depth (inputValue types name type data) D.Admits
  | .int n => by
    unfold InlineArrays.inputValue
    split
    · exact .pure (Value.within_int n)
    · exact .pure (Value.within_int n)
    · exact .pure (Value.within_index _)
    · exact invalidInput ..
  | .bool b => by
    unfold InlineArrays.inputValue
    split
    · exact .pure (Value.within_bool b)
    · exact .pure (Value.within_bool b)
    · exact invalidInput ..
  | .list items => by
    unfold InlineArrays.inputValue
    split
    · split
      · exact (inputItems _ items).bind fun _ hvalues ↦ .pure (Value.within_array.2 hvalues)
      · exact invalidInput ..
    · refine (inputItems _ items).bind fun values hvalues ↦
        (box (Value.within_array.2 hvalues)).bind fun base hbase ↦ .pure (Value.within_span.2 ?_)
      rintro _ ⟨⟩
      exact hbase
    · exact invalidInput ..
  | .table entries => by
    unfold InlineArrays.inputValue
    split
    · split
      · exact .pure (Value.within_index _)
      · exact invalidInput ..
    · split
      · rename_i hrange
        exact .pure (Value.within_of_rangeOfData? hrange)
      · exact invalidInput ..
    · rename_i struct _
      have hfields : D.Respects depth (do
          let fields ← struct.fields.mapM fun f ↦ do
            return (f.name, ← InlineArrays.inputField types name f entries)
          if struct.isClass then InlineArrays.allocateObject (.struct fields)
          else return .struct fields) D.Admits := by
        have hread (f : Field) : D.Respects depth
            (do return (f.name, ← InlineArrays.inputField types name f entries))
            fun field ↦ D.Admits field.2 := (inputField f entries).bind fun _ hv ↦ .pure hv
        refine (Respects.mapM fun f _ ↦ hread f).bind fun fields hfields ↦ ?_
        split
        · exact allocateObject (Value.within_struct.2 hfields)
        · exact .pure (Value.within_struct.2 hfields)
      have hinvalid : D.Respects depth (InlineArrays.invalidInput (α := Unit) types name type)
          fun _ ↦ True := invalidInput types name type
      exact iteInduction (motive := fun act ↦ D.Respects depth act D.Admits)
        (fun _ ↦ hinvalid.bind fun _ _ ↦ hfields) fun _ ↦ hfields
    · exact invalidInput ..
termination_by structural data => data

theorem inputItems (element : TypeId) :
    (items : List Data) → D.Respects depth (inputItems types name element items) fun values ↦
      ∀ v ∈ values, D.Admits v
  | [] => .pure nofun
  | item :: items =>
    (inputValue element item).bind fun _ hv ↦ (inputItems element items).bind fun _ hvalues ↦
      .pure (List.forall_mem_cons.2 ⟨hv, hvalues⟩)
termination_by structural items => items

theorem inputField (field : Field) :
    (entries : List (String × Data)) →
      D.Respects depth (inputField types name field entries) D.Admits
  | [] => .pure (Value.defaultValue_within types field.type)
  | (key, data) :: entries => by
    unfold InlineArrays.inputField
    split
    · exact inputValue field.type data
    · exact inputField field entries
termination_by structural entries => entries

end

end

variable {inputs : List (String × Data)}

theorem entryValue (name : String) (type : TypeId) :
    D.Respects depth (x.entryValue inputs name type) D.Admits := by
  unfold Executable.entryValue
  split
  · exact inputValue x.types name type _
  · exact .pure (Value.defaultValue_within x.types type)

theorem entryArgument (v : Variable) : D.Respects depth (x.entryArgument inputs v) D.Admits := by
  refine (entryValue v.name v.type).bind fun value hvalue ↦ ?_
  split
  · split
    · exact (box hvalue).bind fun _ ha ↦ .pure (Value.within_address.2 ha)
    · exact .pure hvalue
  · exact .pure hvalue

theorem entryReceiver? (m : Method) :
    D.Respects depth (x.entryReceiver? inputs m) fun receiver ↦ ∀ v ∈ receiver, D.Admits v := by
  unfold Executable.entryReceiver?
  cases m.owner with
  | none => exact .pure nofun
  | some owner =>
    have hreceiver : D.Respects depth (x.entryReceiver inputs owner) D.Admits := by
      refine (entryValue "this" owner.type).bind fun value hvalue ↦ ?_
      split
      · split
        · exact allocateObject (Value.defaultObject_within x.types owner.type)
        · exact .pure hvalue
      · exact (box hvalue).bind fun _ ha ↦ .pure (Value.within_address.2 ha)
    exact (hreceiver.mono fun v hv _ h ↦ Option.some.inj h ▸ hv).map

theorem shown {r : Routine} (returned : Value) :
    D.Respects depth (Executable.shown r returned) fun _ ↦ True := by
  unfold Executable.shown
  split
  · exact .pure trivial
  · refine .get_bind fun m _ ↦ ?_
    split
    · exact .pure trivial
    · exact .throw

/-- The output of a run is that of memory in which the discipline holds. -/
theorem runWith (hhost : D.HostRespects x host) (entry : String) :
    Run.Triple (D.inv 0) (x.runWith host entry inputs)
      (fun e _ ↦ ∃ m, D.inv 0 m ∧ e.output = m.output) fun _ ↦ D.inv 0 := by
  unfold Executable.runWith
  split
  · exact fun _ hm ↦ hm
  · rename_i m r _
    refine (Respects.mapM fun id _ ↦ entryArgument (m.var id)).bind_triple fun args hargs ↦
      (entryReceiver? m).bind_triple fun receiver hreceiver ↦
        (invoke hhost entry hargs hreceiver).bind_triple fun returned _ ↦
          (shown returned).bind_triple fun result _ ↦ ?_
    exact fun m hm ↦ ⟨m, hm, rfl⟩

end Discipline

end InlineArrays
