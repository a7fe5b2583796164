import InlineArrays.Proofs.Code.Scope
import InlineArrays.Proofs.Machine.Calls
import InlineArrays.Proofs.Machine.Frames
import InlineArrays.Proofs.Machine.Values

/-!
# Well-formed code reads what it has defined

A run of well-formed code never asks for a value or a temporary that its activation does not have.
The invariant is that the running activation has a value for everything in scope; calls push an
activation of their own and leave the values below it as they are.
-/

namespace InlineArrays

/-- The activation has a value for everything in scope. -/
structure Frame.Defines (f : Frame) (σ : Scope) : Prop where
  values : ∀ id ∈ σ.values, (f.value? id).isSome
  temps : ∀ id ∈ σ.temps, id < f.temps.length

theorem Frame.Defines.survives {f g : Frame} {σ : Scope} (h : f.Defines σ) (hfg : f.Survives g) :
    g.Defines σ where
  values id hid := by
    rw [Frame.value?, hfg.values_eq]
    exact h.values id hid
  temps id hid := Nat.lt_of_lt_of_le (h.temps id hid) hfg.temps_le

/-- An activation of `count` values runs on top of `below`, and has everything in scope. -/
def Memory.Runs (below : List Frame) (count : Nat) (σ : Scope) (m : Memory) : Prop :=
  ∃ f rest, m.frames = f :: rest ∧ FramesSurvive below rest ∧ f.values.length = count ∧ f.Defines σ

/-- Nothing undefined was read. -/
def Memory.NoneUndefined (e : RuntimeError) (_ : Memory) : Prop := ¬ e.Undefined

open Memory Run

variable {below : List Frame} {count : Nat} {σ : Scope}

theorem Memory.Runs.mono {τ : Scope} {m : Memory} (h : m.Runs below count σ)
    (hvalues : τ.values ⊆ σ.values) (htemps : τ.temps ⊆ σ.temps) : m.Runs below count τ := by
  obtain ⟨f, rest, hframes, hrest, hcount, hf⟩ := h
  exact ⟨f, rest, hframes, hrest, hcount, fun id hid ↦ hf.values id (hvalues hid),
    fun id hid ↦ hf.temps id (htemps hid)⟩

/-- The activations underneath matter no more than that they survive. -/
theorem Memory.Runs.survive {m m' : Memory} (h : m.Runs below count σ)
    (hframes : FramesSurvive m.frames m'.frames) : m'.Runs below count σ := by
  obtain ⟨f, rest, hm, hrest, hcount, hf⟩ := h
  rw [hm] at hframes
  obtain ⟨g, rest', hfg, hrest', hm'⟩ := List.forall₂_cons_left_iff.1 hframes
  exact ⟨g, rest', hm', hrest.trans hrest', by rw [hfg.values_eq, hcount], hf.survives hfg⟩

namespace Run

theorem operand_keeps {o : Operand} (h : o.InScope σ) :
    Keeps (Runs below count σ) (operand o) NoneUndefined := by
  intro m hm
  have hkeep := hm
  obtain ⟨f, rest, hframes, -, -, hf⟩ := hm
  cases o with
  | int value => exact hkeep
  | bool value => exact hkeep
  | computed id =>
    obtain ⟨value, hvalue⟩ := Option.isSome_iff_exists.1 (hf.values id h)
    have hrun : operand (.computed id) m = .ok value m :=
      operand_computed (by rw [hframes, List.head?_cons, Option.bind_some, hvalue])
    rw [hrun]
    exact hkeep
  | temp id =>
    obtain ⟨value, hvalue⟩ : ∃ value, f.temps[id]? = some value :=
      ⟨_, List.getElem?_eq_getElem (hf.temps id h)⟩
    have hrun : operand (.temp id) m = .ok value m :=
      operand_temp (by rw [hframes, List.head?_cons, Option.bind_some, hvalue])
    rw [hrun]
    exact hkeep

section

variable {inv : Memory → Prop} {o : Operand} (ho : Keeps inv (operand o) NoneUndefined)
include ho

theorem int_keeps : Keeps inv (int o) NoneUndefined :=
  ho.bind fun v ↦ by cases v <;> first | exact .pure fun _ hm ↦ hm | exact .throw fun _ _ ↦ nofun

theorem address_keeps : Keeps inv (address o) NoneUndefined :=
  ho.bind fun v ↦ by cases v <;> first | exact .pure fun _ hm ↦ hm | exact .throw fun _ _ ↦ nofun

theorem span_keeps : Keeps inv (span o) NoneUndefined :=
  ho.bind fun v ↦ by cases v <;> first | exact .pure fun _ hm ↦ hm | exact .throw fun _ _ ↦ nofun

theorem offset_keeps : Keeps inv (offset o) NoneUndefined :=
  ho.bind fun v ↦ by cases v <;> first | exact .pure fun _ hm ↦ hm | exact .throw fun _ _ ↦ nofun

theorem range_keeps : Keeps inv (range o) NoneUndefined :=
  ho.bind fun v ↦ by cases v <;> first | exact .pure fun _ hm ↦ hm | exact .throw fun _ _ ↦ nofun

end

end Run

namespace Memory

theorem read_ne_undefined {m : Memory} {a : Address} {e : RuntimeError}
    (h : m.read a = .error e) : ¬ e.Undefined := by
  unfold read at h
  split at h
  · exact (Value.get_benign h).not_undefined
  · cases h
    rintro ⟨_, ⟨⟩⟩

theorem write_ne_undefined {m : Memory} {a : Address} {value : Value} {e : RuntimeError}
    (h : m.write a value = .error e) : ¬ e.Undefined := by
  unfold write at h
  split at h
  · rename_i old _
    cases hset : Value.set value old a.path with
    | error e' =>
      rw [hset] at h
      cases h
      exact (Value.set_benign hset).not_undefined
    | ok new =>
      rw [hset] at h
      cases h
  · cases h
    rintro ⟨_, ⟨⟩⟩

end Memory

namespace Run

theorem read_keeps {inv : Memory → Prop} {a : Address} :
    Keeps inv (read a) NoneUndefined := by
  refine Triple.get_bind fun m hm ↦ ?_
  cases hread : m.read a with
  | ok v => exact .pure fun _ hm' ↦ hm' ▸ hm
  | error e => exact .throw fun _ _ ↦ Memory.read_ne_undefined hread

end Run

/-- An operation reads memory without changing it. -/
theorem Operation.run_keeps {types : TypeTable} {frame : Nat} {inv : Memory → Prop}
    {operation : Operation} (h : ∀ o ∈ operation.operands, Keeps inv (Run.operand o) NoneUndefined) :
    Keeps inv (operation.run types frame) NoneUndefined := by
  cases operation with
  | addressOf target name => exact .pure fun _ hm ↦ hm
  | tempAddress temp => exact .pure fun _ hm ↦ hm
  | fieldAddress base name =>
    refine Triple.bind (h base (by simp [operands])) fun v ↦ ?_
    cases v <;> first | exact .pure fun _ hm ↦ hm | exact .throw fun _ _ ↦ nofun
  | load source =>
    exact Triple.bind (address_keeps (h source (by simp [operands]))) fun target ↦
      read_keeps
  | default type name => exact .pure fun _ hm ↦ hm
  | project kind base array element size =>
    exact Triple.bind (address_keeps (h base (by simp [operands]))) fun target ↦
      .pure fun _ hm ↦ hm
  | length view =>
    exact Triple.bind (span_keeps (h view (by simp [operands]))) fun view ↦ .pure fun _ hm ↦ hm
  | getOffset offset total =>
    exact Triple.bind (offset_keeps (h offset (by simp [operands]))) fun offset ↦
      Triple.bind (int_keeps (h total (by simp [operands]))) fun total ↦ .pure fun _ hm ↦ hm
  | makeIndex value fromEnd =>
    refine Triple.bind (int_keeps (h value (by simp [operands]))) fun value ↦ ?_
    split
    · exact .throw fun _ _ ↦ nofun
    · exact .pure fun _ hm ↦ hm
  | makeRange start stop =>
    exact Triple.bind (offset_keeps (h start (by simp [operands]))) fun start ↦
      Triple.bind (offset_keeps (h stop (by simp [operands]))) fun stop ↦ .pure fun _ hm ↦ hm
  | rangeStart range =>
    exact Triple.bind (range_keeps (h range (by simp [operands]))) fun range ↦ .pure fun _ hm ↦ hm
  | rangeEnd range =>
    exact Triple.bind (range_keeps (h range (by simp [operands]))) fun range ↦ .pure fun _ hm ↦ hm
  | binary op left right =>
    exact Triple.bind (int_keeps (h left (by simp [operands]))) fun left ↦
      Triple.bind (int_keeps (h right (by simp [operands]))) fun right ↦ .pure fun _ hm ↦ hm
  | index view position =>
    refine Triple.bind (span_keeps (h view (by simp [operands]))) fun view ↦
      Triple.bind (int_keeps (h position (by simp [operands]))) fun position ↦ ?_
    cases hindex : view.index position with
    | ok element => exact .pure fun _ hm ↦ hm
    | error e => exact .throw fun _ _ ↦ (SpanView.index_benign hindex).not_undefined
  | slice view start count =>
    refine Triple.bind (span_keeps (h view (by simp [operands]))) fun view ↦
      Triple.bind (int_keeps (h start (by simp [operands]))) fun start ↦
        Triple.bind (int_keeps (h count (by simp [operands]))) fun count ↦ ?_
    cases hslice : view.slice start count with
    | ok part => exact .pure fun _ hm ↦ hm
    | error e => exact .throw fun _ _ ↦ (SpanView.slice_benign hslice).not_undefined
  | convert value =>
    exact Triple.bind (int_keeps (h value (by simp [operands]))) fun value ↦ .pure fun _ hm ↦ hm

namespace Run

theorem define_runs {τ : Scope} {dest : ValueId} {value : Value} (hdest : dest < count)
    (hvalues : ∀ id ∈ τ.values, id = dest ∨ id ∈ σ.values) (htemps : τ.temps ⊆ σ.temps) :
    Triple (Runs below count σ) (define dest value) (fun _ ↦ Runs below count τ) NoneUndefined := by
  refine .modify fun m ⟨f, rest, hframes, hrest, hcount, hf⟩ ↦
    ⟨f.define dest value, rest, ?_, hrest, ?_, ?_, ?_⟩
  · simp [updateTop, hframes]
  · simpa [Frame.define] using hcount
  · intro id hid
    rw [Frame.value?, Frame.define, List.getElem?_set]
    split
    · rename_i heq
      simp [← hcount] at hdest
      simp [hdest]
    · rename_i hne
      rcases hvalues id hid with rfl | hid
      · exact absurd rfl hne
      · exact hf.values id hid
  · exact fun id hid ↦ hf.temps id (htemps hid)

theorem setTemp_runs {temp : TempId} {value : Value} :
    Triple (Runs below count σ) (modify (·.updateTop (·.setTemp temp value)))
      (fun _ ↦ Runs below count ⟨σ.values, temp :: σ.temps⟩) NoneUndefined := by
  refine .modify fun m ⟨f, rest, hframes, hrest, hcount, hf⟩ ↦
    ⟨f.setTemp temp value, rest, ?_, hrest, hcount, hf.values, ?_⟩
  · simp [updateTop, hframes]
  · intro id hid
    have hlength : (f.setTemp temp value).temps.length =
        f.temps.length + (temp + 1 - f.temps.length) := by
      simp [Frame.setTemp]
    rw [hlength]
    rcases List.mem_cons.1 hid with rfl | hid
    · exact Nat.lt_of_lt_of_le (Nat.lt_succ_self id) (by omega)
    · exact Nat.lt_of_lt_of_le (hf.temps id hid) (Nat.le_add_right _ _)

theorem write_runs {a : Address} {value : Value} :
    Keeps (Runs below count σ) (write a value) NoneUndefined := by
  refine Triple.get_bind fun m hm ↦ ?_
  cases hwrite : m.write a value with
  | ok m' => exact fun _ _ ↦ hm.survive (framesSurvive_write hwrite)
  | error e => exact .throw fun _ _ ↦ write_ne_undefined hwrite

end Run

/-- A call reads nothing undefined, and every activation survives it. -/
def Run.CallsSafely (invoke : String → List Value → Run Value) : Prop :=
  ∀ callee args frames, Triple (fun m ↦ FramesSurvive frames m.frames) (invoke callee args)
    (fun _ m ↦ FramesSurvive frames m.frames) NoneUndefined

namespace Instr

/-- After an instruction: what it leaves in scope, unless it has returned. -/
def Leaves (below : List Frame) (count : Nat) (τ : Scope) (returned : Option Value)
    (m : Memory) : Prop :=
  m.Runs below count (if returned.isNone then τ else {})

variable {types : TypeTable} {invoke : String → List Value → Run Value} {frame : Nat}

mutual

theorem run_leaves (hinvoke : CallsSafely invoke) {σ : Scope} : (i : Instr) → i.WellScoped σ →
    (∀ id ∈ dests [i], id < count) → Triple (Runs below count σ) (i.run types invoke frame)
      (Leaves below count (σ.after i)) NoneUndefined
  | .define note dest operation, hi, hcount => by
    have hreads : ∀ o ∈ operation.operands, Keeps (Runs below count σ) (operand o) NoneUndefined := by
      intro o ho
      refine operand_keeps (hi o ?_)
      cases operation <;> first | exact ho | cases ho
    refine (Operation.run_keeps hreads).bind fun value ↦
      (define_runs (τ := σ.after (.define note dest operation)) ?_ ?_ ?_).bind fun _ ↦
        .pure fun _ hm ↦ hm
    · exact hcount dest (by simp [dests, flattenAll, flatten, dest?])
    · simp [Scope.after, dest?]
    · exact List.Subset.refl _
  | .store _ address value, ⟨haddress, hvalue⟩, _ =>
    (address_keeps (operand_keeps haddress)).bind fun _ ↦ (operand_keeps hvalue).bind fun _ ↦
      write_runs.bind fun _ ↦ .pure fun _ hm ↦ hm
  | .storeTemp _ temp value, hvalue, _ =>
    (operand_keeps hvalue).bind fun _ ↦ setTemp_runs.bind fun _ ↦ .pure fun _ hm ↦ hm
  | .bind _ target _ source, hsource, _ => by
    have hset (source : Address) :
        Keeps (Runs below count σ) (modify (·.updateTop (·.setSlot target (.address source))))
          NoneUndefined := by
      refine .modify fun m ⟨f, rest, hframes, hrest, hcount, hf⟩ ↦ ?_
      exact ⟨f.setSlot target (.address source), rest, by simp [updateTop, hframes], hrest, hcount,
        hf.survives (.setSlot f target _)⟩
    exact (address_keeps (operand_keeps hsource)).bind fun source ↦
      (hset source).bind fun _ ↦ .pure fun _ hm ↦ hm
  | .call note dest callee args, hargs, hcount => by
    refine Triple.bind (Triple.mapM fun o ho ↦ operand_keeps (hargs o ho)) fun args ↦ ?_
    have hcall : Keeps (Runs below count σ) (invoke callee args) NoneUndefined := by
      intro m hm
      have hframes := hinvoke callee args m.frames (.refl _)
      cases hrun : invoke callee args m with
      | ok result m' =>
        rw [hrun] at hframes
        exact hm.survive hframes
      | error e m' =>
        rw [hrun] at hframes
        exact hframes
    refine hcall.bind fun result ↦ ?_
    cases dest with
    | none => exact .pure fun _ hm ↦ hm
    | some dest =>
      refine (define_runs (τ := σ.after (.call note (some dest) callee [])) ?_ ?_ ?_).bind
        fun _ ↦ .pure fun _ hm ↦ hm
      · exact hcount dest (by simp [dests, flattenAll, flatten, dest?])
      · simp [Scope.after, dest?]
      · exact List.Subset.refl _
  | .guard note dest tested body result, ⟨htested, hbody, hresult⟩, hcount => by
    have hdest : dest < count := hcount dest (by simp [dests_guard_cons])
    have hinner : ∀ id ∈ dests body, id < count := fun id hid ↦
      hcount id (by simp [dests_guard_cons, hid])
    have hafter : ∀ id ∈ (σ.after (.guard note dest tested body result)).values,
        id = dest ∨ id ∈ σ.values := by
      simp [Scope.after, dest?]
    refine (operand_keeps htested).bind fun value ↦ ?_
    split
    · exact (define_runs hdest hafter (List.Subset.refl _)).bind fun _ ↦ .pure fun _ hm ↦ hm
    · refine (runAll_leaves hinvoke body hbody hinner).bind fun returned ↦ ?_
      cases returned with
      | some value => exact .pure fun _ hm ↦ hm
      | none =>
        refine (operand_keeps hresult).bind fun value ↦ (define_runs hdest ?_ ?_).bind fun _ ↦
          .pure fun _ hm ↦ hm
        · exact fun id hid ↦ (hafter id hid).imp_right fun hid ↦
            Scope.mem_values_afterAll.2 (.inl hid)
        · exact fun id hid ↦ Scope.inScope_afterAll (o := .temp id) body hid
  | .ret _ .none, _, _ => .pure fun _ hm ↦ hm.mono (List.nil_subset _) (List.nil_subset _)
  | .ret _ (some value), hvalue, _ =>
    (operand_keeps (hvalue value rfl)).bind fun _ ↦ .pure fun _ hm ↦
      hm.mono (List.nil_subset _) (List.nil_subset _)

theorem runAll_leaves (hinvoke : CallsSafely invoke) {σ : Scope} : (code : List Instr) →
    AllWellScoped σ code → (∀ id ∈ dests code, id < count) →
      Triple (Runs below count σ) (runAll types invoke frame code)
        (Leaves below count (σ.afterAll code)) NoneUndefined
  | [], _, _ => .pure fun _ hm ↦ hm
  | i :: code, ⟨hi, hcode⟩, hcount => by
    rw [show i :: code = [i] ++ code from rfl, dests_append] at hcount
    refine (run_leaves hinvoke i hi fun id hid ↦ hcount id (by simp [hid])).bind fun returned ↦ ?_
    cases returned with
    | some value => exact .pure fun _ hm ↦ hm
    | none => exact runAll_leaves hinvoke code hcode fun id hid ↦ hcount id (by simp [hid])

end

end Instr

namespace Executable

variable {x : Executable}

/-- A call of a well-formed routine is safe if the calls in it are. -/
theorem activate_safe {r : Routine} (hr : r.WellFormed)
    {invoke : String → List Value → Run Value} (hinvoke : CallsSafely invoke) {frames : List Frame}
    (slots : List (VariableId × Value)) :
    Keeps (fun m ↦ FramesSurvive frames m.frames)
      (activate r slots fun frame ↦ Instr.runAll x.types invoke frame r.code) NoneUndefined := by
  refine activate_triple fun m hm ↦ ?_
  have hcount : ∀ id ∈ Instr.dests r.code, id < r.valueCount := fun id hid ↦ by
    simpa using hr.dests_perm.mem_iff.1 hid
  have hstart : Runs m.frames r.valueCount {} (pushed r slots m) :=
    ⟨_, _, rfl, .refl _, by simp, by constructor <;> simp⟩
  have hcode : Triple (Runs m.frames r.valueCount {})
      (Instr.runAll x.types invoke m.nextFrame r.code)
      (Instr.Leaves m.frames r.valueCount (Scope.afterAll {} r.code)) NoneUndefined :=
    Instr.runAll_leaves hinvoke r.code hr.wellScoped hcount
  have hrun := hcode hstart
  cases hbody : Instr.runAll x.types invoke m.nextFrame r.code (pushed r slots m) with
  | ok returned m' =>
    rw [hbody] at hrun
    obtain ⟨f, rest, hframes, hrest, -⟩ := hrun
    simp only [hframes, List.tail_cons]
    exact hm.trans hrest
  | error e m' =>
    rw [hbody] at hrun
    exact hrun

theorem leave_safe : CallsSafely leave := fun _ _ _ _ hm ↦ hm

/-- Calls of well-formed routines are safe, with any room. -/
theorem invokeWithin_safe {host : Host} (hx : ∀ p ∈ x.routines, p.2.WellFormed)
    (hhost : CallsSafely host) (room : Nat) (receiver : Option Value) :
    CallsSafely fun callee args ↦ x.invokeWithin host room callee args receiver := by
  induction room generalizing receiver with
  | zero =>
    intro callee args frames
    dsimp only
    cases hfind : x.find? callee with
    | none =>
      rw [invokeWithin_host hfind]
      exact hhost callee args frames
    | some p =>
      by_cases hargs : args.length = p.2.parameters.length
      · rw [invokeWithin_zero hfind hargs]
        exact .throw fun _ _ ↦ nofun
      · rw [invokeWithin_argumentCount hfind hargs]
        exact .throw fun _ _ ↦ nofun
  | succ room ih =>
    intro callee args frames
    dsimp only
    cases hfind : x.find? callee with
    | none =>
      rw [invokeWithin_host hfind]
      exact hhost callee args frames
    | some p =>
      by_cases hargs : args.length = p.2.parameters.length
      · rw [invokeWithin_succ hfind hargs]
        exact activate_safe (hx _ (find?_mem hfind)) (ih none) _
      · rw [invokeWithin_argumentCount hfind hargs]
        exact .throw fun _ _ ↦ nofun

end Executable

/-- Whatever memory it starts from, nothing undefined is read. -/
abbrev Run.NeverUndefined {α : Type} (act : Run α) : Prop := Keeps (fun _ ↦ True) act NoneUndefined

section

variable (types : TypeTable) (name : String)

theorem invalidInput_neverUndefined {α : Type} (type : TypeId) :
    NeverUndefined (invalidInput (α := α) types name type) := .throw fun _ _ ↦ nofun

mutual

theorem inputValue_neverUndefined (type : TypeId) :
    (data : Data) → NeverUndefined (inputValue types name type data)
  | .int value => by
    unfold inputValue
    split <;> first | exact .pure fun _ hm ↦ hm | exact invalidInput_neverUndefined ..
  | .bool value => by
    unfold inputValue
    split <;> first | exact .pure fun _ hm ↦ hm | exact invalidInput_neverUndefined ..
  | .list items => by
    unfold inputValue
    split
    · split
      · exact (inputItems_neverUndefined _ items).bind fun _ ↦ .pure fun _ hm ↦ hm
      · exact invalidInput_neverUndefined ..
    · have hbox (value : Value) : NeverUndefined (box value) := fun _ _ ↦ trivial
      exact (inputItems_neverUndefined _ items).bind fun items ↦
        (hbox (.array items)).bind fun _ ↦ .pure fun _ hm ↦ hm
    · exact invalidInput_neverUndefined ..
  | .table entries => by
    unfold inputValue
    split
    · split <;> first | exact .pure fun _ hm ↦ hm | exact invalidInput_neverUndefined ..
    · split <;> first | exact .pure fun _ hm ↦ hm | exact invalidInput_neverUndefined ..
    · rename_i struct _
      have hfields : NeverUndefined (do
          let fields ← struct.fields.mapM fun f ↦ do
            return (f.name, ← inputField types name f entries)
          if struct.isClass then allocateObject (.struct fields) else return .struct fields) := by
        refine Triple.bind (Triple.mapM fun f _ ↦ (inputField_neverUndefined f entries).bind fun _ ↦
          .pure fun _ hm ↦ hm) fun fields ↦ ?_
        split
        · exact fun _ _ ↦ trivial
        · exact .pure fun _ hm ↦ hm
      exact iteInduction (motive := NeverUndefined)
        (fun _ ↦ (invalidInput_neverUndefined types name type).bind fun _ ↦ hfields)
        fun _ ↦ hfields
    · exact invalidInput_neverUndefined ..
termination_by structural data => data

theorem inputItems_neverUndefined (element : TypeId) :
    (items : List Data) → NeverUndefined (inputItems types name element items)
  | [] => .pure fun _ hm ↦ hm
  | item :: items =>
    (inputValue_neverUndefined element item).bind fun _ ↦
      (inputItems_neverUndefined element items).bind fun _ ↦ .pure fun _ hm ↦ hm
termination_by structural items => items

theorem inputField_neverUndefined (field : Field) :
    (entries : List (String × Data)) → NeverUndefined (inputField types name field entries)
  | [] => .pure fun _ hm ↦ hm
  | (key, data) :: entries => by
    unfold inputField
    split
    · exact inputValue_neverUndefined field.type data
    · exact inputField_neverUndefined field entries
termination_by structural entries => entries

end

end

theorem Memory.materializeWithin_ne_undefined {m : Memory} {depth : Nat} {v : Value}
    {e : RuntimeError} (h : m.materializeWithin depth v = .error e) : ¬ e.Undefined := by
  induction depth generalizing v e with
  | zero =>
    cases h
    nofun
  | succ depth ih =>
    unfold materializeWithin at h
    split at h
    · rcases Except.bind_eq_error.1 h with h | ⟨stored, -, h⟩
      · exact read_ne_undefined h
      · exact ih h
    · split at h
      · exact ih h
      · cases h
        nofun
    · rcases Except.bind_eq_error.1 h with h | ⟨items, -, h⟩
      · obtain ⟨position, h⟩ := eachElement_eq_error h
        split at h
        · exact ih h
        · cases h
          nofun
      · cases h
    · rcases Except.bind_eq_error.1 h with h | ⟨fields, -, h⟩
      · obtain ⟨field, -, h⟩ := Except.mapM_eq_error h
        rcases Except.bind_eq_error.1 h with h | ⟨value, -, h⟩
        · exact ih h
        · cases h
      · cases h
    · rcases Except.bind_eq_error.1 h with h | ⟨items, -, h⟩
      · obtain ⟨item, -, h⟩ := Except.mapM_eq_error h
        exact ih h
      · cases h
    · cases h

namespace Executable

variable {x : Executable} {inputs : List (String × Data)}

theorem entryValue_neverUndefined (name : String) (type : TypeId) :
    NeverUndefined (x.entryValue inputs name type) := by
  unfold entryValue
  split
  · exact inputValue_neverUndefined x.types name type _
  · exact .pure fun _ hm ↦ hm

theorem entryArgument_neverUndefined (v : Variable) :
    NeverUndefined (x.entryArgument inputs v) := by
  refine (entryValue_neverUndefined v.name v.type).bind fun value ↦ ?_
  split
  · split
    · exact fun _ _ ↦ trivial
    · exact .pure fun _ hm ↦ hm
  · exact .pure fun _ hm ↦ hm

theorem entryReceiver_neverUndefined (owner : Owner) :
    NeverUndefined (x.entryReceiver inputs owner) := by
  refine (entryValue_neverUndefined "this" owner.type).bind fun value ↦ ?_
  split
  · split
    · exact fun _ _ ↦ trivial
    · exact .pure fun _ hm ↦ hm
  · exact fun _ _ ↦ trivial

theorem shown_neverUndefined {r : Routine} {returned : Value} :
    NeverUndefined (shown r returned) := by
  unfold shown
  split
  · exact .pure fun _ hm ↦ hm
  · refine Triple.get_bind fun m _ ↦ ?_
    split
    · exact .pure fun _ _ ↦ trivial
    · rename_i hshown
      exact .throw fun _ _ ↦ materializeWithin_ne_undefined hshown

/-- Only reading an operand could find something undefined, and no run of well-formed code does. -/
theorem run_neverUndefined (hx : ∀ p ∈ x.routines, p.2.WellFormed) (entry : String) :
    NeverUndefined (x.run entry inputs) := by
  unfold Executable.run Executable.runWith
  split
  · exact .throw fun _ _ ↦ nofun
  · rename_i m r _
    have hinvoke (args : List Value) (receiver : Option Value) :
        NeverUndefined (x.invoke leave entry args receiver) := by
      refine Triple.get_bind fun m _ ↦ ?_
      have hcall := invokeWithin_safe hx leave_safe (maxCallDepth - m.frames.length) receiver
        entry args m.frames
      exact hcall.mono (by rintro _ rfl; exact .refl _) (fun _ _ _ ↦ trivial) fun _ _ h ↦ h
    refine (Triple.mapM fun id _ ↦ entryArgument_neverUndefined (m.var id)).bind fun args ↦ ?_
    have hreceiver : NeverUndefined (x.entryReceiver? inputs m) := by
      unfold entryReceiver?
      split
      · exact (entryReceiver_neverUndefined _).map
      · exact .pure fun _ hm ↦ hm
    exact hreceiver.bind fun receiver ↦ (hinvoke args receiver).bind fun returned ↦
      shown_neverUndefined.bind fun result ↦ fun _ _ ↦ trivial

end Executable

end InlineArrays
