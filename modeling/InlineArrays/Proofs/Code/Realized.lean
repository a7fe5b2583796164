import InlineArrays.Proofs.Code.Emission
import InlineArrays.Proofs.Machine.Roots
import InlineArrays.Proofs.Machine.Triple

/-!
# What emitted code computes

`Realizes` says that emitting succeeds and that what it appends runs without fail: from memory in
which an activation sees its variables and the heap as `view`, and in which the operands `known`
have their values, it ends in memory seen as another view, where the operands of the result have
theirs.  What was computed before is left alone, so these statements compose along the steps of a
computation.
-/

namespace InlineArrays

open Emission

/-- The operands that code emitted so far has computed. -/
def Operand.Below (s : Emission) : Operand → Prop
  | .int _ | .bool _ => True
  | .computed id => id < s.valueCount
  | .temp id => id < s.tempCount

theorem Operand.Below.grows {s t : Emission} {code : List Instr} {o : Operand} (h : o.Below s)
    (hst : s.Grows t code) : o.Below t := by
  cases o with
  | int | bool => trivial
  | computed id => exact Nat.lt_of_lt_of_le h hst.value_le
  | temp id => exact Nat.lt_of_lt_of_le h hst.temp_le

namespace Memory

/-- What an operand stands for in the running activation. -/
def operand? (m : Memory) : Operand → Option Value
  | .int n => some (.int n)
  | .bool b => some (.bool b)
  | .computed id => m.frames.head?.bind (·.value? id)
  | .temp id => m.frames.head?.bind (·.temps[id]?)

theorem operand?_computed {m : Memory} {f : Frame} {rest : List Frame} (h : m.frames = f :: rest)
    (id : ValueId) : m.operand? (.computed id) = f.values[id]?.join := by
  rw [operand?, h]
  rfl

theorem operand?_temp {m : Memory} {f : Frame} {rest : List Frame} (h : m.frames = f :: rest)
    (id : TempId) : m.operand? (.temp id) = f.temps[id]? := by
  rw [operand?, h]
  rfl

/-- Everything computed before `s` is still there. -/
def Keeps (s : Emission) (m m' : Memory) : Prop :=
  ∀ o v, o.Below s → m.operand? o = some v → m'.operand? o = some v

theorem Keeps.trans {s t : Emission} {code : List Instr} {m m' m'' : Memory} (h : m.Keeps s m')
    (hst : s.Grows t code) (h' : m'.Keeps t m'') : m.Keeps s m'' :=
  fun o v ho hv ↦ h' o v (ho.grows hst) (h o v ho hv)

end Memory

namespace Run

/-- A computation that leaves memory alone. -/
def of {α : Type} (result : Except RuntimeError α) : Run α := ofExcept result

variable {m : Memory} {o : Operand}

theorem of_eq_ok {α : Type} {result : Except RuntimeError α} {a : α} {m' : Memory}
    (h : of result m = .ok a m') : result = .ok a := by
  cases result with
  | ok b =>
    cases h
    rfl
  | error e => cases h

theorem operand_eq {v : Value} (h : m.operand? o = some v) : operand o m = .ok v m := by
  cases o with
  | int n | bool b =>
    cases h
    rfl
  | computed id => exact operand_computed h
  | temp id => exact operand_temp h

/-- A computation that goes on with an operand. -/
theorem operand_bind {α : Type} {f : Value → Run α} {v : Value} (h : m.operand? o = some v) :
    (operand o >>= f) m = f v m := by
  change EStateM.bind (operand o) f m = f v m
  rw [EStateM.bind, operand_eq h]

theorem int_eq {n : Int64} (h : m.operand? o = some (.int n)) : int o m = .ok n m :=
  operand_bind h

theorem address_eq {a : Address} (h : m.operand? o = some (.address a)) : address o m = .ok a m :=
  operand_bind h

theorem span_eq {view : SpanView} (h : m.operand? o = some (.span view)) : span o m = .ok view m :=
  operand_bind h

theorem offset_eq {offset : Offset} (h : m.operand? o = some (.index offset)) :
    Run.offset o m = .ok offset m :=
  operand_bind h

theorem range_eq {start stop : Offset} (h : m.operand? o = some (.range start stop)) :
    range o m = .ok (start, stop) m :=
  operand_bind h

end Run

namespace Operation

variable {types : TypeTable} {frame : Nat} {m : Memory} {o o' o'' : Operand}

theorem run_fieldAddress {a : Address} {name : String} (h : m.operand? o = some (.address a)) :
    (fieldAddress o name).run types frame m = .ok (.address (a.join (.field name))) m :=
  Run.operand_bind h

theorem run_load {a : Address} {v : Value} (h : m.operand? o = some (.address a))
    (hread : m.read a = .ok v) : (load o).run types frame m = .ok v m := by
  change (Run.address o >>= Run.read) m = _
  rw [Run.bind_eq (Run.address_eq h)]
  exact Run.read_of_ok hread

theorem run_project {kind : SpanKind} {a : Address} {array element : String} {size : Nat}
    (h : m.operand? o = some (.address a)) :
    (project kind o array element size).run types frame m =
      .ok (.span ⟨some a, 0, size, kind.isReadonly⟩) m :=
  Run.bind_eq (Run.address_eq h)

theorem run_length {view : SpanView} (h : m.operand? o = some (.span view)) :
    (length o).run types frame m = .ok (.int (Int64.ofNat view.length)) m :=
  Run.bind_eq (Run.span_eq h)

theorem run_binary {op : BinaryOp} {n n' : Int64} (h : m.operand? o = some (.int n))
    (h' : m.operand? o' = some (.int n')) :
    (binary op o o').run types frame m = .ok (.int (op.apply n n')) m :=
  (Run.bind_eq (Run.int_eq h)).trans (Run.bind_eq (Run.int_eq h'))

/-- An index yields the address of an element, or the error of the span. -/
theorem run_index_eq {view : SpanView} {n : Int64} (h : m.operand? o = some (.span view))
    (h' : m.operand? o' = some (.int n)) :
    (index o o').run types frame m = Run.of ((view.index n).map .address) m := by
  refine (Run.bind_eq (Run.span_eq h)).trans ((Run.bind_eq (Run.int_eq h')).trans ?_)
  cases view.index n <;> rfl

theorem run_index {view : SpanView} {n : Int64} {a : Address} (h : m.operand? o = some (.span view))
    (h' : m.operand? o' = some (.int n)) (hindex : view.index n = .ok a) :
    (index o o').run types frame m = .ok (.address a) m := by
  rw [run_index_eq h h', hindex]
  rfl

/-- A slice yields a part of the span, or the error of the span. -/
theorem run_slice_eq {view : SpanView} {n n' : Int64} (h : m.operand? o = some (.span view))
    (h' : m.operand? o' = some (.int n)) (h'' : m.operand? o'' = some (.int n')) :
    (slice o o' o'').run types frame m = Run.of ((view.slice n n').map .span) m := by
  refine (Run.bind_eq (Run.span_eq h)).trans ((Run.bind_eq (Run.int_eq h')).trans
    ((Run.bind_eq (Run.int_eq h'')).trans ?_))
  cases view.slice n n' <;> rfl

theorem run_getOffset {offset : Offset} {n : Int64} (h : m.operand? o = some (.index offset))
    (h' : m.operand? o' = some (.int n)) :
    (getOffset o o').run types frame m = .ok (.int (offset.resolve n)) m :=
  (Run.bind_eq (Run.offset_eq h)).trans (Run.bind_eq (Run.int_eq h'))

/-- An index is made of a count that is not negative. -/
theorem run_makeIndex {n : Int64} {fromEnd : Bool} (h : m.operand? o = some (.int n)) :
    (makeIndex o fromEnd).run types frame m =
      Run.of (if n < 0 then .error (.negativeIndex n) else .ok (.index ⟨n, fromEnd⟩)) m := by
  refine (Run.bind_eq (Run.int_eq h)).trans ?_
  split <;> rfl

theorem run_makeRange {start stop : Offset} (h : m.operand? o = some (.index start))
    (h' : m.operand? o' = some (.index stop)) :
    (makeRange o o').run types frame m = .ok (.range start stop) m :=
  (Run.bind_eq (Run.offset_eq h)).trans (Run.bind_eq (Run.offset_eq h'))

theorem run_rangeStart {start stop : Offset} (h : m.operand? o = some (.range start stop)) :
    (rangeStart o).run types frame m = .ok (.index start) m :=
  Run.bind_eq (Run.range_eq h)

theorem run_convert {n : Int64} (h : m.operand? o = some (.int n)) :
    (convert o).run types frame m = .ok (.int n) m :=
  Run.bind_eq (Run.int_eq h)

theorem run_rangeEnd {start stop : Offset} (h : m.operand? o = some (.range start stop)) :
    (rangeEnd o).run types frame m = .ok (.index stop) m :=
  Run.bind_eq (Run.range_eq h)

end Operation

/-! ## Activations -/

/-- What an activation reads and writes through addresses: its variables and the heap. -/
structure View where
  slots : List (VariableId × Value)
  heap : List Value

/-- A running activation, with room for so many values and temporaries. -/
structure Activation where
  types : TypeTable
  invoke : String → List Value → Run Value
  frame : Nat
  valueCount : Nat
  tempCount : Nat

namespace Activation

variable {α β : Type} {A : Activation} {view view' view'' : View} {m m' : Memory}
  {known : List (Operand × Value)}

def run (A : Activation) (code : List Instr) : Run (Option Value) :=
  Instr.runAll A.types A.invoke A.frame code

/-- The activation is the running one and sees `view`. -/
def Sees (A : Activation) (view : View) (m : Memory) : Prop :=
  ∃ f rest, m.frames = f :: rest ∧ f.id = A.frame ∧ f.slots = view.slots ∧
    f.values.length = A.valueCount ∧ f.temps.length = A.tempCount ∧ m.heap = view.heap

theorem Sees.slot? (h : A.Sees view m) (v : VariableId) :
    m.root? (.slot A.frame v) = (view.slots.find? (·.1 == v)).map (·.2) := by
  obtain ⟨f, rest, hframes, hid, hslots, -⟩ := h
  simp [Memory.root?, Memory.frame?, hframes, hid, Frame.slot?, hslots]

theorem Sees.heap? (h : A.Sees view m) (cell : Nat) :
    m.root? (.heap cell) = view.heap[cell]? := by
  obtain ⟨f, rest, -, -, -, -, -, hheap⟩ := h
  rw [Memory.root?, hheap]

/-- A value that is computed next. -/
theorem Sees.define {s : Emission} {dest : ValueId} (value : Value) (h : A.Sees view m)
    (hdest : s.valueCount ≤ dest) (hroom : dest < A.valueCount) :
    A.Sees view (m.updateTop (·.define dest value)) ∧
      m.Keeps s (m.updateTop (·.define dest value)) ∧
        (m.updateTop (·.define dest value)).operand? (.computed dest) = some value := by
  obtain ⟨f, rest, hframes, hid, hslots, hvalues, htemps, hheap⟩ := h
  have htop : (m.updateTop (·.define dest value)).frames = f.define dest value :: rest := by
    simp [Memory.updateTop, hframes]
  have hheap' : (m.updateTop (·.define dest value)).heap = view.heap := by
    simp [Memory.updateTop, hframes, hheap]
  refine ⟨⟨_, rest, htop, hid, hslots, ?_, htemps, hheap'⟩, fun o v ho hv ↦ ?_, ?_⟩
  · simpa [Frame.define] using hvalues
  · cases o with
    | int | bool => exact hv
    | computed id =>
      have hne : dest ≠ id := fun heq ↦ Nat.lt_irrefl _ (Nat.lt_of_lt_of_le (heq ▸ ho) hdest)
      rw [Memory.operand?_computed hframes] at hv
      rw [Memory.operand?_computed htop, Frame.define, List.getElem?_set_ne hne, hv]
    | temp id =>
      rw [Memory.operand?_temp hframes] at hv
      rw [Memory.operand?_temp htop, Frame.define, hv]
  · rw [Memory.operand?_computed htop, Frame.define, List.getElem?_set_self (hvalues ▸ hroom)]
    rfl

/-- A temporary that is stored to next. -/
theorem Sees.setTemp {s : Emission} {temp : TempId} (value : Value) (h : A.Sees view m)
    (htemp : s.tempCount ≤ temp) (hroom : temp < A.tempCount) :
    A.Sees view (m.updateTop (·.setTemp temp value)) ∧
      m.Keeps s (m.updateTop (·.setTemp temp value)) ∧
        (m.updateTop (·.setTemp temp value)).operand? (.temp temp) = some value := by
  obtain ⟨f, rest, hframes, hid, hslots, hvalues, htemps, hheap⟩ := h
  have htop : (m.updateTop (·.setTemp temp value)).frames = f.setTemp temp value :: rest := by
    simp [Memory.updateTop, hframes]
  have hheap' : (m.updateTop (·.setTemp temp value)).heap = view.heap := by
    simp [Memory.updateTop, hframes, hheap]
  have hset := Frame.temps_setTemp (f := f) value (htemps ▸ hroom)
  refine ⟨⟨_, rest, htop, hid, hslots, hvalues, ?_, hheap'⟩, fun o v ho hv ↦ ?_, ?_⟩
  · rw [hset, List.length_set, htemps]
  · cases o with
    | int | bool => exact hv
    | computed id =>
      rw [Memory.operand?_computed hframes] at hv
      rw [Memory.operand?_computed htop, Frame.setTemp, hv]
    | temp id =>
      have hne : temp ≠ id := fun heq ↦ Nat.lt_irrefl _ (Nat.lt_of_lt_of_le (heq ▸ ho) htemp)
      rw [Memory.operand?_temp hframes] at hv
      rw [Memory.operand?_temp htop, hset, List.getElem?_set_ne hne, hv]
  · rw [Memory.operand?_temp htop, hset, List.getElem?_set_self (htemps ▸ hroom)]

theorem Sees.read {a : Address} {v : Value} (hroot : m.root? a.root = some v) {inner : Value}
    (hget : v.get a.path = .ok inner) : m.read a = .ok inner := by
  rw [Memory.read, hroot]
  exact hget

/-- Writing into a cell of the heap. -/
theorem Sees.write_heap {cell : Nat} {path : List Step} {v v' new : Value} (h : A.Sees view m)
    (hcell : view.heap[cell]? = some v) (hset : Value.set new v path = .ok v') :
    ∃ m', m.write ⟨.heap cell, path⟩ new = .ok m' ∧
      A.Sees { view with heap := view.heap.set cell v' } m' ∧ m'.operand? = m.operand? := by
  refine ⟨_, Memory.write_eq_ok.2 ⟨v, v', (h.heap? cell).trans hcell, hset, rfl⟩, ?_, ?_⟩
  · obtain ⟨f, rest, hframes, hid, hslots, hvalues, htemps, hheap⟩ := h
    exact ⟨f, rest, hframes, hid, hslots, hvalues, htemps, congrArg (·.set cell v') hheap⟩
  · funext o
    cases o <;> rfl

/-- Operands are read off the values and temporaries of the running activation. -/
theorem operand?_eq {f g : Frame} {rest rest' : List Frame} (hframes : m.frames = f :: rest)
    (hframes' : m'.frames = g :: rest') (hvalues : g.values = f.values) (htemps : g.temps = f.temps) :
    m'.operand? = m.operand? := by
  funext o
  cases o with
  | int | bool => rfl
  | computed id =>
    rw [Memory.operand?_computed hframes, Memory.operand?_computed hframes', hvalues]
  | temp id => rw [Memory.operand?_temp hframes, Memory.operand?_temp hframes', htemps]

/-- Writing a variable of the activation through its address. -/
theorem Sees.write_slot {v : VariableId} {old new : Value} (h : A.Sees view m)
    (hold : (view.slots.find? (·.1 == v)).map (·.2) = some old) :
    ∃ m', m.write ⟨.slot A.frame v, []⟩ new = .ok m' ∧
      A.Sees { view with slots := assign v new view.slots } m' ∧ m'.operand? = m.operand? := by
  refine ⟨_, Memory.write_eq_ok.2 ⟨old, new, (h.slot? v).trans hold, rfl, rfl⟩, ?_⟩
  obtain ⟨f, rest, hframes, hid, hslots, hvalues, htemps, hheap⟩ := h
  have htop : (m.setRoot new (.slot A.frame v)).frames = f.setSlot v new ::
      rest.map fun g ↦ if g.id = A.frame then g.setSlot v new else g := by
    simp [Memory.setRoot, Memory.updateFrame, hframes, hid]
  refine ⟨⟨_, _, htop, hid, ?_, hvalues, htemps, hheap⟩, ?_⟩
  · rw [Frame.setSlot, hslots]
  · exact operand?_eq hframes htop rfl rfl

/-- Giving a variable of the activation another value. -/
theorem Sees.setSlot {v : VariableId} {new : Value} (h : A.Sees view m) :
    A.Sees { view with slots := assign v new view.slots } (m.updateTop (·.setSlot v new)) ∧
      (m.updateTop (·.setSlot v new)).operand? = m.operand? := by
  obtain ⟨f, rest, hframes, hid, hslots, hvalues, htemps, hheap⟩ := h
  have htop : (m.updateTop (·.setSlot v new)).frames = f.setSlot v new :: rest := by
    simp [Memory.updateTop, hframes]
  have hheap' : (m.updateTop (·.setSlot v new)).heap = view.heap := by
    simp [Memory.updateTop, hframes, hheap]
  refine ⟨⟨_, _, htop, hid, ?_, hvalues, htemps, hheap'⟩, ?_⟩
  · rw [Frame.setSlot, hslots]
  · exact operand?_eq hframes htop rfl rfl

/-- Code runs up to where it returns. -/
theorem run_append {code rest : List Instr} (h : A.run code m = .ok none m') :
    A.run (code ++ rest) m = A.run rest m' := by
  unfold run at h ⊢
  induction code generalizing m with
  | nil =>
    cases h
    rfl
  | cons i code ih =>
    change (Instr.run A.types A.invoke A.frame i >>= _) m = _ at h
    change (Instr.run A.types A.invoke A.frame i >>= _) m = _
    cases hi : Instr.run A.types A.invoke A.frame i m with
    | error e m₁ =>
      change EStateM.bind _ _ m = _ at h
      rw [EStateM.bind, hi] at h
      cases h
    | ok returned m₁ =>
      rw [Run.bind_eq hi] at h ⊢
      cases returned with
      | some v => cases h
      | none => exact ih h

theorem run_singleton {i : Instr} (h : i.run A.types A.invoke A.frame m = .ok none m') :
    A.run [i] m = .ok none m' := Run.bind_eq h

/-- Emitting succeeds; what is emitted runs as the module says and has an outcome, which is the value
returned if there is one. -/
def Runs (A : Activation) (view : View) (known : List (Operand × Value)) (act : Emit α)
    (outcome : Option Value) (view' : View) (post : α → List (Operand × Value)) : Prop :=
  ∀ s : Emission, (∀ p ∈ known, p.1.Below s) →
    ∃ a t code, act s = .ok a t ∧ s.Grows t code ∧ (∀ p ∈ post a, p.1.Below t) ∧
      (t.valueCount ≤ A.valueCount → t.tempCount ≤ A.tempCount →
        ∀ m, A.Sees view m → (∀ p ∈ known, m.operand? p.1 = some p.2) →
          ∃ m', A.run code m = .ok outcome m' ∧ A.Sees view' m' ∧ m.Keeps s m' ∧
            ∀ p ∈ post a, m'.operand? p.1 = some p.2)

/-- What is emitted runs to its end. -/
def Realizes (A : Activation) (view : View) (known : List (Operand × Value)) (act : Emit α)
    (view' : View) (post : α → List (Operand × Value)) : Prop :=
  A.Runs view known act none view' post

/-- What is emitted runs up to where the activation returns a value. -/
def Returns (A : Activation) (view : View) (known : List (Operand × Value)) (act : Emit α)
    (view' : View) (returned : Value) : Prop :=
  A.Runs view known act (some returned) view' fun _ ↦ []

/-- What is known before a step is still known after it. -/
theorem Realizes.keeping {act : Emit α} {post : α → List (Operand × Value)}
    (h : A.Realizes view known act view' post) :
    A.Realizes view known act view' fun a ↦ post a ++ known := by
  intro s hknown
  obtain ⟨a, t, code, hact, hst, hpost, hrun⟩ := h s hknown
  refine ⟨a, t, code, hact, hst, fun p hp ↦ ?_, fun hvalues htemps m hm hm' ↦ ?_⟩
  · rcases List.mem_append.1 hp with hp | hp
    · exact hpost p hp
    · exact (hknown p hp).grows hst
  · obtain ⟨m', hcode, hsees, hkeeps, hpostValues⟩ := hrun hvalues htemps m hm hm'
    refine ⟨m', hcode, hsees, hkeeps, fun p hp ↦ ?_⟩
    rcases List.mem_append.1 hp with hp | hp
    · exact hpostValues p hp
    · exact hkeeps p.1 p.2 (hknown p hp) (hm' p hp)

theorem Runs.bind {act : Emit α} {f : α → Emit β} {mid : α → List (Operand × Value)}
    {post : β → List (Operand × Value)} {outcome : Option Value}
    (hact : A.Realizes view known act view' mid)
    (hf : ∀ a, A.Runs view' (mid a ++ known) (f a) outcome view'' post) :
    A.Runs view known (act >>= f) outcome view'' post := by
  intro s hknown
  obtain ⟨a, t, code, hfirst, hst, hmid, hrun⟩ := hact.keeping s hknown
  obtain ⟨b, u, rest, hsecond, htu, hpost, hrun'⟩ := hf a t hmid
  refine ⟨b, u, code ++ rest, Emit.bind_eq_ok.2 ⟨a, t, hfirst, hsecond⟩, hst.trans htu, hpost, ?_⟩
  intro hvalues htemps m hm hm'
  obtain ⟨m₁, hcode, hsees, hkeeps, hmidValues⟩ := hrun (Nat.le_trans htu.value_le hvalues)
    (Nat.le_trans htu.temp_le htemps) m hm hm'
  obtain ⟨m₂, hrest, hsees', hkeeps', hpostValues⟩ := hrun' hvalues htemps m₁ hsees hmidValues
  exact ⟨m₂, (run_append hcode).trans hrest, hsees', hkeeps.trans hst hkeeps', hpostValues⟩

namespace Realizes

theorem pure {a : α} {post : α → List (Operand × Value)} (h : ∀ p ∈ post a, p ∈ known) :
    A.Realizes view known (pure a) view post := by
  intro s hknown
  refine ⟨a, s, [], rfl, .refl s, fun p hp ↦ hknown p (h p hp), fun _ _ m hm hvalues ↦ ?_⟩
  exact ⟨m, rfl, hm, fun _ _ _ hv ↦ hv, fun p hp ↦ hvalues p (h p hp)⟩

theorem literal (n : Int64) :
    A.Realizes view known (Pure.pure (.int n)) view fun o ↦ [(o, .int n)] := by
  intro s hknown
  refine ⟨.int n, s, [], rfl, .refl s, by simp [Operand.Below], fun _ _ m hm hvalues ↦ ?_⟩
  exact ⟨m, rfl, hm, fun _ _ _ hv ↦ hv, by simp [Memory.operand?]⟩

theorem bind {act : Emit α} {f : α → Emit β} {mid : α → List (Operand × Value)}
    {post : β → List (Operand × Value)} (hact : A.Realizes view known act view' mid)
    (hf : ∀ a, A.Realizes view' (mid a ++ known) (f a) view'' post) :
    A.Realizes view known (act >>= f) view'' post := Runs.bind hact hf

theorem mono {act : Emit α} {post : α → List (Operand × Value)} {more : List (Operand × Value)}
    (h : A.Realizes view known act view' post) (hknown : known ⊆ more) :
    A.Realizes view more act view' post := by
  intro s hmore
  obtain ⟨a, t, code, hact, hst, hpost, hrun⟩ := h s fun p hp ↦ hmore p (hknown hp)
  exact ⟨a, t, code, hact, hst, hpost, fun hvalues htemps m hm hm' ↦
    hrun hvalues htemps m hm fun p hp ↦ hm' p (hknown hp)⟩

/-- Code of another statement of the source. -/
theorem setSpan (span : Option SourceSpan) :
    A.Realizes view known (modify fun s ↦ { s with span }) view fun _ ↦ [] := by
  intro s hknown
  refine ⟨(), { s with span }, [], rfl, ?_, nofun, fun _ _ m hm _ ↦ ?_⟩
  · constructor <;> simp [Instr.dests, Instr.stores, Instr.flattenAll]
  · exact ⟨m, rfl, hm, fun _ _ _ hv ↦ hv, nofun⟩

/-- A value that an operation computes from the known operands. -/
theorem define {operation : Operation} {comment : Option String} {value : Value}
    (h : ∀ m, A.Sees view m → (∀ p ∈ known, m.operand? p.1 = some p.2) →
      operation.run A.types A.frame m = .ok value m) :
    A.Realizes view known (define operation comment) view fun o ↦ [(o, value)] := by
  intro s hknown
  obtain ⟨t, hdefine, hgrows, hcount⟩ := grows_define s operation comment
  refine ⟨_, t, _, hdefine, hgrows, ?_, ?_⟩
  · simp [Operand.Below, hcount]
  · intro hroom _ m hm hvalues
    have hlt : s.valueCount < A.valueCount := by
      rw [hcount] at hroom
      exact hroom
    obtain ⟨hsees, hkeeps, hvalue⟩ := hm.define value (Nat.le_refl s.valueCount) hlt
    refine ⟨_, run_singleton ?_, hsees, hkeeps, by simpa using hvalue⟩
    rw [Instr.run, Run.bind_eq (h m hm hvalues)]
    rfl

/-- A temporary that a known operand is stored to. -/
theorem spill {o : Operand} {value : Value} (h : (o, value) ∈ known) :
    A.Realizes view known (spill o) view fun temp ↦ [(.temp temp, value)] := by
  intro s hknown
  refine ⟨s.tempCount, _, [.storeTemp ⟨s.span, none⟩ s.tempCount o], rfl, ?_, ?_, ?_⟩
  · constructor <;>
      simp [Instr.dests, Instr.stores, Instr.flattenAll, Instr.flatten, Instr.dest?, Instr.stored?]
  · simp [Operand.Below]
  · intro _ hroom m hm hvalues
    obtain ⟨hsees, hkeeps, hvalue⟩ := hm.setTemp value (Nat.le_refl s.tempCount) hroom
    refine ⟨_, run_singleton ?_, hsees, hkeeps, by simpa using hvalue⟩
    rw [Instr.run, Run.bind_eq (Run.operand_eq (hvalues _ h))]
    rfl

/-- An instruction that computes nothing and changes what is seen. -/
theorem emit {make : Note → Instr} {comment : Option String}
    (hflat : ∀ note, (make note).flatten = [make note]) (hdest : ∀ note, (make note).dest? = none)
    (hstored : ∀ note, (make note).stored? = none)
    (h : ∀ note m, A.Sees view m → (∀ p ∈ known, m.operand? p.1 = some p.2) →
      ∃ m', (make note).run A.types A.invoke A.frame m = .ok none m' ∧ A.Sees view' m' ∧
        m'.operand? = m.operand?) :
    A.Realizes view known (Emission.emit make comment) view' fun _ ↦ [] := by
  intro s hknown
  refine ⟨(), _, [make ⟨s.span, comment⟩], rfl, ?_, nofun, ?_⟩
  · constructor <;> simp [Instr.dests, Instr.stores, Instr.flattenAll, hflat, hdest, hstored]
  · intro _ _ m hm hvalues
    obtain ⟨m', hrun, hsees, hsame⟩ := h ⟨s.span, comment⟩ m hm hvalues
    exact ⟨m', run_singleton hrun, hsees, fun o v _ hv ↦ by rw [hsame, hv], nofun⟩

/-- Storing a known operand to a known address. -/
theorem store {o o' : Operand} {a : Address} {value : Value} (h : (o, .address a) ∈ known)
    (h' : (o', value) ∈ known)
    (hwrite : ∀ m, A.Sees view m → ∃ m', m.write a value = .ok m' ∧ A.Sees view' m' ∧
      m'.operand? = m.operand?) :
    A.Realizes view known (Emission.emit (.store · o o')) view' fun _ ↦ [] := by
  refine emit (fun _ ↦ rfl) (fun _ ↦ rfl) (fun _ ↦ rfl) fun note m hm hvalues ↦ ?_
  obtain ⟨m', hwrite, hsees, hsame⟩ := hwrite m hm
  refine ⟨m', ?_, hsees, hsame⟩
  rw [Instr.run, Run.bind_eq (Run.address_eq (hvalues _ h)),
    Run.operand_bind (hvalues _ h')]
  exact Run.bind_eq (Run.write_of_ok hwrite)

/-- Binding a variable to a known address. -/
theorem bindSlot {o : Operand} {a : Address} {v : VariableId} {name : String}
    (h : (o, .address a) ∈ known) :
    A.Realizes view known (Emission.emit (.bind · v name o))
      { view with slots := assign v (.address a) view.slots } fun _ ↦ [] := by
  refine emit (fun _ ↦ rfl) (fun _ ↦ rfl) (fun _ ↦ rfl) fun note m hm hvalues ↦ ?_
  obtain ⟨hsees, hsame⟩ := hm.setSlot
  refine ⟨_, ?_, hsees, hsame⟩
  rw [Instr.run, Run.bind_eq (Run.address_eq (hvalues _ h))]
  rfl

end Realizes

namespace Returns

variable {returned : Value}

theorem bind {act : Emit α} {f : α → Emit β} {mid : α → List (Operand × Value)}
    (hact : A.Realizes view known act view' mid)
    (hf : ∀ a, A.Returns view' (mid a ++ known) (f a) view'' returned) :
    A.Returns view known (act >>= f) view'' returned := Runs.bind hact hf

/-- Returning a known operand. -/
theorem ret {o : Operand} (h : (o, returned) ∈ known) :
    A.Returns view known (Emission.emit (.ret · (some o))) view returned := by
  intro s hknown
  refine ⟨(), _, [.ret ⟨s.span, none⟩ (some o)], rfl, ?_, nofun, fun _ _ m hm hvalues ↦ ?_⟩
  · constructor <;>
      simp [Instr.dests, Instr.stores, Instr.flattenAll, Instr.flatten, Instr.dest?, Instr.stored?]
  · have hret : Instr.run A.types A.invoke A.frame (.ret ⟨s.span, none⟩ (some o)) m =
        .ok (some returned) m := Run.operand_bind (hvalues _ h)
    exact ⟨m, Run.bind_eq hret, hm, fun _ _ _ hv ↦ hv, nofun⟩

end Returns

end Activation

end InlineArrays
