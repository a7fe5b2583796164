import InlineArrays.Proofs.Code.Evaluated
import InlineArrays.Proofs.Code.WellFormed
import InlineArrays.Proofs.Evaluation.Locations
import InlineArrays.Proofs.Machine.Links

/-!
# Code that computes a result

`Computes` says of what is emitted that, run where some operands are known, it ends with operands that
read as a result or fails with the error of the result.  The memory that a result is told of is that
from before anything was computed: code only defines values and stores to temporaries of its own, which
nothing stored before leads to.
-/

namespace InlineArrays

open Emission

/-- A root that the activation `frame` does not make from the temporary `count` on. -/
def Root.Before (frame : Nat) (count : TempId) : Root → Prop
  | .temp f t => f = frame → t < count
  | .slot .. | .heap _ => True

/-- What is stored at such roots leads to such roots only. -/
def Memory.Closed (m : Memory) (P : Root → Prop) : Prop :=
  ∀ r v, P r → m.root? r = some v → v.Within P

namespace Memory.Closed

variable {P : Root → Prop} {m : Memory} {v : Value} {address : Address}

theorem read (hm : m.Closed P) (ha : P address.root) (h : m.read address = .ok v) :
    v.Within P := by
  rw [Memory.read] at h
  cases hroot : m.root? address.root with
  | none =>
    rw [hroot] at h
    cases h
  | some whole =>
    rw [hroot] at h
    exact (hm _ _ ha hroot).get h

end Memory.Closed

namespace Location

variable {P : Root → Prop} {m : Memory} {l : Location} {v : Value}

def Within (P : Root → Prop) : Location → Prop
  | .referred v | .copied v _ => v.Within P

theorem Within.read (hm : m.Closed P) (h : l.Within P) (hread : l.read m = .ok v) :
    v.Within P := by
  cases l with
  | referred w =>
    obtain ⟨address, haddress, hread⟩ := Except.bind_eq_ok.1 hread
    rw [Value.toAddress_eq_ok haddress] at h
    exact hm.read (Value.within_address.1 h) hread
  | copied whole path => exact Value.Within.get h hread

end Location

/-! ## Operations on known operands -/

namespace Run

variable {α β : Type} {m : Memory} {o : Operand} {v : Value}

/-- Steps that leave memory alone. -/
theorem bind_of {act : Run α} {f : α → Run β} {x : Except RuntimeError α}
    {g : α → Except RuntimeError β} (hact : act m = of x m) (hf : ∀ a, f a m = of (g a) m) :
    (act >>= f) m = of (x >>= g) m := by
  change EStateM.bind act f m = _
  rw [EStateM.bind, hact]
  cases x with
  | error e => rfl
  | ok a => exact hf a

variable (h : m.operand? o = some v)
include h

theorem int_of : int o m = of v.toInt m := by
  rw [int, operand_bind h]
  cases v <;> rfl

theorem address_of : address o m = of v.toAddress m := by
  rw [address, operand_bind h]
  cases v <;> rfl

theorem span_of : span o m = of v.toSpan m := by
  rw [span, operand_bind h]
  cases v <;> rfl

theorem offset_of : Run.offset o m = of v.toOffset m := by
  rw [Run.offset, operand_bind h]
  cases v <;> rfl

theorem range_of : range o m = of v.toRange m := by
  rw [range, operand_bind h]
  cases v <;> rfl

end Run

theorem Run.read_of (m : Memory) (a : Address) : Run.read a m = Run.of (m.read a) m := by
  cases h : m.read a with
  | ok value => exact Run.read_of_ok h
  | error e => exact Run.read_of_error h

namespace Operation

variable {types : TypeTable} {frame : Nat} {m : Memory} {o o' o'' : Operand} {v v' v'' : Value}

theorem run_load_of (h : m.operand? o = some v) :
    (load o).run types frame m = Run.of (v.toAddress >>= m.read) m :=
  Run.bind_of (Run.address_of h) fun a ↦ Run.read_of m a

theorem run_fieldAddress_of {name : String} (h : m.operand? o = some v) :
    (fieldAddress o name).run types frame m = Run.of (Value.address <$> v.fieldAddress name) m := by
  refine (Run.operand_bind h).trans ?_
  cases v <;> rfl

theorem run_project_of {kind : SpanKind} {array element : String} {size : Nat}
    (h : m.operand? o = some v) :
    (project kind o array element size).run types frame m =
      Run.of (v.toAddress >>= fun base ↦ .ok (.span ⟨some base, 0, size, kind.isReadonly⟩)) m :=
  Run.bind_of (Run.address_of h) fun _ ↦ rfl

theorem run_length_of (h : m.operand? o = some v) :
    (length o).run types frame m = Run.of v.spanLength m :=
  Run.bind_of (Run.span_of h) fun _ ↦ rfl

theorem run_sub_of (h : m.operand? o = some v) (h' : m.operand? o' = some v') :
    (binary .sub o o').run types frame m = Run.of (v.minus v') m :=
  Run.bind_of (Run.int_of h) fun _ ↦ Run.bind_of (Run.int_of h') fun _ ↦ rfl

theorem run_getOffset_of (h : m.operand? o = some v) (h' : m.operand? o' = some v') :
    (getOffset o o').run types frame m = Run.of (v.positionIn v') m :=
  Run.bind_of (Run.offset_of h) fun _ ↦ Run.bind_of (Run.int_of h') fun _ ↦ rfl

theorem run_convert_of (h : m.operand? o = some v) :
    (convert o).run types frame m = Run.of v.converted m :=
  Run.bind_of (Run.int_of h) fun _ ↦ rfl

theorem run_rangeStart_of (h : m.operand? o = some v) :
    (rangeStart o).run types frame m = Run.of v.rangeStart m :=
  Run.bind_of (Run.range_of h) fun _ ↦ rfl

theorem run_rangeEnd_of (h : m.operand? o = some v) :
    (rangeEnd o).run types frame m = Run.of v.rangeEnd m :=
  Run.bind_of (Run.range_of h) fun _ ↦ rfl

theorem run_makeIndex_of {fromEnd : Bool} (h : m.operand? o = some v) :
    (makeIndex o fromEnd).run types frame m = Run.of (v.toIndex fromEnd) m := by
  refine Run.bind_of (Run.int_of h) fun n ↦ ?_
  split <;> rfl

theorem run_makeRange_of (h : m.operand? o = some v) (h' : m.operand? o' = some v') :
    (makeRange o o').run types frame m = Run.of (v.rangeTo v') m :=
  Run.bind_of (Run.offset_of h) fun _ ↦ Run.bind_of (Run.offset_of h') fun _ ↦ rfl

theorem run_index_of (h : m.operand? o = some v) (h' : m.operand? o' = some v') :
    (index o o').run types frame m = Run.of (Value.address <$> v.spanElement v') m := by
  rw [Value.spanElement, map_bind]
  refine Run.bind_of (Run.span_of h) fun view ↦ ?_
  rw [map_bind]
  refine Run.bind_of (Run.int_of h') fun n ↦ ?_
  cases view.index n <;> rfl

theorem run_slice_of (h : m.operand? o = some v) (h' : m.operand? o' = some v')
    (h'' : m.operand? o'' = some v'') :
    (slice o o' o'').run types frame m = Run.of (v.spanPart v' v'') m := by
  refine Run.bind_of (Run.span_of h) fun view ↦ Run.bind_of (Run.int_of h') fun n ↦
    Run.bind_of (Run.int_of h'') fun n' ↦ ?_
  cases view.slice n n' <;> rfl

end Operation

/-! ## Results of code -/

/-- What known operands say about a result of emitted code; some result is always said. -/
structure Reading (α β : Type) where
  Says : List (Operand × Value) → α → β → Prop
  exists_says (a : α) : ∃ known x, Says known a x
  mono {known more : List (Operand × Value)} {a : α} {x : β} :
    Says known a x → known ⊆ more → Says more a x

namespace Reading

variable (frame : Nat) (count : TempId)

/-- An operand that has a value. -/
def value : Reading Operand Value where
  Says known o v := (o, v) ∈ known ∧ v.Within (Root.Before frame count)
  exists_says o := ⟨[(o, .unit)], .unit, List.mem_cons_self, Value.within_unit⟩
  mono h hknown := ⟨hknown h.1, h.2⟩

/-- The operand refers to the location; the address of a copy leads to the temporary it is in. -/
def RefersTo (known : List (Operand × Value)) (o : Operand) : Location → Prop
  | .referred v => (o, v) ∈ known
  | .copied v path =>
    ∃ temp, (o, .address ⟨.temp frame temp, path⟩) ∈ known ∧ (.temp temp, v) ∈ known

def location : Reading Operand Location where
  Says known o l := RefersTo frame known o l ∧ l.Within (Root.Before frame count)
  exists_says o := ⟨[(o, .unit)], .referred .unit, List.mem_cons_self, Value.within_unit⟩
  mono {_ _ _ l} h hknown := by
    refine ⟨?_, h.2⟩
    cases l with
    | referred v => exact hknown h.1
    | copied v path =>
      obtain ⟨temp, ho, htemp⟩ := h.1
      exact ⟨temp, hknown ho, hknown htemp⟩

/-- What an expression is lowered to. -/
def result : Demand → Reading Operand Location
  | .address => location frame count
  | .value =>
    { Says := fun known o l ↦ ∃ v, l = .whole v ∧ (value frame count).Says known o v
      exists_says := fun o ↦
        ⟨[(o, .unit)], .whole .unit, .unit, rfl, List.mem_cons_self, Value.within_unit⟩
      mono := fun ⟨v, hv, h⟩ hknown ↦ ⟨v, hv, (value frame count).mono h hknown⟩ }

end Reading

/-- The operand has been computed, with this value. -/
def Memory.Has (m : Memory) (s : Emission) (o : Operand) (v : Value) : Prop :=
  o.Below s ∧ m.operand? o = some v

theorem Memory.Has.keeps {m m' : Memory} {s t : Emission} {code : List Instr} {o : Operand}
    {v : Value} (h : m.Has s o v) (hst : s.Grows t code) (hkeeps : m.Keeps s m') : m'.Has t o v :=
  ⟨h.1.grows hst, hkeeps o v h.1 h.2⟩

/-- What was computed before a guard is computed inside. -/
theorem Operand.Below.deeper {s : Emission} {o : Operand} (h : o.Below s)
    (receiver : ExprId) (tested : Operand) : o.Below { s with
      code := [], valueCount := s.valueCount + 1
      receivers := (receiver, tested) :: s.receivers.filter (·.1 != receiver) } := by
  cases o with
  | int | bool => trivial
  | computed id => exact Nat.lt_succ_of_lt h
  | temp id => exact h

namespace Activation

/-- The activation runs, and what was stored before is as it was. -/
structure Extends (A : Activation) (old : Memory) (count : TempId) (m : Memory) : Prop where
  sees : ∃ view, A.Sees view m
  root? : ∀ r : Root, r.Before A.frame count → m.root? r = old.root? r

/-- Where code is run that is emitted from `s` on. -/
structure Ready (A : Activation) (σ : Situation) (count : TempId) (s : Emission) (m : Memory) :
    Prop extends A.Extends σ.memory count m where
  count_le : count ≤ s.tempCount
  receivers : ∀ bound ∈ s.receivers, ∃ v, σ.receiver? bound.1 = some v ∧ m.Has s bound.2 v ∧
    v.Within (Root.Before A.frame count)

variable {A : Activation} {σ : Situation} {count : TempId} {s t : Emission} {m m' : Memory}

theorem Ready.after {code : List Instr} (h : A.Ready σ count s m) (hst : s.Grows t code)
    (hkeeps : m.Keeps s m') (hm' : A.Extends σ.memory count m') : A.Ready σ count t m' where
  toExtends := hm'
  count_le := Nat.le_trans h.count_le hst.temp_le
  receivers bound hbound := by
    obtain ⟨v, hv, hhas, hwithin⟩ := h.receivers bound (hst.receivers_subset hbound)
    exact ⟨v, hv, hhas.keeps hst hkeeps, hwithin⟩

/-- What an activation changes of itself, but for variables and the temporary that a root is. -/
theorem root?_updateTop {view : View} (h : A.Sees view m) {r : Root} (change : Frame → Frame)
    (hid : ∀ f, (change f).id = f.id) (hslots : ∀ f, (change f).slots = f.slots)
    (htemps : ∀ f t, f.temps.length = A.tempCount → r = .temp A.frame t →
      (change f).temps[t]? = f.temps[t]?) :
    (m.updateTop change).root? r = m.root? r := by
  obtain ⟨f, rest, hframes, hframe, -, -, hlength, -⟩ := h
  have htop : (m.updateTop change).frames = change f :: rest := by
    simp [Memory.updateTop, hframes]
  have hheap : (m.updateTop change).heap = m.heap := by simp [Memory.updateTop, hframes]
  have hfind (id : Nat) : (m.updateTop change).frame? id =
      if A.frame = id then some (change f) else m.frame? id := by
    simp only [Memory.frame?, htop, hframes, List.find?_cons, hid, hframe]
    by_cases hsame : A.frame = id
    · simp [hsame]
    · have hne : (A.frame == id) = false := by simpa using hsame
      rw [hne, if_neg hsame]
  have hfound : m.frame? A.frame = some f := by simp [Memory.frame?, hframes, hframe]
  cases r with
  | heap cell => rw [Memory.root?, Memory.root?, hheap]
  | slot frame v =>
    rw [Memory.root?, Memory.root?, hfind]
    by_cases hsame : A.frame = frame
    · rw [if_pos hsame, ← hsame, hfound, Option.bind_some, Option.bind_some, Frame.slot?,
        Frame.slot?, hslots]
    · rw [if_neg hsame]
  | temp frame t =>
    rw [Memory.root?, Memory.root?, hfind]
    by_cases hsame : A.frame = frame
    · rw [if_pos hsame, ← hsame, hfound, Option.bind_some, Option.bind_some,
        htemps f t hlength (by rw [hsame])]
    · rw [if_neg hsame]

/-- Values are not stored anywhere. -/
theorem Extends.define {old : Memory} {dest : ValueId} (h : A.Extends old count m) (value : Value)
    (hdest : s.valueCount ≤ dest) (hroom : dest < A.valueCount) :
    A.Extends old count (m.updateTop (·.define dest value)) := by
  obtain ⟨view, hview⟩ := h.sees
  exact ⟨⟨view, (hview.define (s := s) value hdest hroom).1⟩, fun r hr ↦
    (root?_updateTop hview (·.define dest value) (fun _ ↦ rfl) (fun _ ↦ rfl)
      fun _ _ _ _ ↦ rfl).trans (h.root? r hr)⟩

/-- A temporary of the code's own is none that was there before. -/
theorem Extends.setTemp {old : Memory} {temp : TempId} (h : A.Extends old count m) (value : Value)
    (htemp : count ≤ temp) (hroom : temp < A.tempCount) :
    A.Extends old count (m.updateTop (·.setTemp temp value)) := by
  obtain ⟨view, hview⟩ := h.sees
  obtain ⟨hsees, -⟩ := hview.setTemp (s := { tempCount := temp }) value (Nat.le_refl temp) hroom
  refine ⟨⟨view, hsees⟩, fun r hr ↦ (root?_updateTop hview (·.setTemp temp value) (fun _ ↦ rfl)
    (fun _ ↦ rfl) ?_).trans (h.root? r hr)⟩
  rintro f t hlength rfl
  have hne : temp ≠ t := fun hsame ↦ Nat.not_lt.2 htemp (hsame ▸ hr rfl)
  rw [Frame.temps_setTemp value (hlength ▸ hroom), List.getElem?_set_ne hne]

/-- In a guard, the tested value stands for the receiver. -/
theorem Ready.within {receiver : ExprId} {o : Operand} {v : Value} (h : A.Ready σ count s m)
    (hv : v.Within (Root.Before A.frame count)) (ho : m.Has s o v) :
    A.Ready (σ.within receiver v) count { s with
      code := [], valueCount := s.valueCount + 1
      receivers := (receiver, o) :: s.receivers.filter (·.1 != receiver) } m where
  toExtends := h.toExtends
  count_le := h.count_le
  receivers := by
    refine List.forall_mem_cons.2 ⟨⟨v, if_pos rfl, ⟨ho.1.deeper receiver o, ho.2⟩, hv⟩,
      fun bound hbound ↦ ?_⟩
    obtain ⟨hbound, hne⟩ := List.mem_filter.1 hbound
    obtain ⟨w, hw, hhas, hwithin⟩ := h.receivers bound hbound
    exact ⟨w, (if_neg (by simpa using hne)).trans hw, ⟨hhas.1.deeper receiver o, hhas.2⟩, hwithin⟩

theorem run_singleton_error {i : Instr} {e : RuntimeError}
    (h : i.run A.types A.invoke A.frame m = .error e m') : A.run [i] m = .error e m' :=
  Run.bind_error h

section Guards

variable {note : Note} {dest : ValueId} {tested result : Operand} {body : List Instr} {v w : Value}

/-- A guard of null does not look at its body. -/
theorem run_guard_null (h : m.operand? tested = some v) (hv : v.isNull) :
    Instr.run A.types A.invoke A.frame (.guard note dest tested body result) m =
      .ok none (m.updateTop (·.define dest .null)) := by
  rw [Instr.run, Run.operand_bind h, if_pos hv]
  rfl

theorem run_guard_error {e : RuntimeError} (h : m.operand? tested = some v)
    (hv : v.isNull = false) (hbody : A.run body m = .error e m') :
    Instr.run A.types A.invoke A.frame (.guard note dest tested body result) m = .error e m' := by
  rw [Instr.run, Run.operand_bind h, if_neg (by simp [hv])]
  exact Run.bind_error hbody

theorem run_guard (h : m.operand? tested = some v) (hv : v.isNull = false)
    (hbody : A.run body m = .ok none m') (hresult : m'.operand? result = some w) :
    Instr.run A.types A.invoke A.frame (.guard note dest tested body result) m =
      .ok none (m'.updateTop (·.define dest w)) := by
  rw [Instr.run, Run.operand_bind h, if_neg (by simp [hv])]
  exact (Run.bind_eq hbody).trans (Run.operand_bind hresult)

end Guards

/-- Where emitting succeeds, what is emitted ends with operands that read as the result, or fails with
its error. -/
def Computes {α β : Type} (A : Activation) (σ : Situation) (count : TempId)
    (known : List (Operand × Value)) (act : Emit α) (result : Except RuntimeError β)
    (R : Reading α β) : Prop :=
  ∀ ⦃s : Emission⦄ ⦃a : α⦄ ⦃t : Emission⦄, act s = .ok a t → ∃ code, s.Grows t code ∧
    (t.valueCount ≤ A.valueCount → t.tempCount ≤ A.tempCount →
      ∀ m, A.Ready σ count s m → (∀ p ∈ known, m.Has s p.1 p.2) →
        match result with
        | .ok x => ∃ m' found, A.run code m = .ok none m' ∧ A.Extends σ.memory count m' ∧
          m.Keeps s m' ∧ R.Says found a x ∧ ∀ p ∈ found, m'.Has t p.1 p.2
        | .error e => ∃ m', A.run code m = .error e m')

namespace Computes

variable {α β γ δ : Type} {known more : List (Operand × Value)} {act : Emit α}
  {result : Except RuntimeError β} {R : Reading α β}

theorem mono (h : A.Computes σ count known act result R) (hknown : known ⊆ more) :
    A.Computes σ count more act result R := by
  intro s a t hact
  obtain ⟨code, hgrows, hrun⟩ := h hact
  exact ⟨code, hgrows, fun hvalues htemps m hm hmore ↦
    hrun hvalues htemps m hm fun p hp ↦ hmore p (hknown hp)⟩

/-- The same results, read in another way. -/
theorem map {R' : Reading α δ} {f : β → δ} (h : A.Computes σ count known act result R)
    (hR : ∀ found a x, result = .ok x → R.Says found a x → R'.Says found a (f x)) :
    A.Computes σ count known act (f <$> result) R' := by
  intro s a t hact
  obtain ⟨code, hgrows, hrun⟩ := h hact
  refine ⟨code, hgrows, fun hvalues htemps m hm hknown ↦ ?_⟩
  have hend := hrun hvalues htemps m hm hknown
  cases result with
  | error e => exact hend
  | ok x =>
    obtain ⟨m', found, hcode, hm', hkeeps, htold, hfound⟩ := hend
    exact ⟨m', found, hcode, hm', hkeeps, hR _ _ _ rfl htold, hfound⟩

theorem throw {e : LoweringError} : A.Computes σ count known (throw e : Emit α) result R := by
  intro s a t hact
  cases hact

/-- Nothing is emitted for operands that are known, or literals. -/
theorem pure {a : α} {x : β} {found : List (Operand × Value)} (htold : R.Says found a x)
    (hfound : ∀ p ∈ found, p ∈ known ∨ ∀ s m, Memory.Has m s p.1 p.2) :
    A.Computes σ count known (pure a) (.ok x) R := by
  intro s b t hact
  obtain ⟨rfl, rfl⟩ := Emit.pure_eq_ok.1 hact
  refine ⟨[], .refl s, fun _ _ m hm hknown ↦
    ⟨m, found, rfl, hm.toExtends, fun _ _ _ hv ↦ hv, htold, fun p hp ↦ ?_⟩⟩
  exact (hfound p hp).elim (hknown p) fun h ↦ h s m

/-- What is known before a step is still known after it; where it fails, what follows is emitted and
never run. -/
theorem bindEmitted {f : α → Emit γ} {next : β → Except RuntimeError δ} {R' : Reading γ δ}
    (hact : A.Computes σ count known act result R)
    (hf : ∀ s a t, act s = .ok a t → ∀ x more, known ⊆ more → R.Says more a x →
      A.Computes σ count more (f a) (next x) R') :
    A.Computes σ count known (act >>= f) (result >>= next) R' := by
  intro s c u hrun
  obtain ⟨a, t, hfirst, hsecond⟩ := Emit.bind_eq_ok.1 hrun
  obtain ⟨code, hst, hcode⟩ := hact hfirst
  obtain ⟨some, x, hsome⟩ := R.exists_says a
  have hf {x : β} {found : List (Operand × Value)} (h : R.Says found a x) :=
    hf s a t hfirst x (found ++ known) (List.subset_append_right _ _)
      (R.mono h (List.subset_append_left _ _))
  obtain ⟨rest, htu, -⟩ := hf hsome hsecond
  refine ⟨code ++ rest, hst.trans htu, fun hvalues htemps m hm hknown ↦ ?_⟩
  have hend := hcode (Nat.le_trans htu.value_le hvalues) (Nat.le_trans htu.temp_le htemps) m hm
    hknown
  cases result with
  | error e =>
    obtain ⟨m', hfails⟩ := hend
    exact ⟨m', run_append_error hfails⟩
  | ok x =>
    obtain ⟨m₁, found, hrun₁, hm₁, hkeeps, htold, hfound⟩ := hend
    obtain ⟨rest', htu', hrest⟩ := hf htold hsecond
    -- Whatever is found out by running, the same code is emitted.
    obtain rfl := htu'.unique htu
    have hend' := hrest hvalues htemps m₁ (hm.after hst hkeeps hm₁) fun p hp ↦
      (List.mem_append.1 hp).elim (hfound p) fun hp ↦ (hknown p hp).keeps hst hkeeps
    change match next x with | .ok y => _ | .error e => _
    cases hnext : next x with
    | error e =>
      rw [hnext] at hend'
      obtain ⟨m₂, hfails⟩ := hend'
      exact ⟨m₂, (run_append hrun₁).trans hfails⟩
    | ok y =>
      rw [hnext] at hend'
      obtain ⟨m₂, found', hrun₂, hm₂, hkeeps', htold', hfound'⟩ := hend'
      exact ⟨m₂, found', (run_append hrun₁).trans hrun₂, hm₂, hkeeps.trans hst hkeeps', htold',
        hfound'⟩

theorem bind {f : α → Emit γ} {next : β → Except RuntimeError δ} {R' : Reading γ δ}
    (hact : A.Computes σ count known act result R)
    (hf : ∀ a x more, known ⊆ more → R.Says more a x →
      A.Computes σ count more (f a) (next x) R') :
    A.Computes σ count known (act >>= f) (result >>= next) R' :=
  hact.bindEmitted fun _ a _ _ ↦ hf a

/-- What is made of a result, in operands and in what they read as. -/
theorem mapped {f : α → γ} {g : β → δ} {R' : Reading γ δ}
    (hact : A.Computes σ count known act result R)
    (hR : ∀ found a x, R.Says found a x → R'.Says found (f a) (g x)) :
    A.Computes σ count known (f <$> act) (g <$> result) R' := by
  rw [map_eq_pure_bind, map_eq_pure_bind]
  exact hact.bind fun a x more _ ha ↦ pure (hR more a x ha) fun p hp ↦ .inl hp

/-- A value that an operation computes from known operands. -/
theorem define {operation : Operation} {comment : Option String} {R : Reading Operand β}
    (content : β → Value)
    (hrun : ∀ s m, A.Ready σ count s m → (∀ p ∈ known, m.Has s p.1 p.2) →
      operation.run A.types A.frame m = Run.of (content <$> result) m)
    (htold : ∀ o x, result = .ok x → R.Says ((o, content x) :: known) o x) :
    A.Computes σ count known (Emission.define operation comment) result R := by
  intro s o t hact
  obtain ⟨u, hdefine, hgrows, hcount⟩ := grows_define s operation comment
  obtain ⟨rfl, rfl⟩ : .computed s.valueCount = o ∧ u = t := by
    rw [hdefine] at hact
    cases hact
    exact ⟨rfl, rfl⟩
  refine ⟨_, hgrows, fun hroom _ m hm hknown ↦ ?_⟩
  have hoperation := hrun s m hm hknown
  cases result with
  | error e =>
    refine ⟨m, run_singleton_error ?_⟩
    rw [Instr.run, Run.bind_error hoperation]
  | ok x =>
    have hlt : s.valueCount < A.valueCount := by omega
    obtain ⟨view, hview⟩ := hm.sees
    obtain ⟨-, hkeeps, hvalue⟩ := hview.define (s := s) (content x) (Nat.le_refl _) hlt
    refine ⟨_, _, run_singleton ?_, hm.toExtends.define (content x) (Nat.le_refl s.valueCount) hlt,
      hkeeps, htold _ x rfl, ?_⟩
    · rw [Instr.run, Run.bind_eq hoperation]
      rfl
    · refine List.forall_mem_cons.2 ⟨⟨?_, hvalue⟩, fun p hp ↦ (hknown p hp).keeps hgrows hkeeps⟩
      change s.valueCount < u.valueCount
      omega

theorem defineValue {operation : Operation} {comment : Option String}
    {result : Except RuntimeError Value} {R : Reading Operand Value}
    (hrun : ∀ s m, A.Ready σ count s m → (∀ p ∈ known, m.Has s p.1 p.2) →
      operation.run A.types A.frame m = Run.of result m)
    (htold : ∀ o v, result = .ok v → R.Says ((o, v) :: known) o v) :
    A.Computes σ count known (Emission.define operation comment) result R :=
  define id (fun s m hm hknown ↦ by rw [hrun s m hm hknown, id_map]) htold

/-- A fresh temporary that a known operand is stored to. -/
theorem spill {o : Operand} {v : Value} {x : β} {R : Reading TempId β} (ho : (o, v) ∈ known)
    (htold : ∀ temp, R.Says ((.temp temp, v) :: known) temp x) :
    A.Computes σ count known (spill o) (.ok x) R := by
  intro s temp t hact
  cases hact
  have hgrows : s.Grows { s with
      code := s.code ++ [.storeTemp ⟨s.span, none⟩ s.tempCount o], tempCount := s.tempCount + 1 }
      [.storeTemp ⟨s.span, none⟩ s.tempCount o] := by
    constructor <;>
      simp [Instr.dests, Instr.stores, Instr.flattenAll, Instr.flatten, Instr.dest?, Instr.stored?]
  refine ⟨_, hgrows, fun _ hroom m hm hknown ↦ ?_⟩
  obtain ⟨view, hview⟩ := hm.sees
  obtain ⟨-, hkeeps, hvalue⟩ := hview.setTemp (s := s) v (Nat.le_refl _) hroom
  refine ⟨_, _, run_singleton ?_, hm.toExtends.setTemp v hm.count_le hroom, hkeeps, htold _,
    List.forall_mem_cons.2 ⟨⟨Nat.lt_succ_self _, hvalue⟩, fun p hp ↦ (hknown p hp).keeps hgrows hkeeps⟩⟩
  rw [Instr.run, Run.bind_eq (Run.operand_eq (hknown _ ho).2)]
  rfl

/-- A guarded access: the receiver is tested, and the access is run with its value. -/
theorem conditionalCode {receiver : ExprId} {tested access : Emit Operand}
    {x : Except RuntimeError Value} {y : Value → Except RuntimeError Value}
    (htested : A.Computes σ count known tested x (.value A.frame count))
    (haccess : ∀ v, A.Computes (σ.within receiver v) count [] access (y v)
      (.value A.frame count)) :
    A.Computes σ count known (Context.conditionalCode receiver tested access)
      (x >>= fun v ↦ if v.isNull then .ok .null else y v) (.value A.frame count) := by
  refine htested.bind fun o v more hmore hov ↦ ?_
  intro s result w hrun
  obtain ⟨dest, s', hfresh, hrun⟩ := Emit.bind_eq_ok.1 hrun
  obtain ⟨⟨body, last⟩, t, hguarded, hrun⟩ := Emit.bind_eq_ok.1 hrun
  obtain ⟨u, hbody, rfl, rfl⟩ := guarded_eq_ok.1 hguarded
  cases hfresh
  cases hrun
  obtain ⟨inner, hinner, hrunInner⟩ := haccess v hbody
  obtain ⟨hu, hguard⟩ := grows_guard hinner ⟨u.span, none⟩ last
  refine ⟨_, hguard, fun hvalues htemps m hm hknown ↦ ?_⟩
  have ho := hknown (o, v) hov.1
  have hlt : s.valueCount < A.valueCount := Nat.lt_of_lt_of_le hinner.value_le hvalues
  -- Defining the value of the guard ends it.
  have hdefine {m' : Memory} {w : Value} (hm' : A.Extends σ.memory count m')
      (hkeeps : m.Keeps s m') :
      A.Extends σ.memory count (m'.updateTop (·.define s.valueCount w)) ∧
        m.Keeps s (m'.updateTop (·.define s.valueCount w)) ∧
        (m'.updateTop (·.define s.valueCount w)).operand? (.computed s.valueCount) = some w := by
    obtain ⟨view, hview⟩ := hm'.sees
    obtain ⟨-, hkeeps', hvalue⟩ := hview.define (s := s) w (Nat.le_refl _) hlt
    exact ⟨hm'.define w (Nat.le_refl s.valueCount) hlt, hkeeps.trans (.refl s) hkeeps', hvalue⟩
  by_cases hnull : v.isNull
  · obtain ⟨hm', hkeeps, hvalue⟩ := hdefine (w := .null) hm.toExtends fun _ _ _ hv ↦ hv
    rw [if_pos hnull]
    exact ⟨_, _, run_singleton (run_guard_null ho.2 hnull), hm', hkeeps,
      ⟨List.mem_cons_self, Value.within_null⟩,
      List.forall_mem_singleton.2 ⟨hinner.value_le, hvalue⟩⟩
  · have hnotNull : v.isNull = false := by simpa using hnull
    have hend := hrunInner hvalues htemps m (hm.within hov.2 ho) nofun
    rw [if_neg hnull]
    cases hy : y v with
    | error e =>
      rw [hy] at hend
      obtain ⟨m', hfails⟩ := hend
      exact ⟨m', run_singleton_error (run_guard_error ho.2 hnotNull (hu ▸ hfails))⟩
    | ok w =>
      rw [hy] at hend
      obtain ⟨m₁, found', hrun₁, hm₁, hkeeps, hlast, hhas⟩ := hend
      have hkeepsOuter : m.Keeps s m₁ := fun o' v' ho' hv' ↦ hkeeps o' v' (ho'.deeper receiver o) hv'
      obtain ⟨hm', hkeeps', hvalue⟩ := hdefine (w := w) hm₁ hkeepsOuter
      exact ⟨_, _, run_singleton (run_guard ho.2 hnotNull (hu ▸ hrun₁) (hhas _ hlast.1).2), hm',
        hkeeps', ⟨List.mem_cons_self, hlast.2⟩,
        List.forall_mem_singleton.2 ⟨hinner.value_le, hvalue⟩⟩

end Computes

end Activation

end InlineArrays
