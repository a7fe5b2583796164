import InlineArrays.Proofs.Code.Realized

/-!
# Code that may fail

`Evaluates` says that emitting succeeds and that what it appends runs as a result says: to its end,
where the operand emitted has a value, or up to an error.  Where a step fails, the code behind it is
still emitted; so the steps behind it have to emit code from any state.
-/

namespace InlineArrays

open Emission

variable {α β : Type}

/-- Emitting succeeds from any state and only appends code. -/
def AlwaysEmits (act : Emit α) : Prop :=
  ∀ s : Emission, ∃ a t code, act s = .ok a t ∧ s.Grows t code

namespace AlwaysEmits

variable {act : Emit α} {f : α → Emit β}

theorem of_realizes {A : Activation} {view view' : View} {post : α → List (Operand × Value)}
    (h : A.Realizes view [] act view' post) : AlwaysEmits act := by
  intro s
  obtain ⟨a, t, code, hact, hgrows, -⟩ := h s nofun
  exact ⟨a, t, code, hact, hgrows⟩

theorem bind (hact : AlwaysEmits act) (hf : ∀ a, AlwaysEmits (f a)) : AlwaysEmits (act >>= f) := by
  intro s
  obtain ⟨a, t, code, hfirst, hgrows⟩ := hact s
  obtain ⟨b, u, rest, hsecond, hgrows'⟩ := hf a t
  exact ⟨b, u, code ++ rest, Emit.bind_eq_ok.2 ⟨a, t, hfirst, hsecond⟩, hgrows.trans hgrows'⟩

theorem define {operation : Operation} {comment : Option String} :
    AlwaysEmits (define operation comment) := by
  intro s
  obtain ⟨t, hdefine, hgrows, -⟩ := grows_define s operation comment
  exact ⟨_, t, _, hdefine, hgrows⟩

end AlwaysEmits

namespace Activation

variable {A : Activation} {view view' : View} {known more : List (Operand × Value)} {m m' : Memory}

/-- Code runs up to where it fails. -/
theorem run_append_error {code rest : List Instr} {e : RuntimeError}
    (h : A.run code m = .error e m') : A.run (code ++ rest) m = .error e m' := by
  unfold run at h ⊢
  induction code generalizing m with
  | nil => cases h
  | cons i code ih =>
    change (Instr.run A.types A.invoke A.frame i >>= _) m = _ at h
    change (Instr.run A.types A.invoke A.frame i >>= _) m = _
    cases hi : Instr.run A.types A.invoke A.frame i m with
    | error e' m₁ =>
      change EStateM.bind _ _ m = _ at h
      change EStateM.bind _ _ m = _
      rw [EStateM.bind, hi] at h ⊢
      exact h
    | ok returned m₁ =>
      rw [Run.bind_eq hi] at h ⊢
      cases returned with
      | some v => cases h
      | none => exact ih h

/-- Emitting succeeds; what is emitted fails with an error. -/
def Fails (A : Activation) (view : View) (known : List (Operand × Value)) (act : Emit α)
    (e : RuntimeError) : Prop :=
  ∀ s : Emission, (∀ p ∈ known, p.1.Below s) →
    ∃ a t code, act s = .ok a t ∧ s.Grows t code ∧
      (t.valueCount ≤ A.valueCount → t.tempCount ≤ A.tempCount →
        ∀ m, A.Sees view m → (∀ p ∈ known, m.operand? p.1 = some p.2) →
          ∃ m', A.run code m = .error e m')

/-- Emitting succeeds; what is emitted has a value or fails, as the result says. -/
def Evaluates (A : Activation) (view : View) (known : List (Operand × Value)) (act : Emit Operand) :
    Except RuntimeError Value → Prop
  | .ok v => A.Realizes view known act view fun o ↦ [(o, v)]
  | .error e => A.Fails view known act e

namespace Fails

variable {act : Emit α} {f : α → Emit β} {e : RuntimeError}

theorem mono (h : A.Fails view known act e) (hknown : known ⊆ more) : A.Fails view more act e := by
  intro s hmore
  obtain ⟨a, t, code, hact, hgrows, hrun⟩ := h s fun p hp ↦ hmore p (hknown hp)
  exact ⟨a, t, code, hact, hgrows, fun hvalues htemps m hm hm' ↦
    hrun hvalues htemps m hm fun p hp ↦ hm' p (hknown hp)⟩

/-- What stands behind a failing step is emitted and never run. -/
theorem bind (hact : A.Fails view known act e) (hf : ∀ a, AlwaysEmits (f a)) :
    A.Fails view known (act >>= f) e := by
  intro s hknown
  obtain ⟨a, t, code, hfirst, hgrows, hrun⟩ := hact s hknown
  obtain ⟨b, u, rest, hsecond, hgrows'⟩ := hf a t
  refine ⟨b, u, code ++ rest, Emit.bind_eq_ok.2 ⟨a, t, hfirst, hsecond⟩, hgrows.trans hgrows', ?_⟩
  intro hvalues htemps m hm hm'
  obtain ⟨m', hfails⟩ := hrun (Nat.le_trans hgrows'.value_le hvalues)
    (Nat.le_trans hgrows'.temp_le htemps) m hm hm'
  exact ⟨m', run_append_error hfails⟩

/-- A step that fails behind one that does not. -/
theorem of_bind {mid : α → List (Operand × Value)} (hact : A.Realizes view known act view' mid)
    (hf : ∀ a, A.Fails view' (mid a ++ known) (f a) e) : A.Fails view known (act >>= f) e := by
  intro s hknown
  obtain ⟨a, t, code, hfirst, hgrows, hmid, hrun⟩ := hact.keeping s hknown
  obtain ⟨b, u, rest, hsecond, hgrows', hrun'⟩ := hf a t hmid
  refine ⟨b, u, code ++ rest, Emit.bind_eq_ok.2 ⟨a, t, hfirst, hsecond⟩, hgrows.trans hgrows', ?_⟩
  intro hvalues htemps m hm hm'
  obtain ⟨m₁, hcode, hsees, -, hmidValues⟩ := hrun (Nat.le_trans hgrows'.value_le hvalues)
    (Nat.le_trans hgrows'.temp_le htemps) m hm hm'
  obtain ⟨m₂, hrest⟩ := hrun' hvalues htemps m₁ hsees hmidValues
  exact ⟨m₂, (run_append hcode).trans hrest⟩

theorem define {operation : Operation} {comment : Option String}
    (h : ∀ m, A.Sees view m → (∀ p ∈ known, m.operand? p.1 = some p.2) →
      operation.run A.types A.frame m = .error e m) :
    A.Fails view known (define operation comment) e := by
  intro s _
  obtain ⟨t, hdefine, hgrows, -⟩ := grows_define s operation comment
  refine ⟨_, t, _, hdefine, hgrows, fun _ _ m hm hvalues ↦ ⟨m, ?_⟩⟩
  have hrun : Instr.run A.types A.invoke A.frame
      (.define ⟨s.span, comment⟩ s.valueCount operation) m = .error e m := by
    rw [Instr.run]
    change EStateM.bind _ _ m = _
    rw [EStateM.bind, h m hm hvalues]
  change EStateM.bind _ _ m = _
  rw [EStateM.bind, hrun]

end Fails

namespace Evaluates

variable {act : Emit Operand} {f : Operand → Emit Operand} {result : Except RuntimeError Value}

theorem mono (h : A.Evaluates view known act result) (hknown : known ⊆ more) :
    A.Evaluates view more act result := by
  cases result with
  | ok v => exact Realizes.mono h hknown
  | error e => exact Fails.mono h hknown

/-- An operation computes from the known operands what its result says. -/
theorem define {operation : Operation} {comment : Option String}
    (h : ∀ m, (∀ p ∈ known, m.operand? p.1 = some p.2) →
      operation.run A.types A.frame m = Run.of result m) :
    A.Evaluates view known (define operation comment) result := by
  cases result with
  | ok v => exact Realizes.define fun m _ hvalues ↦ h m hvalues
  | error e => exact Fails.define fun m _ hvalues ↦ h m hvalues

/-- A step that does not fail. -/
theorem of_bind {act : Emit α} {f : α → Emit Operand} {mid : α → List (Operand × Value)}
    (hact : A.Realizes view known act view mid)
    (hf : ∀ a, A.Evaluates view (mid a ++ known) (f a) result) :
    A.Evaluates view known (act >>= f) result := by
  cases result with
  | ok v => exact Realizes.bind hact hf
  | error e => exact Fails.of_bind hact hf

/-- A step that may fail. -/
theorem bind {result : Except RuntimeError β} {wrap : β → Value}
    {next : β → Except RuntimeError Value} (hact : A.Evaluates view known act (result.map wrap))
    (hf : ∀ o b, A.Evaluates view ((o, wrap b) :: known) (f o) (next b))
    (halways : ∀ o, AlwaysEmits (f o)) :
    A.Evaluates view known (act >>= f) (result >>= next) := by
  cases result with
  | ok b => exact of_bind hact fun o ↦ hf o b
  | error e => exact Fails.bind hact halways

theorem alwaysEmits (h : A.Evaluates view [] act result) : AlwaysEmits act := by
  cases result with
  | ok v => exact .of_realizes h
  | error e =>
    intro s
    obtain ⟨a, t, code, hact, hgrows, -⟩ := h s nofun
    exact ⟨a, t, code, hact, hgrows⟩

end Evaluates

end Activation

end InlineArrays
