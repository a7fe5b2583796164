import InlineArrays.Proofs.Code.Misplaced
import InlineArrays.Proofs.Evaluation.Lowered
import InlineArrays.Proofs.Evaluation.Replaced

/-!
# Methods that return accesses

Where a method ends by returning an expression, its code ends with the code of the expression and the
return of what that computes.  Of a conditional access this is the code of the tested receiver, once,
and a guard around the code of the access.
-/

namespace InlineArrays

open Context

/-! ## What methods with code return -/

section

variable {e x x' : Expr} {Γ : ReceiverPairs}

theorem SameChain.isPlain (h : SameChain x x') : ∀ part ∈ x'.parts, part.isPlain := by
  induction h with
  | var => simp [Expr.parts, Expr.uses, Expr.isPlain]
  | field _ ih =>
    rw [Expr.parts_field]
    exact List.forall_mem_cons.2 ⟨rfl, ih⟩

/-- Nothing in what is replaced, or put in its place, is called or converted. -/
theorem Replaces.isPlain (h : Replaces e Γ x x') :
    (∀ part ∈ x.parts, part.isPlain) ∧ ∀ part ∈ x'.parts, part.isPlain := by
  induction h with
  | var | int | bool | string | default | placeholder =>
    simp [Expr.parts, Expr.uses, Expr.isPlain]
  | field _ ih =>
    simp only [Expr.parts_field, List.forall_mem_cons]
    exact ⟨⟨rfl, ih.1⟩, rfl, ih.2⟩
  | fromEnd _ ih =>
    simp only [Expr.parts_fromEnd, List.forall_mem_cons]
    exact ⟨⟨rfl, ih.1⟩, rfl, ih.2⟩
  | @range Γ id id' start stop start' stop' hstart hstop _ _ ihstart ihstop =>
    have hbound {b b' : Option Expr} (hsame : b.isSome = b'.isSome)
        (ih : ∀ y y', b = some y → b' = some y' →
          (∀ part ∈ y.parts, part.isPlain) ∧ ∀ part ∈ y'.parts, part.isPlain) :
        (∀ part ∈ b.elim [] Expr.parts, part.isPlain) ∧
          ∀ part ∈ b'.elim [] Expr.parts, part.isPlain := by
      cases b <;> cases b'
      · exact ⟨by simp, by simp⟩
      · cases hsame
      · cases hsame
      · exact ih _ _ rfl rfl
    simp only [Expr.parts_range, List.forall_mem_cons, List.forall_mem_append]
    exact ⟨⟨rfl, (hbound hstart ihstart).1, (hbound hstop ihstop).1⟩, rfl,
      (hbound hstart ihstart).2, (hbound hstop ihstop).2⟩
  | element _ _ ih iharg =>
    simp only [Expr.parts_element, List.forall_mem_cons, List.forall_mem_append,
      List.flatMap_singleton]
    exact ⟨⟨rfl, ih.1, iharg.1⟩, rfl, ih.2, iharg.2⟩
  | conditional _ _ ih ihaccess =>
    simp only [Expr.parts_conditional, List.forall_mem_cons, List.forall_mem_append]
    exact ⟨⟨rfl, ih.1, ihaccess.1⟩, rfl, ih.2, ihaccess.2⟩
  | written _ hsame => exact ⟨by simp [Expr.parts, Expr.uses, Expr.isPlain], hsame.isPlain⟩

end

namespace Context

variable {c : Context} {r : Routine} {x : Expr}

theorem regular_of_routine (hbuilt : c.types.Built) (horderly : c.method.Orderly)
    (h : c.routine = .ok r) : c.Regular :=
  ⟨hbuilt, horderly, (accepted_of_validate (routine_eq_ok.1 h).1).resolves⟩

/-- What a method with code returns is accepted, and its accesses are bound. -/
theorem approves_of_routine (horderly : c.method.Orderly) (h : c.routine = .ok r)
    (hx : .ret (some x) ∈ c.method.statements) (hplain : ∀ part ∈ x.parts, part.isPlain) :
    c.Approves x where
  records := horderly.exprs _ hx x List.mem_cons_self
  isPlain := hplain
  accesses part hpart helement := by
    obtain ⟨hvalid, hbody⟩ := routine_eq_ok.1 h
    have hlowered : Succeeds (c.lower _ x) := (succeeds_of_lowerBody hbody _ hx).bind.1
    refine ⟨exists_bind_of_succeeds hlowered part hpart helement, ?_⟩
    rw [← Expr.map_fst_uses (.returned c.method.returns)] at hpart
    obtain ⟨use, huse, rfl⟩ := List.mem_map.1 hpart
    have hused := mem_uses_of_operand (c := c) hx (List.mem_singleton.2 rfl) use huse
    exact ((accepted_of_validate hvalid).uses use hused).innate

end Context

/-! ## Code of returned expressions -/

/-- The code of a routine that ends by returning the value of an expression. -/
structure Context.Returns (c : Context) (x : Expr) (r : Routine) where
  /-- Where the code of the expression starts. -/
  start : Emission
  code : List Instr
  result : Operand
  last : Emission
  note : Note
  lowered : c.lower .value x start = .ok result last
  grows : start.Grows last code
  emitted : r.code = start.code ++ code ++ [.ret note (some result)]
  unbound : start.receivers = []
  valueCount_eq : last.valueCount = r.valueCount
  tempCount_eq : last.tempCount = r.tempCount

/-- What is run from the return on. -/
def Context.Returns.rest {c : Context} {x : Expr} {r : Routine} (R : c.Returns x r) : List Instr :=
  R.code ++ [.ret R.note (some R.result)]

/-- The code of a conditional access from `s` on: the receiver is computed and tested, and what it is
is remembered in the code of the access. -/
structure Context.Tests (c : Context) (e access : Expr) (s : Emission) where
  tested : List Instr
  receiver : Operand
  mid : Emission
  result : Operand
  last : Emission
  note : Note
  lowered : c.lower .value e s = .ok receiver mid
  grows : s.Grows mid tested
  lowered_access : c.lower .value access { mid with
    code := [], valueCount := mid.valueCount + 1
    receivers := (e.id, receiver) :: mid.receivers.filter (·.1 != e.id) } = .ok result last

/-- The guard around the code of an access, or around other code. -/
def Context.Tests.guard {c : Context} {e access : Expr} {s : Emission} (T : c.Tests e access s)
    (body : List Instr) : Instr :=
  .guard T.note T.mid.valueCount T.receiver body T.result

/-- The code that returns the conditional access, with the guard around `body`. -/
def Context.Tests.returning {c : Context} {e access : Expr} {s : Emission} (T : c.Tests e access s)
    (note : Note) (body : List Instr) : List Instr :=
  T.tested ++ [T.guard body, .ret note (some (.computed T.mid.valueCount))]

namespace Context

variable {c : Context} {r : Routine} {x e access : Expr} {id : ExprId} {before : List Statement}

theorem exists_returns (h : c.routine = .ok r)
    (hlast : c.method.statements = before ++ [.ret (some x)])
    (hreturns : c.method.returns.isByRef = false) : Nonempty (c.Returns x r) := by
  obtain ⟨t, hrun, rfl⟩ := lowerBody_eq_ok (routine_eq_ok.1 h).2
  obtain ⟨first, back, hsplit, -, hback⟩ := List.map_eq_append_iff.1 (c.map_fst_listed.trans hlast)
  obtain ⟨⟨_, span⟩, rfl, rfl⟩ := List.map_eq_singleton_iff.1 hback
  rw [hsplit, lowerStatements_append] at hrun
  obtain ⟨_, mid, hfirst, hrun⟩ := Emit.bind_eq_ok.1 hrun
  have hret : c.lowerStatements [(.ret (some x), span)] =
      modify (fun s ↦ { s with span := some span }) >>= fun _ ↦
        c.lower .value x >>= fun value ↦ Emission.emit (.ret · (some value)) := by
    unfold lowerStatements lowerStatements lowerStatement
    simp [hreturns]
  rw [hret] at hrun
  obtain ⟨_, start, hspan, hrun⟩ := Emit.bind_eq_ok.1 hrun
  obtain ⟨result, last, hlower, hemit⟩ := Emit.bind_eq_ok.1 hrun
  cases hspan
  cases hemit
  obtain ⟨code, hgrows, -⟩ := Emits.lower c .value x hlower
  obtain ⟨_, hgrowsFirst, -⟩ := Emits.lowerStatements first hfirst
  exact ⟨{ start := _, code, result, last, note := ⟨last.span, none⟩, lowered := hlower
           grows := hgrows
           emitted := congrArg (· ++ _) hgrows.code_eq
           unbound := List.subset_nil.1 hgrowsFirst.receivers_subset
           valueCount_eq := rfl, tempCount_eq := rfl }⟩

theorem exists_tests {s t : Emission} {o : Operand}
    (h : c.lower .value (.conditional id e access) s = .ok o t) :
    ∃ T : c.Tests e access s, o = .computed T.mid.valueCount ∧
      s.Grows t (T.tested ++ [T.guard T.last.code]) ∧ T.mid.valueCount < t.valueCount ∧
      T.mid.tempCount ≤ t.tempCount := by
  obtain ⟨receiver, mid, hlower, h⟩ := Emit.bind_eq_ok.1 h
  obtain ⟨dest, s', hfresh, h⟩ := Emit.bind_eq_ok.1 h
  obtain ⟨⟨body, result⟩, u, hguarded, h⟩ := Emit.bind_eq_ok.1 h
  obtain ⟨last, hbody, rfl, rfl⟩ := Emission.guarded_eq_ok.1 hguarded
  cases hfresh
  cases h
  obtain ⟨tested, hgrows, -⟩ := Emits.lower c .value e hlower
  obtain ⟨body, hinner, -⟩ := Emits.lower c .value access hbody
  obtain ⟨-, hguard⟩ := Emission.grows_guard hinner ⟨last.span, none⟩ result
  exact ⟨{ tested, receiver, mid, result, last, note := ⟨last.span, none⟩, lowered := hlower
           grows := hgrows, lowered_access := hbody },
    rfl, hgrows.trans hguard, hinner.value_le, hguard.temp_le⟩

/-- Where a conditional access is returned, what is run from there on is its test and its guard. -/
theorem Returns.exists_returning (R : c.Returns (.conditional id e access) r) :
    ∃ T : c.Tests e access R.start, R.rest = T.returning R.note T.last.code ∧
      T.mid.valueCount < r.valueCount ∧ T.mid.tempCount ≤ r.tempCount := by
  obtain ⟨T, hresult, hgrows, hvalues, htemps⟩ := exists_tests R.lowered
  have hcode : R.code = T.tested ++ [T.guard T.last.code] := R.grows.unique hgrows
  refine ⟨T, ?_, R.valueCount_eq ▸ hvalues, R.tempCount_eq ▸ htemps⟩
  rw [Returns.rest, hcode, hresult, List.append_assoc]
  rfl

end Context

end InlineArrays
