import InlineArrays.Code.OfMethod
import InlineArrays.Proofs.Code.Emission

/-!
# Emitted code is well formed

Every step of the emission of an expression keeps what `Emits` promises.  A guard is the only place
where a value is numbered before the code in front of it, and where the list under construction is
put aside; the receivers bound meanwhile are operands of the lists around the guard.
-/

namespace InlineArrays

open Emission

/-- What a bound is made of. -/
def Bound.operands : Bound Operand → List Operand
  | .omitted => []
  | .int value | .fromEnd value | .index value => [value]

/-- What a subscript is made of. -/
def Subscript.operands : Subscript Operand → List Operand
  | .int value | .fromEnd value | .index value | .dynamic value | .range value => [value]
  | .rangeLiteral start stop => start.operands ++ stop.operands

/-- The emission of a guard, when its body has been emitted with a receiver bound. -/
theorem Emission.grows_guard {t u : Emission} {receiver : ExprId} {tested : Operand}
    {body : List Instr}
    (h : Grows { t with
        code := [], valueCount := t.valueCount + 1
        receivers := (receiver, tested) :: t.receivers.filter (·.1 != receiver) } u body)
    (note : Note) (result : Operand) :
    u.code = body ∧
      t.Grows { u with
          code := t.code ++ [.guard note t.valueCount tested u.code result]
          receivers := u.receivers.filter (·.1 != receiver) }
        [.guard note t.valueCount tested u.code result] := by
  have hu : u.code = body := by simpa using h.code_eq
  have hle : t.valueCount + 1 ≤ u.valueCount := h.value_le
  refine ⟨hu, rfl, Nat.le_of_succ_le hle, h.temp_le, ?_, ?_, ?_⟩
  · have hdests : Instr.dests [.guard note t.valueCount tested u.code result] =
        t.valueCount :: Instr.dests body := by
      rw [Instr.dests_guard_cons, hu]
      simp [Instr.dests, Instr.flattenAll]
    have hrange : List.range' t.valueCount (u.valueCount - t.valueCount) =
        t.valueCount :: List.range' (t.valueCount + 1) (u.valueCount - (t.valueCount + 1)) := by
      rw [show u.valueCount - t.valueCount = u.valueCount - (t.valueCount + 1) + 1 by omega,
        List.range'_succ]
    rw [hdests, hrange]
    exact h.dests_perm.cons _
  · have hstores : Instr.stores [.guard note t.valueCount tested u.code result] =
        Instr.stores body := by
      simp [Instr.stores, Instr.flattenAll, Instr.flatten, Instr.stored?, hu]
    rw [hstores]
    exact h.stores_perm
  · intro bound hbound
    obtain ⟨hbound, hne⟩ := List.mem_filter.1 hbound
    rcases List.mem_cons.1 (h.receivers_subset hbound) with rfl | hbound
    · simp at hne
    · exact (List.mem_filter.1 hbound).1

namespace Emits

variable {known : List Operand} {α β : Type}

theorem inMemory {demand : Demand} {lowered : Operand} (h : lowered ∈ known) :
    Emits known (demand.inMemory lowered) fun o ↦ [o] := by
  cases demand with
  | value => exact spillAddress h
  | address => exact pure (by simpa using h)

theorem fromAddress {demand : Demand} {address : Operand} (h : address ∈ known) :
    Emits known (demand.fromAddress address) fun o ↦ [o] := by
  cases demand with
  | value => exact define (by simpa [Operation.reads, Operation.operands] using h)
  | address => exact pure (by simpa using h)

theorem offset {isStop : Bool} {length : Operand} {bound : Bound Operand}
    (hlength : length ∈ known) (hbound : bound.operands ⊆ known) :
    Emits known (bound.offset isStop length) fun o ↦ [o] := by
  cases bound with
  | omitted =>
    intro s o t hrun
    cases isStop with
    | true =>
      have hstop : Emits known (Pure.pure length) fun o ↦ [o] := pure (by simpa using hlength)
      exact hstop hrun
    | false =>
      obtain ⟨rfl, rfl⟩ := Emit.pure_eq_ok.1 hrun
      exact ⟨[], .refl s, fun _ _ _ ↦ ⟨trivial, by simp [Operand.InScope]⟩⟩
  | int value => exact pure (by simpa [Bound.operands] using hbound)
  | fromEnd count =>
    exact define (by simpa [Operation.reads, Operation.operands, Bound.operands, hlength] using hbound)
  | index value =>
    exact define (by simpa [Operation.reads, Operation.operands, Bound.operands, hlength] using hbound)

theorem selectIn {span length : Operand} {s : Subscript Operand} (hspan : span ∈ known)
    (hlength : length ∈ known) (hs : s.operands ⊆ known) :
    Emits known (s.selectIn span length) fun o ↦ [o] := by
  cases s with
  | int position =>
    exact define (by simpa [Operation.reads, Operation.operands, Subscript.operands, hspan] using hs)
  | fromEnd count =>
    refine (define (by simpa [Operation.reads, Operation.operands, Subscript.operands, hlength]
      using hs)).bind fun position ↦ define ?_
    simp [Operation.reads, Operation.operands, hspan]
  | index value =>
    refine (define (by simpa [Operation.reads, Operation.operands, Subscript.operands, hlength]
      using hs)).bind fun position ↦ define ?_
    simp [Operation.reads, Operation.operands, hspan]
  | dynamic value =>
    refine (define (by simpa [Operation.reads, Operation.operands, Subscript.operands]
      using hs)).bind fun position ↦ define ?_
    simp [Operation.reads, Operation.operands, hspan]
  | range value =>
    have hvalue : value ∈ known := by simpa [Subscript.operands] using hs
    refine (define ?_).bind fun start ↦ (define ?_).bind fun start ↦ (define ?_).bind fun stop ↦
      (define ?_).bind fun stop ↦ (define ?_).bind fun count ↦ define ?_
    all_goals simp [Operation.reads, Operation.operands, hspan, hlength, hvalue]
  | rangeLiteral start stop =>
    obtain ⟨hstart, hstop⟩ := List.append_subset.1 hs
    refine (offset hlength hstart).bind fun start ↦ (offset ?_ ?_).bind fun stop ↦
      (define ?_).bind fun count ↦ define ?_
    · simp [hlength]
    · exact List.subset_append_of_subset_right _ hstop
    all_goals simp [Operation.reads, Operation.operands, hspan]

theorem select {span : Operand} {s : Subscript Operand} (hspan : span ∈ known)
    (hs : s.operands ⊆ known) : Emits known (s.select span) fun o ↦ [o] := by
  unfold Subscript.select
  split
  · refine (define (by simpa [Operation.reads, Operation.operands] using hspan)).bind fun length ↦
      selectIn ?_ ?_ ?_
    · simp [hspan]
    · simp
    · exact List.subset_append_of_subset_right _ hs
  · -- The length is not read, so any literal stands for it.
    have hliteral : Emits (.int 0 :: known) (s.selectIn span (.int 0)) fun o ↦ [o] :=
      selectIn (by simp [hspan]) (by simp) (List.subset_cons_of_subset _ hs)
    intro u o t hrun
    obtain ⟨code, hgrows, hcode⟩ := hliteral hrun
    refine ⟨code, hgrows, fun σ hknown hbinds ↦ hcode σ (fun o ho ↦ ?_) hbinds⟩
    rcases List.mem_cons.1 ho with rfl | ho
    · trivial
    · exact hknown o ho

/-- A guard around code that is emitted with a receiver bound. -/
theorem conditionalCode {receiver : ExprId} {tested access : Emit Operand}
    (htested : Emits [] tested fun o ↦ [o]) (haccess : Emits [] access fun o ↦ [o]) :
    Emits known (Context.conditionalCode receiver tested access) fun o ↦ [o] := by
  intro s o w hrun
  obtain ⟨value, t, hfirst, hrun⟩ := Emit.bind_eq_ok.1 hrun
  obtain ⟨dest, t', hfresh, hrun⟩ := Emit.bind_eq_ok.1 hrun
  obtain ⟨⟨body, result⟩, v, hguarded, hrun⟩ := Emit.bind_eq_ok.1 hrun
  obtain ⟨u, hbody, rfl, rfl⟩ := guarded_eq_ok.1 hguarded
  cases hfresh
  cases hrun
  obtain ⟨code, hgrows, hcode⟩ := htested hfirst
  obtain ⟨inner, hgrows', hinner⟩ := haccess hbody
  obtain ⟨hu, hguard⟩ := grows_guard hgrows' ⟨u.span, none⟩ result
  refine ⟨code ++ [.guard ⟨u.span, none⟩ t.valueCount value u.code result],
    hgrows.trans hguard, fun σ _ hbinds ↦ ?_⟩
  obtain ⟨hscoped, hvalue⟩ := hcode σ (by simp) hbinds
  have hvalue := hvalue value (by simp)
  have hinner := hinner (σ.afterAll code) (by simp) (by
    intro bound hbound
    rcases List.mem_cons.1 hbound with rfl | hbound
    · exact hvalue
    · exact hgrows.binds hbinds bound (List.mem_filter.1 hbound).1)
  refine ⟨Instr.allWellScoped_append.2 ⟨hscoped, ⟨hvalue, ?_⟩, trivial⟩, ?_⟩
  · rw [hu]
    exact ⟨hinner.1, hinner.2 result (by simp)⟩
  · simp [Operand.InScope, Scope.after, Instr.dest?]

theorem projectSpan {c : Context} {kind : SpanKind} {arrayType element : TypeId} {length : Nat}
    {address : Operand} (h : address ∈ known) :
    Emits known (c.projectSpan kind arrayType element length address) fun o ↦ [o] :=
  define (by simpa [Operation.reads, Operation.operands] using h)

theorem receiverSpan {c : Context} {a : Access} {lowered : Operand} (h : lowered ∈ known) :
    Emits known (c.receiverSpan a lowered) fun o ↦ [o] := by
  unfold Context.receiverSpan
  split
  · exact (inMemory h).bind fun address ↦ projectSpan (by simp)
  · exact pure (by simpa using h)

/-- The span is kept in a temporary, so that code of the subscript may come in between. -/
theorem accessCode {c : Context} {demand : Demand} {a : Access} {receiver : Emit Operand}
    {subscript : Emit (Subscript Operand)} (hreceiver : Emits known receiver fun o ↦ [o])
    (hsubscript : Emits [] subscript Subscript.operands) :
    Emits known (c.accessCode demand a receiver subscript) fun o ↦ [o] := by
  refine hreceiver.bind fun lowered ↦ (receiverSpan (by simp)).bind fun span ↦
    (spill (by simp)).bind fun temp ↦
      (hsubscript.mono (List.nil_subset _) fun _ ↦ List.Subset.refl _).bind fun subscript ↦
        (select ?_ ?_).bind fun selected ↦ ?_
  · simp
  · exact List.subset_append_left _ _
  · split
    · cases demand with
      | value => exact pure (by simp)
      | address => exact throw
    · exact fromAddress (by simp)

theorem variableAddress {c : Context} {target : VariableId} :
    Emits [] (c.variableAddress target) fun o ↦ [o] := by
  refine (define (by simp [Operation.reads, Operation.operands])).bind fun slot ↦ ?_
  split
  · exact define (by simp [Operation.reads, Operation.operands])
  · exact pure (by simp)

theorem variableCode {c : Context} {demand : Demand} {target : VariableId} :
    Emits [] (c.variableCode demand target) fun o ↦ [o] := by
  refine variableAddress.bind fun address ↦ ?_
  cases demand with
  | value => exact define (by simp [Operation.reads, Operation.operands])
  | address => exact pure (by simp)

theorem ownerOf {c : Context} {receiver : Expr} {lowered : Operand} (h : lowered ∈ known) :
    Emits known (c.ownerOf receiver lowered) fun o ↦ [o] := by
  unfold Context.ownerOf
  split
  · exact pure (by simpa using h)
  · exact inMemory h

theorem fieldCode {c : Context} {demand : Demand} {receiver : Expr} {name : String}
    {code : Emit Operand} (h : Emits known code fun o ↦ [o]) :
    Emits known (c.fieldCode demand receiver name code) fun o ↦ [o] := by
  refine h.bind fun lowered ↦ (ownerOf (by simp)).bind fun base ↦ (define ?_).bind fun address ↦
    fromAddress (by simp)
  simp [Operation.reads, Operation.operands]

theorem valueCode {c : Context} {demand : Demand} {e : Expr} {code : Emit Operand}
    {post : Operand → List Operand} (h : Emits known code post) :
    Emits known (c.valueCode demand e code) post := by
  cases demand with
  | value => exact h
  | address => exact throw

theorem callCode {c : Context} {demand : Demand} {e : Expr} {callee : String}
    {returns : ReturnKind} : Emits [] (c.callCode demand e callee returns) fun o ↦ [o] := by
  have hcall : Emits [] (do
      let dest ← freshValue
      Emission.emit (.call · (some dest) callee [])
      return Operand.computed dest) fun o ↦ [o] :=
    fresh (f := fun dest note ↦ .call note (some dest) callee []) (fun _ _ ↦ rfl)
      (fun _ _ ↦ rfl) (fun _ _ ↦ rfl) fun _ _ _ _ o ho ↦ absurd ho (by simp)
  unfold Context.callCode
  split
  · have haddress : Emits [] (_ >>= demand.fromAddress) fun o ↦ [o] :=
      hcall.bind fun dest ↦ fromAddress (by simp)
    simpa only [bind_assoc, pure_bind] using haddress
  · exact valueCode hcall

theorem indexBy {c : Context} {e : Expr} {value : Operand} (h : value ∈ known) :
    Emits known (c.indexBy e value) fun o ↦ [o] := by
  unfold Context.indexBy
  split
  · exact define (by simpa [Operation.reads, Operation.operands] using h)
  · exact pure (by simpa using h)

theorem rangeCode {start stop : Emit Operand} (hstart : Emits [] start fun o ↦ [o])
    (hstop : Emits [] stop fun o ↦ [o]) :
    Emits [] (Context.rangeCode start stop) fun o ↦ [o] := by
  refine hstart.bind fun start ↦ (hstop.mono (List.nil_subset _) fun _ ↦ List.Subset.refl _).bind
    fun stop ↦ define ?_
  simp [Operation.reads, Operation.operands]

theorem rangeLiteralCode {start stop : Emit (Bound Operand)}
    (hstart : Emits [] start Bound.operands) (hstop : Emits [] stop Bound.operands) :
    Emits [] (Context.rangeLiteralCode start stop) Subscript.operands := by
  refine hstart.bind fun start ↦ (hstop.mono (List.nil_subset _) fun _ ↦ List.Subset.refl _).bind
    fun stop ↦ pure ?_
  simp only [Subscript.operands, List.mem_append]
  rintro o (ho | ho)
  · exact .inr (.inl ho)
  · exact .inl ho

theorem spanCode {c : Context} {readonly : Bool} {operand : Expr} {code : Emit Operand}
    (h : Emits known code fun o ↦ [o]) :
    Emits known (c.spanCode readonly operand code) fun o ↦ [o] := by
  unfold Context.spanCode
  split
  · exact throw
  · exact h.bind fun lowered ↦ (inMemory (by simp)).bind fun address ↦ projectSpan (by simp)

/-- The value of a bound receiver is in scope wherever it is bound. -/
theorem receiverValue {c : Context} {receiver : Expr} :
    Emits [] (c.receiverValue receiver) fun o ↦ [o] := by
  intro s o t hrun
  cases h : s.receiver? receiver.id with
  | none =>
    rw [Context.receiverValue_of_unbound h] at hrun
    cases hrun
  | some value =>
    rw [Context.receiverValue_of_bound h] at hrun
    cases hrun
    refine ⟨[], .refl s, fun σ _ hbinds ↦ ⟨trivial, ?_⟩⟩
    obtain ⟨bound, hfind, hvalue⟩ := Option.map_eq_some_iff.1 h
    have hbound := hbinds bound (List.mem_of_find?_eq_some hfind)
    simpa [← hvalue] using hbound

/-- A bound of a range literal, from the code of its value. -/
theorem boundOf {act : Emit Operand} {make : Operand → Bound Operand}
    (hact : Emits [] act fun o ↦ [o]) (hmake : ∀ o, (make o).operands = [o]) :
    Emits [] (make <$> act) Bound.operands :=
  hact.map fun o ↦ by simp [hmake]

theorem omitted : Emits [] (Pure.pure Bound.omitted : Emit (Bound Operand)) Bound.operands :=
  pure fun _ ho ↦ absurd ho (by simp [Bound.operands])

theorem operands_boundBy (c : Context) (e : Expr) (value : Operand) :
    (c.boundBy e value).operands = [value] := by
  unfold Context.boundBy
  split <;> rfl

theorem operands_withValue {s : Subscript α} {value : Operand} :
    (s.withValue value).operands = [value] := by
  cases s <;> rfl

/-- The index that stands for an omitted bound of a range. -/
theorem makeIndexZero {fromEnd : Bool} :
    Emits [] (Emission.define (.makeIndex (.int 0) fromEnd)) fun o ↦ [o] := by
  intro s o t hrun
  have hliteral : Emits [.int 0] (Emission.define (.makeIndex (.int 0) fromEnd)) fun o ↦ [o] :=
    define (by simp [Operation.reads, Operation.operands])
  obtain ⟨code, hgrows, hcode⟩ := hliteral hrun
  refine ⟨code, hgrows, fun σ _ hbinds ↦ hcode σ (fun o ho ↦ ?_) hbinds⟩
  rw [List.mem_singleton.1 ho]
  trivial

mutual

theorem lower (c : Context) (demand : Demand) :
    (e : Expr) → Emits [] (c.lower demand e) fun o ↦ [o]
  | .var _ _ => variableCode
  | .field _ receiver _ => fieldCode (lower c _ receiver)
  | .element id receiver args => by
    unfold Context.lower
    split
    · exact throw
    · exact accessCode (lower c _ receiver) (lowerSubscript c _ args)
  | .call .. => callCode
  | .int _ value => valueCode fun s o t hrun ↦ by
    obtain ⟨rfl, rfl⟩ := Emit.pure_eq_ok.1 hrun
    exact ⟨[], .refl s, fun _ _ _ ↦ ⟨trivial, by simp [Operand.InScope]⟩⟩
  | .bool _ value => valueCode fun s o t hrun ↦ by
    obtain ⟨rfl, rfl⟩ := Emit.pure_eq_ok.1 hrun
    exact ⟨[], .refl s, fun _ _ _ ↦ ⟨trivial, by simp [Operand.InScope]⟩⟩
  | .string .. => valueCode throw
  | .fromEnd _ count => valueCode <| (lower c .value count).bind fun value ↦
      define (by simp [Operation.reads, Operation.operands])
  | .range _ start stop => valueCode (rangeCode (lowerIndex c false start) (lowerIndex c true stop))
  | .default .. => valueCode <| define (by simp [Operation.reads, Operation.operands])
  | .span _ operand _ => valueCode (spanCode (lower c _ operand))
  | .conditional _ receiver access =>
    valueCode (conditionalCode (lower c .value receiver) (lower c .value access))
  | .placeholder .. => valueCode receiverValue

theorem lowerSubscript (c : Context) (a : Access) :
    (args : List (Argument Expr)) → Emits [] (c.lowerSubscript a args) Subscript.operands
  | args => by
    unfold Context.lowerSubscript
    split
    · rename_i count _ _
      exact (lower c .value count).map fun o ↦ by simp [Subscript.operands]
    · rename_i start stop _ _
      exact rangeLiteralCode (lowerBound c start) (lowerBound c stop)
    · rename_i value _ _ _ _
      exact (lower c .value value).map fun o ↦ by simp [operands_withValue]
    · exact throw

theorem lowerBound (c : Context) :
    (bound : Option Expr) → Emits [] (c.lowerBound bound) Bound.operands
  | none => omitted
  | some bound => by
    unfold Context.lowerBound
    split
    · exact omitted
    · rename_i count heq
      cases heq
      exact boundOf (lower c .value count) fun _ ↦ rfl
    · rename_i heq
      cases heq
      exact boundOf (lower c .value bound) (operands_boundBy c bound)

theorem lowerIndex (c : Context) (isStop : Bool) :
    (bound : Option Expr) → Emits [] (c.lowerIndex isStop bound) fun o ↦ [o]
  | none => makeIndexZero
  | some bound => (lower c .value bound).bind fun value ↦ indexBy (by simp)

end

theorem lowerInMemory {c : Context} {e : Expr} : Emits [] (c.lowerInMemory e) fun o ↦ [o] :=
  (lower c (c.storageDemand e) e).bind fun lowered ↦ inMemory (by simp)

theorem lowerArgument {c : Context} {arg : Argument Expr} :
    Emits [] (c.lowerArgument arg) fun o ↦ [o] := by
  unfold Context.lowerArgument
  split
  · exact lower c .value arg.value
  · exact lower c .address arg.value
  · exact lower c .address arg.value
  · exact lowerInMemory

theorem mapM {f : α → Emit Operand} (hf : ∀ a, Emits [] (f a) fun o ↦ [o]) (l : List α) :
    Emits [] (l.mapM f) fun os ↦ os := by
  induction l with
  | nil =>
    rw [List.mapM_nil]
    exact pure (by simp)
  | cons a l ih =>
    rw [List.mapM_cons]
    refine (hf a).bind fun o ↦ (ih.mono (List.nil_subset _) fun _ ↦ List.Subset.refl _).bind
      fun os ↦ pure fun p hp ↦ ?_
    rcases List.mem_cons.1 hp with rfl | hp
    · simp
    · exact List.mem_append_left _ hp

theorem lowerStatement {c : Context} (statement : Statement) :
    Emits [] (c.lowerStatement statement) fun _ ↦ [] := by
  cases statement with
  | expression value => exact (lower c .value value).bind fun _ ↦ pure (by simp)
  | assign target value =>
    refine (lower c .address target).bind fun address ↦
      ((lower c .value value).mono (List.nil_subset _) fun _ ↦ List.Subset.refl _).bind fun value ↦
        emit (fun _ ↦ rfl) (fun _ ↦ rfl) (fun _ ↦ rfl) fun _ σ hknown ↦ ?_
    exact ⟨hknown address (by simp), hknown value (by simp)⟩
  | compound target op value =>
    refine (lower c .address target).bind fun address ↦ (define ?_).bind fun current ↦
      ((lower c .value value).mono (List.nil_subset _) fun _ ↦ List.Subset.refl _).bind fun value ↦
        (define ?_).bind fun result ↦
          emit (fun _ ↦ rfl) (fun _ ↦ rfl) (fun _ ↦ rfl) fun _ σ hknown ↦ ?_
    · simp [Operation.reads, Operation.operands]
    · simp [Operation.reads, Operation.operands]
    · exact ⟨hknown address (by simp), hknown result (by simp)⟩
  | refLocal bound init =>
    exact lowerInMemory.bind fun address ↦
      emit (fun _ ↦ rfl) (fun _ ↦ rfl) (fun _ ↦ rfl) fun _ σ hknown ↦ hknown address (by simp)
  | call callee args =>
    exact (mapM (fun _ ↦ lowerArgument) args).bind fun args ↦
      emit (fun _ ↦ rfl) (fun _ ↦ rfl) (fun _ ↦ rfl) fun _ σ hknown o ho ↦ hknown o (by simp [ho])
  | ret value =>
    cases value with
    | none =>
      refine emit (f := (.ret · none)) (fun _ ↦ rfl) (fun _ ↦ rfl) (fun _ ↦ rfl)
        fun _ σ _ o ho ↦ ?_
      cases ho
    | some value =>
      refine (lower c _ value).bind fun value ↦
        emit (fun _ ↦ rfl) (fun _ ↦ rfl) (fun _ ↦ rfl) fun _ σ hknown o ho ↦ hknown o ?_
      rcases Option.mem_some.1 ho with rfl
      simp

/-- Every statement is emitted under a span of its own. -/
theorem lowerStatements {c : Context} (statements : List (Statement × SourceSpan)) :
    Emits [] (c.lowerStatements statements) fun _ ↦ [] := by
  induction statements with
  | nil => exact pure (by simp)
  | cons first rest ih =>
    obtain ⟨statement, span⟩ := first
    have hstatements : Emits [] (c.lowerStatement statement >>= fun _ ↦ c.lowerStatements rest)
        fun _ ↦ [] := (lowerStatement statement).bind fun _ ↦ ih
    intro s u t hrun
    have hrun : (c.lowerStatement statement >>= fun _ ↦ c.lowerStatements rest)
      { s with span := some span } = .ok u t := hrun
    obtain ⟨code, hgrows, hcode⟩ := hstatements hrun
    exact ⟨code, ⟨hgrows.code_eq, hgrows.value_le, hgrows.temp_le, hgrows.dests_perm,
      hgrows.stores_perm, hgrows.receivers_subset⟩, hcode⟩

end Emits

theorem Context.wellFormed_of_lowerBody {c : Context} {r : Routine} (h : c.lowerBody = .ok r) :
    r.WellFormed := by
  obtain ⟨s, hrun, rfl⟩ := lowerBody_eq_ok h
  obtain ⟨code, hgrows, hcode⟩ := Emits.lowerStatements _ hrun
  have hcode_eq : s.code = code := by simpa using hgrows.code_eq
  refine ⟨?_, ?_, ?_⟩
  · simpa [hcode_eq, List.range_eq_range'] using hgrows.dests_perm
  · simpa [hcode_eq, List.range_eq_range'] using hgrows.stores_perm
  · simpa [hcode_eq] using (hcode {} (by simp) (by simp [Emission.Binds])).1

/-- The code of a method is well formed. -/
theorem Context.wellFormed_of_routine {c : Context} {r : Routine} (h : c.routine = .ok r) :
    r.WellFormed := wellFormed_of_lowerBody (routine_eq_ok.1 h).2

end InlineArrays
