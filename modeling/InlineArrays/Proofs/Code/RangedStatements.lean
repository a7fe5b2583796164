import InlineArrays.Proofs.Validation.KeptSpans

/-!
# Regions in lowered statements

What the statements of an accepted method store, bind, pass and return is in regions where it may be,
as long as they keep spans where validation follows them.
-/

namespace InlineArrays

open Emission

namespace Context

variable {c : Context} {passes : String → List Operand → Prop} {pre : Prop} {e : Expr} {id : ExprId}
  {v : VariableId} {code : List Instr} {p : Program}

/-- Where an argument is that is passed. -/
def argumentRegion (c : Context) (arg : Argument Expr) : Region :=
  match arg.modifier with
  | .none => c.valueRegion arg.value
  | .ref | .output | .input => c.placeRegion arg.value

/-- What is passed is where the arguments are. -/
def Passed (c : Context) (L : Layout) (arg : Argument Expr) (o : Operand) : Prop :=
  L.Ranges o (c.argumentRegion arg) ∧ (c.outcome? arg.value).isSome

/-- Whatever the operands of calls are, they are passed as the callees expect. -/
def PassesArguments (c : Context) (L : Layout) (passes : String → List Operand → Prop) : Prop :=
  ∀ callee args, .call callee args ∈ c.method.statements →
    ∀ os, List.Forall₂ (c.Passed L) args os → passes callee os

namespace Conforms

theorem mapM {α β : Type} {L : Layout} {f : α → Emit β} {post : α → β → Prop} {l : List α}
    (hf : ∀ a ∈ l, ∀ pre, c.Conforms L passes pre (f a) (post a)) :
    c.Conforms L passes pre (l.mapM f) fun bs ↦ List.Forall₂ post l bs := by
  induction l generalizing pre with
  | nil =>
    rw [List.mapM_nil]
    exact pure fun _ ↦ .nil
  | cons a l ih =>
    rw [List.mapM_cons]
    exact (hf a List.mem_cons_self pre).bind fun b ↦
      (ih fun a ha ↦ hf a (List.mem_cons_of_mem _ ha)).bind fun bs ↦
        pure fun hpre ↦ .cons hpre.1.2 hpre.2

end Conforms

namespace Vetted

variable (hc : c.Vetted)
include hc

/-- What is lowered has been computed an outcome of. -/
theorem lowered (he : c.method.Reaches e) (demand : Demand) :
    c.Conforms (c.layout code) passes pre (c.lower demand e) fun o ↦
      (c.layout code).Ranges o (c.loweredRegion demand e) ∧ (c.outcome? e).isSome := by
  cases ho : c.outcome? e with
  | none =>
    obtain ⟨error, hthrow⟩ := lower_eq_throw ho demand
    rw [hthrow]
    exact Conforms.throw
  | some o => exact (hc.lower demand _ e he).mono fun _ hv ↦ ⟨hv, rfl⟩

theorem loweredInMemory (he : c.method.Reaches e) :
    c.Conforms (c.layout code) passes pre (c.lowerInMemory e) fun o ↦
      (c.layout code).Ranges o (c.placeRegion e) ∧ (c.outcome? e).isSome := by
  refine (hc.lowered he (c.storageDemand e)).bind fun lowered ↦ ?_
  intro s o t hrun
  have hplaced : c.Conforms (c.layout code) passes
      ((c.layout code).Ranges lowered (c.loweredRegion (c.storageDemand e) e)) _ _ :=
    inMemory_conforms id
  obtain ⟨code', hcode, hreceivers, hconforms⟩ := hplaced hrun
  refine ⟨code', hcode, hreceivers, fun hpre hsub hbinds ↦ ?_⟩
  obtain ⟨hallows, ho⟩ := hconforms hpre.2.1 hsub hbinds
  exact ⟨hallows, ho, hpre.2.2⟩

theorem loweredArgument {arg : Argument Expr} (he : c.method.Reaches arg.value) :
    c.Conforms (c.layout code) passes pre (c.lowerArgument arg) fun o ↦
      (c.layout code).Ranges o (c.argumentRegion arg) ∧ (c.outcome? arg.value).isSome := by
  obtain ⟨value, name, modifier⟩ := arg
  cases modifier with
  | none => exact hc.lowered he .value
  | ref | output => exact hc.lowered he .address
  | input => exact hc.loweredInMemory he

/-! ## Statements -/

section

variable {s : Statement} {usage : Usage} (hs : s ∈ c.method.statements)
  (hoperand : (e, usage) ∈ s.operands c.method.toBody)
include hs hoperand

theorem accepts : c.AcceptsUse (e, usage) :=
  (accepted_of_validate hc.valid).uses _ (mem_uses_of_operand hs hoperand _ (e.mem_uses_self usage))

omit hc in
theorem reaches : c.method.Reaches e := by
  refine .statement hs ?_
  have hmem : e ∈ (s.operands c.method.toBody).map (·.1) := List.mem_map_of_mem hoperand
  cases s with
  | ret value => cases value <;> exact hmem
  | call callee args => simpa [Statement.operands, Statement.exprs] using hmem
  | _ => exact hmem

/-- What is written has an address in data that may be written. -/
theorem region_of_writes (hspan : c.types.isSpan (c.typeOf e) = false) (husage : usage.writes)
    (ho : (c.outcome? e).isSome) : (c.storageOf e).region ≤ .data true true := by
  obtain ⟨o, ho⟩ := Option.isSome_iff_exists.1 ho
  rw [Storage.region,
    hc.writable (reaches hs hoperand) hspan (hc.accepts hs hoperand) husage ho]
  exact Region.data_le_data (Bool.le_true _) (Bool.le_refl _)

theorem loweredTarget (hspan : c.types.isSpan (c.typeOf e) = false) (husage : usage.writes) :
    c.Conforms (c.layout code) passes pre (c.lower .address e)
      ((c.layout code).Ranges · (.data true true)) :=
  (hc.lowered (reaches hs hoperand) .address).mono fun o ho ↦ by
    refine ho.1.le ?_
    rw [loweredRegion_of_isSpan _ hspan]
    exact hc.region_of_writes hs hoperand hspan husage ho.2

end

/-- A local that holds spans is at least as narrow in scope as the spans that it is given, and so is
a parameter that is passed by value. -/
theorem isOwn_of_replaced {value : Expr} (hs : .assign (.var id v) value ∈ c.method.statements)
    (hspan : c.types.isSpan (c.method.var v).type) (hreplaces : c.replacesSpan value (.var id v)) :
    (c.storageOf value).isOwn ≤ (c.storageOf (.var id v)).isOwn := by
  have hvar : c.method.Reaches (.var id v) := .statement hs (by simp [Statement.exprs])
  have hvalue : c.method.Reaches value := .statement hs (by simp [Statement.exprs])
  unfold replacesSpan at hreplaces
  dsimp only at hreplaces
  split at hreplaces
  · rename_i hkind
    have hkeeps := (accepted_of_validate hc.valid).spanLocal _ _ hs id v rfl hkind hspan
    cases hfirst : c.method.firstAssignment? v with
    | none =>
      rw [hfirst] at hkeeps
      exact Storage.isOwn_le (hkeeps rfl)
    | some first =>
      rw [hfirst] at hkeeps
      by_cases hid : first.id = value.id
      · have hfollowed := followed?_spanLocal hspan hkind hfirst
        obtain rfl : first = value := (records_of_followed hc.orderly hfollowed).eq_of_id
          (hvalue.records hc.orderly) hid
        rw [Storage.isOwn, Storage.isOwn, scope_spanLocal hspan hkind hfirst
          (hc.answered hc.valid hvar).2 (hc.answered hc.valid hvalue).2]
      · exact Storage.isOwn_le (hkeeps (by simpa using hid))
  · exact Storage.isOwn_le hreplaces
  · cases hreplaces

omit hc in
theorem holdsAddress_of_replacesSpan {value : Expr} (h : c.replacesSpan value (.var id v)) :
    c.holdsAddress (c.method.var v) = false := by
  unfold replacesSpan at h
  unfold holdsAddress
  dsimp only at h
  split at h <;> rename_i hkind
  · rw [hkind]
  · rw [hkind]
    rfl
  · cases h

theorem assign {target value : Expr} (hs : .assign target value ∈ c.method.statements)
    (hkeeps : c.keepsSpans p (.assign target value)) :
    c.Conforms (c.layout code) passes pre (c.lowerStatement (.assign target value))
      fun _ ↦ True := by
  have hvalue : c.method.Reaches value := .statement hs (by simp [Statement.exprs])
  obtain ⟨hholds, hreplaces⟩ := Bool.and_eq_true_iff.1 hkeeps
  cases hspan : c.isSpanTyped target with
  | false =>
    have hplain := (TypeTable.isSpan_of_holds hholds).trans hspan
    refine (hc.loweredTarget hs List.mem_cons_self hspan rfl).bind fun address ↦
      (hc.lower .value _ value hvalue).bind fun value ↦
        Conforms.emit (fun _ ↦ rfl) fun hpre _ _ ↦ ⟨.inl ⟨hpre.1.2, ?_⟩, trivial⟩
    have hranges := hpre.2
    rwa [loweredRegion_of_isSpan _ hplain] at hranges
  | true =>
    rw [hspan] at hreplaces
    cases target with
    | var id v =>
      have hvar : c.method.Reaches (.var id v) := .statement hs (by simp [Statement.exprs])
      have hv : v < c.method.vars.size := hc.orderly.roots id v (hvar.records hc.orderly)
      obtain ⟨parts, hparts⟩ := Option.isSome_iff_exists.1 hspan
      have hheld := holdsAddress_of_replacesSpan hreplaces
      have hslot : c.valueRegion value ≤ c.slotRegion v := by
        rw [slotRegion, show c.types.spanParts? (c.method.var v).type = some parts from hparts, hheld,
          storageOf_var 0 id]
        exact valueRegion_le_of_holds hholds hparts (hc.isOwn_of_replaced hs hspan hreplaces)
      have haddress : c.Conforms (c.layout code) passes pre (c.lower .address (.var id v))
          ((c.layout code).Ranges · (.slot v)) := by
        refine (variableAddress_conforms hv).bind fun _ ↦ Conforms.pure fun hpre ↦ ?_
        have hranges := hpre.2
        rwa [variableRegion, hheld, if_neg Bool.false_ne_true] at hranges
      exact haddress.bind fun _ ↦ (hc.lower .value _ value hvalue).bind fun _ ↦
        Conforms.emit (fun _ ↦ rfl) fun hpre _ _ ↦
          ⟨.inr ⟨v, _, hpre.1.2, layout_region? code hv, hpre.2.le hslot⟩, trivial⟩
    | _ => cases hreplaces

theorem compound {target value : Expr} {op : BinaryOp}
    (hs : .compound target op value ∈ c.method.statements)
    (hkeeps : c.keepsSpans p (.compound target op value)) :
    c.Conforms (c.layout code) passes pre (c.lowerStatement (.compound target op value))
      fun _ ↦ True := by
  have hvalue : c.method.Reaches value := .statement hs (by simp [Statement.exprs])
  have hspan : c.types.isSpan (c.typeOf target) = false := by
    simpa [keepsSpans, isSpanTyped] using hkeeps
  exact (hc.loweredTarget hs List.mem_cons_self hspan rfl).bind fun _ ↦
    (Conforms.load (κ := .shared) (fun hpre ↦ hpre.2) rfl).bind fun _ ↦
      (hc.lower .value _ value hvalue).bind fun _ ↦ (Conforms.plain (a := .shared) rfl).bind fun _ ↦
        Conforms.emit (fun _ ↦ rfl) fun hpre _ _ ↦ ⟨.inl ⟨hpre.1.1.1.2, hpre.2⟩, trivial⟩

/-- A ref local is where it is bound to. -/
theorem region_refLocal {init : Expr} (hs : .refLocal v init ∈ c.method.statements)
    (hkeeps : c.keepsSpans p (.refLocal v init)) (ho : (c.outcome? init).isSome) :
    c.placeRegion init ≤ c.slotRegion v := by
  have hinit : c.method.Reaches init := .statement hs (by simp [Statement.exprs])
  obtain ⟨hbound, hspan⟩ : c.types.isSpan (c.method.var v).type = false ∧
      c.types.isSpan (c.typeOf init) = false := by
    simpa [keepsSpans, isSpanTyped] using hkeeps
  obtain ⟨readonly, hkind⟩ := (hc.bound v init hs).2
  have hfirst : c.method.refLocalInit? v = some init := (hc.orderly.refLocals v init hs).2.1
  obtain ⟨o, ho⟩ := Option.isSome_iff_exists.1 ho
  obtain rfl := hc.outcome_eq hinit hspan ho
  have hobjection : c.objection? init (.refLocalInit ((c.method.var v).kind == .refLocal true)) _ =
      none := (hc.accepts hs (List.mem_singleton.2 rfl)).objection?_eq_none rfl ho
  have hreferenceable : (c.storageOf init).referenceable := by
    refine referenceable_of_objection? ?_ ?_ hobjection
    · rfl
    · simp
  have hstored : c.storageOf (.var 0 v) =
      refLocalStorage (c.method.var v).name readonly (some (c.storageOf init)) := by
    rw [storageOf, storageOf?_refLocal hbound hkind hfirst hc.orderly 0,
      (hc.answered hc.valid hinit).2]
    rfl
  have hslot : c.slotRegion v = ((c.storageOf init).readonlyIf readonly).region := by
    have hheld : c.holdsAddress (c.method.var v) := by rw [holdsAddress, hkind]
    rw [slotRegion, TypeTable.isSpan_eq_false.1 hbound, hheld, hstored, refLocalStorage]
    dsimp only
    rw [if_pos hreferenceable, if_pos rfl, Storage.region, Storage.region, Storage.projectsReadonly,
      Storage.projectsReadonly, Storage.readonlyIf, hreferenceable]
    rfl
  rw [placeRegion_of_isSpan hspan, hslot]
  exact Storage.region_le_readonlyIf readonly

theorem refLocal {init : Expr} (hs : .refLocal v init ∈ c.method.statements)
    (hkeeps : c.keepsSpans p (.refLocal v init)) :
    c.Conforms (c.layout code) passes pre (c.lowerStatement (.refLocal v init)) fun _ ↦ True := by
  have hinit : c.method.Reaches init := .statement hs (by simp [Statement.exprs])
  have hv : v < c.method.vars.size := (hc.bound v init hs).1
  exact (hc.loweredInMemory hinit).bind fun _ ↦ Conforms.emit (fun _ ↦ rfl) fun hpre _ _ ↦
    ⟨⟨_, layout_region? code hv, hpre.2.1.le (hc.region_refLocal hs hkeeps hpre.2.2)⟩, trivial⟩

/-- What is returned outlives the method. -/
theorem region_of_returned {value : Expr} (hs : .ret (some value) ∈ c.method.statements)
    (hkeeps : c.keepsSpans p (.ret (some value))) (ho : (c.outcome? value).isSome) :
    c.loweredRegion (if c.method.returns.isByRef then .address else .value) value ≤
      .data false false := by
  have hvalue : c.method.Reaches value := .statement hs (by simp [Statement.exprs])
  obtain ⟨o, ho⟩ := Option.isSome_iff_exists.1 ho
  have hobjection : c.objection? value (.returned c.method.returns) o = none :=
    (hc.accepts hs (List.mem_singleton.2 rfl)).objection?_eq_none rfl ho
  have hdata {s : Storage} (writable : Bool) (h : s.scope.outlives .returnOnly) :
      Region.data s.isOwn writable ≤ .data false false :=
    Region.data_le_data (by rw [Storage.isOwn, h]; exact Bool.le_refl _) (Bool.false_le _)
  cases hspan : c.types.isSpan (c.typeOf value) with
  | false =>
    obtain rfl := hc.outcome_eq hvalue hspan ho
    rw [loweredRegion_of_isSpan _ hspan]
    cases href : c.method.returns.isByRef with
    | false => exact trivial
    | true => exact hdata _ (outlives_of_objection? (.inl href) hobjection).2
  | true =>
    obtain ⟨hshape, howned⟩ := hc.outcome_of_isSpan hvalue hspan ho
    have href : c.method.returns.isByRef = false := by
      simpa [keepsSpans, isSpanTyped, hspan] using hkeeps
    have houtlives := (outlives_of_objection? (.inr hshape) hobjection).2
    obtain ⟨parts, hparts⟩ := Option.isSome_iff_exists.1 hspan
    rw [href, if_neg Bool.false_ne_true, loweredRegion, Demand.region, valueRegion, hparts]
    dsimp only
    rw [← howned]
    exact hdata _ houtlives

theorem ret {value : Expr} (hs : .ret (some value) ∈ c.method.statements)
    (hkeeps : c.keepsSpans p (.ret (some value))) :
    c.Conforms (c.layout code) passes pre (c.lowerStatement (.ret (some value))) fun _ ↦ True := by
  have hvalue : c.method.Reaches value := .statement hs (by simp [Statement.exprs])
  exact (hc.lowered hvalue _).bind fun _ ↦ Conforms.emit (fun _ ↦ rfl) fun hpre _ _ ↦
    ⟨hpre.2.1.le (hc.region_of_returned hs hkeeps hpre.2.2), trivial⟩

theorem call {callee : String} {args : List (Argument Expr)}
    (hs : .call callee args ∈ c.method.statements)
    (hpasses : ∀ os, List.Forall₂ (c.Passed (c.layout code)) args os → passes callee os) :
    c.Conforms (c.layout code) passes pre (c.lowerStatement (.call callee args)) fun _ ↦ True := by
  have hargs : c.Conforms (c.layout code) passes pre (args.mapM c.lowerArgument)
      fun os ↦ List.Forall₂ (c.Passed (c.layout code)) args os :=
    Conforms.mapM fun arg harg _ ↦
      hc.loweredArgument (.statement hs (List.mem_map_of_mem harg))
  refine hargs.bind fun os ↦ Conforms.emit (fun _ ↦ rfl) fun hpre _ _ ↦
    ⟨⟨hpasses os hpre.2, ?_⟩, trivial⟩
  have hranged : List.Forall₂ (fun o _ ↦ (∃ a, (c.layout code).Ranges o a) ∧ True) os args :=
    hpre.2.flip.imp fun _ _ h ↦ ⟨⟨_, h.1⟩, trivial⟩
  exact ((List.forall₂_and_left _ _).1 hranged).1

/-! ## Bodies -/

theorem lowerStatement {s : Statement} (hs : s ∈ c.method.statements) (hkeeps : c.keepsSpans p s)
    (hpasses : c.PassesArguments (c.layout code) passes) :
    c.Conforms (c.layout code) passes pre (c.lowerStatement s) fun _ ↦ True := by
  cases s with
  | expression value =>
    have hvalue : c.method.Reaches value := .statement hs (by simp [Statement.exprs])
    exact (hc.lower .value _ value hvalue).bind fun _ ↦ Conforms.pure fun _ ↦ trivial
  | assign target value => exact hc.assign hs hkeeps
  | compound target op value => exact hc.compound hs hkeeps
  | refLocal v init => exact hc.refLocal hs hkeeps
  | call callee args => exact hc.call hs (hpasses callee args hs)
  | ret value =>
    cases value with
    | none => exact Conforms.emit (f := (.ret · none)) (fun _ ↦ rfl) fun _ _ _ ↦ ⟨trivial, trivial⟩
    | some value => exact hc.ret hs hkeeps

theorem lowerStatements (lines : List (Statement × SourceSpan))
    (hlines : ∀ line ∈ lines, line.1 ∈ c.method.statements)
    (hkeeps : ∀ s ∈ c.method.statements, c.keepsSpans p s)
    (hpasses : c.PassesArguments (c.layout code) passes) :
    c.Conforms (c.layout code) passes pre (c.lowerStatements lines) fun _ ↦ True := by
  induction lines generalizing pre with
  | nil => exact Conforms.pure fun _ ↦ trivial
  | cons line lines ih =>
    obtain ⟨statement, span⟩ := line
    have hs := hlines _ List.mem_cons_self
    have hspan : c.Conforms (c.layout code) passes pre
        (modify fun s ↦ { s with span := some span }) fun _ ↦ True := by
      intro s a t hrun
      cases hrun
      exact ⟨[], by simp, List.Subset.refl _, fun _ _ _ ↦ ⟨by simp [Instr.flattenAll], trivial⟩⟩
    exact hspan.bind fun _ ↦ (hc.lowerStatement hs (hkeeps _ hs) hpasses).bind fun _ ↦
      ih fun line hline ↦ hlines line (List.mem_cons_of_mem _ hline)

/-- All that the code of an accepted method does is allowed. -/
theorem allows {r : Routine} (hr : c.lowerBody = .ok r)
    (hkeeps : ∀ s ∈ c.method.statements, c.keepsSpans p s)
    (hpasses : c.PassesArguments (c.layout r.instrs) passes) :
    ∀ i ∈ r.instrs, (c.layout r.instrs).Allows passes i := by
  obtain ⟨s, hrun, rfl⟩ := lowerBody_eq_ok hr
  have hlowered : c.Conforms (c.layout (Instr.flattenAll s.code)) passes True
      (c.lowerStatements (c.method.statements.zip c.method.listing.statements)) fun _ ↦ True :=
    hc.lowerStatements _ (fun _ hline ↦ (List.of_mem_zip hline).1) hkeeps hpasses
  obtain ⟨lowered, hcode, -, hconforms⟩ := hlowered hrun
  obtain rfl : s.code = lowered := hcode
  exact (hconforms trivial (List.Subset.refl _) fun _ h ↦ absurd h List.not_mem_nil).1

end Vetted

end Context

end InlineArrays
