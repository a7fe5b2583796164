import InlineArrays.Proofs.Code.ExprRegions
import InlineArrays.Proofs.Code.WellFormed

/-!
# Regions of lowered expressions

`Conforms` says that what a computation emits is allowed by a layout whose code it is part of, and what
is known of its result then.  Every step of the emission of an expression keeps this: the value of an
expression and the address of its storage are in the regions that its type and its storage tell.
-/

namespace InlineArrays

open Emission

variable {α β : Type}

/-- Where what is demanded is, the value or the storage. -/
def Demand.region (demand : Demand) (value storage : Region) : Region :=
  match demand with
  | .value => value
  | .address => storage

namespace Context

/-- The values of receivers that are bound are in the regions of the receivers. -/
def Receives (c : Context) (L : Layout) (s : Emission) : Prop :=
  ∀ bound ∈ s.receivers, ∀ e, c.method.Reaches e → e.id = bound.1 → L.Ranges bound.2 (c.valueRegion e)

/-- What `act` appends is allowed and `post` holds of its result, if `pre` does and the code is part of
that of the layout. -/
def Conforms (c : Context) (L : Layout) (passes : String → List Operand → Prop) (pre : Prop)
    (act : Emit α) (post : α → Prop) : Prop :=
  ∀ ⦃s : Emission⦄ ⦃a : α⦄ ⦃t : Emission⦄, act s = .ok a t →
    ∃ code, t.code = s.code ++ code ∧ t.receivers ⊆ s.receivers ∧
      (pre → Instr.flattenAll code ⊆ L.code → c.Receives L s →
        (∀ i ∈ Instr.flattenAll code, L.Allows passes i) ∧ post a)

namespace Conforms

variable {c : Context} {L : Layout} {passes : String → List Operand → Prop} {pre : Prop}

theorem pure {a : α} {post : α → Prop} (h : pre → post a) :
    c.Conforms L passes pre (Pure.pure a) post := by
  intro s b t hrun
  obtain ⟨rfl, rfl⟩ := Emit.pure_eq_ok.1 hrun
  exact ⟨[], by simp, List.Subset.refl _, fun hpre _ _ ↦ ⟨by simp [Instr.flattenAll], h hpre⟩⟩

theorem bind {act : Emit α} {f : α → Emit β} {mid : α → Prop} {post : β → Prop}
    (hact : c.Conforms L passes pre act mid)
    (hf : ∀ a, c.Conforms L passes (pre ∧ mid a) (f a) post) :
    c.Conforms L passes pre (act >>= f) post := by
  intro s b u hrun
  obtain ⟨a, t, hfirst, hsecond⟩ := Emit.bind_eq_ok.1 hrun
  obtain ⟨code, hcode, hreceivers, hconforms⟩ := hact hfirst
  obtain ⟨rest, hrest, hreceivers', hconforms'⟩ := hf a hsecond
  refine ⟨code ++ rest, by rw [hrest, hcode, List.append_assoc],
    List.Subset.trans hreceivers' hreceivers, fun hpre hsub hbinds ↦ ?_⟩
  rw [Instr.flattenAll_append] at hsub ⊢
  obtain ⟨hsub, hsub'⟩ := List.append_subset.1 hsub
  obtain ⟨hallows, hmid⟩ := hconforms hpre hsub hbinds
  obtain ⟨hallows', hpost⟩ := hconforms' ⟨hpre, hmid⟩ hsub' fun bound hbound ↦
    hbinds bound (hreceivers hbound)
  exact ⟨List.forall_mem_append.2 ⟨hallows, hallows'⟩, hpost⟩

theorem mono {act : Emit α} {post post' : α → Prop} (h : c.Conforms L passes pre act post)
    (hpost : ∀ a, post a → post' a) : c.Conforms L passes pre act post' := by
  intro s a t hrun
  obtain ⟨code, hcode, hreceivers, hconforms⟩ := h hrun
  refine ⟨code, hcode, hreceivers, fun hpre hsub hbinds ↦ ?_⟩
  obtain ⟨hallows, ha⟩ := hconforms hpre hsub hbinds
  exact ⟨hallows, hpost a ha⟩

/-- Nothing need be known of the result. -/
theorem forget {act : Emit α} {post : α → Prop} (h : c.Conforms L passes pre act post) :
    c.Conforms L passes pre act fun _ ↦ True := h.mono fun _ _ ↦ trivial

theorem map {act : Emit α} {f : α → β} {post : β → Prop}
    (hact : c.Conforms L passes pre act fun a ↦ post (f a)) :
    c.Conforms L passes pre (f <$> act) post := by
  intro s b t hrun
  obtain ⟨a, hfirst, rfl⟩ := Emit.map_eq_ok.1 hrun
  exact hact hfirst

theorem throw {e : LoweringError} {post : α → Prop} :
    c.Conforms L passes pre (throw e : Emit α) post := by
  intro s a t hrun
  cases hrun

theorem emit {f : Note → Instr} {comment : Option String} {post : Unit → Prop}
    (hflat : ∀ note, (f note).flatten = [f note])
    (h : pre → ∀ note, f note ∈ L.code → L.Allows passes (f note) ∧ post ()) :
    c.Conforms L passes pre (Emission.emit f comment) post := by
  intro s a t hrun
  cases hrun
  refine ⟨[f ⟨s.span, comment⟩], rfl, List.Subset.refl _, fun hpre hsub _ ↦ ?_⟩
  simp only [Instr.flattenAll, hflat, List.append_nil, List.cons_subset, List.mem_singleton,
    forall_eq] at hsub ⊢
  exact h hpre _ hsub.1

/-- An instruction that defines the next value. -/
theorem fresh {f : ValueId → Note → Instr} {comment : Option String} {post : Operand → Prop}
    (hflat : ∀ d note, (f d note).flatten = [f d note])
    (h : pre → ∀ d note, f d note ∈ L.code →
      L.Allows passes (f d note) ∧ post (.computed d)) :
    c.Conforms L passes pre
      (do
        let dest ← freshValue
        Emission.emit (f dest) comment
        return Operand.computed dest)
      post := by
  intro s a t hrun
  cases hrun
  refine ⟨[f s.valueCount ⟨s.span, comment⟩], rfl, List.Subset.refl _, fun hpre hsub _ ↦ ?_⟩
  simp only [Instr.flattenAll, hflat, List.append_nil, List.cons_subset, List.mem_singleton,
    forall_eq] at hsub ⊢
  exact h hpre _ _ hsub.1

theorem define {operation : Operation} {comment : Option String} {post : Operand → Prop}
    (h : pre → ∀ note d, .define note d operation ∈ L.code →
      L.Allows passes (.define note d operation) ∧ post (.computed d)) :
    c.Conforms L passes pre (define operation comment) post :=
  fresh (f := fun d note ↦ .define note d operation) (fun _ _ ↦ rfl)
    fun hpre d note ↦ h hpre note d

variable {a : Region} {value : Operand}

theorem spill (h : pre → L.Ranges value a) :
    c.Conforms L passes pre (spill value) fun temp ↦ L.Ranges (.temp temp) a := by
  intro s temp t hrun
  cases hrun
  refine ⟨[.storeTemp ⟨s.span, none⟩ s.tempCount value], rfl, List.Subset.refl _,
    fun hpre hsub _ ↦ ?_⟩
  simp only [Instr.flattenAll, Instr.flatten, List.append_nil, List.cons_subset,
    List.mem_singleton, forall_eq] at hsub ⊢
  exact ⟨⟨a, h hpre⟩, .temp hsub.1 (h hpre)⟩

/-- What is computed and refers to nothing. -/
theorem plain {operation : Operation} {comment : Option String} (h : operation.isPlain) :
    c.Conforms L passes pre (Emission.define operation comment) (L.Ranges · a) := by
  refine define fun _ note d hmem ↦ ⟨?_, .plain hmem h⟩
  cases operation <;> trivial

theorem computed {operation : Operation} {comment : Option String} (h : operation.isPlain) :
    c.Conforms L passes pre (Emission.define operation comment) fun _ ↦ True :=
  (plain (a := .shared) h).forget

/-- What is computed in the storage of an operand. -/
theorem inside {operation : Operation} {comment : Option String}
    (hbase : operation.base? = some value) (h : pre → L.Ranges value a) :
    c.Conforms L passes pre (Emission.define operation comment) (L.Ranges · a) := by
  refine define fun hpre note d hmem ↦ ⟨?_, .base hmem hbase (h hpre)⟩
  cases operation <;> trivial

theorem load {comment : Option String} {κ : Region} (h : pre → L.Ranges value a)
    (hκ : L.content? a = some κ) :
    c.Conforms L passes pre (Emission.define (.load value) comment) (L.Ranges · κ) :=
  define fun hpre _ _ hmem ↦ ⟨⟨a, h hpre⟩, .load hmem (h hpre) hκ⟩

theorem spillAddress {κ : Region} (h : pre → L.Ranges value κ) (ha : a.owned? = some κ)
    (hne : a ≠ .data true true) : c.Conforms L passes pre (spillAddress value) (L.Ranges · a) :=
  (spill h).bind fun _ ↦ define fun hpre _ _ hmem ↦ ⟨trivial, .tempAddress hmem ha hne hpre.2⟩

/-- The address of what was lowered, in a region where temporaries with its value may be. -/
theorem inMemory {demand : Demand} {κ : Region} (h : pre → L.Ranges value (demand.region κ a))
    (ha : demand = .value → a.owned? = some κ ∧ a ≠ .data true true) :
    c.Conforms L passes pre (demand.inMemory value) (L.Ranges · a) := by
  cases demand with
  | address => exact pure h
  | value => exact spillAddress h (ha rfl).1 (ha rfl).2

theorem fromAddress {demand : Demand} {κ : Region} (h : pre → L.Ranges value a)
    (hκ : L.content? a = some κ) :
    c.Conforms L passes pre (demand.fromAddress value) fun o ↦ L.Ranges o (demand.region κ a) := by
  cases demand with
  | address => exact pure h
  | value => exact load h hκ

theorem offset {isStop : Bool} {length : Operand} {bound : Bound Operand} :
    c.Conforms L passes pre (bound.offset isStop length) fun _ ↦ True := by
  cases bound with
  | omitted | int => exact pure fun _ ↦ trivial
  | fromEnd | index => exact computed rfl

theorem selectIn {length : Operand} {s : Subscript Operand} (h : pre → L.Ranges value a) :
    c.Conforms L passes pre (s.selectIn value length) (L.Ranges · a) := by
  cases s with
  | int => exact inside rfl h
  | fromEnd | index | dynamic =>
    exact (computed rfl).bind fun _ ↦ inside rfl fun hpre ↦ h hpre.1
  | range =>
    exact (computed rfl).bind fun _ ↦ (computed rfl).bind fun _ ↦
      (computed rfl).bind fun _ ↦ (computed rfl).bind fun _ ↦
        (computed rfl).bind fun _ ↦ inside rfl fun hpre ↦ h hpre.1.1.1.1.1
  | rangeLiteral =>
    exact offset.bind fun _ ↦ offset.bind fun _ ↦ (computed rfl).bind fun _ ↦
      inside rfl fun hpre ↦ h hpre.1.1.1

theorem select {s : Subscript Operand} (h : pre → L.Ranges value a) :
    c.Conforms L passes pre (s.select value) (L.Ranges · a) := by
  unfold Subscript.select
  split
  · exact (computed rfl).bind fun _ ↦ selectIn fun hpre ↦ h hpre.1
  · exact selectIn h

theorem valueCode {demand : Demand} {e : Expr} {code : Emit Operand}
    (h : c.Conforms L passes pre code (L.Ranges · (c.valueRegion e))) :
    c.Conforms L passes pre (c.valueCode demand e code)
      (L.Ranges · (demand.region (c.valueRegion e) (c.placeRegion e))) := by
  cases demand with
  | value => exact h
  | address => exact throw

/-- What is read through a bound receiver is computed in a list of its own, which is part of the
guard. -/
theorem conditionalCode {receiver : ExprId} {tested access : Emit Operand}
    (htested : c.Conforms L passes pre tested fun o ↦ ∀ e, c.method.Reaches e → e.id = receiver →
      L.Ranges o (c.valueRegion e))
    (haccess : c.Conforms L passes pre access (L.Ranges · a)) :
    c.Conforms L passes pre (conditionalCode receiver tested access) (L.Ranges · a) := by
  intro s o w hrun
  obtain ⟨value, t, hfirst, hrun⟩ := Emit.bind_eq_ok.1 hrun
  obtain ⟨dest, t', hfresh, hrun⟩ := Emit.bind_eq_ok.1 hrun
  obtain ⟨⟨body, result⟩, v, hguarded, hrun⟩ := Emit.bind_eq_ok.1 hrun
  obtain ⟨u, hbody, rfl, rfl⟩ := guarded_eq_ok.1 hguarded
  cases hfresh
  cases hrun
  obtain ⟨code, hcode, hreceivers, hconforms⟩ := htested hfirst
  obtain ⟨inner, hinner, hreceivers', hconforms'⟩ := haccess hbody
  have hinner : u.code = inner := by simpa using hinner
  refine ⟨code ++ [.guard ⟨u.span, none⟩ t.valueCount value u.code result], ?_, ?_,
    fun hpre hsub hbinds ↦ ?_⟩
  · change t.code ++ _ = _
    rw [hcode, List.append_assoc]
  · intro bound hbound
    obtain ⟨hbound, hne⟩ := List.mem_filter.1 hbound
    rcases List.mem_cons.1 (hreceivers' hbound) with rfl | hbound
    · simp at hne
    · exact hreceivers (List.mem_filter.1 hbound).1
  rw [Instr.flattenAll_append] at hsub ⊢
  simp only [Instr.flattenAll, Instr.flatten, List.append_nil, List.append_subset,
    List.cons_subset, hinner] at hsub ⊢
  obtain ⟨hsub, hguard, hsub'⟩ := hsub
  obtain ⟨hallows, hvalue⟩ := hconforms hpre hsub hbinds
  obtain ⟨hallows', hresult⟩ := hconforms' hpre hsub' fun bound hbound e he hid ↦ by
    rcases List.mem_cons.1 hbound with rfl | hbound
    · exact hvalue e he hid
    · exact hbinds bound (hreceivers (List.mem_filter.1 hbound).1) e he hid
  refine ⟨List.forall_mem_append.2 ⟨hallows, List.forall_mem_cons.2 ⟨trivial, hallows'⟩⟩, ?_⟩
  exact .guard hguard hresult

theorem receiverValue {receiver : Expr} (hreceiver : c.method.Reaches receiver) :
    c.Conforms L passes pre (c.receiverValue receiver) (L.Ranges · (c.valueRegion receiver)) := by
  intro s o t hrun
  cases h : s.receiver? receiver.id with
  | none =>
    rw [receiverValue_of_unbound h] at hrun
    cases hrun
  | some value =>
    rw [receiverValue_of_bound h] at hrun
    cases hrun
    refine ⟨[], by simp, List.Subset.refl _, fun _ _ hbinds ↦ ⟨by simp [Instr.flattenAll], ?_⟩⟩
    obtain ⟨bound, hfind, rfl⟩ := Option.map_eq_some_iff.1 h
    have hid : bound.1 = receiver.id := by simpa using List.find?_some hfind
    exact hbinds bound (List.mem_of_find?_eq_some hfind) receiver hreceiver hid.symm

theorem callCode {demand : Demand} {e : Expr} {callee : String} {returns : ReturnKind} :
    c.Conforms L passes pre (c.callCode demand e callee returns)
      (L.Ranges · (demand.region (c.valueRegion e) (c.placeRegion e))) := by
  have hcall : c.Conforms L passes pre (do
      let dest ← freshValue
      Emission.emit (.call · (some dest) callee [])
      return Operand.computed dest) (L.Ranges · .shared) :=
    fresh (f := fun dest note ↦ .call note (some dest) callee []) (fun _ _ ↦ rfl)
      fun _ _ _ hmem ↦ ⟨rfl, .call hmem⟩
  unfold Context.callCode
  split
  · have haddress : c.Conforms L passes pre (_ >>= demand.fromAddress)
        (L.Ranges · (demand.region (c.valueRegion e) (c.placeRegion e))) :=
      hcall.bind fun dest ↦ (fromAddress (κ := .shared) (fun hpre ↦ hpre.2) rfl).mono fun o ho ↦ by
        cases demand with
        | value => exact ho.le shared_le_valueRegion
        | address => exact ho.le shared_le_placeRegion
    simpa only [bind_assoc, pure_bind] using haddress
  · exact valueCode (hcall.mono fun o ho ↦ ho.le shared_le_valueRegion)

end Conforms

/-! ## Expressions -/

/-- What building and validation give a method in which nothing but variables is made of spans. -/
structure Vetted (c : Context) : Prop extends Grounded c where
  valid : c.validate? = some []
  built : c.types.Built
  apart : c.types.SpansApart
  bound : c.method.BindsRefLocals
  fields {id : ExprId} {receiver : Expr} {name : String} :
    c.method.Reaches (.field id receiver name) → c.types.isSpan (c.typeOf receiver) = false

/-- Where what an expression is lowered to is. -/
def loweredRegion (c : Context) (demand : Demand) (e : Expr) : Region :=
  demand.region (c.valueRegion e) (c.placeRegion e)

/-- Where a variable is stored: in its slot or at the address that the slot holds. -/
def variableRegion (c : Context) (v : VariableId) : Region :=
  if c.holdsAddress (c.method.var v) then c.slotRegion v else .slot v

variable {c : Context} {L : Layout} {passes : String → List Operand → Prop} {pre : Prop}
  {e receiver : Expr} {id : ExprId} {v : VariableId} {code : List Instr} {value : Operand}

theorem loweredRegion_of_isSpan (demand : Demand) (h : c.types.isSpan (c.typeOf e) = false) :
    c.loweredRegion demand e = demand.region .shared (c.storageOf e).region := by
  rw [loweredRegion, valueRegion_of_isSpan h, placeRegion_of_isSpan h]

theorem isSpan_of_array? {type : ArrayType} (h : c.types.array? (c.typeOf e) = some type) :
    c.types.isSpan (c.typeOf e) = false := by
  rw [TypeTable.isSpan, TypeTable.spanParts?, TypeTable.get_of_array? h]
  rfl

/-- What is copied to be in memory has no address. -/
theorem region_of_storageDemand (h : c.storageDemand e = .value) :
    (c.storageOf e).region = .data true false := by
  have hnot : (c.storageOf e).referenceable = false := by
    by_contra hstored
    rw [storageDemand_of_isStored (Bool.eq_true_of_not_eq_false hstored)] at h
    cases h
  rw [storageOf] at hnot ⊢
  cases hs : c.storageOf? e with
  | none => rfl
  | some s =>
    rw [hs, Option.getD_some] at hnot
    rw [Option.getD_some, Storage.region, Storage.isOwn, ((placed_of_storageOf? hs) hnot).1,
      Storage.projectsReadonly, hnot]
    simp [EscapeScope.outlives, EscapeScope.rank]

/-- The address of an expression's storage, or of a temporary with its value. -/
theorem inMemory_conforms (h : pre → L.Ranges value (c.loweredRegion (c.storageDemand e) e)) :
    c.Conforms L passes pre ((c.storageDemand e).inMemory value) (L.Ranges · (c.placeRegion e)) := by
  cases hparts : c.types.spanParts? (c.typeOf e) with
  | none =>
    have hspan := TypeTable.isSpan_eq_false.2 hparts
    rw [placeRegion_of_isSpan hspan]
    refine Conforms.inMemory (κ := .shared) ?_ fun hdemand ↦ ?_
    · rwa [loweredRegion_of_isSpan _ hspan] at h
    · rw [region_of_storageDemand hdemand]
      exact ⟨rfl, by simp⟩
  | some parts =>
    have hplace : c.placeRegion e = .spans true (!parts.2) := by rw [placeRegion, hparts]
    have hvalue : c.valueRegion e ≤ .data true (!parts.2) := by
      rw [valueRegion, hparts]
      exact Region.data_le_data (Bool.le_true _) (Bool.le_refl _)
    rw [hplace]
    refine Conforms.inMemory (κ := .data true (!parts.2)) (fun hpre ↦ ?_) fun _ ↦ ⟨rfl, by simp⟩
    have hlowered := h hpre
    unfold loweredRegion at hlowered
    cases hdemand : c.storageDemand e with
    | address => rwa [hdemand, Demand.region, hplace] at hlowered
    | value =>
      rw [hdemand] at hlowered
      exact hlowered.le hvalue

/-- What is a value only may refer to storage of the activation itself. -/
theorem valueRegion_le {e' : Expr} (htype : c.typeOf e = c.typeOf e')
    (h : ∀ init type, c.storageWith type init [] e' = (type e').bind fun _ ↦ some .temporary) :
    c.valueRegion e ≤ c.valueRegion e' := by
  have htemporary : c.storageOf e' = .temporary := by
    obtain ⟨init, hstorage⟩ := c.storageOf?_eq
    rw [storageOf, hstorage, h]
    cases c.typeForStorage? e' <;> rfl
  rw [valueRegion, valueRegion, htype, htemporary]
  cases c.types.spanParts? (c.typeOf e') with
  | none => trivial
  | some parts => exact Region.data_le_data (Bool.le_true _) (Bool.le_refl _)

/-! ## Variables -/

theorem ranges_place (hv : v < c.method.vars.size) {o : Operand}
    (h : (c.layout code).Ranges o (c.variableRegion v)) :
    (c.layout code).Ranges o (c.placeRegion (.var id v)) := by
  unfold variableRegion at h
  have hslot := layout_region? code hv
  cases hparts : c.types.spanParts? (c.method.var v).type with
  | none =>
    have hspan := TypeTable.isSpan_eq_false.2 hparts
    rw [placeRegion_of_isSpan hspan, storageOf_var id 0]
    cases hheld : c.holdsAddress (c.method.var v) with
    | true => simpa [hheld, slotRegion, hparts] using h
    | false =>
      rw [hheld, if_neg Bool.false_ne_true] at h
      have howned : (c.storageOf (.var 0 v)).region.owned? = some .shared := by
        rw [Storage.region, isOwn_of_not_holdsAddress hspan hheld]
        rfl
      refine h.own hslot howned ?_
      simp [slotRegion, hparts, hheld, Region.le_refl]
  | some parts =>
    have hplace : c.placeRegion (.var id v) = .spans true (!parts.2) := by
      rw [placeRegion, typeOf_var, hparts]
    rw [hplace]
    cases hheld : c.holdsAddress (c.method.var v) with
    | true =>
      rw [hheld, if_pos rfl, slotRegion, hparts, hheld] at h
      exact h.le (Region.spans_le_spans (Bool.le_true _) (Bool.le_refl _))
    | false =>
      rw [hheld, if_neg Bool.false_ne_true] at h
      have howned : (Region.spans true (!parts.2)).owned? = some (.data true (!parts.2)) := rfl
      refine h.own hslot howned ?_
      rw [slotRegion, hparts, hheld]
      exact Region.data_le_data (Bool.le_true _) (Bool.le_refl _)

theorem content_variableRegion (id : ExprId) (hv : v < c.method.vars.size) :
    ∃ κ, (c.layout code).content? (c.variableRegion v) = some κ ∧ κ ≤ c.valueRegion (.var id v) := by
  have hslot := layout_region? code hv
  unfold variableRegion
  cases hheld : c.holdsAddress (c.method.var v) with
  | true =>
    rw [if_pos rfl, slotRegion, hheld, valueRegion, typeOf_var]
    cases c.types.spanParts? (c.method.var v).type with
    | none => exact ⟨.shared, rfl, trivial⟩
    | some parts =>
      exact ⟨_, rfl, Region.data_le_data (Bool.false_le _) (Bool.le_refl _)⟩
  | false =>
    refine ⟨c.slotRegion v, hslot, ?_⟩
    rw [slotRegion, hheld, valueRegion, typeOf_var, storageOf_var id 0]
    cases c.types.spanParts? (c.method.var v).type <;> exact Region.le_refl _

theorem variableAddress_conforms (hv : v < c.method.vars.size) :
    c.Conforms (c.layout code) passes pre (c.variableAddress v)
      ((c.layout code).Ranges · (c.variableRegion v)) := by
  have hslot := layout_region? code hv
  have haddress : c.Conforms (c.layout code) passes pre
      (define (.addressOf v (c.method.var v).name)) ((c.layout code).Ranges · (.slot v)) :=
    Conforms.define fun _ _ _ hmem ↦ ⟨trivial, .addressOf hmem hslot⟩
  refine haddress.bind fun slot ↦ ?_
  unfold variableRegion
  split
  · exact Conforms.load (fun hpre ↦ hpre.2) hslot
  · exact Conforms.pure fun hpre ↦ hpre.2

theorem variableCode_conforms (hv : v < c.method.vars.size) (demand : Demand) :
    c.Conforms (c.layout code) passes pre (c.variableCode demand v)
      ((c.layout code).Ranges · (c.loweredRegion demand (.var id v))) := by
  refine (variableAddress_conforms hv).bind fun address ↦ ?_
  cases demand with
  | value =>
    obtain ⟨κ, hκ, hle⟩ := content_variableRegion id hv
    exact (Conforms.load (fun hpre ↦ hpre.2) hκ).mono fun o ho ↦ ho.le hle
  | address => exact Conforms.pure fun hpre ↦ ranges_place hv hpre.2

/-! ## Fields and accesses -/

theorem receiverSpan_conforms {a : Access} (hindexed : c.indexed a.receiver = .ok a.indexed)
    {lowered : Operand}
    (h : pre → L.Ranges lowered (c.loweredRegion (c.receiverDemand a) a.receiver)) :
    c.Conforms L passes pre (c.receiverSpan a lowered) (L.Ranges · (c.receiverRegion a)) := by
  unfold receiverDemand at h
  unfold Context.receiverSpan receiverDemand receiverRegion
  cases hi : a.indexed with
  | array p =>
    rw [hi] at h
    obtain ⟨type, harray, -⟩ := project?_of_indexed (hi ▸ hindexed)
    rw [← placeRegion_of_isSpan (isSpan_of_array? harray)]
    exact (inMemory_conforms h).bind fun address ↦ Conforms.inside rfl fun hpre ↦ hpre.2
  | span =>
    rw [hi] at h
    exact Conforms.pure h

namespace Vetted

section

variable (hc : c.Vetted)
include hc

theorem isSpan_field (name : String) :
    c.types.isSpan (c.typeOf (.field id receiver name)) = false := by
  rw [typeOf_field]
  cases hfield : (c.types.struct? (c.typeOf receiver)).bind (·.field? name) with
  | none => rfl
  | some field =>
    obtain ⟨type, hstruct, hfield⟩ := Option.bind_eq_some_iff.1 hfield
    refine hc.apart.refs (c.typeOf receiver) ?_
    rw [TypeTable.get_of_struct? hstruct]
    exact List.mem_map_of_mem (List.mem_of_find?_eq_some hfield)

theorem fieldCode {name : String} {demand : Demand} {code : Emit Operand}
    (he : c.method.Reaches (.field id receiver name))
    (h : c.Conforms L passes pre code
      (L.Ranges · (c.loweredRegion (c.ownerDemand receiver) receiver))) :
    c.Conforms L passes pre (c.fieldCode demand receiver name code)
      (L.Ranges · (c.loweredRegion demand (.field id receiver name))) := by
  have hreceiver := hc.fields he
  have hfield : c.types.isSpan (c.typeOf (.field id receiver name)) = false := hc.isSpan_field name
  have howner (lowered : Operand) :
      c.Conforms L passes (pre ∧ L.Ranges lowered (c.loweredRegion (c.ownerDemand receiver) receiver))
        (c.ownerOf receiver lowered) (L.Ranges · (c.placeRegion (.field id receiver name))) := by
    unfold ownerOf ownerDemand
    cases hclass : c.types.isClass (c.typeOf receiver) with
    | true =>
      refine Conforms.pure fun hpre ↦ hpre.2.le ?_
      rw [loweredRegion_of_isSpan _ hreceiver]
      exact shared_le_placeRegion
    | false =>
      refine (inMemory_conforms fun hpre ↦ hpre.2).mono fun o ho ↦ ho.le ?_
      rw [placeRegion_of_isSpan hreceiver, placeRegion_of_isSpan hfield]
      exact hc.region_field hc.valid he hfield hclass
  refine h.bind fun lowered ↦ (howner lowered).bind fun base ↦
    (Conforms.inside rfl fun hpre ↦ hpre.2).bind fun address ↦ ?_
  rw [loweredRegion_of_isSpan _ hfield, placeRegion_of_isSpan hfield]
  exact Conforms.fromAddress (fun hpre ↦ hpre.2) rfl

theorem accessCode {args : List (Argument Expr)} {a : Access} {demand : Demand}
    {code : Emit Operand} {subscript : Emit (Subscript Operand)}
    (he : c.method.Reaches (.element id receiver args))
    (hbind : c.bind (.element id receiver args) = .ok a)
    (hreceiver : c.Conforms L passes pre code
      (L.Ranges · (c.loweredRegion (c.receiverDemand a) receiver)))
    (hsubscript : ∀ pre, c.Conforms L passes pre subscript fun _ ↦ True) :
    c.Conforms L passes pre (c.accessCode demand a code subscript)
      (L.Ranges · (c.loweredRegion demand (.element id receiver args))) := by
  have hregion := hc.receiverRegion_eq hc.valid hc.built hc.apart he hbind
  have hspan := hc.isSpan_element hc.valid hc.built hc.apart he hbind
  obtain ⟨-, rfl, hindexed, -⟩ := bind_eq_ok hbind
  refine hreceiver.bind fun lowered ↦ (receiverSpan_conforms hindexed fun hpre ↦ hpre.2).bind fun span ↦
    (Conforms.spill fun hpre ↦ hpre.2).bind fun temp ↦ (hsubscript _).bind fun subscript ↦
      (Conforms.select fun hpre ↦ hpre.1.2).bind fun selected ↦ ?_
  rw [hregion]
  cases hslice : a.isSlice with
  | true =>
    cases demand with
    | value => exact Conforms.pure fun hpre ↦ hpre.2
    | address => exact Conforms.throw
  | false =>
    rw [hslice] at hspan
    rw [loweredRegion_of_isSpan _ hspan]
    exact Conforms.fromAddress (fun hpre ↦ hpre.2) rfl

theorem spanCode {readonly : Bool} {code : Emit Operand}
    (he : c.method.Reaches (.span id receiver readonly))
    (h : c.Conforms L passes pre code
      (L.Ranges · (c.loweredRegion (c.storageDemand receiver) receiver))) :
    c.Conforms L passes pre (c.spanCode readonly receiver code)
      (L.Ranges · (c.valueRegion (.span id receiver readonly))) := by
  unfold Context.spanCode
  split
  · exact Conforms.throw
  · rename_i type harray
    have hspan := isSpan_of_array? harray
    have hle := hc.region_span hc.valid he harray
    rw [← placeRegion_of_isSpan hspan] at hle
    exact h.bind fun lowered ↦ (inMemory_conforms fun hpre ↦ hpre.2).bind fun address ↦
      Conforms.inside rfl fun hpre ↦ hpre.2.le hle

end

/-! ## Lowering -/

mutual

/-- The value of an expression and the address of its storage are in their regions. -/
theorem lower (hc : c.Vetted) (demand : Demand) (pre : Prop) : (e : Expr) → c.method.Reaches e →
    c.Conforms (c.layout code) passes pre (c.lower demand e)
      ((c.layout code).Ranges · (c.loweredRegion demand e))
  | .var id v, he => variableCode_conforms (hc.orderly.roots id v (he.records hc.orderly)) demand
  | .field _ receiver _, he => hc.fieldCode he (lower hc _ _ receiver (he.child List.mem_cons_self))
  | .element id receiver args, he => by
    unfold Context.lower
    split
    · exact Conforms.throw
    · rename_i a hbind
      exact hc.accessCode he hbind (lower hc _ _ receiver (he.child List.mem_cons_self))
        fun _ ↦ lowerSubscript hc _ a args fun arg harg ↦
          he.child (List.mem_cons_of_mem _ (List.mem_map_of_mem harg))
  | .call .., _ => Conforms.callCode
  | .int .., _ => Conforms.valueCode (Conforms.pure fun _ ↦ .int)
  | .bool .., _ => Conforms.valueCode (Conforms.pure fun _ ↦ .bool)
  | .string .., _ => Conforms.valueCode Conforms.throw
  | .fromEnd _ count, he => Conforms.valueCode <|
      (lower hc .value _ count (he.child List.mem_cons_self)).bind fun _ ↦ Conforms.plain rfl
  | .range _ start stop, he => Conforms.valueCode <|
      (lowerIndex hc _ false start fun bound hbound ↦
        he.child (List.mem_append_left _ (Option.mem_toList.2 hbound))).bind fun _ ↦
      (lowerIndex hc _ true stop fun bound hbound ↦
        he.child (List.mem_append_right _ (Option.mem_toList.2 hbound))).bind fun _ ↦
          Conforms.plain rfl
  | .default .., _ => Conforms.valueCode (Conforms.plain rfl)
  | .span _ operand _, he => Conforms.valueCode <|
      hc.spanCode he (lower hc _ _ operand (he.child List.mem_cons_self))
  | .conditional id receiver access, he => by
    have hreceiver : c.method.Reaches receiver := he.child List.mem_cons_self
    have haccess : c.method.Reaches access :=
      he.child (List.mem_cons_of_mem _ List.mem_cons_self)
    refine Conforms.valueCode (Conforms.conditionalCode
      ((lower hc .value _ receiver hreceiver).mono fun o ho e he hid ↦ ?_)
      ((lower hc .value _ access haccess).mono fun o ho ↦ ho.le ?_))
    · rwa [(he.records hc.orderly).eq_of_id (hreceiver.records hc.orderly) hid]
    · exact valueRegion_le rfl fun _ _ ↦ rfl
  | .placeholder id receiver, he => by
    refine Conforms.valueCode
      ((Conforms.receiverValue (he.child List.mem_cons_self)).mono fun o ho ↦ ho.le ?_)
    exact valueRegion_le rfl fun _ _ ↦ rfl

theorem lowerSubscript (hc : c.Vetted) (pre : Prop) (a : Access) : (args : List (Argument Expr)) →
    (∀ arg ∈ args, c.method.Reaches arg.value) →
      c.Conforms (c.layout code) passes pre (c.lowerSubscript a args) fun _ ↦ True
  | args, hargs => by
    unfold Context.lowerSubscript
    split
    · rename_i id count _ _
      have he := hargs _ List.mem_cons_self
      exact Conforms.map ((lower hc .value _ count (he.child List.mem_cons_self)).forget)
    · rename_i id start stop _ _
      have he := hargs _ List.mem_cons_self
      exact (lowerBound hc _ start fun bound hbound ↦
        he.child (List.mem_append_left _ (Option.mem_toList.2 hbound))).bind fun _ ↦
          (lowerBound hc _ stop fun bound hbound ↦
            he.child (List.mem_append_right _ (Option.mem_toList.2 hbound))).bind fun _ ↦
              Conforms.pure fun _ ↦ trivial
    · rename_i value _ _ _ _
      exact Conforms.map ((lower hc .value _ value (hargs _ List.mem_cons_self)).forget)
    · exact Conforms.throw

theorem lowerBound (hc : c.Vetted) (pre : Prop) : (bound : Option Expr) →
    (∀ e ∈ bound, c.method.Reaches e) →
      c.Conforms (c.layout code) passes pre (c.lowerBound bound) fun _ ↦ True
  | none, _ => Conforms.pure fun _ ↦ trivial
  | some bound, hbound => by
    have he := hbound bound rfl
    unfold Context.lowerBound
    split
    · exact Conforms.pure fun _ ↦ trivial
    · rename_i count heq
      cases heq
      exact Conforms.map ((lower hc .value _ count (he.child List.mem_cons_self)).forget)
    · rename_i heq
      cases heq
      exact Conforms.map ((lower hc .value _ bound he).forget)

theorem lowerIndex (hc : c.Vetted) (pre : Prop) (isStop : Bool) : (bound : Option Expr) →
    (∀ e ∈ bound, c.method.Reaches e) →
      c.Conforms (c.layout code) passes pre (c.lowerIndex isStop bound) fun _ ↦ True
  | none, _ => Conforms.computed rfl
  | some bound, hbound => (lower hc .value _ bound (hbound bound rfl)).bind fun value ↦ by
    unfold indexBy
    split
    · exact Conforms.computed rfl
    · exact Conforms.pure fun _ ↦ trivial

end

end Vetted

end Context

end InlineArrays
