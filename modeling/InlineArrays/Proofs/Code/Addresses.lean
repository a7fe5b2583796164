import InlineArrays.Code.OfMethod
import InlineArrays.Proofs.Access
import InlineArrays.Proofs.Code.Emission
import InlineArrays.Proofs.Parts

/-!
# What has an address

Code for the address of an expression is emitted for variables, fields, elements and calls by
reference.  Where an address is wanted of anything else the emission fails; the parts of an
expression whose address it needs are the receivers of fields and of elements of inline arrays, and
the operands of span conversions.
-/

namespace InlineArrays

open Emission

variable {α β : Type}

/-- The emission asks for an address that there is none of. -/
def Unaddressed (act : Emit α) : Prop := ∃ s text t, act s = .error (.notAddressable text) t

/-- The emission succeeds from some state. -/
def Succeeds (act : Emit α) : Prop := ∃ s a t, act s = .ok a t

theorem Emit.bind_eq_error {act : Emit α} {f : α → Emit β} {s u : Emission} {e : LoweringError} :
    (act >>= f) s = .error e u ↔
      act s = .error e u ∨ ∃ a t, act s = .ok a t ∧ f a t = .error e u := by
  change (EStateM.bind act f) s = _ ↔ _
  cases h : act s with
  | ok a t =>
    simp only [EStateM.bind, h, reduceCtorEq, false_or]
    exact ⟨fun hf ↦ ⟨a, t, rfl, hf⟩, fun ⟨_, _, ha, hf⟩ ↦ by cases ha; exact hf⟩
  | error e' t => simp [EStateM.bind, h]

namespace Succeeds

theorem bind {act : Emit α} {f : α → Emit β} (h : Succeeds (act >>= f)) :
    Succeeds act ∧ ∃ a, Succeeds (f a) := by
  obtain ⟨s, b, u, hrun⟩ := h
  obtain ⟨a, t, hact, hf⟩ := Emit.bind_eq_ok.1 hrun
  exact ⟨⟨s, a, t, hact⟩, a, t, b, u, hf⟩

theorem map {act : Emit α} {f : α → β} (h : Succeeds (f <$> act)) : Succeeds act := by
  obtain ⟨s, b, u, hrun⟩ := h
  obtain ⟨a, hact, -⟩ := Emit.map_eq_ok.1 hrun
  exact ⟨s, a, u, hact⟩

theorem guarded {receiver : ExprId} {tested : Operand} {body : Emit Operand}
    (h : Succeeds (guarded receiver tested body)) : Succeeds body := by
  obtain ⟨s, ⟨code, result⟩, t, hrun⟩ := h
  obtain ⟨u, hbody, -⟩ := guarded_eq_ok.1 hrun
  exact ⟨_, result, u, hbody⟩

theorem not_throw {e : LoweringError} : ¬ Succeeds (throw e : Emit α) := by
  rintro ⟨s, a, t, hrun⟩
  cases hrun

end Succeeds

/-- The emission fails on no missing address. -/
abbrev Addressed (act : Emit α) : Prop := ¬ Unaddressed act

namespace Addressed

theorem pure {a : α} : Addressed (pure a : Emit α) := by
  rintro ⟨s, text, t, hrun⟩
  cases hrun

theorem throw {e : LoweringError} (h : ∀ text, e ≠ .notAddressable text) :
    Addressed (throw e : Emit α) := by
  rintro ⟨s, text, t, hrun⟩
  cases hrun
  exact h text rfl

theorem bind {act : Emit α} {f : α → Emit β} (hact : Addressed act) (hf : ∀ a, Addressed (f a)) :
    Addressed (act >>= f) := by
  rintro ⟨s, text, u, hrun⟩
  rcases Emit.bind_eq_error.1 hrun with hrun | ⟨a, t, -, hrun⟩
  · exact hact ⟨s, text, u, hrun⟩
  · exact hf a ⟨t, text, u, hrun⟩

theorem map {act : Emit α} {f : α → β} (hact : Addressed act) : Addressed (f <$> act) := by
  rintro ⟨s, text, u, hrun⟩
  change EStateM.map f act s = _ at hrun
  unfold EStateM.map at hrun
  split at hrun
  · cases hrun
  · cases hrun
    exact hact ⟨s, text, u, ‹_›⟩

/-- Most steps of an emission cannot fail. -/
theorem of_ok {act : Emit α} (h : ∀ s, ∃ a t, act s = .ok a t) : Addressed act := by
  rintro ⟨s, text, u, hrun⟩
  obtain ⟨a, t, hok⟩ := h s
  rw [hok] at hrun
  cases hrun

theorem define {operation : Operation} {comment : Option String} :
    Addressed (define operation comment) := of_ok fun _ ↦ ⟨_, _, rfl⟩

theorem spill {value : Operand} : Addressed (spill value) := of_ok fun _ ↦ ⟨_, _, rfl⟩

theorem emit {make : Note → Instr} {comment : Option String} :
    Addressed (Emission.emit make comment) := of_ok fun _ ↦ ⟨_, _, rfl⟩

theorem freshValue : Addressed freshValue := of_ok fun _ ↦ ⟨_, _, rfl⟩

theorem inMemory {demand : Demand} {lowered : Operand} : Addressed (demand.inMemory lowered) := by
  cases demand with
  | value => exact spill.bind fun _ ↦ define
  | address => exact pure

theorem fromAddress {demand : Demand} {address : Operand} :
    Addressed (demand.fromAddress address) := by
  cases demand with
  | value => exact define
  | address => exact pure

theorem offset {isStop : Bool} {length : Operand} {bound : Bound Operand} :
    Addressed (bound.offset isStop length) := by
  cases bound with
  | omitted | int => exact pure
  | fromEnd | index => exact define

theorem select {span : Operand} {s : Subscript Operand} : Addressed (s.select span) := by
  have hselect (length : Operand) : Addressed (s.selectIn span length) := by
    cases s with
    | int => exact define
    | fromEnd | index | dynamic => exact define.bind fun _ ↦ define
    | range => exact define.bind fun _ ↦ define.bind fun _ ↦ define.bind fun _ ↦
        define.bind fun _ ↦ define.bind fun _ ↦ define
    | rangeLiteral => exact offset.bind fun _ ↦ offset.bind fun _ ↦ define.bind fun _ ↦ define
  unfold Subscript.select
  split
  · exact define.bind fun length ↦ hselect length
  · exact hselect _

theorem mapM {f : α → Emit β} {l : List α} (hf : ∀ a ∈ l, Addressed (f a)) :
    Addressed (l.mapM f) := by
  induction l with
  | nil =>
    rw [List.mapM_nil]
    exact pure
  | cons a l ih =>
    rw [List.mapM_cons]
    exact (hf a (by simp)).bind fun _ ↦ (ih fun a ha ↦ hf a (by simp [ha])).bind fun _ ↦ pure

theorem guarded {receiver : ExprId} {tested : Operand} {body : Emit Operand}
    (h : Addressed body) : Addressed (guarded receiver tested body) := by
  rintro ⟨s, text, u, hrun⟩
  simp only [Emission.guarded] at hrun
  split at hrun
  · cases hrun
  · cases hrun
    exact h ⟨_, text, _, ‹_›⟩

end Addressed

namespace Context

variable {c : Context} {demand : Demand}

/-- Whether the code of an expression may yield the address of its storage. -/
def addressable (c : Context) : Expr → Bool
  | .var .. | .field .. => true
  | .element id receiver args =>
    match c.bind (.element id receiver args) with
    | .ok a => !a.isSlice
    | .error _ => true
  | .call _ _ returns _ => returns.isByRef
  | _ => false

/-- An expression that counts as stored but has no address: a span that no variable holds. -/
def detached (c : Context) (e : Expr) : Bool :=
  c.storageDemand e == .address && !c.addressable e

/-- The part whose storage the code of an expression refers to. -/
def refersTo? (c : Context) : Expr → Option Expr
  | .field _ receiver _ => if c.types.isClass (c.typeOf receiver) then none else some receiver
  | .element id receiver args =>
    match c.bind (.element id receiver args) with
    | .ok a =>
      match a.indexed with
      | .array _ => some receiver
      | .span .. => none
    | .error _ => none
  | .span _ operand _ => if (c.types.array? (c.typeOf operand)).isSome then some operand else none
  | _ => none

/-- Nothing that the code of an expression refers to is detached. -/
def Attached (c : Context) (e : Expr) : Prop :=
  ∀ part ∈ e.parts, ∀ target, c.refersTo? part = some target → c.detached target = false

section

variable {id : ExprId} {e e' : Expr} {args : List (Argument Expr)} {bound bound' : Option Expr}

theorem Attached.mono (h : c.Attached e) (hparts : ∀ part ∈ e'.parts, part ∈ e.parts) :
    c.Attached e' := fun part hpart ↦ h part (hparts part hpart)

theorem Attached.field {name : String} (h : c.Attached (.field id e name)) : c.Attached e :=
  h.mono fun part hpart ↦ by simp [Expr.parts_field, hpart]

theorem Attached.receiver (h : c.Attached (.element id e args)) : c.Attached e :=
  h.mono fun part hpart ↦ by simp [Expr.parts_element, hpart]

theorem Attached.argument {name : Option String} {modifier : Modifier}
    (h : c.Attached (.element id e [⟨e', name, modifier⟩])) : c.Attached e' :=
  h.mono fun part hpart ↦ by simp [Expr.parts_element, hpart]

theorem Attached.operand {readonly : Bool} (h : c.Attached (.span id e readonly)) : c.Attached e :=
  h.mono fun part hpart ↦ by simp [Expr.parts_span, hpart]

theorem Attached.count (h : c.Attached (.fromEnd id e)) : c.Attached e :=
  h.mono fun part hpart ↦ by simp [Expr.parts_fromEnd, hpart]

theorem Attached.start (h : c.Attached (.range id (some e) bound)) : c.Attached e :=
  h.mono fun part hpart ↦ by simp [Expr.parts_range, hpart]

theorem Attached.stop (h : c.Attached (.range id bound (some e))) : c.Attached e :=
  h.mono fun part hpart ↦ by simp [Expr.parts_range, hpart]

theorem Attached.tested (h : c.Attached (.conditional id e e')) : c.Attached e :=
  h.mono fun part hpart ↦ by simp [Expr.parts_conditional, hpart]

theorem Attached.access (h : c.Attached (.conditional id e e')) : c.Attached e' :=
  h.mono fun part hpart ↦ by simp [Expr.parts_conditional, hpart]

end

theorem addressable_of_attached {e target : Expr} (h : c.Attached e)
    (htarget : c.refersTo? e = some target) (hdemand : c.storageDemand target = .address) :
    c.addressable target := by
  have hdetached := h e e.mem_parts_self target htarget
  simpa [detached, hdemand] using hdetached

theorem valueCode_addressed {e : Expr} {code : Emit Operand} (hdemand : demand ≠ .address)
    (h : Addressed code) : Addressed (c.valueCode demand e code) := by
  cases demand with
  | value => exact h
  | address => exact absurd rfl hdemand

theorem fieldCode_addressed {receiver : Expr} {name : String} {code : Emit Operand}
    (h : Addressed code) : Addressed (c.fieldCode demand receiver name code) := by
  have howner (lowered : Operand) : Addressed (c.ownerOf receiver lowered) := by
    unfold ownerOf
    split
    · exact .pure
    · exact .inMemory
  exact h.bind fun lowered ↦ (howner lowered).bind fun _ ↦ Addressed.define.bind fun _ ↦
    .fromAddress

theorem variableCode_addressed {target : VariableId} :
    Addressed (c.variableCode demand target) := by
  have haddress : Addressed (c.variableAddress target) := by
    refine Addressed.define.bind fun slot ↦ ?_
    split
    · exact .define
    · exact .pure
  refine haddress.bind fun address ↦ ?_
  cases demand with
  | value => exact .define
  | address => exact .pure

theorem accessCode_addressed {a : Access} {receiver : Emit Operand}
    {subscript : Emit (Subscript Operand)} (hdemand : demand = .address → a.isSlice = false)
    (hreceiver : Addressed receiver) (hsubscript : Addressed subscript) :
    Addressed (c.accessCode demand a receiver subscript) := by
  have hspan (lowered : Operand) : Addressed (c.receiverSpan a lowered) := by
    unfold receiverSpan
    split
    · exact Addressed.inMemory.bind fun _ ↦ .define
    · exact .pure
  refine hreceiver.bind fun lowered ↦ (hspan lowered).bind fun span ↦ Addressed.spill.bind fun temp ↦
    hsubscript.bind fun subscript ↦ Addressed.select.bind fun selected ↦ ?_
  split
  · rename_i hslice
    cases demand with
    | value => exact .pure
    | address => exact absurd (hdemand rfl) (by simp [hslice])
  · exact .fromAddress

theorem callCode_addressed {e : Expr} {callee : String} {returns : ReturnKind}
    (hdemand : demand = .address → returns.isByRef) :
    Addressed (c.callCode demand e callee returns) := by
  unfold callCode
  split
  · exact Addressed.freshValue.bind fun _ ↦ Addressed.emit.bind fun _ ↦ .fromAddress
  · rename_i hreturns
    refine valueCode_addressed (fun h ↦ hreturns (hdemand h)) ?_
    exact Addressed.freshValue.bind fun _ ↦ Addressed.emit.bind fun _ ↦ .pure

theorem indexBy_addressed {e : Expr} {value : Operand} : Addressed (c.indexBy e value) := by
  unfold indexBy
  split
  · exact .define
  · exact .pure

theorem receiverValue_addressed {receiver : Expr} : Addressed (c.receiverValue receiver) := by
  rintro ⟨s, text, t, hrun⟩
  cases h : s.receiver? receiver.id with
  | none =>
    rw [receiverValue_of_unbound h] at hrun
    cases hrun
  | some value =>
    rw [receiverValue_of_bound h] at hrun
    cases hrun

/-- The bounds of a range are attached. -/
def BoundAttached (c : Context) (bound : Option Expr) : Prop := ∀ e, bound = some e → c.Attached e

mutual

/-- The emission of an expression does not fail on a missing address if the expression has one where
it is wanted, and so has everything that its code refers to. -/
theorem lower_addressed :
    (demand : Demand) → (e : Expr) → (demand = .address → c.addressable e) → c.Attached e →
      Addressed (c.lower demand e)
  | _, .var .., _, _ => variableCode_addressed
  | _, .field id receiver name, _, h => by
    refine fieldCode_addressed (lower_addressed _ receiver (fun hdemand ↦ ?_) h.field)
    unfold ownerDemand at hdemand
    split at hdemand
    · cases hdemand
    · exact addressable_of_attached h (by simp [refersTo?, ‹¬_›]) hdemand
  | demand, .element id receiver args, hdemand, h => by
    unfold lower
    split
    · exact .throw nofun
    · rename_i a hbind
      obtain ⟨-, hreceiver, -, arg, rfl, -⟩ := bind_eq_ok hbind
      refine accessCode_addressed (fun haddress ↦ ?_) ?_
        (lowerSubscript_addressed a [arg] (by simpa using h.argument))
      · simpa [addressable, hbind] using hdemand haddress
      · refine lower_addressed _ receiver (fun hreceiverDemand ↦ ?_) h.receiver
        unfold receiverDemand at hreceiverDemand
        split at hreceiverDemand
        · rename_i harray
          rw [hreceiver] at hreceiverDemand
          exact addressable_of_attached h (by simp [refersTo?, hbind, harray]) hreceiverDemand
        · cases hreceiverDemand
  | _, .call .., hdemand, _ => callCode_addressed hdemand
  | _, .int .., hdemand, _ => valueCode_addressed (fun h ↦ nomatch hdemand h) .pure
  | _, .bool .., hdemand, _ => valueCode_addressed (fun h ↦ nomatch hdemand h) .pure
  | _, .string .., hdemand, _ => valueCode_addressed (fun h ↦ nomatch hdemand h) (.throw nofun)
  | _, .fromEnd _ count, hdemand, h =>
    valueCode_addressed (fun h ↦ nomatch hdemand h) <|
      (lower_addressed .value count nofun h.count).bind fun _ ↦ .define
  | _, .range _ start stop, hdemand, h =>
    valueCode_addressed (fun h ↦ nomatch hdemand h) <|
      (lowerIndex_addressed false start fun _ he ↦ (he ▸ h).start).bind fun _ ↦
        (lowerIndex_addressed true stop fun _ he ↦ (he ▸ h).stop).bind fun _ ↦ .define
  | _, .default .., hdemand, _ => valueCode_addressed (fun h ↦ nomatch hdemand h) .define
  | _, .span _ operand _, hdemand, h => by
    unfold lower
    refine valueCode_addressed (fun h ↦ nomatch hdemand h) ?_
    unfold spanCode
    split
    · exact .throw nofun
    · rename_i type harray
      refine (lower_addressed _ operand (fun hoperand ↦ ?_) h.operand).bind fun _ ↦
        Addressed.inMemory.bind fun _ ↦ .define
      exact addressable_of_attached h (by simp [refersTo?, harray]) hoperand
  | _, .conditional _ receiver access, hdemand, h => by
    unfold lower
    refine valueCode_addressed (fun h ↦ nomatch hdemand h) ?_
    exact (lower_addressed .value receiver nofun h.tested).bind fun _ ↦
      Addressed.freshValue.bind fun _ ↦
        (Addressed.guarded (lower_addressed .value access nofun h.access)).bind fun _ ↦
          Addressed.emit.bind fun _ ↦ .pure
  | _, .placeholder .., hdemand, _ =>
    valueCode_addressed (fun h ↦ nomatch hdemand h) receiverValue_addressed

theorem lowerSubscript_addressed (a : Access) :
    (args : List (Argument Expr)) → (∀ arg ∈ args, c.Attached arg.value) →
      Addressed (c.lowerSubscript a args)
  | args, h => by
    unfold lowerSubscript
    split
    · rename_i id count name modifier
      have harg : c.Attached (.fromEnd id count) := h _ (List.mem_singleton.2 rfl)
      exact (lower_addressed .value count nofun harg.count).map
    · rename_i id start stop name modifier
      have harg : c.Attached (.range id start stop) := h _ (List.mem_singleton.2 rfl)
      exact (lowerBound_addressed start fun _ he ↦ (he ▸ harg).start).bind fun _ ↦
        (lowerBound_addressed stop fun _ he ↦ (he ▸ harg).stop).bind fun _ ↦ .pure
    · rename_i value name modifier _ _
      exact (lower_addressed .value value nofun (h _ (List.mem_singleton.2 rfl))).map
    · exact .throw nofun

theorem lowerBound_addressed :
    (bound : Option Expr) → c.BoundAttached bound → Addressed (c.lowerBound bound)
  | none, _ => .pure
  | some bound, h => by
    unfold lowerBound
    split
    · exact .pure
    · rename_i count heq
      cases heq
      exact (lower_addressed .value count nofun (h _ rfl).count).map
    · rename_i heq
      cases heq
      exact (lower_addressed .value bound nofun (h _ rfl)).map

theorem lowerIndex_addressed (isStop : Bool) :
    (bound : Option Expr) → c.BoundAttached bound → Addressed (c.lowerIndex isStop bound)
  | none, _ => .define
  | some bound, h => (lower_addressed .value bound nofun (h _ rfl)).bind fun _ ↦ indexBy_addressed

end

theorem detached_eq_false {e : Expr} (h : c.storageDemand e = .address → c.addressable e) :
    c.detached e = false := by
  unfold detached
  cases hdemand : c.storageDemand e with
  | value => rfl
  | address => simp [h hdemand]

/-- Only values are emitted as values. -/
theorem succeeds_valueCode {e : Expr} {code : Emit Operand}
    (h : Succeeds (c.valueCode demand e code)) : demand = .value ∧ Succeeds code := by
  cases demand with
  | value => exact ⟨rfl, h⟩
  | address => exact absurd h Succeeds.not_throw

/-! ## What is lowered -/

/-- It holds of everything that is lowered, and of literals of indices and ranges, which may only say
what is selected. -/
structure HoldsOfLowered (c : Context) (P : Expr → Prop) : Prop where
  lowered : ∀ demand e, Succeeds (c.lower demand e) → P e
  fromEnd : ∀ id count, P (.fromEnd id count)
  range : ∀ id start stop, P (.range id start stop)

section

variable {P : Expr → Prop}

mutual

/-- What holds of everything that is lowered holds of the parts of what is. -/
theorem HoldsOfLowered.parts (hP : c.HoldsOfLowered P) :
    (demand : Demand) → (e : Expr) → Succeeds (c.lower demand e) → ∀ part ∈ e.parts, P part
  | demand, .var id target, h => by
    simpa [Expr.parts, Expr.uses] using hP.lowered demand _ h
  | demand, .field id receiver name, h => by
    rw [Expr.parts_field]
    exact List.forall_mem_cons.2 ⟨hP.lowered demand _ h, hP.parts _ receiver h.bind.1⟩
  | demand, .element id receiver args, h => by
    rw [Expr.parts_element]
    refine List.forall_mem_cons.2 ⟨hP.lowered demand _ h, ?_⟩
    unfold lower at h
    split at h
    · exact absurd h Succeeds.not_throw
    · rename_i a hbind
      obtain ⟨hreceiver, lowered, h⟩ := h.bind
      obtain ⟨-, span, h⟩ := h.bind
      obtain ⟨-, temp, h⟩ := h.bind
      refine List.forall_mem_append.2 ⟨hP.parts _ receiver hreceiver, fun part hpart ↦ ?_⟩
      obtain ⟨arg, hmem, hpart⟩ := List.mem_flatMap.1 hpart
      exact hP.subscript a args h.bind.1 arg hmem part hpart
  | demand, .call .., h => by
    simpa [Expr.parts, Expr.uses] using hP.lowered demand _ h
  | demand, .int .., h => by
    simpa [Expr.parts, Expr.uses] using hP.lowered demand _ h
  | demand, .bool .., h => by
    simpa [Expr.parts, Expr.uses] using hP.lowered demand _ h
  | demand, .string .., h => by
    simpa [Expr.parts, Expr.uses] using hP.lowered demand _ h
  | _, .fromEnd _ count, h => by
    rw [Expr.parts_fromEnd]
    exact List.forall_mem_cons.2
      ⟨hP.fromEnd _ _, hP.parts .value count (succeeds_valueCode h).2.bind.1⟩
  | _, .range _ start stop, h => by
    obtain ⟨hstart, _, hrest⟩ := (succeeds_valueCode h).2.bind
    rw [Expr.parts_range]
    exact List.forall_mem_cons.2 ⟨hP.range _ _ _, List.forall_mem_append.2
      ⟨hP.index false start hstart, hP.index true stop hrest.bind.1⟩⟩
  | demand, .default .., h => by
    simpa [Expr.parts, Expr.uses] using hP.lowered demand _ h
  | demand, .span id operand readonly, h => by
    rw [Expr.parts_span]
    refine List.forall_mem_cons.2 ⟨hP.lowered demand _ h, ?_⟩
    unfold lower at h
    have h := (succeeds_valueCode h).2
    unfold spanCode at h
    split at h
    · exact absurd h Succeeds.not_throw
    · exact hP.parts _ operand h.bind.1
  | demand, .conditional id receiver access, h => by
    rw [Expr.parts_conditional]
    refine List.forall_mem_cons.2 ⟨hP.lowered demand _ h, ?_⟩
    obtain ⟨hreceiver, tested, h⟩ := (succeeds_valueCode h).2.bind
    obtain ⟨-, dest, h⟩ := h.bind
    exact List.forall_mem_append.2
      ⟨hP.parts .value receiver hreceiver, hP.parts .value access h.bind.1.guarded⟩
  | demand, .placeholder .., h => by
    simpa [Expr.parts, Expr.uses] using hP.lowered demand _ h

theorem HoldsOfLowered.subscript (hP : c.HoldsOfLowered P) (a : Access) :
    (args : List (Argument Expr)) → Succeeds (c.lowerSubscript a args) →
      ∀ arg ∈ args, ∀ part ∈ arg.value.parts, P part
  | args, h => by
    unfold lowerSubscript at h
    split at h
    · rename_i count name modifier
      refine List.forall_mem_singleton.2 ?_
      rw [Expr.parts_fromEnd]
      exact List.forall_mem_cons.2 ⟨hP.fromEnd _ _, hP.parts .value count h.map⟩
    · rename_i start stop name modifier
      obtain ⟨hstart, _, hrest⟩ := h.bind
      refine List.forall_mem_singleton.2 ?_
      rw [Expr.parts_range]
      exact List.forall_mem_cons.2 ⟨hP.range _ _ _, List.forall_mem_append.2
        ⟨hP.bound start hstart, hP.bound stop hrest.bind.1⟩⟩
    · rename_i value name modifier _ _
      exact List.forall_mem_singleton.2 (hP.parts .value value h.map)
    · exact absurd h Succeeds.not_throw

theorem HoldsOfLowered.bound (hP : c.HoldsOfLowered P) :
    (bound : Option Expr) → Succeeds (c.lowerBound bound) →
      ∀ part ∈ bound.elim [] Expr.parts, P part
  | none, _ => nofun
  | some bound, h => by
    unfold lowerBound at h
    split at h
    · rename_i heq
      cases heq
    · rename_i count heq
      cases heq
      rw [Option.elim_some, Expr.parts_fromEnd]
      exact List.forall_mem_cons.2 ⟨hP.fromEnd _ _, hP.parts .value count h.map⟩
    · rename_i heq
      cases heq
      exact hP.parts .value bound h.map

theorem HoldsOfLowered.index (hP : c.HoldsOfLowered P) (isStop : Bool) :
    (bound : Option Expr) → Succeeds (c.lowerIndex isStop bound) →
      ∀ part ∈ bound.elim [] Expr.parts, P part
  | none, _ => nofun
  | some bound, h => hP.parts .value bound h.bind.1

end

end

/-- Where an address is emitted, there is one. -/
theorem addressable_of_succeeds {e : Expr} (h : Succeeds (c.lower .address e)) :
    c.addressable e := by
  cases e with
  | var | field => rfl
  | element id receiver args =>
    unfold lower at h
    rw [addressable]
    split at h
    · exact absurd h Succeeds.not_throw
    · rename_i a hbind
      obtain ⟨-, lowered, h⟩ := h.bind
      obtain ⟨-, span, h⟩ := h.bind
      obtain ⟨-, temp, h⟩ := h.bind
      obtain ⟨-, subscript, h⟩ := h.bind
      obtain ⟨-, selected, h⟩ := h.bind
      split at h
      · exact absurd h Succeeds.not_throw
      · rename_i hslice
        rw [hbind]
        simpa using hslice
  | call _ callee returns _ =>
    have h : Succeeds (c.callCode .address _ callee returns) := h
    unfold callCode at h
    split at h
    · assumption
    · exact absurd h Succeeds.not_throw
  | _ => cases (succeeds_valueCode h).1

/-- What the code of an expression refers to is lowered to its address, or to its value if it counts
as having none. -/
theorem detached_of_refersTo? {e target : Expr} (h : Succeeds (c.lower demand e))
    (htarget : c.refersTo? e = some target) : c.detached target = false := by
  have hlowered (h : Succeeds (c.lower (c.storageDemand target) target)) :
      c.detached target = false :=
    detached_eq_false fun hdemand ↦ addressable_of_succeeds (hdemand ▸ h)
  cases e with
  | field id receiver name =>
    simp only [refersTo?] at htarget
    split at htarget
    · cases htarget
    · rename_i hclass
      cases htarget
      have h := h.bind.1
      rw [ownerDemand, if_neg hclass] at h
      exact hlowered h
  | element id receiver args =>
    unfold lower at h
    split at h
    · exact absurd h Succeeds.not_throw
    · rename_i a hbind
      obtain ⟨-, hreceiver, -, -⟩ := bind_eq_ok hbind
      simp only [refersTo?, hbind] at htarget
      split at htarget
      · rename_i harray
        cases htarget
        have h := h.bind.1
        rw [receiverDemand, harray] at h
        dsimp only at h
        rw [hreceiver] at h
        exact hlowered h
      · cases htarget
  | span id operand readonly =>
    unfold lower at h
    have h := (succeeds_valueCode h).2
    unfold spanCode at h
    simp only [refersTo?] at htarget
    split at h
    · exact absurd h Succeeds.not_throw
    · split at htarget
      · cases htarget
        exact hlowered h.bind.1
      · cases htarget
  | _ => cases htarget

/-- Conversely, where code is emitted nothing lacked an address. -/
theorem attached_of_succeeds (demand : Demand) (e : Expr) (h : Succeeds (c.lower demand e)) :
    (demand = .address → c.addressable e) ∧ c.Attached e :=
  ⟨fun hdemand ↦ addressable_of_succeeds (hdemand ▸ h),
    HoldsOfLowered.parts
      (P := fun part ↦ ∀ target, c.refersTo? part = some target → c.detached target = false)
      ⟨fun _ _ h _ htarget ↦ detached_of_refersTo? h htarget, nofun, nofun⟩ demand e h⟩

/-- An access is lowered as what it is bound to. -/
theorem exists_bind_of_succeeds {e : Expr} (h : Succeeds (c.lower demand e)) :
    ∀ part ∈ e.parts, part.isElement → ∃ a, c.bind part = .ok a :=
  have hself (demand : Demand) (e : Expr) (h : Succeeds (c.lower demand e)) (helement : e.isElement) :
      ∃ a, c.bind e = .ok a := by
    cases e with
    | element id receiver args =>
      unfold lower at h
      split at h
      · exact absurd h Succeeds.not_throw
      · exact ⟨_, ‹_›⟩
    | _ => cases helement
  HoldsOfLowered.parts (P := fun e ↦ e.isElement → ∃ a, c.bind e = .ok a) ⟨hself, nofun, nofun⟩
    demand e h

end Context

end InlineArrays
