import InlineArrays.Code.OfMethod
import InlineArrays.Proofs.Renaming.Validation

/-!
# Code under other type ids

Code names types by their names; only defaults also keep the id.  A method has the same code in both
tables up to these ids, or it fails to have any in the same way.
-/

namespace InlineArrays

variable (ρ : TypeId → TypeId)

def Operation.rename : Operation → Operation
  | .default type name => .default (ρ type) name
  | operation => operation

namespace Instr

mutual

def rename : Instr → Instr
  | .define note dest operation => .define note dest (operation.rename ρ)
  | .guard note dest tested body result => .guard note dest tested (renameAll body) result
  | i => i
termination_by structural i => i

def renameAll : List Instr → List Instr
  | [] => []
  | i :: code => i.rename :: renameAll code
termination_by structural code => code

end

theorem renameAll_append (code more : List Instr) :
    renameAll ρ (code ++ more) = renameAll ρ code ++ renameAll ρ more := by
  induction code with
  | nil => rfl
  | cons i code ih => rw [List.cons_append, renameAll, renameAll, ih, List.cons_append]

mutual

/-- The ids of types are not printed. -/
theorem text_rename (level : Nat) : (i : Instr) → (i.rename ρ).text level = i.text level
  | .define _ _ operation => by cases operation <;> rfl
  | .guard _ _ _ body _ => by simp only [rename, text, lines_renameAll (level + 1) body]
  | .store .. | .storeTemp .. | .bind .. | .call .. | .ret .. => rfl
termination_by structural i => i

theorem lines_renameAll (level : Nat) : (code : List Instr) →
    lines level (renameAll ρ code) = lines level code
  | [] => rfl
  | i :: code => by simp only [renameAll, lines, text_rename level i, lines_renameAll level code]
termination_by structural code => code

end

end Instr

def Routine.rename (r : Routine) : Routine := { r with code := Instr.renameAll ρ r.code }

theorem Routine.text_rename (r : Routine) (level : Nat) : (r.rename ρ).text level = r.text level := by
  simp only [text, rename, Instr.lines_renameAll]

def Emission.rename (s : Emission) : Emission := { s with code := Instr.renameAll ρ s.code }

/-! ## Emission -/

/-- The second computation does on a renamed state what the first does, up to renaming; `f` turns the
result of the first into that of the second. -/
def Renames {α β : Type} (f : α → β) (act : Emit α) (act' : Emit β) : Prop :=
  ∀ s : Emission, act' (s.rename ρ) =
    match act s with
    | .ok a s => .ok (f a) (s.rename ρ)
    | .error e s => .error e (s.rename ρ)

namespace Renames

variable {ρ} {α β γ δ : Type} {f : α → β} {g : γ → δ}

theorem pure (a : α) : Renames ρ f (Pure.pure a) (Pure.pure (f a)) := fun _ ↦ rfl

theorem throw (e : LoweringError) : Renames ρ f (MonadExcept.throw e) (MonadExcept.throw e) :=
  fun _ ↦ rfl

theorem bind {act : Emit α} {act' : Emit β} {next : α → Emit γ} {next' : β → Emit δ}
    (hact : Renames ρ f act act') (hnext : ∀ a, Renames ρ g (next a) (next' (f a))) :
    Renames ρ g (act >>= next) (act' >>= next') := by
  intro s
  have hs := hact s
  change EStateM.bind act' next' (s.rename ρ) = match EStateM.bind act next s with
    | .ok a s => .ok (g a) (s.rename ρ)
    | .error e s => .error e (s.rename ρ)
  unfold EStateM.bind
  rw [hs]
  cases act s with
  | ok a s => exact hnext a s
  | error e s => rfl

theorem map {act : Emit α} {act' : Emit β} {h : α → γ} {h' : β → δ} (hact : Renames ρ f act act')
    (hmap : ∀ a, h' (f a) = g (h a)) : Renames ρ g (h <$> act) (h' <$> act') := by
  refine hact.bind fun a ↦ ?_
  change Renames ρ g (Pure.pure (h a)) (Pure.pure (h' (f a)))
  rw [hmap]
  exact pure _

variable {make make' : Note → Instr} {operation : Operation}

theorem emit (comment : Option String) (hmake : ∀ note, make' note = (make note).rename ρ) :
    Renames ρ id (Emission.emit make comment) (Emission.emit make' comment) := by
  intro s
  change EStateM.Result.ok () _ = EStateM.Result.ok () _
  simp only [Emission.rename, Instr.renameAll_append, Instr.renameAll, hmake]

theorem freshValue : Renames ρ id Emission.freshValue Emission.freshValue := fun _ ↦ rfl

theorem state : Renames ρ (Emission.rename ρ) get get := fun _ ↦ rfl

theorem freshTemp : Renames ρ id Emission.freshTemp Emission.freshTemp := fun _ ↦ rfl

theorem define (operation : Operation) (comment : Option String) :
    Renames ρ id (Emission.define operation comment)
      (Emission.define (operation.rename ρ) comment) :=
  freshValue.bind fun _ ↦ (emit comment fun _ ↦ rfl).bind fun _ ↦ pure _

theorem spill (value : Operand) : Renames ρ id (Emission.spill value) (Emission.spill value) :=
  freshTemp.bind fun _ ↦ (emit none fun _ ↦ rfl).bind fun _ ↦ pure _

theorem spillAddress (value : Operand) :
    Renames ρ id (Emission.spillAddress value) (Emission.spillAddress value) :=
  (spill value).bind fun temp ↦ define (.tempAddress temp) none

theorem guarded {receiver : ExprId} {tested : Operand} {body body' : Emit Operand}
    (hbody : Renames ρ id body body') :
    Renames ρ (fun result ↦ (Instr.renameAll ρ result.1, result.2))
      (Emission.guarded receiver tested body) (Emission.guarded receiver tested body') := by
  intro outer
  have hs : body' { outer.rename ρ with
      code := [],
      receivers := (receiver, tested) :: (outer.rename ρ).receivers.filter (·.1 != receiver) } = _ :=
    hbody { outer with
      code := [], receivers := (receiver, tested) :: outer.receivers.filter (·.1 != receiver) }
  unfold Emission.guarded
  dsimp only at hs ⊢
  rw [hs]
  cases body _ <;> rfl

theorem inMemory (demand : Demand) (lowered : Operand) :
    Renames ρ id (demand.inMemory lowered) (demand.inMemory lowered) := by
  cases demand with
  | value => exact spillAddress lowered
  | address => exact pure lowered

theorem fromAddress (demand : Demand) (address : Operand) :
    Renames ρ id (demand.fromAddress address) (demand.fromAddress address) := by
  cases demand with
  | value => exact define (.load address) none
  | address => exact pure address

theorem offset (isStop : Bool) (length : Operand) (b : Bound Operand) :
    Renames ρ id (b.offset isStop length) (b.offset isStop length) := by
  cases b with
  | omitted => exact pure _
  | int value => exact pure value
  | fromEnd count => exact define (.binary .sub length count) none
  | index value => exact define (.getOffset value length) none

theorem selectIn (span length : Operand) (s : Subscript Operand) :
    Renames ρ id (s.selectIn span length) (s.selectIn span length) := by
  cases s with
  | int position => exact define (.index span position) none
  | fromEnd count =>
    exact (define (.binary .sub length count) none).bind fun position ↦
      define (.index span position) none
  | index value =>
    exact (define (.getOffset value length) none).bind fun position ↦
      define (.index span position) none
  | dynamic value =>
    exact (define (.convert value) none).bind fun position ↦ define (.index span position) none
  | range value =>
    exact (define (.rangeStart value) none).bind fun start ↦
      (define (.getOffset start length) none).bind fun start ↦
        (define (.rangeEnd value) none).bind fun stop ↦
          (define (.getOffset stop length) none).bind fun stop ↦
            (define (.binary .sub stop start) none).bind fun count ↦
              define (.slice span start count) none
  | rangeLiteral start stop =>
    exact (offset false length start).bind fun start ↦ (offset true length stop).bind fun stop ↦
      (define (.binary .sub stop start) none).bind fun count ↦ define (.slice span start count) none

theorem select (span : Operand) (s : Subscript Operand) :
    Renames ρ id (s.select span) (s.select span) := by
  unfold Subscript.select
  split
  · exact (define (.length span) none).bind fun length ↦ selectIn span length s
  · exact selectIn span _ s

theorem mapM {α : Type} {f f' : α → Emit Operand} (hf : ∀ a, Renames ρ id (f a) (f' a))
    (l : List α) : Renames ρ id (l.mapM f) (l.mapM f') := by
  induction l with
  | nil => exact pure []
  | cons a l ih =>
    rw [List.mapM_cons, List.mapM_cons]
    exact (hf a).bind fun b ↦ ih.bind fun bs ↦ pure _

end Renames

namespace Context

variable {ρ} {c : Context} {u : TypeTable} (h : TypeTable.Embeds ρ c.types u)
include h

theorem storageDemand_rename (e : Expr) :
    (c.rename ρ u).storageDemand (e.rename ρ) = c.storageDemand e := by
  rw [storageDemand, storageDemand, Expr.isPlaceholder_rename, storageOf_rename h]

theorem receiverDemand_rename (a : Access) :
    (c.rename ρ u).receiverDemand (a.rename ρ) = c.receiverDemand a := by
  simp only [receiverDemand, Access.rename, storageDemand_rename h]
  cases a.indexed <;> rfl

theorem isClass_typeOf_rename (e : Expr) :
    (c.rename ρ u).types.isClass ((c.rename ρ u).typeOf (e.rename ρ)) =
      c.types.isClass (c.typeOf e) := by
  rw [typeOf_rename h]
  exact h.isClass _

theorem projectSpan_rename (kind : SpanKind) (arrayType element : TypeId) (length : Nat)
    (address : Operand) :
    Renames ρ id (c.projectSpan kind arrayType element length address)
      ((c.rename ρ u).projectSpan kind (ρ arrayType) (ρ element) length address) := by
  have harray : (c.rename ρ u).types.format (ρ arrayType) = _ := h.format arrayType
  have helement : (c.rename ρ u).types.format (ρ element) = _ := h.format element
  unfold projectSpan
  rw [harray, helement]
  exact .define _ none

theorem receiverSpan_rename (a : Access) (lowered : Operand) :
    Renames ρ id (c.receiverSpan a lowered) ((c.rename ρ u).receiverSpan (a.rename ρ) lowered) := by
  have hdemand := receiverDemand_rename h a
  unfold receiverSpan
  rw [hdemand]
  simp only [Access.rename]
  cases a.indexed with
  | array p => exact (Renames.inMemory _ _).bind fun address ↦ projectSpan_rename h _ _ _ _ address
  | span => exact .pure lowered

theorem accessCode_rename (demand : Demand) (a : Access) {receiver receiver' : Emit Operand}
    {subscript subscript' : Emit (Subscript Operand)} (hreceiver : Renames ρ id receiver receiver')
    (hsubscript : Renames ρ id subscript subscript') :
    Renames ρ id (c.accessCode demand a receiver subscript)
      ((c.rename ρ u).accessCode demand (a.rename ρ) receiver' subscript') := by
  unfold accessCode
  refine hreceiver.bind fun lowered ↦ (receiverSpan_rename h a lowered).bind fun span ↦
    (Renames.spill span).bind fun temp ↦ hsubscript.bind fun s ↦
      (Renames.select (.temp temp) s).bind fun selected ↦ ?_
  rw [Access.isSlice_rename]
  split
  · cases demand with
    | value => exact .pure selected
    | address =>
      have htext : (c.rename ρ u).method.text (a.rename ρ).expr = c.method.text a.expr :=
        text_rename a.expr
      dsimp only
      rw [htext]
      exact .throw _
  · exact .fromAddress demand selected

omit h in
theorem valueCode_rename (demand : Demand) (e : Expr) {code code' : Emit Operand}
    (hcode : Renames ρ id code code') :
    Renames ρ id (c.valueCode demand e code)
      ((c.rename ρ u).valueCode demand (e.rename ρ) code') := by
  cases demand with
  | value => exact hcode
  | address =>
    simp only [valueCode, text_rename]
    exact .throw _

theorem holdsAddress_rename (v : Variable) :
    (c.rename ρ u).holdsAddress (v.rename ρ) = c.holdsAddress v := by
  obtain ⟨name, kind, type, confined, assigned⟩ := v
  cases kind with
  | receiver =>
    have howner : (c.rename ρ u).method.owner = c.method.owner.map (·.rename ρ) := rfl
    simp only [holdsAddress, Variable.rename, howner, Option.any_map]
    refine congrArg (Option.any · c.method.owner) (funext fun owner ↦ ?_)
    exact congrArg (!·) (h.isClass owner.type)
  | _ => rfl

theorem variableCode_rename (demand : Demand) (target : VariableId) :
    Renames ρ id (c.variableCode demand target) ((c.rename ρ u).variableCode demand target) := by
  have hname : ((c.method.var target).rename ρ).name = (c.method.var target).name := rfl
  have haddress :
      Renames ρ id (c.variableAddress target) ((c.rename ρ u).variableAddress target) := by
    unfold variableAddress
    simp only [var_rename h, holdsAddress_rename h, hname]
    refine (Renames.define (.addressOf _ _) none).bind fun slot ↦ ?_
    split
    · exact .define (.load slot) none
    · exact .pure slot
  unfold variableCode
  rw [var_rename h, hname]
  refine haddress.bind fun address ↦ ?_
  cases demand with
  | value => exact .define (.load address) _
  | address => exact .pure address

theorem ownerDemand_rename (e : Expr) :
    (c.rename ρ u).ownerDemand (e.rename ρ) = c.ownerDemand e := by
  rw [ownerDemand, ownerDemand, isClass_typeOf_rename h, storageDemand_rename h]

theorem fieldCode_rename (demand : Demand) (receiver : Expr) (name : String)
    {code code' : Emit Operand} (hcode : Renames ρ id code code') :
    Renames ρ id (c.fieldCode demand receiver name code)
      ((c.rename ρ u).fieldCode demand (receiver.rename ρ) name code') := by
  refine hcode.bind fun lowered ↦ ?_
  refine Renames.bind (f := id) ?_ fun base ↦ (Renames.define (.fieldAddress base name) none).bind
    fun address ↦ .fromAddress demand address
  unfold ownerOf
  rw [isClass_typeOf_rename h, storageDemand_rename h]
  split
  · exact .pure lowered
  · exact .inMemory _ lowered

omit h in
theorem callCode_rename (demand : Demand) (e : Expr) (callee : String) (returns : ReturnKind) :
    Renames ρ id (c.callCode demand e callee returns)
      ((c.rename ρ u).callCode demand (e.rename ρ) callee returns) := by
  unfold callCode
  split
  · exact Renames.freshValue.bind fun dest ↦ (Renames.emit none fun _ ↦ rfl).bind fun _ ↦
      .fromAddress demand _
  · exact valueCode_rename demand e <| Renames.freshValue.bind fun dest ↦
      (Renames.emit none fun _ ↦ rfl).bind fun _ ↦ .pure _

theorem boundBy_rename (e : Expr) (value : Operand) :
    (c.rename ρ u).boundBy (e.rename ρ) value = c.boundBy e value := by
  simp only [boundBy, typeOf_rename h, h.eq_int_iff]

theorem indexBy_rename (e : Expr) (value : Operand) :
    Renames ρ id (c.indexBy e value) ((c.rename ρ u).indexBy (e.rename ρ) value) := by
  simp only [indexBy, typeOf_rename h, h.eq_int_iff]
  split
  · exact .define (.makeIndex value false) none
  · exact .pure value

theorem spanCode_rename (readonly : Bool) (operand : Expr) {code code' : Emit Operand}
    (hcode : Renames ρ id code code') :
    Renames ρ id (c.spanCode readonly operand code)
      ((c.rename ρ u).spanCode readonly (operand.rename ρ) code') := by
  have harray : (c.rename ρ u).types.array? (ρ (c.typeOf operand)) = _ := h.array? _
  unfold spanCode
  rw [typeOf_rename h, harray, storageDemand_rename h, text_rename]
  cases c.types.array? (c.typeOf operand) with
  | none => exact .throw _
  | some type =>
    exact hcode.bind fun lowered ↦ (Renames.inMemory _ lowered).bind fun address ↦
      projectSpan_rename h _ _ _ _ address

omit h in
theorem conditionalCode_rename (receiver : ExprId) {tested tested' access access' : Emit Operand}
    (htested : Renames ρ id tested tested') (haccess : Renames ρ id access access') :
    Renames ρ id (conditionalCode receiver tested access)
      (conditionalCode receiver tested' access') :=
  htested.bind fun _ ↦ Renames.freshValue.bind fun _ ↦
    (Renames.guarded haccess).bind fun _ ↦ (Renames.emit none fun _ ↦ rfl).bind fun _ ↦ .pure _

omit h in
theorem receiverValue_rename (receiver : Expr) :
    Renames ρ id (c.receiverValue receiver) ((c.rename ρ u).receiverValue (receiver.rename ρ)) := by
  refine Renames.state.bind fun s ↦ ?_
  have hreceiver : (s.rename ρ).receiver? (receiver.rename ρ).id = s.receiver? receiver.id := by
    rw [Expr.id_rename]
    rfl
  rw [hreceiver, text_rename]
  cases s.receiver? receiver.id with
  | some value => exact .pure value
  | none => exact .throw _

omit h in
theorem withValue_rename (s : Subscript Expr) (value : Operand) :
    (s.rename ρ).withValue value = s.withValue value := by cases s <;> rfl

mutual

theorem lower_rename (demand : Demand) : (e : Expr) →
    Renames ρ id (c.lower demand e) ((c.rename ρ u).lower demand (e.rename ρ))
  | .var _ target => variableCode_rename h demand target
  | .field _ receiver name => by
    simp only [Expr.rename, lower, ownerDemand_rename h]
    exact fieldCode_rename h demand receiver name (lower_rename _ receiver)
  | .element id receiver args => by
    have hbind := bind_rename h (.element id receiver args)
    have htext : (c.rename ρ u).method.text _ = _ := text_rename (.element id receiver args)
    simp only [Expr.rename] at hbind htext
    simp only [Expr.rename, lower, hbind, htext]
    cases c.bind (.element id receiver args) with
    | error errors => exact .throw _
    | ok a =>
      simp only [Except.map, receiverDemand_rename h]
      exact accessCode_rename h demand a (lower_rename _ receiver) (lowerSubscript_rename a args)
  | .call id callee returns type => callCode_rename demand (.call id callee returns type) callee returns
  | .int id value => valueCode_rename demand (.int id value) (.pure _)
  | .bool id value => valueCode_rename demand (.bool id value) (.pure _)
  | .string id value => by
    have hvalue := valueCode_rename (c := c) (ρ := ρ) (u := u) demand (.string id value)
      (Renames.throw (.unsupported (c.method.text (.string id value))))
    have htext : (c.rename ρ u).method.text _ = _ := text_rename (.string id value)
    simp only [Expr.rename] at hvalue htext
    simp only [Expr.rename, lower, htext]
    exact hvalue
  | .fromEnd id count => valueCode_rename demand (.fromEnd id count) <|
      (lower_rename .value count).bind fun value ↦ .define (.makeIndex value true) none
  | .range id start stop => valueCode_rename demand (.range id start stop) <|
      (lowerIndex_rename false start).bind fun start ↦ (lowerIndex_rename true stop).bind fun stop ↦
        .define (.makeRange start stop) none
  | .default id type => by
    have hformat : (c.rename ρ u).types.format (ρ type) = c.types.format type := h.format type
    have hvalue := valueCode_rename (c := c) (ρ := ρ) (u := u) demand (.default id type)
      (Renames.define (.default type (c.types.format type)) none)
    simp only [Expr.rename] at hvalue
    simp only [Expr.rename, lower, hformat]
    exact hvalue
  | .span id operand readonly => by
    have hvalue := valueCode_rename (c := c) (ρ := ρ) (u := u) demand (.span id operand readonly)
      (spanCode_rename h readonly operand (lower_rename (c.storageDemand operand) operand))
    simp only [Expr.rename] at hvalue
    simp only [Expr.rename, lower, storageDemand_rename h]
    exact hvalue
  | .conditional id receiver access => by
    have hvalue := valueCode_rename (c := c) (ρ := ρ) (u := u) demand
      (.conditional id receiver access)
      (conditionalCode_rename receiver.id (lower_rename .value receiver) (lower_rename .value access))
    simp only [Expr.rename] at hvalue
    simp only [Expr.rename, lower, Expr.id_rename]
    exact hvalue
  | .placeholder id receiver =>
    valueCode_rename demand (.placeholder id receiver) (receiverValue_rename receiver)
termination_by structural e => e

theorem lowerSubscript_rename (a : Access) : (args : List (Argument Expr)) →
    Renames ρ id (c.lowerSubscript a args)
      ((c.rename ρ u).lowerSubscript (a.rename ρ) (Expr.renameArguments ρ args))
  | [] => by
    have htext : (c.rename ρ u).method.text (a.rename ρ).expr = c.method.text a.expr :=
      text_rename a.expr
    simp only [Expr.renameArguments, lowerSubscript, htext]
    exact .throw _
  | [⟨value, name, modifier⟩] => by
    have hlower := lower_rename .value value
    cases value with
    | fromEnd id count => exact (lower_rename .value count).map fun _ ↦ rfl
    | range id start stop =>
      exact (lowerBound_rename start).bind fun _ ↦ (lowerBound_rename stop).bind fun _ ↦ .pure _
    | _ => exact hlower.map fun value ↦ withValue_rename a.subscript value
  | ⟨value, name, modifier⟩ :: next :: args => by
    have htext : (c.rename ρ u).method.text (a.rename ρ).expr = c.method.text a.expr :=
      text_rename a.expr
    have hthrow := Renames.throw (ρ := ρ) (f := (id : Subscript Operand → Subscript Operand))
      (.unboundAccess (c.method.text a.expr))
    cases value <;> simp only [Expr.renameArguments, Expr.rename, lowerSubscript, htext] <;>
      exact hthrow
termination_by structural args => args

theorem lowerBound_rename : (bound : Option Expr) →
    Renames ρ id (c.lowerBound bound) ((c.rename ρ u).lowerBound (Expr.renameBound ρ bound))
  | none => .pure _
  | some bound => by
    have hlower := lower_rename .value bound
    have hby := boundBy_rename h bound
    cases bound with
    | fromEnd id count => exact (lower_rename .value count).map fun _ ↦ rfl
    | _ => exact hlower.map hby
termination_by structural bound => bound

theorem lowerIndex_rename (isStop : Bool) : (bound : Option Expr) →
    Renames ρ id (c.lowerIndex isStop bound)
      ((c.rename ρ u).lowerIndex isStop (Expr.renameBound ρ bound))
  | none => .define (.makeIndex (.int 0) isStop) none
  | some bound => (lower_rename .value bound).bind fun value ↦ indexBy_rename h bound value
termination_by structural bound => bound

end

theorem lowerInMemory_rename (e : Expr) :
    Renames ρ id (c.lowerInMemory e) ((c.rename ρ u).lowerInMemory (e.rename ρ)) := by
  unfold lowerInMemory
  rw [storageDemand_rename h]
  exact (lower_rename h _ e).bind fun lowered ↦ .inMemory _ lowered

theorem lowerArgument_rename (arg : Argument Expr) :
    Renames ρ id (c.lowerArgument arg) ((c.rename ρ u).lowerArgument (arg.rename ρ)) := by
  unfold lowerArgument
  simp only [Argument.rename]
  cases arg.modifier with
  | none => exact lower_rename h .value arg.value
  | ref | output => exact lower_rename h .address arg.value
  | input => exact lowerInMemory_rename h arg.value

theorem lowerStatement_rename (s : Statement) :
    Renames ρ id (c.lowerStatement s) ((c.rename ρ u).lowerStatement (s.rename ρ)) := by
  cases s with
  | expression value => exact (lower_rename h .value value).bind fun _ ↦ .pure ()
  | assign target value =>
    exact (lower_rename h .address target).bind fun _ ↦ (lower_rename h .value value).bind fun _ ↦
      .emit none fun _ ↦ rfl
  | compound target op value =>
    exact (lower_rename h .address target).bind fun address ↦
      (Renames.define (.load address) none).bind fun current ↦
        (lower_rename h .value value).bind fun value ↦
          (Renames.define (.binary op current value) none).bind fun _ ↦ .emit none fun _ ↦ rfl
  | refLocal bound init =>
    simp only [Statement.rename, lowerStatement, var_rename h]
    exact (lowerInMemory_rename h init).bind fun _ ↦ .emit none fun _ ↦ rfl
  | call callee args =>
    simp only [Statement.rename, lowerStatement, List.mapM_map]
    exact (Renames.mapM (lowerArgument_rename h) args).bind fun _ ↦ .emit none fun _ ↦ rfl
  | ret value =>
    cases value with
    | none =>
      change Renames ρ id (Emission.emit (.ret · none)) (Emission.emit (.ret · none))
      exact .emit none fun _ ↦ rfl
    | some value => exact (lower_rename h _ value).bind fun _ ↦ .emit none fun _ ↦ rfl

theorem lowerStatements_rename (l : List (Statement × SourceSpan)) :
    Renames ρ id (c.lowerStatements l)
      ((c.rename ρ u).lowerStatements (l.map fun line ↦ (line.1.rename ρ, line.2))) := by
  induction l with
  | nil => exact .pure ()
  | cons line l ih =>
    have hspan : Renames ρ id (modify fun s ↦ { s with span := some line.2 } : Emit Unit)
        (modify fun s ↦ { s with span := some line.2 }) := fun _ ↦ rfl
    exact hspan.bind fun _ ↦ (lowerStatement_rename h line.1).bind fun _ ↦ ih

theorem lowerBody_rename :
    (c.rename ρ u).lowerBody = c.lowerBody.map (·.rename ρ) := by
  have hlines : (c.rename ρ u).method.statements.zip (c.rename ρ u).method.listing.statements =
      (c.method.statements.zip c.method.listing.statements).map
        fun line ↦ (line.1.rename ρ, line.2) := by
    have hlisting : (c.rename ρ u).method.listing = c.method.listing := c.method.listing_rename ρ
    have hstatements : (c.rename ρ u).method.statements = c.method.statements.map (·.rename ρ) := rfl
    rw [hlisting, hstatements, List.zip_map_left]
    rfl
  have hparameters : (c.rename ρ u).parameters = c.parameters := by
    have hsize : (c.rename ρ u).method.vars.size = c.method.vars.size := Array.size_map
    unfold parameters
    rw [hsize]
    refine congrArg (List.filter · _) (funext fun v ↦ ?_)
    rw [var_rename h]
    rfl
  have hreceiver : (c.rename ρ u).method.receiver? = c.method.receiver? := by
    have hvars : (c.rename ρ u).method.vars = c.method.vars.map (·.rename ρ) := rfl
    rw [Body.receiver?, Body.receiver?, hvars, Array.findIdx?_map]
    rfl
  unfold lowerBody
  rw [hlines, hparameters, hreceiver]
  have hcode := lowerStatements_rename h (c.method.statements.zip c.method.listing.statements) {}
  change (c.rename ρ u).lowerStatements _ {} = _ at hcode
  rw [hcode]
  cases c.lowerStatements (c.method.statements.zip c.method.listing.statements) {} <;> rfl

/-- A method is lowered to the same code in both tables, or in neither. -/
theorem routine_rename : (c.rename ρ u).routine = c.routine.map (·.rename ρ) := by
  have hname : (c.rename ρ u).method.name = c.method.name := rfl
  unfold routine
  rw [validate?_rename h, lowerBody_rename h, hname]
  rcases c.validate? with - | (- | ⟨error, errors⟩) <;> rfl

end Context

end InlineArrays
