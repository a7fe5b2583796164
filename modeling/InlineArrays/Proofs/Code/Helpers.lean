import InlineArrays.Code.OfMethod
import InlineArrays.Proofs.Code.Members
import InlineArrays.Proofs.MemberTables
import InlineArrays.Proofs.Parts
import Mathlib

/-!
# Helpers that code calls

The source of a method tells which members its code calls, one after the other: an access those that
view, measure, position and select, a conversion to a span the one that makes the span.  Binding an
access checks that they are there; nothing checks a conversion.  So code calls members that are
missing exactly if the method converts to a kind of span that cannot be made.
-/

namespace InlineArrays

open Emission

/-! ## The members that source calls -/

namespace Context

/-- The members called to select, if the access binds. -/
def selectionCalls (c : Context) (e : Expr) : List Member :=
  match c.bind e with
  | .ok a => a.subscript.memberCalls a.indexed.kind
  | .error _ => []

/-- The members called to view the receiver as a span, if the access binds. -/
def viewCalls (c : Context) (e : Expr) : List Member :=
  match c.bind e with
  | .ok a => a.indexed.memberCalls
  | .error _ => []

mutual

/-- The members that an expression calls, in the order of evaluation. -/
def memberCalls (c : Context) : Expr → List Member
  | .field _ receiver _ => c.memberCalls receiver
  | .fromEnd _ count => c.memberCalls count
  | .range _ start stop =>
    (match start with
      | some bound => c.memberCalls bound
      | none => []) ++
    (match stop with
      | some bound => c.memberCalls bound
      | none => [])
  | .element id receiver args =>
    c.memberCalls receiver ++ c.viewCalls (.element id receiver args) ++
      c.argumentMemberCalls args ++ c.selectionCalls (.element id receiver args)
  | .span _ operand readonly => c.memberCalls operand ++ [(SpanKind.ofReadonly readonly).accessor]
  | .conditional _ receiver access => c.memberCalls receiver ++ c.memberCalls access
  | _ => []
termination_by structural e => e

def argumentMemberCalls (c : Context) : List (Argument Expr) → List Member
  | [] => []
  | arg :: args => c.memberCalls arg.value ++ c.argumentMemberCalls args
termination_by structural args => args

end

def statementMemberCalls (c : Context) (s : Statement) : List Member :=
  (s.operands c.method.toBody).flatMap fun use ↦ c.memberCalls use.1

/-- The members that a method calls, in order. -/
def methodMemberCalls (c : Context) : List Member :=
  c.method.statements.flatMap c.statementMemberCalls

/-- Whether every conversion to a span in a method is to a kind that can be made. -/
def MakesSpans (c : Context) : Prop :=
  ∀ id operand readonly usage, (.span id operand readonly, usage) ∈ c.method.uses →
    c.members.provides (SpanKind.ofReadonly readonly).accessor

end Context

/-! ## The helpers that code calls -/

/-- The helpers called by code, bodies of guards included. -/
def Instr.helpers (code : List Instr) : List String := (flattenAll code).filterMap (·.helper?)

@[simp]
theorem Instr.helpers_append (code rest : List Instr) :
    helpers (code ++ rest) = helpers code ++ helpers rest := by
  simp [helpers, flattenAll_append]

theorem Instr.helpers_eq_map (kindOf : Operand → SpanKind) (code : List Instr) :
    helpers code = (members kindOf code).map (·.helper) := by
  rw [members, List.map_filterMap]
  exact congrArg (List.filterMap · (flattenAll code)) (funext fun i ↦ i.helper?_eq_map kindOf)

/-- Where `act` succeeds, the code it appends calls the members one after the other, and its result
has `post`. -/
def Calls {α : Type} (act : Emit α) (members : List Member) (post : α → Prop) : Prop :=
  ∀ ⦃s : Emission⦄ ⦃a : α⦄ ⦃t : Emission⦄, act s = .ok a t → post a ∧
    ∃ code, t.code = s.code ++ code ∧ Instr.helpers code = members.map (·.helper)

namespace Calls

variable {α β : Type} {act : Emit α} {f : α → Emit β} {members more : List Member}
  {post : α → Prop} {post' : β → Prop}

theorem pure {a : α} (h : post a) : Calls (pure a) [] post := by
  intro s b t hrun
  obtain ⟨rfl, rfl⟩ := Emit.pure_eq_ok.1 hrun
  exact ⟨h, [], by simp, rfl⟩

theorem throw {e : LoweringError} : Calls (throw e : Emit α) members post := by
  intro s a t hrun
  cases hrun

theorem bind (hact : Calls act members post) (hf : ∀ a, post a → Calls (f a) more post') :
    Calls (act >>= f) (members ++ more) post' := by
  intro s b u hrun
  obtain ⟨a, t, hfirst, hsecond⟩ := Emit.bind_eq_ok.1 hrun
  obtain ⟨ha, code, hcode, hmembers⟩ := hact hfirst
  obtain ⟨hb, rest, hrest, hmore⟩ := hf a ha hsecond
  exact ⟨hb, code ++ rest, by rw [hrest, hcode, List.append_assoc], by simp [hmembers, hmore]⟩

/-- A step after which nothing more is called. -/
theorem bindLast (hact : Calls act members post) (hf : ∀ a, post a → Calls (f a) [] post') :
    Calls (act >>= f) members post' := by
  simpa using hact.bind hf

/-- A step that calls nothing. -/
theorem bindFirst (hact : Calls act [] post) (hf : ∀ a, post a → Calls (f a) members post') :
    Calls (act >>= f) members post' := hact.bind hf

theorem map {f : α → β} (hact : Calls act members post) (hf : ∀ a, post a → post' (f a)) :
    Calls (f <$> act) members post' := by
  intro s b t hrun
  obtain ⟨a, hfirst, rfl⟩ := Emit.map_eq_ok.1 hrun
  obtain ⟨ha, hcode⟩ := hact hfirst
  exact ⟨hf a ha, hcode⟩

theorem emit {make : Note → Instr} {comment : Option String}
    (h : ∀ note, Instr.helpers [make note] = []) :
    Calls (Emission.emit make comment) [] fun _ ↦ True := by
  intro s a t hrun
  cases hrun
  exact ⟨trivial, _, rfl, h _⟩

/-- The helpers that show are those of the members, whatever the kinds of the spans. -/
theorem of_alwaysCalls (kindOf : Operand → SpanKind) (h : AlwaysCalls kindOf act members) :
    Calls act members fun _ ↦ True := by
  intro s a t hrun
  obtain ⟨code, hcode, rfl⟩ := h.of_ok hrun
  exact ⟨trivial, code, hcode, Instr.helpers_eq_map kindOf code⟩

theorem plain {operation : Operation} {comment : Option String} (h : operation.helper? = none) :
    Calls (define operation comment) [] fun _ ↦ True := by
  intro s o t hrun
  cases hrun
  exact ⟨trivial, _, rfl, by
    simp [Instr.helpers, Instr.flattenAll, Instr.flatten, Instr.helper?, h]⟩

theorem spill {value : Operand} : Calls (spill value) [] fun _ ↦ True :=
  of_alwaysCalls (fun _ ↦ .mutable) .spill

theorem inMemory {demand : Demand} {lowered : Operand} :
    Calls (demand.inMemory lowered) [] fun _ ↦ True :=
  of_alwaysCalls (fun _ ↦ .mutable) .inMemory

theorem fromAddress {demand : Demand} {address : Operand} :
    Calls (demand.fromAddress address) [] fun _ ↦ True :=
  of_alwaysCalls (fun _ ↦ .mutable) .fromAddress

/-! ## Accesses -/

theorem select {kind : SpanKind} {span : Operand} (s : Subscript Operand) :
    Calls (s.select span) (s.memberCalls kind) fun _ ↦ True :=
  of_alwaysCalls (fun _ ↦ kind) (.select s)

theorem projectSpan {c : Context} {kind : SpanKind} {arrayType element : TypeId} {length : Nat}
    {address : Operand} :
    Calls (c.projectSpan kind arrayType element length address) [kind.accessor] fun _ ↦ True :=
  of_alwaysCalls (fun _ ↦ kind) .projectSpan

theorem receiverSpan {c : Context} {a : Access} {lowered : Operand} :
    Calls (c.receiverSpan a lowered) a.indexed.memberCalls fun _ ↦ True :=
  of_alwaysCalls (fun _ ↦ a.indexed.kind) .receiverSpan

/-- The subscript is lowered to one that selects by the same members. -/
theorem accessCode {c : Context} {demand : Demand} {a : Access} {receiver : Emit Operand}
    {subscript : Emit (Subscript Operand)} (hreceiver : Calls receiver members fun _ ↦ True)
    (hsubscript : Calls subscript more fun s ↦
      s.memberCalls a.indexed.kind = a.subscript.memberCalls a.indexed.kind) :
    Calls (c.accessCode demand a receiver subscript)
      (members ++ a.indexed.memberCalls ++ more ++ a.subscript.memberCalls a.indexed.kind)
      fun _ ↦ True := by
  simp only [List.append_assoc]
  refine hreceiver.bind fun lowered _ ↦ receiverSpan.bind fun span _ ↦
    spill.bindFirst fun temp _ ↦ hsubscript.bind fun s hs ↦ ?_
  rw [← hs]
  refine (select s).bindLast fun selected _ ↦ ?_
  split
  · cases demand with
    | value => exact pure trivial
    | address => exact throw
  · exact fromAddress

/-! ## Expressions -/

theorem variableCode {c : Context} {demand : Demand} {target : VariableId} :
    Calls (c.variableCode demand target) [] fun _ ↦ True := by
  have haddress : Calls (c.variableAddress target) [] fun _ ↦ True := by
    refine (plain rfl).bindLast fun slot _ ↦ ?_
    split
    · exact plain rfl
    · exact pure trivial
  refine haddress.bindLast fun address _ ↦ ?_
  cases demand with
  | value => exact plain rfl
  | address => exact pure trivial

theorem fieldCode {c : Context} {demand : Demand} {receiver : Expr} {name : String}
    {code : Emit Operand} (h : Calls code members fun _ ↦ True) :
    Calls (c.fieldCode demand receiver name code) members fun _ ↦ True := by
  have howner (lowered : Operand) : Calls (c.ownerOf receiver lowered) [] fun _ ↦ True := by
    unfold Context.ownerOf
    split
    · exact pure trivial
    · exact inMemory
  exact h.bindLast fun lowered _ ↦ (howner lowered).bindLast fun base _ ↦
    (plain rfl).bindLast fun address _ ↦ fromAddress

theorem valueCode {c : Context} {demand : Demand} {e : Expr} {code : Emit Operand}
    {post : Operand → Prop} (h : Calls code members post) :
    Calls (c.valueCode demand e code) members post := by
  cases demand with
  | value => exact h
  | address => exact throw

theorem callCode {c : Context} {demand : Demand} {e : Expr} {callee : String}
    {returns : ReturnKind} : Calls (c.callCode demand e callee returns) [] fun _ ↦ True := by
  have hfresh : Calls freshValue [] fun _ ↦ True := by
    intro s dest t hrun
    cases hrun
    exact ⟨trivial, [], by simp, rfl⟩
  unfold Context.callCode
  split
  · exact hfresh.bindLast fun dest _ ↦ (emit fun _ ↦ rfl).bindLast fun _ _ ↦ fromAddress
  · exact valueCode (hfresh.bindLast fun dest _ ↦ (emit fun _ ↦ rfl).bindLast fun _ _ ↦ pure trivial)

theorem spanCode {c : Context} {readonly : Bool} {operand : Expr} {code : Emit Operand}
    (h : Calls code members fun _ ↦ True) :
    Calls (c.spanCode readonly operand code) (members ++ [(SpanKind.ofReadonly readonly).accessor])
      fun _ ↦ True := by
  unfold Context.spanCode
  split
  · exact throw
  · exact h.bind fun lowered _ ↦ inMemory.bindFirst fun address _ ↦ projectSpan

/-- The guard itself calls nothing; its body stands between the test and what follows. -/
theorem conditionalCode {receiver : ExprId} {tested access : Emit Operand}
    (htested : Calls tested members fun _ ↦ True) (haccess : Calls access more fun _ ↦ True) :
    Calls (Context.conditionalCode receiver tested access) (members ++ more) fun _ ↦ True := by
  refine htested.bind fun value _ ↦ ?_
  intro s o t hrun
  obtain ⟨dest, t', hfresh, hrun⟩ := Emit.bind_eq_ok.1 hrun
  obtain ⟨⟨body, result⟩, v, hguarded, hrun⟩ := Emit.bind_eq_ok.1 hrun
  obtain ⟨u, hbody, rfl, rfl⟩ := guarded_eq_ok.1 hguarded
  cases hfresh
  cases hrun
  obtain ⟨-, inner, hinner, hmore⟩ := haccess hbody
  refine ⟨trivial, _, rfl, ?_⟩
  rw [List.nil_append] at hinner
  rw [← hmore, ← hinner]
  simp [Instr.helpers, Instr.flattenAll, Instr.flatten, Instr.helper?]

theorem receiverValue {c : Context} {receiver : Expr} :
    Calls (c.receiverValue receiver) [] fun _ ↦ True := by
  intro s o t hrun
  cases h : s.receiver? receiver.id with
  | none =>
    rw [Context.receiverValue_of_unbound h] at hrun
    cases hrun
  | some value =>
    rw [Context.receiverValue_of_bound h] at hrun
    cases hrun
    exact ⟨trivial, [], by simp, rfl⟩

theorem makeIndex {c : Context} {e : Expr} {value : Operand} :
    Calls (c.indexBy e value) [] fun _ ↦ True := by
  unfold Context.indexBy
  split
  · exact plain rfl
  · exact pure trivial

end Calls

/-! ## Lowered subscripts -/

/-- Bounds that make the same calls. -/
def Bound.Alike {α β : Type} (b : Bound α) (b' : Bound β) : Prop :=
  b.isIndex = b'.isIndex ∧ ∀ isStop, b.needsLength isStop = b'.needsLength isStop

theorem Subscript.memberCalls_rangeLiteral {α β : Type} {start stop : Bound α}
    {start' stop' : Bound β} (hstart : start.Alike start') (hstop : stop.Alike stop')
    (kind : SpanKind) : (Subscript.rangeLiteral start stop).memberCalls kind =
      (Subscript.rangeLiteral start' stop').memberCalls kind := by
  simp [memberCalls, selectCalls, needsLength, Bound.memberCalls, hstart.1, hstop.1, hstart.2,
    hstop.2]

namespace Context

variable {c : Context}

/-- A bound is lowered by the type of its expression, as it was bound. -/
theorem boundBy_alike (hc : c.types.WellFormed) {e : Expr} {b : Bound Expr} {value : Operand}
    (h : (match c.types.get (c.typeOf e) with
      | .int => .ok (.int e)
      | .index => .ok (.index e)
      | _ => .error (c.refused e) : Except (Option Diagnostic) (Bound Expr)) = .ok b) :
    (c.boundBy e value).Alike b := by
  unfold boundBy
  split at h
  · rename_i hget
    cases h
    rw [if_pos (hc.eq_int hget)]
    exact ⟨rfl, fun _ ↦ rfl⟩
  · rename_i hget
    cases h
    have hne : c.typeOf e ≠ TypeTable.int := by
      intro htype
      rw [htype] at hget
      cases hget
    rw [if_neg hne]
    exact ⟨rfl, fun _ ↦ rfl⟩
  · cases h

/-- A value is lowered to a subscript by its type, as it was bound. -/
theorem memberCalls_withValue {e : Expr} {s : Subscript Expr} {value : Operand} {kind : SpanKind}
    (h : (match c.types.get (c.typeOf e) with
      | .int => .ok (.int e)
      | .index => .ok (.index e)
      | .range => .ok (.range e)
      | .dynamic => .ok (.dynamic e)
      | _ => .error (c.refused e) : Except (Option Diagnostic) (Subscript Expr)) = .ok s) :
    (s.withValue value).memberCalls kind = s.memberCalls kind := by
  split at h <;> first | cases h; rfl | cases h

end Context

namespace Calls

variable {c : Context}

mutual

/-- The code of an expression calls the members that the expression does. -/
theorem lower (hc : c.types.WellFormed) (demand : Demand) :
    (e : Expr) → Calls (c.lower demand e) (c.memberCalls e) fun _ ↦ True
  | .var .. => variableCode
  | .field _ receiver _ => fieldCode (lower hc _ receiver)
  | .element id receiver args => by
    unfold Context.lower Context.memberCalls Context.viewCalls Context.selectionCalls
    split
    · exact throw
    · rename_i a hbind
      obtain ⟨-, -, -, arg, hargs, hsubscript, -⟩ := Context.bind_eq_ok hbind
      rw [hbind]
      refine accessCode (lower hc _ receiver) (lowerSubscript hc a args fun arg' harg' ↦ ?_)
      rw [hargs] at harg'
      rwa [List.mem_singleton.1 harg']
  | .call .. => callCode
  | .int .. | .bool .. => valueCode (pure trivial)
  | .string .. => valueCode throw
  | .fromEnd _ count => valueCode <| (lower hc .value count).bindLast fun _ _ ↦ plain rfl
  | .range _ start stop => valueCode <| by
    have hcode : Calls (Context.rangeCode _ _) _ fun _ ↦ True :=
      (lowerIndex hc false start).bind fun _ _ ↦ (lowerIndex hc true stop).bindLast fun _ _ ↦ plain rfl
    unfold Context.memberCalls
    exact hcode
  | .default .. => valueCode (plain rfl)
  | .span _ operand _ => valueCode (spanCode (lower hc _ operand))
  | .conditional _ receiver access =>
    valueCode (conditionalCode (lower hc .value receiver) (lower hc .value access))
  | .placeholder .. => valueCode receiverValue

theorem lowerSubscript (hc : c.types.WellFormed) (a : Access) : (args : List (Argument Expr)) →
    (∀ arg ∈ args, c.subscript arg.value = .ok a.subscript) →
      Calls (c.lowerSubscript a args) (c.argumentMemberCalls args) fun s ↦
        s.memberCalls a.indexed.kind = a.subscript.memberCalls a.indexed.kind
  | args, h => by
    unfold Context.lowerSubscript
    split
    · rename_i id count _ _
      obtain ⟨-, -, hcount⟩ := Except.map_eq_ok.1 (h _ List.mem_cons_self)
      rw [← hcount]
      simp only [Context.argumentMemberCalls, Context.memberCalls, List.append_nil]
      exact (lower hc .value count).map fun _ _ ↦ rfl
    · rename_i id start stop _ _
      obtain ⟨b, hstart, hb⟩ := Except.bind_eq_ok.1 (h _ List.mem_cons_self)
      obtain ⟨b', hstop, hb'⟩ := Except.bind_eq_ok.1 hb
      rw [← Except.ok.inj hb']
      have hcode : Calls (Context.rangeLiteralCode _ _) _ fun s ↦ s.memberCalls a.indexed.kind =
          (Subscript.rangeLiteral b b').memberCalls a.indexed.kind :=
        (lowerBound hc start).bind fun first hfirst ↦ (lowerBound hc stop).bindLast fun last hlast ↦
          pure (Subscript.memberCalls_rangeLiteral (hfirst b hstart) (hlast b' hstop) _)
      rw [Context.argumentMemberCalls, Context.argumentMemberCalls, List.append_nil]
      unfold Context.memberCalls
      exact hcode
    · rename_i value _ _ hfromEnd hrange
      have hsubscript := h _ List.mem_cons_self
      unfold Context.subscript at hsubscript
      split at hsubscript
      · rename_i heq
        exact (hfromEnd _ _ heq).elim
      · rename_i heq
        exact (hrange _ _ _ heq).elim
      · simp only [Context.argumentMemberCalls, List.append_nil]
        exact (lower hc .value value).map fun _ _ ↦ Context.memberCalls_withValue hsubscript
    · exact throw

theorem lowerBound (hc : c.types.WellFormed) : (bound : Option Expr) →
    Calls (c.lowerBound bound)
      (match bound with
      | some bound => c.memberCalls bound
      | none => []) fun b ↦ ∀ b', c.bound bound = .ok b' → b.Alike b'
  | none => pure fun b' h ↦ by
    cases h
    exact ⟨rfl, fun _ ↦ rfl⟩
  | some bound => by
    unfold Context.lowerBound
    split
    · rename_i heq
      cases heq
    · rename_i count heq
      cases heq
      simp only [Context.memberCalls]
      refine (lower hc .value count).map fun _ _ b h ↦ ?_
      obtain ⟨-, -, rfl⟩ := Except.map_eq_ok.1 h
      exact ⟨rfl, fun _ ↦ rfl⟩
    · rename_i bound hfromEnd heq
      cases heq
      refine (lower hc .value bound).map fun _ _ b h ↦ ?_
      unfold Context.bound at h
      split at h
      · rename_i heq
        cases heq
      · rename_i heq
        cases heq
        exact (hfromEnd _ _ rfl).elim
      · rename_i heq
        cases heq
        exact Context.boundBy_alike hc h

theorem lowerIndex (hc : c.types.WellFormed) (isStop : Bool) : (bound : Option Expr) →
    Calls (c.lowerIndex isStop bound)
      (match bound with
      | some bound => c.memberCalls bound
      | none => []) fun _ ↦ True
  | none => plain rfl
  | some bound => (lower hc .value bound).bindLast fun _ _ ↦ makeIndex

end

/-! ## Statements -/

theorem lowerInMemory (hc : c.types.WellFormed) (e : Expr) :
    Calls (c.lowerInMemory e) (c.memberCalls e) fun _ ↦ True :=
  (lower hc (c.storageDemand e) e).bindLast fun _ _ ↦ inMemory

theorem lowerArguments (hc : c.types.WellFormed) (args : List (Argument Expr)) :
    Calls (args.mapM c.lowerArgument) (args.flatMap fun arg ↦ c.memberCalls arg.value)
      fun _ ↦ True := by
  induction args with
  | nil => exact pure trivial
  | cons arg args ih =>
    have harg : Calls (c.lowerArgument arg) (c.memberCalls arg.value) fun _ ↦ True := by
      unfold Context.lowerArgument
      split
      · exact lower hc .value arg.value
      · exact lower hc .address arg.value
      · exact lower hc .address arg.value
      · exact lowerInMemory hc arg.value
    rw [List.mapM_cons, List.flatMap_cons]
    exact harg.bind fun o _ ↦ ih.bindLast fun os _ ↦ pure trivial

theorem lowerStatement (hc : c.types.WellFormed) (s : Statement) :
    Calls (c.lowerStatement s) (c.statementMemberCalls s) fun _ ↦ True := by
  unfold Context.statementMemberCalls
  cases s with
  | expression value =>
    rw [Statement.operands, List.flatMap_singleton]
    exact (lower hc .value value).bindLast fun _ _ ↦ pure trivial
  | assign target value =>
    rw [Statement.operands, List.flatMap_cons, List.flatMap_singleton]
    exact (lower hc .address target).bind fun _ _ ↦ (lower hc .value value).bindLast fun _ _ ↦
      emit fun _ ↦ rfl
  | compound target op value =>
    rw [Statement.operands, List.flatMap_cons, List.flatMap_singleton]
    exact (lower hc .address target).bind fun _ _ ↦ (plain rfl).bindFirst fun _ _ ↦
      (lower hc .value value).bindLast fun _ _ ↦ (plain rfl).bindLast fun _ _ ↦ emit fun _ ↦ rfl
  | refLocal bound init =>
    rw [Statement.operands, List.flatMap_singleton]
    exact (lowerInMemory hc init).bindLast fun _ _ ↦ emit fun _ ↦ rfl
  | call callee args =>
    rw [Statement.operands, List.flatMap_map]
    exact (lowerArguments hc args).bindLast fun _ _ ↦ emit fun _ ↦ rfl
  | ret value =>
    cases value with
    | none =>
      have hcode : Calls (Emission.emit (.ret · none)) [] fun _ ↦ True := emit fun _ ↦ rfl
      exact hcode
    | some value =>
      rw [Statement.operands, List.flatMap_singleton]
      exact (lower hc _ value).bindLast fun _ _ ↦ emit fun _ ↦ rfl

theorem lowerStatements (hc : c.types.WellFormed) (statements : List (Statement × SourceSpan)) :
    Calls (c.lowerStatements statements)
      (statements.flatMap fun s ↦ c.statementMemberCalls s.1) fun _ ↦ True := by
  induction statements with
  | nil => exact pure trivial
  | cons first rest ih =>
    obtain ⟨statement, span⟩ := first
    have hcode : Calls (c.lowerStatement statement >>= fun _ ↦ c.lowerStatements rest) _ _ :=
      (lowerStatement hc statement).bind fun _ _ ↦ ih
    intro s u t hrun
    have hrun : (c.lowerStatement statement >>= fun _ ↦ c.lowerStatements rest)
      { s with span := some span } = .ok u t := hrun
    have hcalls := hcode hrun
    exact hcalls

end Calls

namespace Context

variable {c : Context}

theorem helpers_of_lowerBody (hc : c.types.WellFormed) {r : Routine} (h : c.lowerBody = .ok r) :
    r.helpers = c.methodMemberCalls.map (·.helper) := by
  obtain ⟨s, hrun, rfl⟩ := lowerBody_eq_ok h
  obtain ⟨-, code, hcode, hmembers⟩ := Calls.lowerStatements hc _ hrun
  rw [← List.flatMap_map Prod.fst c.statementMemberCalls, c.map_fst_listed] at hmembers
  rw [methodMemberCalls, ← hmembers]
  simp [Routine.helpers, Routine.instrs, Instr.helpers, hcode]

/-! ## The members that are there -/

/-- The member is called by the expression itself, not by a part of it. -/
def CallsItself (c : Context) (m : Member) : Expr → Prop
  | .span _ _ readonly => m = (SpanKind.ofReadonly readonly).accessor
  | e => m ∈ c.viewCalls e ∨ m ∈ c.selectionCalls e

mutual

/-- What an expression calls, some part of it calls itself. -/
theorem mem_memberCalls {m : Member} :
    (e : Expr) → (m ∈ c.memberCalls e ↔ ∃ part ∈ e.parts, c.CallsItself m part)
  | .field id receiver name => by
    rw [Expr.parts_field, memberCalls, mem_memberCalls receiver]
    simp [CallsItself, viewCalls, selectionCalls, Context.bind]
  | .fromEnd id count => by
    rw [Expr.parts_fromEnd, memberCalls, mem_memberCalls count]
    simp [CallsItself, viewCalls, selectionCalls, Context.bind]
  | .range id start stop => by
    rw [Expr.parts_range]
    unfold memberCalls
    rw [List.mem_append, mem_boundMemberCalls start, mem_boundMemberCalls stop]
    simp [CallsItself, viewCalls, selectionCalls, Context.bind, or_and_right, exists_or]
  | .element id receiver args => by
    rw [Expr.parts_element, memberCalls, List.mem_append, List.mem_append, List.mem_append,
      mem_memberCalls receiver, mem_argumentMemberCalls args]
    simp only [List.mem_cons, List.mem_append, or_and_right, exists_or, exists_eq_left, CallsItself]
    grind
  | .span id operand readonly => by
    rw [Expr.parts_span, memberCalls, List.mem_append, List.mem_singleton, mem_memberCalls operand]
    simp only [List.mem_cons, or_and_right, exists_or, exists_eq_left, CallsItself]
    exact or_comm
  | .conditional id receiver access => by
    rw [Expr.parts_conditional, memberCalls, List.mem_append, mem_memberCalls receiver,
      mem_memberCalls access]
    simp [CallsItself, viewCalls, selectionCalls, Context.bind, or_and_right, exists_or]
  | .var .. | .call .. | .int .. | .bool .. | .string .. | .default .. | .placeholder .. => by
    simp [memberCalls, Expr.parts, Expr.uses, CallsItself, viewCalls, selectionCalls, Context.bind]
termination_by structural e => e

theorem mem_argumentMemberCalls {m : Member} : (args : List (Argument Expr)) →
    (m ∈ c.argumentMemberCalls args ↔
      ∃ part ∈ args.flatMap (·.value.parts), c.CallsItself m part)
  | [] => by simp [argumentMemberCalls]
  | arg :: args => by
    rw [argumentMemberCalls, List.mem_append, mem_memberCalls arg.value,
      mem_argumentMemberCalls args]
    simp [or_and_right, exists_or]
termination_by structural args => args

theorem mem_boundMemberCalls {m : Member} : (bound : Option Expr) →
    (m ∈ (match bound with
      | some bound => c.memberCalls bound
      | none => []) ↔ ∃ part ∈ bound.elim [] Expr.parts, c.CallsItself m part)
  | none => by simp
  | some bound => mem_memberCalls bound
termination_by structural bound => bound

end

theorem mem_methodMemberCalls {m : Member} :
    m ∈ c.methodMemberCalls ↔ ∃ use ∈ c.method.uses, c.CallsItself m use.1 :=
  c.method.mem_flatMap_operands mem_memberCalls

/-- An access binds only if all members it calls are there. -/
theorem provides_of_bind {e : Expr} {a : Access} (h : c.bind e = .ok a) {m : Member}
    (hm : m ∈ a.ownCalls) : c.members.provides m := by
  rw [← List.mem_eraseDups, a.eraseDups_ownCalls] at hm
  have hnone := List.filter_eq_nil_iff.1 (List.map_eq_nil_iff.1 (missing_of_bind h)) m hm
  simpa using hnone

/-- Only the member that a conversion calls may be missing. -/
theorem provides_of_callsItself {e : Expr} {m : Member} (h : c.CallsItself m e)
    (hspan : ∀ id operand readonly, e = .span id operand readonly →
      c.members.provides (SpanKind.ofReadonly readonly).accessor) : c.members.provides m := by
  have hbound (h : m ∈ c.viewCalls e ∨ m ∈ c.selectionCalls e) : c.members.provides m := by
    unfold viewCalls selectionCalls at h
    cases hbind : c.bind e with
    | error => simp [hbind] at h
    | ok a =>
      rw [hbind] at h
      exact provides_of_bind hbind (List.mem_append.2 h)
  cases e with
  | span id operand readonly =>
    obtain rfl : m = (SpanKind.ofReadonly readonly).accessor := h
    exact hspan id operand readonly rfl
  | _ => exact hbound h

end Context

/-- The helpers that the code of a method calls are the members that its source calls, one after the
other; all of them are there exactly if the method converts only to spans that can be made. -/
theorem Context.helpers_provided {c : Context} (hc : c.types.Built) {r : Routine}
    (h : c.routine = .ok r) :
    r.helpers = c.methodMemberCalls.map (·.helper) ∧
      ((∀ m ∈ c.methodMemberCalls, c.members.provides m) ↔ c.MakesSpans) := by
  have hbody : c.lowerBody = .ok r := (routine_eq_ok.1 h).2
  refine ⟨helpers_of_lowerBody hc.wellFormed hbody, fun hprovided id operand readonly usage huse ↦ ?_,
    fun hspans m hm ↦ ?_⟩
  · exact hprovided _ (mem_methodMemberCalls.2 ⟨_, huse, rfl⟩)
  · obtain ⟨use, huse, hcalls⟩ := mem_methodMemberCalls.1 hm
    refine provides_of_callsItself hcalls fun id operand readonly he ↦ ?_
    exact hspans id operand readonly use.2 (he ▸ huse)

/-- A method that slices a buffer by a range, if at all, and then converts the buffer to a span, in
an environment without one member. -/
def convertBuffer (missing : Member) (slices : Bool) : Context :=
  let buffer : Expr := .var 0 0
  let range : Expr := .var 1 1
  let slice : Expr := .element 2 buffer [{ value := range }]
  let span : Expr := .span 3 buffer false
  let body : Body :=
    { name := "Main"
      exprs := #[buffer, range, slice, span]
      vars := #[{ name := "b", kind := .parameter .ref, type := TypeTable.builtin.length },
        { name := "r", kind := .parameter .value, type := TypeTable.range }]
      statements := (if slices then [.expression slice] else []) ++ [.expression span] }
  ⟨bufferTypes, ({} : MemberTable).without missing, body.finish⟩

/-- Selecting an element is not among what the method calls. -/
theorem convertBuffer_provided :
    ∃ r, (convertBuffer .spanGetItem true).routine = .ok r ∧
      r.helpers = ["as_span", "length", "range.start", "getoffset", "range.end", "getoffset", "slice",
        "as_span"] ∧
      ∀ m ∈ (convertBuffer .spanGetItem true).methodMemberCalls,
        (convertBuffer .spanGetItem true).members.provides m := by
  obtain ⟨r, hr, hhelpers⟩ : ∃ r, (convertBuffer .spanGetItem true).routine = .ok r ∧
      r.helpers = ["as_span", "length", "range.start", "getoffset", "range.end", "getoffset", "slice",
        "as_span"] := ⟨_, by cbv, by cbv⟩
  refine ⟨r, hr, hhelpers, (Context.helpers_provided bufferTypes_built hr).2.2 ?_⟩
  rintro id operand readonly usage -
  cases readonly <;> rfl

/-- A conversion calls its member though the environment lacks it. -/
theorem convertBuffer_callsMissing :
    ∃ r, (convertBuffer .arrayAsSpan false).routine = .ok r ∧
      ∃ i ∈ r.instrs, i.helper? = some (Member.helper .arrayAsSpan) ∧
        (convertBuffer .arrayAsSpan false).members.provides .arrayAsSpan = false := by
  obtain ⟨r, hr, hhelpers⟩ : ∃ r, (convertBuffer .arrayAsSpan false).routine = .ok r ∧
      r.helpers = ["as_span"] := ⟨_, by cbv, by cbv⟩
  have hmem : "as_span" ∈ r.helpers := by simp [hhelpers]
  obtain ⟨i, hi, hhelper⟩ := List.mem_filterMap.1 hmem
  exact ⟨r, hr, i, hi, hhelper, rfl⟩

end InlineArrays
