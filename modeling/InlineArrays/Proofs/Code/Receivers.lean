import InlineArrays.Code.OfMethod
import InlineArrays.Proofs.Code.Emission
import InlineArrays.Proofs.Scenario.Recorded
import Mathlib

/-!
# Receivers of conditional accesses

While a guarded access is lowered its receiver is bound, and afterwards it is not, whether it was bound
before or not.  So lowering an expression leaves the bindings as they were, but for the receivers that
the expression tests.  If all placeholders of a body stand in accesses to their receivers, and no
access tests its receiver again, every placeholder finds its receiver bound.
-/

namespace InlineArrays

open Emission

/-! ## How an expression uses receivers -/

@[ext]
structure ReceiverUse where
  /-- The receivers of conditional accesses, in the order they are tested. -/
  tested : List ExprId := []
  /-- The receivers of placeholders that stand outside of any access to them. -/
  loose : List ExprId := []
  /-- No access tests the receiver that it is an access to. -/
  apart : Bool := true
  deriving DecidableEq

namespace ReceiverUse

instance : Append ReceiverUse where
  append u v := ⟨u.tested ++ v.tested, u.loose ++ v.loose, u.apart && v.apart⟩

/-- The use that an access to a receiver makes of the others, and the test of it. -/
def within (u : ReceiverUse) (receiver : ExprId) : ReceiverUse where
  tested := receiver :: u.tested
  loose := u.loose.filter (· != receiver)
  apart := u.apart && !u.tested.contains receiver

@[simp]
theorem tested_append (u v : ReceiverUse) : (u ++ v).tested = u.tested ++ v.tested := rfl

@[simp]
theorem loose_append (u v : ReceiverUse) : (u ++ v).loose = u.loose ++ v.loose := rfl

@[simp]
theorem apart_append (u v : ReceiverUse) : (u ++ v).apart = (u.apart && v.apart) := rfl

@[simp]
theorem append_empty (u : ReceiverUse) : u ++ {} = u :=
  ReceiverUse.ext (List.append_nil _) (List.append_nil _) (Bool.and_true _)

theorem append_assoc (u v w : ReceiverUse) : u ++ v ++ w = u ++ (v ++ w) :=
  ReceiverUse.ext (List.append_assoc ..) (List.append_assoc ..) (Bool.and_assoc ..)

end ReceiverUse

mutual

/-- The use that an expression makes of receivers; what stands for a receiver does not evaluate it. -/
def Expr.receiverUse : Expr → ReceiverUse
  | .field _ receiver _ => receiver.receiverUse
  | .fromEnd _ count => count.receiverUse
  | .range _ start stop => boundUse start ++ boundUse stop
  | .element _ receiver args => receiver.receiverUse ++ argumentsUse args
  | .span _ operand _ => operand.receiverUse
  | .conditional _ receiver access =>
    receiver.receiverUse ++ access.receiverUse.within receiver.id
  | .placeholder _ receiver => { loose := [receiver.id] }
  | _ => {}
termination_by structural e => e

def argumentsUse : List (Argument Expr) → ReceiverUse
  | [] => {}
  | arg :: args => arg.value.receiverUse ++ argumentsUse args
termination_by structural args => args

def boundUse : Option Expr → ReceiverUse
  | none => {}
  | some bound => bound.receiverUse
termination_by structural bound => bound

end

/-- The use that expressions make of receivers, one after the other. -/
def expressionsUse : List Expr → ReceiverUse
  | [] => {}
  | e :: es => e.receiverUse ++ expressionsUse es

theorem expressionsUse_append (es more : List Expr) :
    expressionsUse (es ++ more) = expressionsUse es ++ expressionsUse more := by
  induction es with
  | nil => rfl
  | cons e es ih => rw [List.cons_append, expressionsUse, ih, expressionsUse, ReceiverUse.append_assoc]

theorem expressionsUse_settled {es : List Expr}
    (h : ∀ e ∈ es, e.receiverUse.loose = [] ∧ e.receiverUse.apart) :
    (expressionsUse es).loose = [] ∧ (expressionsUse es).apart := by
  induction es with
  | nil => exact ⟨rfl, rfl⟩
  | cons e es ih =>
    obtain ⟨⟨hloose, hapart⟩, hes⟩ := List.forall_mem_cons.1 h
    obtain ⟨hloose', hapart'⟩ := ih hes
    exact ⟨by simp [expressionsUse, hloose, hloose'], by simp [expressionsUse, hapart, hapart']⟩

/-! ## What emitting does to bindings -/

variable {α β : Type}

namespace Emission

/-- The bindings of all but some receivers. -/
def bindingsBut (s : Emission) (gone : List ExprId) : List (ExprId × Operand) :=
  s.receivers.filter fun bound ↦ !gone.contains bound.1

def Finds (s : Emission) (receiver : ExprId) : Prop := receiver ∈ s.receivers.map Prod.fst

variable {s t : Emission} {gone : List ExprId} {receiver : ExprId}

@[simp]
theorem bindingsBut_nil (s : Emission) : s.bindingsBut [] = s.receivers :=
  List.filter_eq_self.2 fun _ _ ↦ rfl

theorem bindingsBut_append (h : t.receivers = s.bindingsBut gone) (more : List ExprId) :
    t.bindingsBut more = s.bindingsBut (gone ++ more) := by
  rw [bindingsBut, h, bindingsBut, bindingsBut, List.filter_filter]
  refine List.filter_congr fun bound _ ↦ ?_
  rw [List.contains_append, Bool.not_or, Bool.and_comm]

theorem Finds.of_bindingsBut (hs : s.Finds receiver) (h : t.receivers = s.bindingsBut gone)
    (hgone : receiver ∉ gone) : t.Finds receiver := by
  obtain ⟨bound, hbound, rfl⟩ := List.mem_map.1 hs
  refine List.mem_map.2 ⟨bound, ?_, rfl⟩
  rw [h]
  exact List.mem_filter.2 ⟨hbound, by simpa using hgone⟩

theorem bindingsBut_of_not_finds (h : ∀ r ∈ gone, ¬ s.Finds r) :
    s.bindingsBut gone = s.receivers := by
  refine List.filter_eq_self.2 fun bound hbound ↦ ?_
  have hnot : bound.1 ∉ gone := fun hgone ↦ h bound.1 hgone (List.mem_map_of_mem hbound)
  simpa using hnot

theorem Finds.isSome_receiver? (hs : s.Finds receiver) : (s.receiver? receiver).isSome := by
  obtain ⟨bound, hbound, rfl⟩ := List.mem_map.1 hs
  rw [receiver?, Option.isSome_map, List.find?_isSome]
  exact ⟨bound, hbound, by simp⟩

end Emission

/-- `act` drops the bindings of the receivers that are tested, or of some of them if it fails; and it
finds the receivers it uses, if they are bound and stay so. -/
def Handles (act : Emit α) (use : ReceiverUse) : Prop := ∀ s, match act s with
  | .ok _ t => t.receivers = s.bindingsBut use.tested
  | .error e t => (∃ gone ⊆ use.tested, t.receivers = s.bindingsBut gone) ∧
    (use.apart → (∀ r ∈ use.loose, r ∉ use.tested ∧ s.Finds r) → ∀ text, e ≠ .unboundReceiver text)

namespace Handles

variable {act : Emit α} {f : α → Emit β} {u v : ReceiverUse}

theorem pure {a : α} : Handles (pure a : Emit α) {} := fun s ↦ s.bindingsBut_nil.symm

theorem throw {e : LoweringError} (h : ∀ text, e ≠ .unboundReceiver text) :
    Handles (throw e : Emit α) u :=
  fun s ↦ ⟨⟨[], List.nil_subset _, s.bindingsBut_nil.symm⟩, fun _ _ ↦ h⟩

theorem bind (hact : Handles act u) (hf : ∀ a, Handles (f a) v) : Handles (act >>= f) (u ++ v) := by
  intro s
  change match EStateM.bind act f s with
    | .ok _ t => _
    | .error e t => _
  have hfirst := hact s
  cases hrun : act s with
  | error e t =>
    rw [hrun] at hfirst
    obtain ⟨⟨gone, hgone, ht⟩, hfinds⟩ := hfirst
    simp only [EStateM.bind, hrun]
    refine ⟨⟨gone, fun r hr ↦ List.mem_append_left _ (hgone hr), ht⟩, fun hapart hloose ↦ ?_⟩
    refine hfinds (Bool.and_eq_true_iff.1 hapart).1 fun r hr ↦ ?_
    obtain ⟨htested, hbound⟩ := hloose r (List.mem_append_left _ hr)
    exact ⟨fun h ↦ htested (List.mem_append_left _ h), hbound⟩
  | ok a t =>
    rw [hrun] at hfirst
    have ht : t.receivers = s.bindingsBut u.tested := hfirst
    have hsecond := hf a t
    simp only [EStateM.bind, hrun]
    cases hrun' : f a t with
    | ok b t' =>
      rw [hrun'] at hsecond
      exact Eq.trans hsecond (Emission.bindingsBut_append ht _)
    | error e t' =>
      rw [hrun'] at hsecond
      obtain ⟨⟨gone, hgone, ht'⟩, hfinds⟩ := hsecond
      refine ⟨⟨u.tested ++ gone, List.append_subset.2 ⟨List.subset_append_left _ _, List.subset_append_of_subset_right _ hgone⟩, ?_⟩,
        fun hapart hloose ↦ ?_⟩
      · rw [ht', Emission.bindingsBut_append ht]
      · refine hfinds (Bool.and_eq_true_iff.1 hapart).2 fun r hr ↦ ?_
        obtain ⟨htested, hbound⟩ := hloose r (List.mem_append_right _ hr)
        exact ⟨fun h ↦ htested (List.mem_append_right _ h),
          hbound.of_bindingsBut ht fun h ↦ htested (List.mem_append_left _ h)⟩

/-- A step that uses no receivers. -/
theorem bindFirst (hact : Handles act {}) (hf : ∀ a, Handles (f a) u) : Handles (act >>= f) u :=
  hact.bind hf

theorem bindLast (hact : Handles act u) (hf : ∀ a, Handles (f a) {}) : Handles (act >>= f) u := by
  simpa using hact.bind hf

theorem map {f : α → β} (hact : Handles act u) : Handles (f <$> act) u := by
  rw [map_eq_pure_bind]
  exact hact.bindLast fun _ ↦ pure

theorem emit {make : Note → Instr} {comment : Option String} : Handles (emit make comment) {} :=
  fun s ↦ s.bindingsBut_nil.symm

theorem freshValue : Handles freshValue {} := fun s ↦ s.bindingsBut_nil.symm

theorem define {operation : Operation} {comment : Option String} :
    Handles (define operation comment) {} := fun s ↦ s.bindingsBut_nil.symm

theorem spill {value : Operand} : Handles (spill value) {} := fun s ↦ s.bindingsBut_nil.symm

theorem inMemory {demand : Demand} {lowered : Operand} : Handles (demand.inMemory lowered) {} := by
  cases demand with
  | value => exact spill.bindFirst fun _ ↦ define
  | address => exact pure

theorem fromAddress {demand : Demand} {address : Operand} :
    Handles (demand.fromAddress address) {} := by
  cases demand with
  | value => exact define
  | address => exact pure

/-- The body of a guard finds its receiver, and leaves it unbound. -/
theorem guarded {receiver : ExprId} {tested : Operand} {body : Emit Operand}
    (hbody : Handles body u) : Handles (guarded receiver tested body) (u.within receiver) := by
  intro s
  let inner : Emission := { s with
    code := [], receivers := (receiver, tested) :: s.receivers.filter (·.1 != receiver) }
  have hinner := hbody inner
  -- Without the receiver, the bindings inside are those outside.
  have hbindings {t : Emission} {gone : List ExprId} (ht : t.receivers = inner.bindingsBut gone) :
      t.receivers.filter (·.1 != receiver) = s.bindingsBut (receiver :: gone) := by
    rw [ht]
    simp only [Emission.bindingsBut, inner, List.filter_filter]
    rw [List.filter_cons_of_neg (by simp), List.filter_filter]
    refine List.filter_congr fun bound _ ↦ ?_
    rw [List.contains_cons]
    cases h : bound.1 == receiver <;> simp [bne, h]
  have hfinds {r : ExprId} (hr : s.Finds r ∨ r = receiver) : inner.Finds r := by
    by_cases hreceiver : r = receiver
    · exact List.mem_map.2 ⟨(receiver, tested), List.mem_cons_self, hreceiver.symm⟩
    · obtain ⟨bound, hbound, rfl⟩ := List.mem_map.1 (hr.resolve_right hreceiver)
      refine List.mem_map.2 ⟨bound, List.mem_cons_of_mem _ (List.mem_filter.2 ⟨hbound, ?_⟩), rfl⟩
      simpa using hreceiver
  cases hrun : body inner with
  | ok result t =>
    rw [Emission.guarded_eq_ok.2 ⟨t, hrun, rfl, rfl⟩]
    rw [hrun] at hinner
    exact hbindings hinner
  | error e t =>
    rw [Emission.guarded_eq_error.2 ⟨t, hrun, rfl⟩]
    rw [hrun] at hinner
    obtain ⟨⟨gone, hgone, ht⟩, hnot⟩ := hinner
    refine ⟨⟨receiver :: gone, List.cons_subset_cons _ hgone, hbindings ht⟩,
      fun hapart hloose ↦ hnot ?_ fun r hr ↦ ?_⟩
    · exact (Bool.and_eq_true_iff.1 hapart).1
    · by_cases hreceiver : r = receiver
      · have hagain : u.tested.contains receiver = false := by
          simpa using (Bool.and_eq_true_iff.1 hapart).2
        rw [hreceiver]
        exact ⟨by simpa using hagain, hfinds (.inr rfl)⟩
      · obtain ⟨htested, hbound⟩ :=
          hloose r (List.mem_filter.2 ⟨hr, by simpa using hreceiver⟩)
        exact ⟨fun h ↦ htested (List.mem_cons_of_mem _ h), hfinds (.inl hbound)⟩

/-! ## The code of expressions -/

theorem offset {isStop : Bool} {length : Operand} {b : Bound Operand} :
    Handles (b.offset isStop length) {} := by
  cases b with
  | omitted | int => exact pure
  | fromEnd | index => exact define

theorem selectIn {span length : Operand} (s : Subscript Operand) :
    Handles (s.selectIn span length) {} := by
  cases s with
  | int position => exact define
  | fromEnd count => exact define.bindFirst fun _ ↦ define
  | index value => exact define.bindFirst fun _ ↦ define
  | dynamic value => exact define.bindFirst fun _ ↦ define
  | range value =>
    exact define.bindFirst fun _ ↦ define.bindFirst fun _ ↦ define.bindFirst fun _ ↦
      define.bindFirst fun _ ↦ define.bindFirst fun _ ↦ define
  | rangeLiteral start stop =>
    exact offset.bindFirst fun _ ↦ offset.bindFirst fun _ ↦ define.bindFirst fun _ ↦ define

theorem select {span : Operand} (s : Subscript Operand) : Handles (s.select span) {} := by
  unfold Subscript.select
  split
  · exact define.bindFirst fun _ ↦ selectIn s
  · exact selectIn s

variable {c : Context} {demand : Demand}

theorem receiverSpan {a : Access} {lowered : Operand} : Handles (c.receiverSpan a lowered) {} := by
  unfold Context.receiverSpan
  split
  · exact inMemory.bindFirst fun _ ↦ define
  · exact pure

theorem accessCode {a : Access} {receiver : Emit Operand} {subscript : Emit (Subscript Operand)}
    (hreceiver : Handles receiver u) (hsubscript : Handles subscript v) :
    Handles (c.accessCode demand a receiver subscript) (u ++ v) := by
  refine hreceiver.bind fun lowered ↦ receiverSpan.bindFirst fun span ↦ spill.bindFirst fun temp ↦
    hsubscript.bindLast fun s ↦ (select s).bindFirst fun selected ↦ ?_
  split
  · cases demand with
    | value => exact pure
    | address => exact throw nofun
  · exact fromAddress

theorem variableCode {target : VariableId} : Handles (c.variableCode demand target) {} := by
  have haddress : Handles (c.variableAddress target) {} := by
    refine define.bindFirst fun slot ↦ ?_
    split
    · exact define
    · exact pure
  refine haddress.bindFirst fun address ↦ ?_
  cases demand with
  | value => exact define
  | address => exact pure

theorem fieldCode {receiver : Expr} {name : String} {code : Emit Operand} (hcode : Handles code u) :
    Handles (c.fieldCode demand receiver name code) u := by
  have howner (lowered : Operand) : Handles (c.ownerOf receiver lowered) {} := by
    unfold Context.ownerOf
    split
    · exact pure
    · exact inMemory
  exact hcode.bindLast fun lowered ↦ (howner lowered).bindFirst fun base ↦
    define.bindFirst fun address ↦ fromAddress

theorem valueCode {e : Expr} {code : Emit Operand} (hcode : Handles code u) :
    Handles (c.valueCode demand e code) u := by
  cases demand with
  | value => exact hcode
  | address => exact throw nofun

theorem callCode {e : Expr} {callee : String} {returns : ReturnKind} :
    Handles (c.callCode demand e callee returns) {} := by
  unfold Context.callCode
  split
  · exact freshValue.bindFirst fun _ ↦ emit.bindFirst fun _ ↦ fromAddress
  · exact valueCode (freshValue.bindFirst fun _ ↦ emit.bindFirst fun _ ↦ pure)

theorem spanCode {readonly : Bool} {operand : Expr} {code : Emit Operand} (hcode : Handles code u) :
    Handles (c.spanCode readonly operand code) u := by
  unfold Context.spanCode
  split
  · exact throw fun _ ↦ by simp
  · exact hcode.bindLast fun _ ↦ inMemory.bindFirst fun _ ↦ define

/-- The receiver is tested before it is bound. -/
theorem conditionalCode {receiver : ExprId} {tested access : Emit Operand}
    (htested : Handles tested u) (haccess : Handles access v) :
    Handles (Context.conditionalCode receiver tested access) (u ++ v.within receiver) :=
  htested.bind fun _ ↦ freshValue.bindFirst fun _ ↦ (guarded haccess).bindLast fun _ ↦
    emit.bindFirst fun _ ↦ pure

theorem receiverValue {receiver : Expr} :
    Handles (c.receiverValue receiver) { loose := [receiver.id] } := by
  intro s
  cases h : s.receiver? receiver.id with
  | some value =>
    rw [Context.receiverValue_of_bound h]
    exact s.bindingsBut_nil.symm
  | none =>
    rw [Context.receiverValue_of_unbound h]
    refine ⟨⟨[], List.nil_subset _, s.bindingsBut_nil.symm⟩, fun _ hloose ↦ ?_⟩
    have hfound := (hloose receiver.id List.mem_cons_self).2.isSome_receiver?
    rw [h] at hfound
    cases hfound

mutual

theorem lower (demand : Demand) : (e : Expr) → Handles (c.lower demand e) e.receiverUse
  | .var .. => variableCode
  | .field _ receiver _ => fieldCode (lower _ receiver)
  | .element id receiver args => by
    unfold Context.lower
    split
    · exact throw nofun
    · rename_i a hbind
      exact accessCode (lower _ receiver) (lowerSubscript a args)
  | .call .. => callCode
  | .int .. | .bool .. => valueCode pure
  | .string .. => valueCode (throw nofun)
  | .fromEnd _ count => valueCode ((lower .value count).bindLast fun _ ↦ define)
  | .range _ start stop => by
    unfold Context.lower Expr.receiverUse
    exact valueCode <| (lowerIndex false start).bind fun _ ↦ (lowerIndex true stop).bindLast fun _ ↦
      define
  | .default .. => valueCode define
  | .span _ operand _ => valueCode (spanCode (lower _ operand))
  | .conditional _ receiver access =>
    valueCode (conditionalCode (lower .value receiver) (lower .value access))
  | .placeholder .. => valueCode receiverValue

theorem lowerSubscript (a : Access) : (args : List (Argument Expr)) →
    Handles (c.lowerSubscript a args) (argumentsUse args)
  | args => by
    unfold Context.lowerSubscript
    split
    · rename_i id count _ _
      rw [argumentsUse, argumentsUse, Expr.receiverUse, ReceiverUse.append_empty]
      exact (lower .value count).map
    · rename_i id start stop _ _
      rw [argumentsUse, argumentsUse, ReceiverUse.append_empty]
      unfold Expr.receiverUse
      exact (lowerBound start).bind fun _ ↦ (lowerBound stop).bindLast fun _ ↦ pure
    · rename_i value _ _ _ _
      rw [argumentsUse, argumentsUse, ReceiverUse.append_empty]
      exact (lower .value value).map
    · exact throw nofun

theorem lowerBound : (bound : Option Expr) → Handles (c.lowerBound bound) (boundUse bound)
  | none => pure
  | some bound => by
    unfold Context.lowerBound boundUse
    split
    · rename_i heq
      cases heq
    · rename_i count heq
      cases heq
      exact (lower .value count).map
    · rename_i bound _ heq
      cases heq
      exact (lower .value bound).map

theorem lowerIndex (isStop : Bool) : (bound : Option Expr) →
    Handles (c.lowerIndex isStop bound) (boundUse bound)
  | none => define
  | some bound => by
    refine (lower .value bound).bindLast fun value ↦ ?_
    unfold Context.indexBy
    split
    · exact define
    · exact pure

end

/-! ## Statements -/

theorem lowerInMemory (e : Expr) : Handles (c.lowerInMemory e) e.receiverUse :=
  (lower _ e).bindLast fun _ ↦ inMemory

theorem lowerArguments (args : List (Argument Expr)) :
    Handles (args.mapM c.lowerArgument) (expressionsUse (args.map (·.value))) := by
  induction args with
  | nil => exact pure
  | cons arg args ih =>
    have harg : Handles (c.lowerArgument arg) arg.value.receiverUse := by
      unfold Context.lowerArgument
      split
      · exact lower .value arg.value
      · exact lower .address arg.value
      · exact lower .address arg.value
      · exact lowerInMemory arg.value
    rw [List.mapM_cons]
    exact harg.bind fun _ ↦ ih.bindLast fun _ ↦ pure

theorem lowerStatement (s : Statement) :
    Handles (c.lowerStatement s) (expressionsUse s.exprs) := by
  cases s with
  | expression value => exact (lower .value value).bind fun _ ↦ pure
  | assign target value =>
    exact (lower .address target).bind fun _ ↦ (lower .value value).bind fun _ ↦ emit
  | compound target op value =>
    exact (lower .address target).bind fun _ ↦ define.bindFirst fun _ ↦
      (lower .value value).bind fun _ ↦ define.bindFirst fun _ ↦ emit
  | refLocal bound init => exact (lowerInMemory init).bind fun _ ↦ emit
  | call callee args => exact (lowerArguments args).bindLast fun _ ↦ emit
  | ret value =>
    cases value with
    | none =>
      have hcode : Handles (Emission.emit (.ret · none)) {} := emit
      exact hcode
    | some value => exact (lower _ value).bind fun _ ↦ emit

theorem lowerStatements (statements : List (Statement × SourceSpan)) :
    Handles (c.lowerStatements statements)
      (expressionsUse (statements.flatMap fun s ↦ s.1.exprs)) := by
  induction statements with
  | nil => exact pure
  | cons first rest ih =>
    obtain ⟨statement, span⟩ := first
    rw [List.flatMap_cons, expressionsUse_append]
    have hcode := (lowerStatement (c := c) statement).bind fun _ ↦ ih
    intro s
    exact hcode { s with span := some span }

end Handles

namespace Context

/-- If all placeholders stand in accesses to their receivers, and no access tests its receiver again,
then each of them finds its receiver bound. -/
theorem lowerBody_ne_unboundReceiver {c : Context}
    (h : ∀ s ∈ c.method.statements, ∀ e ∈ s.exprs, e.receiverUse.loose = [] ∧ e.receiverUse.apart)
    (text : String) : c.lowerBody ≠ .error (.unboundReceiver text) := by
  intro hlower
  have hhandles := Handles.lowerStatements (c := c)
    (c.method.statements.zip c.method.listing.statements) {}
  rw [← List.flatMap_map Prod.fst Statement.exprs, c.map_fst_listed] at hhandles
  obtain ⟨hloose, hapart⟩ := expressionsUse_settled (List.forall_mem_flatMap.2 h)
  unfold lowerBody at hlower
  split at hlower
  · rename_i e t hrun
    cases hlower
    rw [hrun] at hhandles
    exact hhandles.2 hapart (by simp [hloose]) text rfl
  · cases hlower

/-- Lowering an expression leaves the bindings of receivers as they were, unless it tests one that is
bound: that one is bound no more.  So where placeholders stand in accesses to their receivers, and no
access tests its receiver again, lowering finds all receivers. -/
theorem receivers_of_lower (c : Context) :
    (∀ demand e s, (∀ r ∈ e.receiverUse.tested, ¬ s.Finds r) →
      match c.lower demand e s with
      | .ok _ t | .error _ t => t.receivers = s.receivers) ∧
    (∀ demand e s o t, c.lower demand e s = .ok o t →
      t.receivers = s.bindingsBut e.receiverUse.tested) ∧
    ((∀ s ∈ c.method.statements, ∀ e ∈ s.exprs, e.receiverUse.loose = [] ∧ e.receiverUse.apart) →
      ∀ text, c.routine ≠ .error (.unboundReceiver text)) := by
  refine ⟨fun demand e s hnot ↦ ?_, fun demand e s o t hrun ↦ ?_, fun h text hroutine ↦ ?_⟩
  · have hhandles := Handles.lower (c := c) demand e s
    cases hrun : c.lower demand e s with
    | ok o t =>
      rw [hrun] at hhandles
      exact Eq.trans hhandles (Emission.bindingsBut_of_not_finds hnot)
    | error e t =>
      rw [hrun] at hhandles
      obtain ⟨⟨gone, hgone, ht⟩, -⟩ := hhandles
      exact ht.trans (Emission.bindingsBut_of_not_finds fun r hr ↦ hnot r (hgone hr))
  · have hhandles := Handles.lower (c := c) demand e s
    rw [hrun] at hhandles
    exact hhandles
  · unfold routine at hroutine
    split at hroutine
    · cases hroutine
    · exact lowerBody_ne_unboundReceiver h text hroutine
    · cases hroutine

end Context

/-- A class of nodes, each with a number and a buffer. -/
def numberedTypes : TypeTable :=
  ⟨[.struct ⟨"Node", .reference,
      [⟨"n", TypeTable.int, false⟩, ⟨"cells", TypeTable.builtin.length + 1, false⟩]⟩,
    .array ⟨"Buffer4", TypeTable.int, 4⟩, .span TypeTable.int false, .span TypeTable.int true]⟩

/-- Slices the buffer of one of two nodes, `c?.cells[start..c.n]`, where `c` in the bound stands for
the receiver and `start` is `c?.n` or, of the other node, `d?.n`. -/
def slicesCells (again : Bool) : Context :=
  let c : Expr := .var 0 0
  let d : Expr := .var 1 1
  let ofD : Expr := .field 3 (.placeholder 2 d) "n"
  let numberOfD : Expr := .conditional 4 d ofD
  let ofC : Expr := .field 6 (.placeholder 5 c) "n"
  let numberOfC : Expr := .conditional 7 c ofC
  let bounds : Expr := .range 8 (some (if again then numberOfC else numberOfD)) (some ofC)
  let cells : Expr := .field 10 (.placeholder 9 c) "cells"
  let slice : Expr := .element 11 cells [{ value := bounds }]
  let access : Expr := .conditional 12 c slice
  let node (name : String) : Variable :=
    { name, kind := .parameter .value, type := TypeTable.builtin.length }
  let body : Body :=
    { name := "M"
      exprs := #[c, d, .placeholder 2 d, ofD, numberOfD, .placeholder 5 c, ofC, numberOfC, bounds,
        .placeholder 9 c, cells, slice, access]
      vars := #[node "c", node "d"]
      statements := [.expression access] }
  ⟨numberedTypes, {}, body.finish⟩

theorem slicesCells_finds :
    (∃ r, (slicesCells false).routine = .ok r) ∧
      ∀ text, (slicesCells false).routine ≠ .error (.unboundReceiver text) := by
  refine ⟨⟨_, by cbv⟩, (slicesCells false).receivers_of_lower.2.2 fun s hs e he ↦ ?_⟩
  cases List.mem_singleton.1 hs
  cases List.mem_singleton.1 he
  exact ⟨by cbv, by cbv⟩

/-- A second test of the receiver leaves it unbound for what follows in the access. -/
theorem slicesCells_unbound :
    (∀ s ∈ (slicesCells true).method.statements, ∀ e ∈ s.exprs, e.receiverUse.loose = []) ∧
      (slicesCells true).validate? = some [] ∧
      (slicesCells true).routine = .error (.unboundReceiver "c") ∧
      ∃ o t, (slicesCells true).lower .value
          (.conditional 7 (.var 0 0) (.field 6 (.placeholder 5 (.var 0 0)) "n"))
          { receivers := [(0, .computed 0)] } = .ok o t ∧ t.receivers = [] := by
  refine ⟨fun s hs e he ↦ ?_, by cbv, by cbv, _, _, rfl, by cbv⟩
  cases List.mem_singleton.1 hs
  cases List.mem_singleton.1 he
  cbv

end InlineArrays
