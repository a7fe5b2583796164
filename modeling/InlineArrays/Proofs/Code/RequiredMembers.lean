import InlineArrays.Proofs.Code.Helpers
import InlineArrays.Proofs.Code.Selected

/-!
# The members that an access requires

An access is lowered in four steps: its receiver, a span kept of it, its argument, and a selection
from the span.  The second and the fourth are its own.  They call the members that binding requires
and no others, in the order in which binding reports those that are missing.
-/

namespace InlineArrays

namespace Context

open Emission

variable {c : Context} {id : ExprId} {receiver : Expr} {args : List (Argument Expr)} {a : Access}
  {demand : Demand}

/-- The own code of an access once its receiver is lowered. -/
def keepSpan (c : Context) (a : Access) (lowered : Operand) : Emit TempId :=
  c.receiverSpan a lowered >>= spill

/-- The own code of an access once its argument is lowered. -/
def selection (c : Context) (demand : Demand) (a : Access) (temp : TempId)
    (subscript : Subscript Operand) : Emit Operand :=
  subscript.select (.temp temp) >>= c.yieldSelected demand a

theorem lower_eq_own (hbind : c.bind (.element id receiver args) = .ok a) :
    c.lower demand (.element id receiver args) =
      c.lower (c.receiverDemand a) receiver >>= fun lowered ↦ c.keepSpan a lowered >>= fun temp ↦
        c.lowerSubscript a args >>= c.selection demand a temp := by
  rw [lower_yielded hbind]
  simp only [keepSpan, bind_assoc]
  rfl

theorem alwaysCalls_keepSpan {kindOf : Operand → SpanKind} {lowered : Operand} :
    AlwaysCalls kindOf (c.keepSpan a lowered) a.indexed.memberCalls :=
  AlwaysCalls.receiverSpan.bindLast fun _ ↦ .spill

/-- A slice has no address. -/
theorem alwaysCalls_selection {kindOf : Operand → SpanKind} {temp : TempId}
    {subscript : Subscript Operand} (h : a.isSlice → demand = .value) :
    AlwaysCalls kindOf (c.selection demand a temp subscript)
      (subscript.memberCalls (kindOf (.temp temp))) := by
  refine (AlwaysCalls.select subscript).bindLast fun selected ↦ ?_
  unfold yieldSelected
  split
  · rename_i hslice
    rw [h hslice]
    exact .pure
  · exact .fromAddress

theorem value_of_selection_ok {temp : TempId} {subscript : Subscript Operand} {s t : Emission}
    {o : Operand} (h : c.selection demand a temp subscript s = .ok o t) (hslice : a.isSlice) :
    demand = .value := by
  obtain ⟨selected, u, -, h⟩ := Emit.bind_eq_ok.1 h
  unfold yieldSelected at h
  rw [if_pos hslice] at h
  cases demand with
  | value => rfl
  | address => cases h

/-- The argument is lowered to a subscript that calls the members that binding found. -/
theorem memberCalls_lowerSubscript (hc : c.types.WellFormed)
    (hbind : c.bind (.element id receiver args) = .ok a) {subscript : Subscript Operand}
    {s t : Emission} (h : c.lowerSubscript a args s = .ok subscript t) :
    subscript.memberCalls a.indexed.kind = a.subscript.memberCalls a.indexed.kind ∧
      ∃ code, t.code = s.code ++ code := by
  obtain ⟨-, -, -, arg, rfl, hsubscript, -⟩ := bind_eq_ok hbind
  obtain ⟨hsame, code, hcode, -⟩ := Calls.lowerSubscript hc a [arg] (fun arg' harg' ↦ by
    rwa [List.mem_singleton.1 harg']) h
  exact ⟨hsame, code, hcode⟩

/-- From `s` to `t` an access emits code of its own in two pieces: `view`, which stands behind the
code of the receiver and keeps a span in `temp`, and `selection`, which stands behind the code of the
argument. -/
def EmitsOwn (c : Context) (a : Access) (receiver : Expr) (args : List (Argument Expr))
    (s t : Emission) (temp : TempId) (view selection : List Instr) : Prop :=
  ∃ lowered received receiverCode viewed subscript subscripted subscriptCode,
    c.lower (c.receiverDemand a) receiver s = .ok lowered received ∧
    received.code = s.code ++ receiverCode ∧
    c.keepSpan a lowered received = .ok temp viewed ∧
    viewed.code = received.code ++ view ∧
    c.lowerSubscript a args viewed = .ok subscript subscripted ∧
    subscripted.code = viewed.code ++ subscriptCode ∧
    t.code = subscripted.code ++ selection

/-- Where an access is lowered, the code of its own calls its members, whatever kinds other spans are
of. -/
theorem emitsOwn_of_lower (hc : c.types.WellFormed)
    (hbind : c.bind (.element id receiver args) = .ok a) {s t : Emission} {o : Operand}
    (h : c.lower demand (.element id receiver args) s = .ok o t) :
    ∃ temp view selection, c.EmitsOwn a receiver args s t temp view selection ∧
      ∀ kindOf : Operand → SpanKind, kindOf (.temp temp) = a.indexed.kind →
        Instr.members kindOf (view ++ selection) = a.ownCalls := by
  rw [lower_eq_own hbind] at h
  obtain ⟨lowered, received, hreceiver, h⟩ := Emit.bind_eq_ok.1 h
  obtain ⟨temp, viewed, hkeep, h⟩ := Emit.bind_eq_ok.1 h
  obtain ⟨subscript, subscripted, hargs, hselect⟩ := Emit.bind_eq_ok.1 h
  have hkeeps (kindOf : Operand → SpanKind) :
      AlwaysCalls kindOf (c.keepSpan a lowered) a.indexed.memberCalls := alwaysCalls_keepSpan
  have hselects (kindOf : Operand → SpanKind) :
      AlwaysCalls kindOf (c.selection demand a temp subscript)
        (subscript.memberCalls (kindOf (.temp temp))) :=
    alwaysCalls_selection (value_of_selection_ok hselect)
  obtain ⟨-, receiverCode, hreceiverCode, -⟩ := Calls.lower hc _ receiver hreceiver
  obtain ⟨hsame, subscriptCode, hsubscriptCode⟩ := memberCalls_lowerSubscript hc hbind hargs
  obtain ⟨view, hview, -⟩ := (hkeeps fun _ ↦ a.indexed.kind).of_ok hkeep
  obtain ⟨selection, hselection, -⟩ := (hselects fun _ ↦ a.indexed.kind).of_ok hselect
  refine ⟨temp, view, selection, ⟨lowered, received, receiverCode, viewed, subscript, subscripted,
    subscriptCode, hreceiver, hreceiverCode, hkeep, hview, hargs, hsubscriptCode, hselection⟩,
    fun kindOf hkind ↦ ?_⟩
  rw [Instr.members_append, (hkeeps kindOf).members_eq hkeep hview,
    (hselects kindOf).members_eq hselect hselection, hkind, hsame]
  rfl

/-- The own code of an access is emitted whatever its receiver and its argument are lowered to. -/
theorem lower_of_parts (hbind : c.bind (.element id receiver args) = .ok a)
    (hdemand : a.isSlice → demand = .value) {s received : Emission} {lowered : Operand}
    (hreceiver : c.lower (c.receiverDemand a) receiver s = .ok lowered received) :
    ∃ temp viewed, c.keepSpan a lowered received = .ok temp viewed ∧
      ∀ {subscript subscripted}, c.lowerSubscript a args viewed = .ok subscript subscripted →
        ∃ o t, c.lower demand (.element id receiver args) s = .ok o t := by
  have hkeeps : AlwaysCalls (fun _ ↦ a.indexed.kind) (c.keepSpan a lowered) _ := alwaysCalls_keepSpan
  obtain ⟨temp, viewed, -, hkeep, -⟩ := hkeeps received
  refine ⟨temp, viewed, hkeep, fun {subscript subscripted} hargs ↦ ?_⟩
  have hselects : AlwaysCalls (fun _ ↦ a.indexed.kind) (c.selection demand a temp subscript) _ :=
    alwaysCalls_selection hdemand
  obtain ⟨o, t, -, hselect, -⟩ := hselects subscripted
  refine ⟨o, t, ?_⟩
  rw [lower_eq_own hbind]
  exact Emit.bind_eq_ok.2 ⟨_, _, hreceiver, Emit.bind_eq_ok.2 ⟨_, _, hkeep,
    Emit.bind_eq_ok.2 ⟨_, _, hargs, hselect⟩⟩⟩

/-- An access calls, apart from its receiver and its argument, exactly the members it requires, and
in that order; with some of them missing it is refused, each reported once and in that order too. -/
theorem requiredMembers_exact (hc : c.types.WellFormed)
    (hbind : c.bind (.element id receiver args) = .ok a) :
    (∀ {demand s o t}, c.lower demand (.element id receiver args) s = .ok o t →
      ∃ temp view selection, c.EmitsOwn a receiver args s t temp view selection ∧
        ∀ kindOf : Operand → SpanKind, kindOf (.temp temp) = a.indexed.kind →
          (Instr.members kindOf (view ++ selection)).eraseDups = a.requiredMembers) ∧
    (∀ {demand s lowered received}, (a.isSlice → demand = .value) →
      c.lower (c.receiverDemand a) receiver s = .ok lowered received →
        ∃ temp viewed, c.keepSpan a lowered received = .ok temp viewed ∧
          ∀ {subscript subscripted}, c.lowerSubscript a args viewed = .ok subscript subscripted →
            ∃ o t, c.lower demand (.element id receiver args) s = .ok o t) ∧
    a.requiredMembers.Nodup ∧
    ∀ members : MemberTable, (c.withMembers members).bind (.element id receiver args) =
      if a.requiredMembers.all members.provides then .ok a
      else .error <| (a.requiredMembers.filter fun m ↦ !members.provides m).map fun m ↦
        ⟨.missingRequiredMember m.qualifiedName, c.method.span (.element id receiver args)⟩ := by
  refine ⟨fun h ↦ ?_, fun hdemand ↦ lower_of_parts hbind hdemand, a.nodup_requiredMembers,
    fun members ↦ ?_⟩
  · obtain ⟨temp, view, selection, hown, hmembers⟩ := emitsOwn_of_lower hc hbind h
    refine ⟨temp, view, selection, hown, fun kindOf hkind ↦ ?_⟩
    rw [hmembers kindOf hkind, a.eraseDups_ownCalls]
  · rw [bind_withMembers hbind, requireMembers_eq, missing, (bind_eq_ok hbind).1]
    rfl

end Context

/-- The range between two indices that a method is given. -/
def indexRange : Argument Expr where
  value := .range 3 (some (.var 1 1)) (some (.var 2 2))

/-- A method that slices a buffer by the range. -/
def slicesBetween : Context :=
  let buffer : Expr := .var 0 0
  let body : Body :=
    { name := "Main"
      exprs := #[buffer, .var 1 1, .var 2 2, indexRange.value, .element 4 buffer [indexRange]]
      vars := #[{ name := "b", kind := .parameter .ref, type := TypeTable.builtin.length },
        { name := "i", kind := .parameter .value, type := TypeTable.index },
        { name := "j", kind := .parameter .value, type := TypeTable.index }] }
  ⟨bufferTypes, {}, body.finish⟩

/-- Two offsets are got, but the member that gets them is required, and reported, once. -/
theorem slicesBetween_required :
    let required : List Member := [.arrayAsSpan, .spanLength, .indexGetOffset, .spanSlice]
    let members := (({} : MemberTable).without .spanSlice).without .indexGetOffset
    ∃ a t temp view selection,
      slicesBetween.bind (.element 4 (.var 0 0) [indexRange]) = .ok a ∧ a.requiredMembers = required ∧
        slicesBetween.EmitsOwn a (.var 0 0) [indexRange] {} t temp view selection ∧
        (Instr.members (fun _ ↦ .mutable) (view ++ selection)).eraseDups = required ∧
        ((slicesBetween.withMembers members).bind (.element 4 (.var 0 0) [indexRange])).mapError
          (·.map (·.violation)) = .error [.missingRequiredMember "System.Index.GetOffset",
            .missingRequiredMember "System.Span<T>.Slice"] := by
  intro required members
  obtain ⟨a, hbind, hkind, hrequired⟩ : ∃ a,
      slicesBetween.bind (.element 4 (.var 0 0) [indexRange]) = .ok a ∧ a.indexed.kind = .mutable ∧
        a.requiredMembers = required := ⟨_, by cbv, by cbv, by cbv⟩
  obtain ⟨o, t, hlower⟩ : ∃ o t,
      slicesBetween.lower .value (.element 4 (.var 0 0) [indexRange]) {} = .ok o t :=
    ⟨_, _, by cbv⟩
  obtain ⟨hcalls, -, -, hbinds⟩ :=
    Context.requiredMembers_exact bufferTypes_built.wellFormed hbind
  obtain ⟨temp, view, selection, hown, hmembers⟩ := hcalls hlower
  refine ⟨a, t, temp, view, selection, hbind, hrequired, hown, ?_, ?_⟩
  · rw [hmembers _ hkind.symm, hrequired]
  · rw [hbinds, hrequired]
    rfl

end InlineArrays
