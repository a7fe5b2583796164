import InlineArrays.Code.OfAccess
import InlineArrays.Proofs.Code.Emission

/-!
# Members that accesses call

An operation may stand for a call of a member of the target environment; which member measures,
indexes or slices a span depends on the kind of the span.  What an access emits apart from its
receiver and its argument never fails to be emitted, and calls the members that its form says, one
after the other.  Each of them is required once.
-/

namespace InlineArrays

open Emission

/-- What code shows of a call of the member. -/
def Member.helper : Member → String
  | .arrayAsSpan => "as_span"
  | .arrayAsReadonlySpan => "as_readonly_span"
  | .spanGetItem | .readonlySpanGetItem => "index"
  | .spanSlice | .readonlySpanSlice => "slice"
  | .spanLength | .readonlySpanLength => "length"
  | .indexGetOffset => "getoffset"
  | .rangeStart => "range.start"
  | .rangeEnd => "range.end"

namespace SpanKind

variable (kind : SpanKind)

@[simp]
theorem helper_accessor :
    kind.accessor.helper = if kind.isReadonly then "as_readonly_span" else "as_span" := by
  cases kind <;> rfl

@[simp]
theorem helper_getItem : kind.getItem.helper = "index" := by
  cases kind <;> rfl

@[simp]
theorem helper_slice : kind.slice.helper = "slice" := by
  cases kind <;> rfl

@[simp]
theorem helper_length : kind.length.helper = "length" := by
  cases kind <;> rfl

end SpanKind

/-! ## The members that an access calls -/

namespace Bound

variable {α : Type}

def memberCalls (b : Bound α) : List Member := if b.isIndex then [.indexGetOffset] else []

end Bound

namespace Subscript

variable {α : Type}

/-- The members called to select from a span of known length. -/
def selectCalls (kind : SpanKind) : Subscript α → List Member
  | .int _ | .fromEnd _ | .dynamic _ => [kind.getItem]
  | .index _ => [.indexGetOffset, kind.getItem]
  | .range _ => [.rangeStart, .indexGetOffset, .rangeEnd, .indexGetOffset, kind.slice]
  | .rangeLiteral start stop => start.memberCalls ++ stop.memberCalls ++ [kind.slice]

/-- The members called to select from a span once the subscript is evaluated. -/
def memberCalls (kind : SpanKind) (s : Subscript α) : List Member :=
  (if s.needsLength then [kind.length] else []) ++ s.selectCalls kind

end Subscript

/-- The member called to view what is indexed as a span. -/
def Indexed.memberCalls : Indexed → List Member
  | .array p => [p.kind.accessor]
  | .span .. => []

theorem nodup_eraseDups {α : Type} [BEq α] [LawfulBEq α] : (l : List α) → l.eraseDups.Nodup
  | [] => by simp
  | a :: l => by
    rw [List.eraseDups_cons, List.nodup_cons]
    exact ⟨by simp, nodup_eraseDups _⟩
termination_by l => l.length
decreasing_by exact Nat.lt_succ_of_le (List.length_filter_le _ _)

namespace Access

variable {a : Access}

/-- The members that an access calls apart from its receiver and its argument, one after the
other. -/
def ownCalls (a : Access) : List Member :=
  a.indexed.memberCalls ++ a.subscript.memberCalls a.indexed.kind

theorem requiredMembers_eq_eraseDups (a : Access) : a.requiredMembers = a.calls.eraseDups := by
  have hfold (calls members : List Member) :
      calls.foldl (fun members m ↦ if members.contains m then members else members ++ [m]) members =
        members ++ (calls.removeAll members).eraseDups := by
    induction calls generalizing members with
    | nil => simp
    | cons call calls ih =>
      rw [List.foldl_cons, ih, List.cons_removeAll]
      cases members.contains call with
      | true => rfl
      | false =>
        have hrest : calls.removeAll (members ++ [call]) =
            (calls.removeAll members).filter fun m ↦ !m == call := by
          simp only [List.removeAll, List.filter_filter]
          exact List.filter_congr fun m _ ↦ by grind
        simp [List.eraseDups_cons, hrest]
  rw [requiredMembers, hfold, List.removeAll_nil, List.nil_append]

theorem nodup_requiredMembers (a : Access) : a.requiredMembers.Nodup := by
  rw [requiredMembers_eq_eraseDups]
  exact nodup_eraseDups _

/-- An offset is got from more than one index, but required once, where it is first got. -/
theorem eraseDups_ownCalls (a : Access) : a.ownCalls.eraseDups = a.requiredMembers := by
  rw [requiredMembers_eq_eraseDups]
  obtain ⟨-, -, indexed, subscript, -⟩ := a
  rcases indexed with ⟨-, -, -, _ | _, -⟩ | ⟨_ | _, -, -⟩ <;>
    rcases subscript with _ | _ | _ | _ | ⟨_ | _ | _ | _, _ | _ | _ | _⟩ | _ <;> rfl

end Access

/-! ## The members that code calls -/

/-- The member that an operation calls, given the kinds of the spans it is applied to. -/
def Operation.member? (kindOf : Operand → SpanKind) : Operation → Option Member
  | .project kind .. => some kind.accessor
  | .length span => some (kindOf span).length
  | .getOffset .. => some .indexGetOffset
  | .rangeStart _ => some .rangeStart
  | .rangeEnd _ => some .rangeEnd
  | .index span _ => some (kindOf span).getItem
  | .slice span .. => some (kindOf span).slice
  | _ => none

/-- Code shows the member by name, but not the kind of span that it is a member of. -/
theorem Operation.helper?_eq_map (kindOf : Operand → SpanKind) (operation : Operation) :
    operation.helper? = (operation.member? kindOf).map (·.helper) := by
  cases operation with
  | getOffset | rangeStart | rangeEnd => rfl
  | _ => simp [helper?, member?]

namespace Instr

variable {kindOf : Operand → SpanKind}

def member? (kindOf : Operand → SpanKind) : Instr → Option Member
  | .define _ _ operation => operation.member? kindOf
  | _ => none

theorem helper?_eq_map (kindOf : Operand → SpanKind) (i : Instr) :
    i.helper? = (i.member? kindOf).map (·.helper) := by
  cases i with
  | define note dest operation => exact operation.helper?_eq_map kindOf
  | _ => rfl

/-- The members called by code, bodies of guards included. -/
def members (kindOf : Operand → SpanKind) (code : List Instr) : List Member :=
  (flattenAll code).filterMap (·.member? kindOf)

theorem members_append (code rest : List Instr) :
    members kindOf (code ++ rest) = members kindOf code ++ members kindOf rest := by
  simp [members, flattenAll_append]

end Instr

/-- From any state `act` emits code, which calls the members one after the other. -/
def AlwaysCalls {α : Type} (kindOf : Operand → SpanKind) (act : Emit α) (members : List Member) :
    Prop :=
  ∀ s, ∃ a t code, act s = .ok a t ∧ t.code = s.code ++ code ∧ Instr.members kindOf code = members

namespace AlwaysCalls

variable {α β : Type} {kindOf : Operand → SpanKind} {act : Emit α} {f : α → Emit β}
  {members more : List Member}

theorem of_ok {s t : Emission} {a : α} (h : AlwaysCalls kindOf act members)
    (hrun : act s = .ok a t) :
    ∃ code, t.code = s.code ++ code ∧ Instr.members kindOf code = members := by
  obtain ⟨a', t', code, hact, hcode⟩ := h s
  cases hact.symm.trans hrun
  exact ⟨code, hcode⟩

theorem members_eq {s t : Emission} {a : α} {code : List Instr}
    (h : AlwaysCalls kindOf act members) (hrun : act s = .ok a t) (hcode : t.code = s.code ++ code) :
    Instr.members kindOf code = members := by
  obtain ⟨code', hcode', hmembers⟩ := h.of_ok hrun
  rwa [List.append_cancel_left (hcode.symm.trans hcode')]

theorem pure {a : α} : AlwaysCalls kindOf (pure a : Emit α) [] :=
  fun s ↦ ⟨a, s, [], rfl, by simp, rfl⟩

theorem bind (hact : AlwaysCalls kindOf act members) (hf : ∀ a, AlwaysCalls kindOf (f a) more) :
    AlwaysCalls kindOf (act >>= f) (members ++ more) := by
  intro s
  obtain ⟨a, t, code, hfirst, hcode, rfl⟩ := hact s
  obtain ⟨b, u, rest, hsecond, hrest, rfl⟩ := hf a t
  exact ⟨b, u, code ++ rest, Emit.bind_eq_ok.2 ⟨a, t, hfirst, hsecond⟩,
    by rw [hrest, hcode, List.append_assoc], Instr.members_append code rest⟩

/-- A step that calls nothing. -/
theorem bindFirst (hact : AlwaysCalls kindOf act [])
    (hf : ∀ a, AlwaysCalls kindOf (f a) members) : AlwaysCalls kindOf (act >>= f) members :=
  hact.bind hf

/-- A last step that calls nothing. -/
theorem bindLast (hact : AlwaysCalls kindOf act members) (hf : ∀ a, AlwaysCalls kindOf (f a) []) :
    AlwaysCalls kindOf (act >>= f) members := by
  simpa using hact.bind hf

theorem define {operation : Operation} {comment : Option String} :
    AlwaysCalls kindOf (define operation comment) (operation.member? kindOf).toList := by
  intro s
  refine ⟨_, _, _, rfl, rfl, ?_⟩
  cases h : operation.member? kindOf <;>
    simp [Instr.members, Instr.flattenAll, Instr.flatten, Instr.member?, h]

theorem spill {value : Operand} : AlwaysCalls kindOf (spill value) [] :=
  fun _ ↦ ⟨_, _, _, rfl, rfl, rfl⟩

theorem inMemory {demand : Demand} {lowered : Operand} :
    AlwaysCalls kindOf (demand.inMemory lowered) [] := by
  cases demand with
  | value => exact spill.bindFirst fun _ ↦ define
  | address => exact pure

theorem fromAddress {demand : Demand} {address : Operand} :
    AlwaysCalls kindOf (demand.fromAddress address) [] := by
  cases demand with
  | value => exact define
  | address => exact pure

theorem offset {isStop : Bool} {length : Operand} {b : Bound Operand} :
    AlwaysCalls kindOf (b.offset isStop length) b.memberCalls := by
  cases b with
  | omitted | int => exact pure
  | fromEnd | index => exact define

/-! ## Accesses -/

theorem selectIn {span length : Operand} (s : Subscript Operand) :
    AlwaysCalls kindOf (s.selectIn span length) (s.selectCalls (kindOf span)) := by
  cases s with
  | int position => exact define
  | fromEnd count => exact define.bind fun _ ↦ define
  | index value => exact define.bind fun _ ↦ define
  | dynamic value => exact define.bind fun _ ↦ define
  | range value =>
    exact define.bind fun _ ↦ define.bind fun _ ↦ define.bind fun _ ↦ define.bind fun _ ↦
      define.bind fun _ ↦ define
  | rangeLiteral start stop =>
    rw [Subscript.selectCalls, List.append_assoc]
    exact offset.bind fun _ ↦ offset.bind fun _ ↦ define.bind fun _ ↦ define

/-- The length is read, and first, exactly if the subscript depends on it. -/
theorem select {span : Operand} (s : Subscript Operand) :
    AlwaysCalls kindOf (s.select span) (s.memberCalls (kindOf span)) := by
  unfold Subscript.select Subscript.memberCalls
  split
  · exact define.bind fun _ ↦ selectIn s
  · exact selectIn s

theorem projectSpan {c : Context} {kind : SpanKind} {arrayType element : TypeId} {length : Nat}
    {address : Operand} :
    AlwaysCalls kindOf (c.projectSpan kind arrayType element length address) [kind.accessor] :=
  define

theorem receiverSpan {c : Context} {a : Access} {lowered : Operand} :
    AlwaysCalls kindOf (c.receiverSpan a lowered) a.indexed.memberCalls := by
  unfold Context.receiverSpan
  split
  · rename_i p hp
    rw [hp]
    exact inMemory.bindFirst fun _ ↦ projectSpan
  · rename_i hspan
    rw [hspan]
    exact pure

end AlwaysCalls

end InlineArrays
