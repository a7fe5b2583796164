import InlineArrays.Proofs.Code.Helpers
import InlineArrays.Proofs.Code.WellFormed
import Mathlib.Data.List.Forall2

/-!
# Views of inline arrays

Code views an inline array as a span where an access indexes or slices one, and where one is
converted to a span.  The source of a method tells which arrays its code views, one after the other,
and the kind of span each is viewed as.  Every projection in the code is one of these views: what is
viewed is projected at its own address if it has one, and otherwise at that of a temporary it is
copied to.
-/

namespace InlineArrays

open Emission

/-! ## The views that source takes -/

/-- An expression that is viewed as a span. -/
structure ArrayView where
  kind : SpanKind
  of : Expr

/-- The view of its receiver that an access takes. -/
def Access.views (a : Access) : List ArrayView :=
  match a.indexed with
  | .array p => [⟨p.kind, a.receiver⟩]
  | .span .. => []

namespace Context

/-- The view that an expression takes itself, of its receiver or of its operand. -/
def ownViews (c : Context) : Expr → List ArrayView
  | .span _ operand readonly => [⟨.ofReadonly readonly, operand⟩]
  | e =>
    match c.bind e with
    | .ok a => a.views
    | .error _ => []

mutual

/-- The views that an expression takes, in the order of evaluation. -/
def views (c : Context) : Expr → List ArrayView
  | .field _ receiver _ => c.views receiver
  | .fromEnd _ count => c.views count
  | .range _ start stop =>
    (match start with
      | some bound => c.views bound
      | none => []) ++
    (match stop with
      | some bound => c.views bound
      | none => [])
  | .element id receiver args =>
    c.views receiver ++ c.ownViews (.element id receiver args) ++ c.argumentViews args
  | .span id operand readonly => c.views operand ++ c.ownViews (.span id operand readonly)
  | .conditional _ receiver access => c.views receiver ++ c.views access
  | _ => []
termination_by structural e => e

def argumentViews (c : Context) : List (Argument Expr) → List ArrayView
  | [] => []
  | arg :: args => c.views arg.value ++ c.argumentViews args
termination_by structural args => args

end

def statementViews (c : Context) (s : Statement) : List ArrayView :=
  (s.operands c.method.toBody).flatMap fun use ↦ c.views use.1

/-- The views that a method takes, in order. -/
def methodViews (c : Context) : List ArrayView := c.method.statements.flatMap c.statementViews

variable {c : Context}

mutual

/-- What an expression views, some part of it views itself. -/
theorem mem_views {v : ArrayView} :
    (e : Expr) → (v ∈ c.views e ↔ ∃ part ∈ e.parts, v ∈ c.ownViews part)
  | .field id receiver name => by
    rw [Expr.parts_field, views, mem_views receiver]
    simp [ownViews, Context.bind]
  | .fromEnd id count => by
    rw [Expr.parts_fromEnd, views, mem_views count]
    simp [ownViews, Context.bind]
  | .range id start stop => by
    rw [Expr.parts_range]
    unfold views
    rw [List.mem_append, mem_boundViews start, mem_boundViews stop]
    simp [ownViews, Context.bind, or_and_right, exists_or]
  | .element id receiver args => by
    rw [Expr.parts_element, views, List.mem_append, List.mem_append, mem_views receiver,
      mem_argumentViews args]
    simp only [List.mem_cons, List.mem_append, or_and_right, exists_or, exists_eq_left]
    grind
  | .span id operand readonly => by
    rw [Expr.parts_span, views, List.mem_append, mem_views operand]
    simp only [List.mem_cons, or_and_right, exists_or, exists_eq_left]
    exact or_comm
  | .conditional id receiver access => by
    rw [Expr.parts_conditional, views, List.mem_append, mem_views receiver, mem_views access]
    simp [ownViews, Context.bind, or_and_right, exists_or]
  | .var .. | .call .. | .int .. | .bool .. | .string .. | .default .. | .placeholder .. => by
    simp [views, Expr.parts, Expr.uses, ownViews, Context.bind]
termination_by structural e => e

theorem mem_argumentViews {v : ArrayView} : (args : List (Argument Expr)) →
    (v ∈ c.argumentViews args ↔ ∃ part ∈ args.flatMap (·.value.parts), v ∈ c.ownViews part)
  | [] => by simp [argumentViews]
  | arg :: args => by
    rw [argumentViews, List.mem_append, mem_views arg.value, mem_argumentViews args]
    simp [or_and_right, exists_or]
termination_by structural args => args

theorem mem_boundViews {v : ArrayView} : (bound : Option Expr) →
    (v ∈ (match bound with
      | some bound => c.views bound
      | none => []) ↔ ∃ part ∈ bound.elim [] Expr.parts, v ∈ c.ownViews part)
  | none => by simp
  | some bound => mem_views bound
termination_by structural bound => bound

end

theorem mem_methodViews {v : ArrayView} :
    v ∈ c.methodViews ↔ ∃ use ∈ c.method.uses, v ∈ c.ownViews use.1 :=
  c.method.mem_flatMap_operands mem_views

end Context

/-! ## The views that code makes -/

namespace Instr

def isProjection : Instr → Bool
  | .define _ _ (.project ..) => true
  | _ => false

def isTempAddress : Instr → Bool
  | .define _ _ (.tempAddress _) => true
  | _ => false

/-- The projections in code, bodies of guards included. -/
def projections (code : List Instr) : List Instr := (flattenAll code).filter (·.isProjection)

@[simp]
theorem projections_append (code rest : List Instr) :
    projections (code ++ rest) = projections code ++ projections rest := by
  simp [projections, flattenAll_append]

theorem helper?_of_isProjection {i : Instr} (h : i.isProjection) :
    ∃ kind : SpanKind, i.helper? = some kind.accessor.helper := by
  match i, h with
  | .define _ _ (.project kind ..), _ => exact ⟨kind, by simp [helper?, Operation.helper?]⟩

/-- Code projects nothing if it calls no helper that does. -/
theorem projections_eq_nil {code : List Instr}
    (h : ∀ kind : SpanKind, kind.accessor.helper ∉ helpers code) : projections code = [] := by
  refine List.filter_eq_nil_iff.2 fun i hi hprojection ↦ ?_
  obtain ⟨kind, hhelper⟩ := helper?_of_isProjection hprojection
  exact h kind (List.mem_filterMap.2 ⟨i, hi, hhelper⟩)

end Instr

/-- An address that instructions compute, that of a temporary exactly if a value was asked for. -/
def Demand.HeldIn (demand : Demand) (instrs : List Instr) (address : Operand) : Prop :=
  ∃ i ∈ instrs, ∃ id, i.dest? = some id ∧ address = .computed id ∧
    (i.isTempAddress ↔ demand = .value)

theorem Demand.HeldIn.mono {demand : Demand} {instrs more : List Instr} {address : Operand}
    (h : demand.HeldIn instrs address) (hsub : instrs ⊆ more) : demand.HeldIn more address := by
  obtain ⟨i, hi, hheld⟩ := h
  exact ⟨i, hsub hi, hheld⟩

namespace Context

/-- The instruction projects an inline array at the address it is held at. -/
def Makes (c : Context) (instrs : List Instr) (i : Instr) (v : ArrayView) : Prop :=
  ∃ note dest address type, c.types.array? (c.typeOf v.of) = some type ∧
    i = .define note dest (.project v.kind address (c.types.format (c.typeOf v.of))
      (c.types.format type.element) type.length) ∧
    (c.storageDemand v.of).HeldIn instrs address

theorem Makes.mono {c : Context} {instrs more : List Instr} {i : Instr} {v : ArrayView}
    (h : c.Makes instrs i v) (hsub : instrs ⊆ more) : c.Makes more i v := by
  obtain ⟨note, dest, address, type, htype, hi, hheld⟩ := h
  exact ⟨note, dest, address, type, htype, hi, hheld.mono hsub⟩

/-- The projections in code make the views, one after the other. -/
def MakesAll (c : Context) (code : List Instr) (views : List ArrayView) : Prop :=
  List.Forall₂ (c.Makes (Instr.flattenAll code)) (Instr.projections code) views

/-- What comes last may project what was computed before it. -/
theorem MakesAll.followed {c : Context} {code rest : List Instr} {views more : List ArrayView}
    (h : c.MakesAll code views)
    (hrest : List.Forall₂ (c.Makes (Instr.flattenAll (code ++ rest))) (Instr.projections rest)
      more) :
    c.MakesAll (code ++ rest) (views ++ more) := by
  have hviews : List.Forall₂ (c.Makes (Instr.flattenAll (code ++ rest))) (Instr.projections code)
      views := by
    rw [Instr.flattenAll_append]
    exact h.imp fun i v hmakes ↦ hmakes.mono (List.subset_append_left _ _)
  rw [MakesAll, Instr.projections_append]
  exact List.rel_append hviews hrest

theorem MakesAll.append {c : Context} {code rest : List Instr} {views more : List ArrayView}
    (h : c.MakesAll code views) (hrest : c.MakesAll rest more) :
    c.MakesAll (code ++ rest) (views ++ more) := by
  refine h.followed ?_
  rw [Instr.flattenAll_append]
  exact hrest.imp fun i v hmakes ↦ hmakes.mono (List.subset_append_right _ _)

/-- Every projection makes some view. -/
theorem MakesAll.exists_view {c : Context} {code : List Instr} {views : List ArrayView}
    (h : c.MakesAll code views) {i : Instr} (hi : i ∈ Instr.projections code) :
    ∃ v ∈ views, c.Makes (Instr.flattenAll code) i v := by
  obtain ⟨n, hn, rfl⟩ := List.getElem_of_mem hi
  obtain ⟨hlength, hmakes⟩ := List.forall₂_iff_get.1 h
  exact ⟨_, List.getElem_mem (hlength ▸ hn), hmakes n hn (hlength ▸ hn)⟩

/-- A guard makes the views that its body does. -/
theorem MakesAll.guarded {c : Context} {note : Note} {dest : ValueId} {tested result : Operand}
    {body : List Instr} {views : List ArrayView} (h : c.MakesAll body views) :
    c.MakesAll [.guard note dest tested body result] views := by
  have hflatten : Instr.flattenAll [.guard note dest tested body result] =
      .guard note dest tested body result :: Instr.flattenAll body := by
    simp [Instr.flattenAll, Instr.flatten]
  rw [MakesAll, Instr.projections, hflatten, List.filter_cons_of_neg (by simp [Instr.isProjection])]
  exact h.imp fun i v hmakes ↦ hmakes.mono (List.subset_cons_self _ _)

/-- Where `act` succeeds, the code it appends makes the views. -/
def Projects {α : Type} (c : Context) (act : Emit α) (views : List ArrayView) : Prop :=
  ∀ ⦃s : Emission⦄ ⦃a : α⦄ ⦃t : Emission⦄, act s = .ok a t →
    ∃ code, t.code = s.code ++ code ∧ c.MakesAll code views

end Context

/-! ## Addresses that code computes -/

/-- Where `act` succeeds, it appends code. -/
def Appends {α : Type} (act : Emit α) : Prop :=
  ∀ ⦃s : Emission⦄ ⦃a : α⦄ ⦃t : Emission⦄, act s = .ok a t → ∃ code, t.code = s.code ++ code

theorem Appends.of_emits {α : Type} {known : List Operand} {act : Emit α} {post : α → List Operand}
    (h : Emits known act post) : Appends act := by
  intro s a t hrun
  obtain ⟨code, hgrows, -⟩ := h hrun
  exact ⟨code, hgrows.code_eq⟩

theorem Appends.of_alwaysCalls {α : Type} {act : Emit α} {members : List Member}
    (h : AlwaysCalls (fun _ ↦ .mutable) act members) : Appends act := by
  intro s a t hrun
  obtain ⟨code, hcode, -⟩ := h.of_ok hrun
  exact ⟨code, hcode⟩

theorem Context.Projects.appends {α : Type} {c : Context} {act : Emit α} {views : List ArrayView}
    (h : c.Projects act views) : Appends act := by
  intro s a t hrun
  obtain ⟨code, hcode, -⟩ := h hrun
  exact ⟨code, hcode⟩

/-- Where `act` succeeds, it results in an address that the code it appends computes. -/
def Yields (demand : Demand) (act : Emit Operand) : Prop :=
  ∀ ⦃s : Emission⦄ ⦃o : Operand⦄ ⦃t : Emission⦄, act s = .ok o t →
    ∃ code, t.code = s.code ++ code ∧ demand.HeldIn (Instr.flattenAll code) o

namespace Yields

variable {α : Type} {c : Context} {demand : Demand}

theorem throw {e : LoweringError} : Yields demand (throw e) := by
  intro s o t hrun
  cases hrun

theorem bind {act : Emit α} {f : α → Emit Operand} (hact : Appends act)
    (hf : ∀ a, Yields demand (f a)) : Yields demand (act >>= f) := by
  intro s o u hrun
  obtain ⟨a, t, hfirst, hsecond⟩ := Emit.bind_eq_ok.1 hrun
  obtain ⟨code, hcode⟩ := hact hfirst
  obtain ⟨rest, hrest, hheld⟩ := hf a hsecond
  refine ⟨code ++ rest, by rw [hrest, hcode, List.append_assoc], ?_⟩
  rw [Instr.flattenAll_append]
  exact hheld.mono (List.subset_append_right _ _)

/-- An address is passed on as it is. -/
theorem passed {act : Emit Operand} (h : Yields demand act) :
    Yields demand (act >>= Demand.address.fromAddress) := by
  intro s o u hrun
  obtain ⟨a, t, hfirst, hsecond⟩ := Emit.bind_eq_ok.1 hrun
  obtain ⟨rfl, rfl⟩ := Emit.pure_eq_ok.1 hsecond
  exact h hfirst

theorem define {operation : Operation} {comment : Option String}
    (h : ∀ temp, operation ≠ .tempAddress temp) :
    Yields .address (define operation comment) := by
  intro s o t hrun
  cases hrun
  refine ⟨_, rfl, _, List.mem_cons_self, _, rfl, rfl, ?_⟩
  cases operation <;> simp_all [Instr.isTempAddress]

theorem spillAddress {value : Operand} : Yields .value (spillAddress value) := by
  refine bind (.of_alwaysCalls .spill) fun temp ↦ ?_
  intro s o t hrun
  cases hrun
  exact ⟨_, rfl, _, List.mem_cons_self, _, rfl, rfl, by simp [Instr.isTempAddress]⟩

/-- What was lowered as demanded is in memory: at its address, or at that of a temporary. -/
theorem inMemory {code : Emit Operand} (hcode : Appends code)
    (haddress : demand = .address → Yields .address code) :
    Yields demand (code >>= demand.inMemory) := by
  cases demand with
  | address => exact (haddress rfl).passed
  | value => exact bind hcode fun lowered ↦ spillAddress

theorem selectIn {span length : Operand} (s : Subscript Operand) :
    Yields .address (s.selectIn span length) := by
  have hstep (operation : Operation) : Appends (Emission.define operation) :=
    .of_alwaysCalls .define
  have hindex (position : Operand) : Yields .address (Emission.define (.index span position)) :=
    define nofun
  have hslice (start count : Operand) :
      Yields .address (Emission.define (.slice span start count)) := define nofun
  cases s with
  | int position => exact hindex position
  | fromEnd count | index value | dynamic value =>
    exact bind (hstep _) fun position ↦ hindex position
  | range value =>
    exact bind (hstep _) fun _ ↦ bind (hstep _) fun start ↦ bind (hstep _) fun _ ↦
      bind (hstep _) fun _ ↦ bind (hstep _) fun count ↦ hslice start count
  | rangeLiteral start stop =>
    exact bind (.of_alwaysCalls .offset) fun start ↦ bind (.of_alwaysCalls .offset) fun _ ↦
      bind (hstep _) fun count ↦ hslice start count

theorem select {span : Operand} (s : Subscript Operand) : Yields .address (s.select span) := by
  unfold Subscript.select
  split
  · exact bind (.of_alwaysCalls .define) fun length ↦ selectIn s
  · exact selectIn s

/-- What is selected is no temporary; a part of a span has no address. -/
theorem accessCode {a : Access} {receiver : Emit Operand} {subscript : Emit (Subscript Operand)}
    (hreceiver : Appends receiver) (hsubscript : Appends subscript) :
    Yields .address (c.accessCode .address a receiver subscript) := by
  refine bind hreceiver fun lowered ↦ bind (.of_alwaysCalls .receiverSpan) fun span ↦
    bind (.of_alwaysCalls .spill) fun temp ↦ bind hsubscript fun s ↦ ?_
  split
  · exact bind (.of_alwaysCalls (.select s)) fun _ ↦ throw
  · exact (select s).passed

theorem variableCode {target : VariableId} : Yields .address (c.variableCode .address target) := by
  have haddress : Yields .address (c.variableAddress target) := by
    unfold Context.variableAddress
    dsimp only
    split
    · exact bind (.of_alwaysCalls .define) fun slot ↦ define (by simp)
    · exact (define (by simp)).passed
  exact haddress.passed

theorem fieldCode {receiver : Expr} {name : String} {code : Emit Operand} (hcode : Appends code) :
    Yields .address (c.fieldCode .address receiver name code) := by
  refine bind hcode fun lowered ↦
    bind (.of_emits (.ownerOf (List.mem_singleton_self _))) fun base ↦ ?_
  exact (define (by simp)).passed

theorem callCode {e : Expr} {callee : String} {returns : ReturnKind} :
    Yields .address (c.callCode .address e callee returns) := by
  unfold Context.callCode
  split
  · intro s o t hrun
    cases hrun
    exact ⟨_, rfl, _, List.mem_cons_self, _, rfl, rfl, by simp [Instr.isTempAddress]⟩
  · exact throw

/-- The address that code of an expression computes is that of its storage, not of a temporary. -/
theorem lower (e : Expr) : Yields .address (c.lower .address e) := by
  cases e with
  | var id target => exact variableCode
  | field id receiver name => exact fieldCode (.of_emits (.lower c _ receiver))
  | element id receiver args =>
    unfold Context.lower
    split
    · exact throw
    · exact accessCode (.of_emits (.lower c _ receiver)) (.of_emits (.lowerSubscript c _ args))
  | call id callee returns type => exact callCode
  | _ => exact throw

end Yields

/-! ## The projections that code consists of -/

namespace Context.Projects

variable {α β : Type} {c : Context} {act : Emit α} {f : α → Emit β} {views more : List ArrayView}

theorem throw {e : LoweringError} : c.Projects (throw e : Emit α) views := by
  intro s a t hrun
  cases hrun

theorem bind (hact : c.Projects act views) (hf : ∀ a, c.Projects (f a) more) :
    c.Projects (act >>= f) (views ++ more) := by
  intro s b u hrun
  obtain ⟨a, t, hfirst, hsecond⟩ := Emit.bind_eq_ok.1 hrun
  obtain ⟨code, hcode, hviews⟩ := hact hfirst
  obtain ⟨rest, hrest, hmore⟩ := hf a hsecond
  exact ⟨code ++ rest, by rw [hrest, hcode, List.append_assoc], hviews.append hmore⟩

/-- A step after which nothing more is projected. -/
theorem bindLast (hact : c.Projects act views) (hf : ∀ a, c.Projects (f a) []) :
    c.Projects (act >>= f) views := by
  simpa using hact.bind hf

/-- A step that projects nothing. -/
theorem bindFirst (hact : c.Projects act []) (hf : ∀ a, c.Projects (f a) views) :
    c.Projects (act >>= f) views := hact.bind hf

theorem map {f : α → β} (hact : c.Projects act views) : c.Projects (f <$> act) views := by
  intro s b t hrun
  obtain ⟨a, hfirst, -⟩ := Emit.map_eq_ok.1 hrun
  exact hact hfirst

/-- Nothing is projected by calling members that view nothing. -/
theorem of_calls {members : List Member} {post : α → Prop} (h : Calls act members post)
    (hmembers : ∀ kind : SpanKind, kind.accessor.helper ∉ members.map (·.helper)) :
    c.Projects act [] := by
  intro s a t hrun
  obtain ⟨-, code, hcode, hhelpers⟩ := h hrun
  refine ⟨code, hcode, ?_⟩
  rw [MakesAll, Instr.projections_eq_nil (hhelpers ▸ hmembers)]
  exact .nil

theorem of_noCalls {post : α → Prop} (h : Calls act [] post) : c.Projects act [] :=
  of_calls h (by simp)

theorem pure {a : α} : c.Projects (pure a : Emit α) [] := by
  have hcalls : Calls (Pure.pure a : Emit α) [] fun _ ↦ True := .pure trivial
  exact of_noCalls hcalls

theorem select {span : Operand} (s : Subscript Operand) : c.Projects (s.select span) [] := by
  have hcalls : Calls (s.select span) (s.memberCalls .mutable) fun _ ↦ True := .select s
  refine of_calls hcalls fun kind ↦ ?_
  cases s <;> cases kind <;>
    simp [Subscript.memberCalls, Subscript.selectCalls, Bound.memberCalls, SpanKind.accessor,
      SpanKind.getItem, SpanKind.slice, SpanKind.length, Member.helper]

theorem fieldCode {demand : Demand} {receiver : Expr} {name : String} {code : Emit Operand}
    (hcode : c.Projects code views) :
    c.Projects (c.fieldCode demand receiver name code) views := by
  have howner (lowered : Operand) : c.Projects (c.ownerOf receiver lowered) [] := by
    unfold ownerOf
    split
    · exact pure
    · exact of_noCalls .inMemory
  exact hcode.bindLast fun lowered ↦ (howner lowered).bindLast fun base ↦
    (of_noCalls (.plain rfl)).bindLast fun address ↦ of_noCalls .fromAddress

theorem valueCode {demand : Demand} {e : Expr} {code : Emit Operand}
    (hcode : c.Projects code views) : c.Projects (c.valueCode demand e code) views := by
  cases demand with
  | value => exact hcode
  | address => exact throw

/-! ## Views -/

/-- What is put in memory is projected there. -/
theorem view {kind : SpanKind} {e : Expr} {type : ArrayType} {code : Emit Operand}
    (hcode : c.Projects code views) (haddress : c.storageDemand e = .address → Yields .address code)
    (htype : c.types.array? (c.typeOf e) = some type) :
    c.Projects (code >>= fun lowered ↦ (c.storageDemand e).inMemory lowered >>=
      c.projectSpan kind (c.typeOf e) type.element type.length) (views ++ [⟨kind, e⟩]) := by
  rw [← bind_assoc]
  intro s span u hrun
  obtain ⟨address, t, hfirst, hsecond⟩ := Emit.bind_eq_ok.1 hrun
  obtain ⟨added, hadded, hviews⟩ := hcode.bindLast (fun _ ↦ of_noCalls .inMemory) hfirst
  obtain ⟨added', hadded', hheld⟩ := Yields.inMemory hcode.appends haddress hfirst
  obtain rfl := List.append_cancel_left (hadded.symm.trans hadded')
  cases hsecond
  refine ⟨added ++ [_], by rw [← List.append_assoc, ← hadded], hviews.followed (.cons ?_ .nil)⟩
  refine ⟨_, _, address, type, htype, rfl, ?_⟩
  rw [Instr.flattenAll_append]
  exact hheld.mono (List.subset_append_left _ _)

/-- The receiver is viewed before the subscript is lowered. -/
theorem accessCode {demand : Demand} {a : Access} {receiver : Emit Operand}
    {subscript : Emit (Subscript Operand)} (hindexed : c.indexed a.receiver = .ok a.indexed)
    (hreceiver : c.Projects receiver views)
    (haddress : c.receiverDemand a = .address → Yields .address receiver)
    (hsubscript : c.Projects subscript more) :
    c.Projects (c.accessCode demand a receiver subscript) (views ++ a.views ++ more) := by
  have hspan : c.Projects (receiver >>= c.receiverSpan a) (views ++ a.views) := by
    unfold receiverSpan Access.views
    split
    · rename_i p hp
      obtain ⟨type, htype, rfl⟩ := project?_of_indexed (hp ▸ hindexed)
      rw [receiverDemand, hp] at haddress ⊢
      exact view hreceiver haddress htype
    · rename_i hspan
      simpa [hspan] using hreceiver
  unfold Context.accessCode
  rw [← bind_assoc]
  refine hspan.bind fun span ↦ (of_noCalls .spill).bindFirst fun temp ↦
    hsubscript.bindLast fun s ↦ (select s).bindLast fun selected ↦ ?_
  split
  · cases demand with
    | value => exact pure
    | address => exact throw
  · exact of_noCalls .fromAddress

theorem spanCode {readonly : Bool} {operand : Expr} {code : Emit Operand}
    (hcode : c.Projects code views)
    (haddress : c.storageDemand operand = .address → Yields .address code) :
    c.Projects (c.spanCode readonly operand code)
      (views ++ [⟨.ofReadonly readonly, operand⟩]) := by
  unfold Context.spanCode
  split
  · exact throw
  · exact view hcode haddress ‹_›

/-- The body of a guard stands between the test and what follows. -/
theorem conditionalCode {receiver : ExprId} {tested access : Emit Operand}
    (htested : c.Projects tested views) (haccess : c.Projects access more) :
    c.Projects (Context.conditionalCode receiver tested access) (views ++ more) := by
  refine htested.bind fun value ↦ ?_
  intro s o t hrun
  obtain ⟨dest, t', hfresh, hrun⟩ := Emit.bind_eq_ok.1 hrun
  obtain ⟨⟨body, result⟩, v, hguarded, hrun⟩ := Emit.bind_eq_ok.1 hrun
  obtain ⟨u, hbody, rfl, rfl⟩ := guarded_eq_ok.1 hguarded
  cases hfresh
  cases hrun
  obtain ⟨inner, hinner, hmore⟩ := haccess hbody
  obtain rfl : u.code = inner := by simpa using hinner
  exact ⟨_, rfl, hmore.guarded⟩

mutual

/-- The code of an expression makes the views that the expression takes. -/
theorem lower (demand : Demand) : (e : Expr) → c.Projects (c.lower demand e) (c.views e)
  | .var .. => of_noCalls .variableCode
  | .field _ receiver _ => fieldCode (lower _ receiver)
  | .element id receiver args => by
    unfold Context.lower Context.views Context.ownViews
    split
    · exact throw
    · rename_i a hbind
      obtain ⟨-, rfl, hindexed, -⟩ := Context.bind_eq_ok hbind
      simp only [hbind]
      refine accessCode hindexed (lower _ a.receiver) (fun hdemand ↦ ?_) (lowerSubscript a args)
      rw [hdemand]
      exact .lower a.receiver
  | .call .. => of_noCalls .callCode
  | .int .. | .bool .. => valueCode pure
  | .string .. => valueCode throw
  | .fromEnd _ count => valueCode <| (lower .value count).bindLast fun _ ↦ of_noCalls (.plain rfl)
  | .range _ start stop => valueCode <| by
    unfold Context.views
    exact (lowerIndex false start).bind fun _ ↦ (lowerIndex true stop).bindLast fun _ ↦
      of_noCalls (.plain rfl)
  | .default .. => valueCode (of_noCalls (.plain rfl))
  | .span _ operand _ => valueCode <| spanCode (lower _ operand) fun hdemand ↦ by
    rw [hdemand]
    exact .lower operand
  | .conditional _ receiver access =>
    valueCode (conditionalCode (lower .value receiver) (lower .value access))
  | .placeholder .. => valueCode (of_noCalls .receiverValue)

theorem lowerSubscript (a : Access) : (args : List (Argument Expr)) →
    c.Projects (c.lowerSubscript a args) (c.argumentViews args)
  | args => by
    unfold Context.lowerSubscript
    split
    · rename_i id count _ _
      simp only [Context.argumentViews, Context.views, List.append_nil]
      exact (lower .value count).map
    · rename_i id start stop _ _
      rw [Context.argumentViews, Context.argumentViews, List.append_nil]
      unfold Context.views
      exact (lowerBound start).bind fun _ ↦ (lowerBound stop).bindLast fun _ ↦ pure
    · rename_i value _ _ _ _
      simp only [Context.argumentViews, List.append_nil]
      exact (lower .value value).map
    · exact throw

theorem lowerBound : (bound : Option Expr) →
    c.Projects (c.lowerBound bound)
      (match bound with
      | some bound => c.views bound
      | none => [])
  | none => pure
  | some bound => by
    unfold Context.lowerBound
    split
    · rename_i heq
      cases heq
    · rename_i count heq
      cases heq
      exact (lower .value count).map
    · rename_i bound _ heq
      cases heq
      exact (lower .value bound).map

theorem lowerIndex (isStop : Bool) : (bound : Option Expr) →
    c.Projects (c.lowerIndex isStop bound)
      (match bound with
      | some bound => c.views bound
      | none => [])
  | none => of_noCalls (.plain rfl)
  | some bound => (lower .value bound).bindLast fun _ ↦ of_noCalls .makeIndex

end

/-! ## Statements -/

theorem lowerInMemory (e : Expr) : c.Projects (c.lowerInMemory e) (c.views e) :=
  (lower _ e).bindLast fun _ ↦ of_noCalls .inMemory

theorem lowerArguments (args : List (Argument Expr)) :
    c.Projects (args.mapM c.lowerArgument) (args.flatMap fun arg ↦ c.views arg.value) := by
  induction args with
  | nil => exact pure
  | cons arg args ih =>
    have harg : c.Projects (c.lowerArgument arg) (c.views arg.value) := by
      unfold Context.lowerArgument
      split
      · exact lower .value arg.value
      · exact lower .address arg.value
      · exact lower .address arg.value
      · exact lowerInMemory arg.value
    rw [List.mapM_cons, List.flatMap_cons]
    exact harg.bind fun o ↦ ih.bindLast fun os ↦ pure

/-- An instruction that is emitted on its own and is no projection. -/
theorem emit {make : Note → Instr} (h : ∀ note, Instr.helpers [make note] = []) :
    c.Projects (Emission.emit make) [] := of_noCalls (.emit h)

theorem lowerStatement (s : Statement) :
    c.Projects (c.lowerStatement s) (c.statementViews s) := by
  unfold Context.statementViews
  cases s with
  | expression value =>
    rw [Statement.operands, List.flatMap_singleton]
    exact (lower .value value).bindLast fun _ ↦ pure
  | assign target value =>
    rw [Statement.operands, List.flatMap_cons, List.flatMap_singleton]
    exact (lower .address target).bind fun _ ↦ (lower .value value).bindLast fun _ ↦
      emit fun _ ↦ rfl
  | compound target op value =>
    rw [Statement.operands, List.flatMap_cons, List.flatMap_singleton]
    exact (lower .address target).bind fun _ ↦ (of_noCalls (.plain rfl)).bindFirst fun _ ↦
      (lower .value value).bindLast fun _ ↦ (of_noCalls (.plain rfl)).bindLast fun _ ↦
        emit fun _ ↦ rfl
  | refLocal bound init =>
    rw [Statement.operands, List.flatMap_singleton]
    exact (lowerInMemory init).bindLast fun _ ↦ emit fun _ ↦ rfl
  | call callee args =>
    rw [Statement.operands, List.flatMap_map]
    exact (lowerArguments args).bindLast fun _ ↦ emit fun _ ↦ rfl
  | ret value =>
    cases value with
    | none =>
      have hcode : c.Projects (Emission.emit (.ret · none)) [] := emit fun _ ↦ rfl
      exact hcode
    | some value =>
      rw [Statement.operands, List.flatMap_singleton]
      exact (lower _ value).bindLast fun _ ↦ emit fun _ ↦ rfl

theorem lowerStatements (statements : List (Statement × SourceSpan)) :
    c.Projects (c.lowerStatements statements)
      (statements.flatMap fun s ↦ c.statementViews s.1) := by
  induction statements with
  | nil => exact pure
  | cons first rest ih =>
    obtain ⟨statement, span⟩ := first
    have hcode := (lowerStatement statement).bind fun _ ↦ ih
    intro s u t hrun
    exact @hcode { s with span := some span } u t hrun

end Context.Projects

namespace Context

variable {c : Context}

/-- The projections in the code of a method make the views that the method takes. -/
theorem makesAll_of_lowerBody {r : Routine} (h : c.lowerBody = .ok r) :
    c.MakesAll r.code c.methodViews := by
  obtain ⟨s, hrun, rfl⟩ := lowerBody_eq_ok h
  obtain ⟨code, hcode, hviews⟩ := Projects.lowerStatements _ hrun
  rw [← List.flatMap_map Prod.fst c.statementViews, c.map_fst_listed] at hviews
  obtain rfl : s.code = code := by simpa using hcode
  exact hviews

end Context

end InlineArrays
