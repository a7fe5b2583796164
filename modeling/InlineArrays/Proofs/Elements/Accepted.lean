import InlineArrays.Proofs.Elements.Resolves
import InlineArrays.Proofs.Scenario.Names
import InlineArrays.Proofs.Validation.Accepted

/-!
# Bodies of writes to elements are accepted

Every access of such a body binds, nothing speaks against a use of one, spans keep the scope of the
parameter, and nothing that has to be assigned first is read.
-/

namespace InlineArrays.Context

variable {c : Context} {x : VariableId} {e receiver : Expr} {w : Window} {usage : Usage}

/-! ## Uses -/

/-- An expression binds if it is an access, and nothing speaks against its use. -/
def Fine (c : Context) (use : Use) : Prop := c.bindErrors use.1 = [] ∧ c.AcceptsUse use

theorem useError?_eq_none {o : Outcome} (ho : c.outcome? e = some o)
    (hobjection : c.objection? e usage o = none) : c.useError? e usage = none := by
  unfold useError? advance
  rw [ho]
  dsimp only
  rw [hobjection]

theorem objection?_ref {s : Storage} (hreadonly : s.readonly = false)
    (husage : usage = .assignTarget ∨ (∃ readonly, usage = .refLocalInit readonly) ∨
      usage = .returned .value) : c.objection? e usage ⟨.ref, s⟩ = none := by
  rcases husage with rfl | ⟨readonly, rfl⟩ | rfl
  · simp [objection?, hreadonly]
  · simp [objection?, hreadonly]
  · rfl

/-- A use of what is neither an access nor a conversion. -/
theorem fine_of_not_access (helement : e.isElement = false)
    (hspan : ∀ id operand readonly, e ≠ .span id operand readonly)
    (h : usage.isChecked → c.useError? e usage = none) : c.Fine (e, usage) := by
  refine ⟨by simp [bindErrors, helement], ⟨?_, h⟩⟩
  cases e with
  | span id operand readonly => exact absurd rfl (hspan id operand readonly)
  | element => cases helement
  | _ => rfl

theorem fine_of_read (helement : e.isElement = false)
    (hspan : ∀ id operand readonly, e ≠ .span id operand readonly) : c.Fine (e, .read) := by
  refine fine_of_not_access helement hspan fun hchecked ↦ ?_
  cases hchecked

/-- A use of an access that binds, of an array with an address if it is a slice. -/
theorem fine_of_bind {a : Access} (helement : e.isElement) (hbind : c.bind e = .ok a)
    (hslice : ∀ p, a.indexed = .array p → a.isSlice → p.storage.referenceable = true)
    (h : usage.isChecked → c.useError? e usage = none) : c.Fine (e, usage) := by
  refine ⟨by simp [bindErrors, helement, hbind], ⟨?_, h⟩⟩
  cases e with
  | element id receiver args =>
    unfold innateError?
    dsimp only
    rw [hbind]
    dsimp only
    cases hindexed : a.indexed with
    | span => rfl
    | array p =>
      refine if_neg fun hvia ↦ ?_
      obtain ⟨hslicing, hvia⟩ := Bool.and_eq_true_iff.1 hvia
      rw [Projection.viaTemporary, hslice p hindexed hslicing] at hvia
      cases hvia
  | _ => cases helement

/-- Literals and the like are read. -/
theorem fine_position {length i : Nat} {position : Expr} (h : position.position? length = some i) :
    ∀ use ∈ position.uses .read, c.Fine use := by
  have hliteral (id : ExprId) (n : Int64) : c.Fine (.int id n, .read) :=
    fine_of_read rfl fun _ _ _ h ↦ by cases h
  rcases Expr.position?_eq_some h with ⟨id, n, rfl, -⟩ | ⟨id, id', n, rfl, -⟩
  · simpa [Expr.uses] using hliteral id n
  · simpa [Expr.uses] using ⟨fine_of_read rfl (fun _ _ _ h ↦ by cases h), hliteral id' n⟩

theorem fine_boundary {length i otherwise : Nat} {bound : Option Expr}
    (h : bound.elim (some otherwise) (·.boundary? length) = some i) :
    ∀ use ∈ bound.elim [] (Expr.uses .read), c.Fine use := by
  have hliteral (id : ExprId) (n : Int64) : c.Fine (.int id n, .read) :=
    fine_of_read rfl fun _ _ _ h ↦ by cases h
  cases bound with
  | none => exact List.forall_mem_nil _
  | some bound =>
    rcases Expr.boundary?_eq_some h with ⟨id, n, rfl, -⟩ | ⟨id, id', n, rfl, -⟩
    · simpa [Expr.uses] using hliteral id n
    · simpa [Expr.uses] using ⟨fine_of_read rfl (fun _ _ _ h ↦ by cases h), hliteral id' n⟩

section

variable (hc : c.Analysed x)
include hc

/-- An array at a place is indexed through a mutable span over the storage of the parameter. -/
theorem Place.indexed {path : List Step} {t : TypeId} {array : ArrayType}
    (h : c.Place x receiver path t) (harray : c.types.array? t = some array) :
    c.indexed receiver =
      .ok (.array ⟨t, array.element, array.length, .mutable, c.storageIn x⟩) := by
  obtain ⟨href, hreadonly⟩ := hc.parameter.referenceable
  have hstorage := h.storageOf hc.parameter
    (by rw [TypeTable.spanParts?, TypeTable.get_of_array? harray])
  rw [indexed_array (h.typeOf.symm ▸ harray) (hstorage.symm ▸ href) (hstorage.symm ▸ hreadonly),
    h.typeOf, hstorage]

omit hc in
/-- An element of a mutable span, or of an array with an address, is a reference to be written. -/
theorem outcome?_of_bind {a : Access} (helement : e.isElement) (hbind : c.bind e = .ok a)
    (hslice : a.isSlice = false) (hmutable : a.indexed.kind = .mutable)
    (hstored : ∀ p, a.indexed = .array p → p.storage.referenceable = true) :
    ∃ s, c.outcome? e = some ⟨.ref, s⟩ ∧ s.readonly = false := by
  have hreadonly : a.indexed.kind.isReadonly = false := by
    rw [hmutable]
    rfl
  unfold outcome?
  rw [if_pos helement, hbind]
  dsimp only
  rw [hreadonly, hslice]
  cases hindexed : a.indexed with
  | array p =>
    exact ⟨{ p.storage with readonly := false }, by simp [shapeOf, hstored p hindexed], rfl⟩
  | span kind element storage =>
    exact ⟨{ storage with referenceable := true, readonly := false }, by simp [shapeOf], rfl⟩

theorem Place.outcome? {path : List Step} {t : TypeId} (h : c.Place x e path t)
    (hspan : c.types.spanParts? t = none) :
    ∃ s, c.outcome? e = some ⟨.ref, s⟩ ∧ s.readonly = false := by
  obtain ⟨href, hreadonly⟩ := hc.parameter.referenceable
  have hplain (helement : e.isElement = false) :
      ∃ s, c.outcome? e = some ⟨.ref, s⟩ ∧ s.readonly = false := by
    refine ⟨c.storageIn x, ?_, hreadonly⟩
    unfold Context.outcome?
    simp [helement, h.storageOf hc.parameter hspan, h.typeOf, TypeTable.isSpan, hspan, shapeOf, href]
  cases h with
  | var => exact hplain rfl
  | field => exact hplain rfl
  | @element id receiver position path t array i hreceiver harray hposition =>
    have hindexed := hreceiver.indexed hc harray
    refine outcome?_of_bind rfl (hc.bind_position id hindexed ?_ hposition)
      (Expr.isSlice_constantSubscript position) rfl ?_
    · rintro n hn
      exact (Option.some.inj hn).symm
    · rintro p hp
      cases hp
      exact href

/-- Places are used freely as what something is taken of. -/
theorem Place.fine {path : List Step} {t : TypeId} (h : c.Place x e path t)
    (husage : usage.isChecked → c.useError? e usage = none) : ∀ use ∈ e.uses usage, c.Fine use := by
  obtain ⟨href, -⟩ := hc.parameter.referenceable
  induction h generalizing usage with
  | var =>
    intro use huse
    rw [List.mem_singleton.1 huse]
    exact fine_of_not_access rfl nofun husage
  | field _ _ _ _ _ ih =>
    intro use huse
    rcases List.mem_cons.1 huse with rfl | huse
    · exact fine_of_not_access rfl nofun husage
    · exact (ih nofun : ∀ use ∈ Expr.uses .receiver _, c.Fine use) use huse
  | @element id receiver position path t array i hreceiver harray hposition ih =>
    have hreceiver' : ∀ use ∈ receiver.uses .receiver, c.Fine use := ih nofun
    have hindexed := hreceiver.indexed hc harray
    have hbind := hc.bind_position id hindexed
      (fun n hn ↦ (Option.some.inj hn).symm) hposition
    intro use huse
    rcases List.mem_cons.1 huse with rfl | huse
    · refine fine_of_bind rfl hbind (fun p hp _ ↦ ?_) husage
      cases hp
      exact href
    · rcases List.mem_append.1 huse with huse | huse
      · exact hreceiver' use huse
      · exact fine_position hposition use (by simpa [Expr.argumentUses] using huse)

/-- What stands for a window is indexed through a mutable span. -/
theorem Analysed.fine_of_gives (h : c.Gives x e w) : ∀ use ∈ e.uses .receiver, c.Fine use := by
  have hvariable (id : ExprId) (v : VariableId) : ∀ use ∈ (Expr.var id v).uses .receiver, c.Fine use := by
    intro use huse
    rw [List.mem_singleton.1 huse]
    exact fine_of_not_access rfl nofun nofun
  cases h with
  | whole hwhole =>
    obtain ⟨t, array, hplace, -⟩ := whole?_eq_some hwhole
    exact hplace.fine hc nofun
  | refLocal => exact hvariable _ _
  | slices => exact hvariable _ _

/-- Access to an element of a window, to be written or read. -/
theorem Analysed.fine_element {id : ExprId} {position : Expr} {i : Nat} (h : c.Gives x receiver w)
    (hposition : position.position? w.length = some i)
    (husage : usage = .assignTarget ∨ usage = .returned .value) :
    ∀ use ∈ (Expr.element id receiver [⟨position, none, .none⟩]).uses usage, c.Fine use := by
  obtain ⟨-, href, -⟩ := hc.storage_of_gives h
  obtain ⟨indexed, hindexed, hmutable, hlength, hstored⟩ : ∃ indexed, c.indexed receiver = .ok indexed ∧
      indexed.kind = .mutable ∧ (∀ n ∈ indexed.length?, n = w.length) ∧
        ∀ p, indexed = .array p → p.storage.referenceable = true := by
    rcases hc.indexed_of_gives h with ⟨-, t, hindexed⟩ | ⟨id, v, storage, -, -, hindexed⟩
    · refine ⟨_, hindexed, rfl, fun n hn ↦ (Option.some.inj hn).symm, ?_⟩
      rintro p hp
      cases hp
      exact href
    · exact ⟨_, hindexed, rfl, nofun, nofun⟩
  have hbind := hc.bind_position id hindexed hlength hposition
  intro use huse
  rcases List.mem_cons.1 huse with rfl | huse
  · refine fine_of_bind rfl hbind (fun p hp _ ↦ hstored p hp) fun _ ↦ ?_
    obtain ⟨s, ho, hreadonly⟩ := outcome?_of_bind rfl hbind (Expr.isSlice_constantSubscript position)
      hmutable hstored
    exact useError?_eq_none ho (objection?_ref hreadonly (husage.imp_right .inr))
  · rcases List.mem_append.1 huse with huse | huse
    · exact hc.fine_of_gives h use huse
    · exact fine_position hposition use (by simpa [Expr.argumentUses] using huse)

/-- Slices are read. -/
theorem Analysed.fine_slice (h : c.slice? x e = some w) : ∀ use ∈ e.uses .read, c.Fine use := by
  obtain ⟨href, -⟩ := hc.parameter.referenceable
  obtain ⟨id, receiver, range, whole, rfl, hwhole, hextent, -⟩ := slice?_eq_some h
  obtain ⟨rid, start, stop, last, rfl, hstart, hstop, -⟩ := Expr.extent?_eq_some hextent
  obtain ⟨t, array, hplace, harray, -⟩ := whole?_eq_some hwhole
  have hindexed := hplace.indexed hc harray
  have hreceiver : ∀ use ∈ receiver.uses .receiver, c.Fine use :=
    hplace.fine hc fun hchecked ↦ by cases hchecked
  intro use huse
  rcases List.mem_cons.1 huse with rfl | huse
  · refine fine_of_bind rfl (hc.bind_extent id hindexed hextent) (fun p hp _ ↦ ?_)
      fun hchecked ↦ by cases hchecked
    cases hp
    exact href
  · rcases List.mem_append.1 huse with huse | huse
    · exact hreceiver use huse
    · have hrange : (Expr.range rid start stop).uses .read = (.range rid start stop, .read) ::
          (start.elim [] (Expr.uses .read) ++ stop.elim [] (Expr.uses .read)) := by
        cases start <;> cases stop <;> rfl
      rw [Expr.argumentUses, Expr.argumentUses, List.append_nil, hrange] at huse
      rcases List.mem_cons.1 huse with rfl | huse
      · exact fine_of_read rfl fun _ _ _ h ↦ by cases h
      · rcases List.mem_append.1 huse with huse | huse
        · exact fine_boundary hstart use huse
        · exact fine_boundary hstop use huse

omit hc in
/-- A local that holds spans is assigned as a whole. -/
theorem fine_spanLocal {id : ExprId} {v : VariableId}
    (htype : c.types.get (c.method.var v).type = .span TypeTable.int false) :
    c.Fine (.var id v, .assignTarget) := by
  have htypeOf : c.typeOf (.var id v) = (c.method.var v).type := rfl
  have ho : c.outcome? (.var id v) = some ⟨.span, c.storageOf (.var id v)⟩ := by
    unfold outcome?
    simp [Expr.isElement, htypeOf, TypeTable.isSpan, TypeTable.spanParts?, htype, shapeOf]
  exact fine_of_not_access rfl (fun _ _ _ h ↦ by cases h) fun _ ↦ useError?_eq_none ho rfl

end

/-! ## Definite assignment -/

/-- Reading what the expression denotes does not depend on an assignment. -/
def Settled (c : Context) (e : Expr) : Prop :=
  ∀ p v, e.place? c.method.toBody = some p → c.method.variableNamed? p.root = some v →
    c.isTracked v = false

theorem assignmentErrors_eq_nil
    (h : ∀ s ∈ c.method.statements, ∀ e, .check e ∈ c.statementEvents s → c.Settled e) :
    c.assignmentErrors = [] := by
  have hstep {a : Assignments} {event : AssignmentEvent} (ha : a.reported = [])
      (hevent : ∀ e, event = .check e → c.Settled e) : (a.step c event).reported = [] := by
    cases event with
    | check e =>
      change (a.check c e).reported = []
      unfold Assignments.check
      split
      · exact ha
      · split
        · exact ha
        · rename_i p hp _ v hv
          rw [hevent e rfl p v hp hv]
          exact ha
    | assign e =>
      change (a.assign c e).reported = []
      unfold Assignments.assign
      split
      · exact ha
      · split <;> exact ha
  have hrun (events : List AssignmentEvent) {a : Assignments} (ha : a.reported = [])
      (hevents : ∀ e, .check e ∈ events → c.Settled e) :
      (events.foldl (Assignments.step c) a).reported = [] := by
    induction events generalizing a with
    | nil => exact ha
    | cons event events ih =>
      refine ih (hstep ha fun e he ↦ hevents e (he ▸ List.mem_cons_self)) fun e he ↦ ?_
      exact hevents e (List.mem_cons_of_mem _ he)
  refine hrun _ rfl fun e he ↦ ?_
  obtain ⟨s, hs, he⟩ := List.mem_flatMap.1 he
  exact h s hs e he

theorem mem_checked {mode : Access.Mode} {part : Expr} (h : .check part ∈ c.checked mode e) :
    part ∈ c.checks mode e := by
  obtain ⟨part', hpart, heq⟩ := List.mem_map.1 h
  cases heq
  exact hpart

theorem checks_position {length i : Nat} {position : Expr}
    (h : position.position? length = some i) :
    c.argumentChecks [⟨position, none, .none⟩] = [] := by
  rcases Expr.position?_eq_some h with ⟨id, n, rfl, -⟩ | ⟨id, id', n, rfl, -⟩ <;>
    simp [argumentChecks, checks]

theorem checks_boundary {length i otherwise : Nat} {bound : Option Expr}
    (h : bound.elim (some otherwise) (·.boundary? length) = some i) :
    bound.elim [] (c.checks .read) = [] := by
  cases bound with
  | none => rfl
  | some bound =>
    rcases Expr.boundary?_eq_some h with ⟨id, n, rfl, -⟩ | ⟨id, id', n, rfl, -⟩ <;>
      simp [checks]

/-- The root of a place is the parameter. -/
theorem Place.root_eq {path : List Step} {t : TypeId} {p : InlineArrays.Place}
    (h : c.Place x e path t) (hp : e.place? c.method.toBody = some p) :
    p.root = (c.method.var x).name := by
  induction h generalizing p with
  | var =>
    cases hp
    rfl
  | field _ _ _ _ _ ih =>
    obtain ⟨q, hq, rfl⟩ := Option.map_eq_some_iff.1 hp
    have hroot : q.root = (c.method.var x).name := ih hq
    exact hroot
  | element _ _ hposition ih =>
    rcases Expr.position?_eq_some hposition with ⟨id, n, rfl, -⟩ | ⟨id, id', n, rfl, -⟩
    · obtain ⟨q, hq, rfl⟩ := Option.map_eq_some_iff.1 hp
      have hroot : q.root = (c.method.var x).name := ih hq
      exact hroot
    · cases hp

section

variable (hdistinct : c.method.Distinct)
include hdistinct

/-- Variables that have storage from the start, or only refer to storage, are not tracked. -/
theorem settled_of_root {v : VariableId} (hlt : v < c.method.vars.size)
    (hkind : c.isTracked v = false)
    (hroot : ∀ p, e.place? c.method.toBody = some p → p.root = (c.method.var v).name) :
    c.Settled e := by
  intro p w hp hw
  rw [hroot p hp] at hw
  rw [hdistinct.eq_of_variableNamed? hlt hw]
  exact hkind

variable (hc : c.Analysed x)
include hc

theorem Place.settled {path : List Step} {t : TypeId} (h : c.Place x e path t)
    (mode : Access.Mode) : ∀ part ∈ c.checks mode e, c.Settled part := by
  have hparameter : c.isTracked x = false := by
    simp [isTracked, hc.parameter.kind_eq]
  have hself {e : Expr} {path : List Step} {t : TypeId} (h : c.Place x e path t) : c.Settled e :=
    settled_of_root hdistinct hc.variable_lt hparameter fun p hp ↦ h.root_eq hp
  induction h generalizing mode with
  | var =>
    intro part hpart
    unfold checks at hpart
    split at hpart
    · cases hpart
    · rw [List.mem_singleton.1 hpart]
      exact hself .var
  | @field id receiver name path t struct field hreceiver hstruct hkind hfield hfixed ih =>
    intro part hpart
    unfold checks at hpart
    split at hpart
    · exact ih _ part hpart
    · split at hpart
      · rw [List.mem_singleton.1 hpart]
        exact hself (.field hreceiver hstruct hkind hfield hfixed)
      · exact ih _ part hpart
  | element _ _ hposition ih =>
    intro part hpart
    unfold checks at hpart
    rw [checks_position hposition, List.nil_append] at hpart
    split at hpart <;> exact ih _ part hpart

/-- Elements of windows are read and referred to without reading a tracked variable. -/
theorem Analysed.settled_of_gives (h : c.Gives x receiver w) (mode : Access.Mode)
    (hmode : mode ≠ .read) : ∀ part ∈ c.checks mode receiver, c.Settled part := by
  cases h with
  | whole hwhole =>
    obtain ⟨t, array, hplace, -⟩ := whole?_eq_some hwhole
    exact hplace.settled hdistinct hc mode
  | @refLocal id v init path w hkind =>
    have hlt : v < c.method.vars.size := by
      by_contra hlt
      have hvar : c.method.var v = ⟨"", .stackLocal, TypeTable.error, false, true⟩ := by
        rw [Body.var, Array.getElem?_eq_none (Nat.le_of_not_lt hlt)]
        rfl
      rw [hvar] at hkind
      cases hkind
    intro part hpart
    unfold checks at hpart
    split at hpart
    · cases hpart
    · rw [List.mem_singleton.1 hpart]
      refine settled_of_root hdistinct hlt (by simp [isTracked, hkind]) fun p hp ↦ ?_
      cases hp
      rfl
  | @slices id v value first w hkind htype =>
    have hspan : c.isSpanTyped (.var id v) = true := by
      change c.types.isSpan (c.method.var v).type = true
      simp [TypeTable.isSpan, TypeTable.spanParts?, htype]
    have hsettle : c.settle mode (.var id v) = .refer := by
      cases mode with
      | read => exact absurd rfl hmode
      | readElement => exact if_pos hspan
      | refer => rfl
    intro part hpart
    unfold checks at hpart
    rw [hsettle] at hpart
    cases hpart

theorem Analysed.settled_element {id : ExprId} {position : Expr} {i : Nat}
    (h : c.Gives x receiver w) (hposition : position.position? w.length = some i)
    (mode : Access.Mode) (hmode : mode ≠ .readElement) :
    ∀ part ∈ c.checks mode (.element id receiver [⟨position, none, .none⟩]), c.Settled part := by
  intro part hpart
  unfold checks at hpart
  rw [checks_position hposition, List.nil_append] at hpart
  cases mode with
  | read =>
    dsimp only at hpart
    split at hpart
    · exact hc.settled_of_gives hdistinct h .refer (by decide) part hpart
    · exact hc.settled_of_gives hdistinct h .readElement (by decide) part hpart
  | readElement => exact absurd rfl hmode
  | refer => exact hc.settled_of_gives hdistinct h .refer (by decide) part hpart

theorem Analysed.settled_slice (h : c.slice? x e = some w) :
    ∀ part ∈ c.checks .read e, c.Settled part := by
  obtain ⟨id, receiver, range, whole, rfl, hwhole, hextent, -⟩ := slice?_eq_some h
  obtain ⟨rid, start, stop, last, rfl, hstart, hstop, -⟩ := Expr.extent?_eq_some hextent
  obtain ⟨t, array, hplace, -⟩ := whole?_eq_some hwhole
  have harguments : c.argumentChecks [⟨.range rid start stop, none, .none⟩] = [] := by
    have hrange : c.checks .read (.range rid start stop) =
        start.elim [] (c.checks .read) ++ stop.elim [] (c.checks .read) := by
      cases start <;> cases stop <;> rfl
    rw [argumentChecks, argumentChecks, hrange, checks_boundary hstart, checks_boundary hstop]
    rfl
  intro part hpart
  unfold checks at hpart
  rw [harguments, List.nil_append] at hpart
  dsimp only at hpart
  split at hpart <;> exact hplace.settled hdistinct hc _ part hpart

end

/-! ## Bodies -/

section

variable {first last : Tracking} {body : List Statement} {value : Expr} {path : List Step}
  (hc : c.Analysed x)
include hc

theorem Edits.fine {s : Statement} (h : c.Edits x s) (hreturns : c.method.returns = .value) :
    ∀ use ∈ s.uses c.method.toBody, c.Fine use := by
  have hone {e : Expr} {usage : Usage} (h : ∀ use ∈ e.uses usage, c.Fine use) :
      ∀ use ∈ [(e, usage)].flatMap fun (e, usage) ↦ e.uses usage, c.Fine use := by
    simpa using h
  have htwo {target value : Expr} {usage : Usage} (htarget : ∀ use ∈ target.uses usage, c.Fine use)
      (hvalue : ∀ use ∈ value.uses .read, c.Fine use) :
      ∀ use ∈ [(target, usage), (value, .read)].flatMap fun (e, usage) ↦ e.uses usage,
        c.Fine use := by
    intro use huse
    rw [List.flatMap_cons, List.mem_append] at huse
    exact huse.elim (htarget use) (hone hvalue use)
  cases h with
  | slice hkind htype hvalue _ =>
    refine htwo (fun use huse ↦ ?_) (hc.fine_slice hvalue)
    rw [List.mem_singleton.1 huse]
    exact fine_spanLocal htype
  | write hreceiver hposition =>
    refine htwo (hc.fine_element hreceiver hposition (.inl rfl)) fun use huse ↦ ?_
    rw [List.mem_singleton.1 huse]
    exact fine_of_read rfl fun _ _ _ h ↦ by cases h
  | @bind v init path w hkind hplace hwhole =>
    obtain ⟨t, array, hplace', harray, -⟩ := whole?_eq_some hwhole
    have hspan : c.types.spanParts? t = none := by
      rw [TypeTable.spanParts?, TypeTable.get_of_array? harray]
    obtain ⟨s, ho, hreadonly⟩ := hplace'.outcome? hc hspan
    have hfine : ∀ use ∈ init.uses (.refLocalInit false), c.Fine use :=
      hplace.fine hc fun _ ↦
        useError?_eq_none ho (objection?_ref hreadonly (.inr (.inl ⟨false, rfl⟩)))
    refine hone ?_
    have hbound : ((c.method.var v).kind == .refLocal true) = false := by
      rw [hkind]
      rfl
    rw [hbound]
    exact hfine
  | ret hreceiver hposition =>
    refine hone ?_
    rw [hreturns]
    exact hc.fine_element hreceiver hposition (.inr rfl)

theorem Edits.keepsScope {target value : Expr} (h : c.Edits x (.assign target value)) :
    c.KeepsScope target value := by
  intro id v htarget _ _ _
  cases h with
  | slice hkind htype hvalue hgives =>
    rw [hc.storageOf_slice hvalue, EscapeScope.outlives, (hc.storage_of_gives hgives).1]
    simp
  | write => cases htarget

theorem Edits.settled {s : Statement} (h : c.Edits x s) (hdistinct : c.method.Distinct)
    (hreturns : c.method.returns = .value) : ∀ e, .check e ∈ c.statementEvents s → c.Settled e := by
  intro part hpart
  cases h with
  | slice hkind htype hvalue _ =>
    rw [statementEvents, List.mem_append, List.mem_append] at hpart
    rcases hpart with (hpart | hpart) | hpart
    · cases hpart
    · exact hc.settled_slice hdistinct hvalue part (mem_checked hpart)
    · cases List.mem_singleton.1 hpart
  | write hreceiver hposition =>
    rw [statementEvents, List.mem_append, List.mem_append] at hpart
    rcases hpart with (hpart | hpart) | hpart
    · exact hc.settled_element hdistinct hreceiver hposition .refer nofun part (mem_checked hpart)
    · cases hpart
    · cases List.mem_singleton.1 hpart
  | bind hkind hplace hwhole => exact hplace.settled hdistinct hc .refer part (mem_checked hpart)
  | ret hreceiver hposition =>
    rw [statementEvents, hreturns] at hpart
    exact hc.settled_element hdistinct hreceiver hposition .read nofun part (mem_checked hpart)

/-- A tracked method validates without a diagnostic. -/
theorem TracksBody.validate?_eq (hbody : c.TracksBody x first body value last path)
    (hfirst : Tracking.Sound c x first) (horderly : c.method.Orderly)
    (hdistinct : c.method.Distinct) (hreturns : c.method.returns = .value) :
    c.validate? = some [] := by
  have hedits {s : Statement} (hs : s ∈ c.method.statements) : c.Edits x s :=
    hbody.edits horderly hfirst hs
  have hfine : ∀ use ∈ c.method.uses, c.Fine use := by
    intro use huse
    obtain ⟨s, hs, huse⟩ := List.mem_flatMap.1 huse
    exact (hedits hs).fine hc hreturns use huse
  have haccepted : c.Accepted := by
    refine ⟨hbody.resolves hc.parameter horderly, fun use huse ↦ (hfine use huse).2, ?_⟩
    exact fun target value hs ↦ (hedits hs).keepsScope hc
  refine haccepted.validate?_eq (List.flatMap_eq_nil_iff.2 fun use huse ↦ (hfine use huse).1) ?_
  exact assignmentErrors_eq_nil fun s hs ↦ (hedits hs).settled hc hdistinct hreturns

end

end InlineArrays.Context
