import InlineArrays.Proofs.Access
import InlineArrays.Proofs.Resolution.Slices
import InlineArrays.Proofs.Validation.Accepted
import Mathlib

/-!
# Returning slices

Whether a slice may be returned depends on the storage of the inline array alone, as it does for a
read-only reference to an element of it.
-/

namespace InlineArrays

/-- The uses of slices as the receivers of later ones, in the order in which they are checked. -/
def Expr.sliceUses (a : Expr) : List (ExprId × Argument Expr) → List Use
  | [] => []
  | slice :: slices => a.sliceUses slices ++ [(a.sliced (slice :: slices), .receiver)]

namespace Storage

variable {s : Storage}

/-- A temporary value has no storage to return a reference to. -/
theorem Placed.escape?_of_not_referenceable (hs : s.Placed) (h : s.referenceable = false) :
    s.escape? = some .nonReferenceable := by
  obtain ⟨-, horigin⟩ := hs h
  unfold Storage.escape?
  rw [h, horigin]
  rfl

/-- Nothing changes for a temporary value if a span over it is given an address. -/
theorem Placed.escape?_eq (hs : s.Placed) (readonly : Bool) :
    ({ s with referenceable := true, readonly } : Storage).escape? = s.escape? := by
  cases href : s.referenceable with
  | true =>
    unfold Storage.escape?
    rw [href]
  | false =>
    obtain ⟨hscope, horigin⟩ := hs href
    unfold Storage.escape?
    dsimp only
    rw [href, hscope, horigin]
    rfl

end Storage

namespace Context

variable {c : Context}

/-- Each of the slices binds. -/
def SlicesBind (c : Context) (a : Expr) : List (ExprId × Argument Expr) → Prop
  | [] => True
  | slice :: slices =>
    c.SlicesBind a slices ∧ ∃ access, c.bind (a.sliced (slice :: slices)) = .ok access

/-- What is rejected of uses that are checked one after the other. -/
def rejections (c : Context) (uses : List Use) : Rejections := uses.foldl (Rejections.checkUse c) {}

def findings (c : Context) (uses : List Use) : List Violation :=
  (c.rejections uses).reasons.map (·.violation)

theorem rejections_append (c : Context) (uses : List Use) (use : Use) :
    c.rejections (uses ++ [use]) = (c.rejections uses).checkUse c use := by
  rw [rejections, List.foldl_append]
  rfl

theorem violation_useError? {e : Expr} {usage : Usage} {o : Outcome} (h : c.outcome? e = some o) :
    (c.useError? e usage).map (·.violation) = c.objection? e usage o := by
  unfold useError? advance
  rw [h]
  dsimp only
  cases c.objection? e usage o <;> rfl

/-! ## Accesses that bind -/

section

variable {id : ExprId} {receiver : Expr} {arg : Argument Expr} {access : Access}
  (h : c.bind (.element id receiver [arg]) = .ok access)
include h

theorem isSlice_of_bind (htypes : c.types.WellFormed) :
    access.isSlice ↔ c.typeOf? arg.value = some TypeTable.range := by
  obtain ⟨-, -, -, arg', harg, hsubscript, -⟩ := bind_eq_ok h
  cases harg
  exact isSlice_subscript htypes hsubscript

theorem indexed_of_array {type : ArrayType} (hreceiver : c.types.get (c.typeOf receiver) = .array type) :
    ∃ p, access.indexed = .array p ∧ p.storage = c.storageOf receiver := by
  obtain ⟨-, -, hindexed, -⟩ := bind_eq_ok h
  simp only [indexed, project?, TypeTable.array?, hreceiver, Option.map_some] at hindexed
  exact ⟨_, (Except.ok.inj hindexed).symm, rfl⟩

theorem indexed_of_span {element : TypeId} {readonly : Bool}
    (hreceiver : c.types.get (c.typeOf receiver) = .span element readonly) :
    access.indexed = .span (.ofReadonly readonly) element (c.storageOf receiver) := by
  obtain ⟨-, -, hindexed, -⟩ := bind_eq_ok h
  simp only [indexed, hreceiver] at hindexed
  exact (Except.ok.inj hindexed).symm

theorem outcome?_of_array {p : Projection} (hindexed : access.indexed = .array p) :
    c.outcome? (.element id receiver [arg]) = some ⟨shapeOf access.isSlice p.storage,
      { p.storage with readonly := access.indexed.kind.isReadonly }⟩ := by
  simp only [outcome?, Expr.isElement, if_true, h, hindexed]

theorem outcome?_of_span {kind : SpanKind} {element : TypeId} {s : Storage}
    (hindexed : access.indexed = .span kind element s) :
    c.outcome? (.element id receiver [arg]) =
      some ⟨shapeOf access.isSlice { s with referenceable := true },
        { s with referenceable := true, readonly := access.indexed.kind.isReadonly }⟩ := by
  simp only [outcome?, Expr.isElement, if_true, h, hindexed]

end

/-! ## Single uses -/

section

variable {a : Expr} {type : ArrayType} (ha : c.types.array? (c.typeOf a) = some type)
  (htypes : c.types.WellFormed) {base : Storage} (hbase : c.storageOf? a = some base)
include ha htypes hbase

/-- An element of the array, returned as a read-only reference. -/
theorem element_returned {id : ExprId} {index : Argument Expr} {access : Access}
    (hindex : c.typeOf index.value = TypeTable.int)
    (h : c.bind (.element id a [index]) = .ok access) :
    c.innateError? (.element id a [index]) = none ∧
      (c.useError? (.element id a [index]) (.returned .refReadonly)).map (·.violation) =
        base.escape? := by
  have hslice : access.isSlice = false := by
    rw [← Bool.not_eq_true, isSlice_of_bind h htypes, typeOf?_of_typeOf hindex nofun]
    nofun
  obtain ⟨p, hindexed, hp⟩ := indexed_of_array h (TypeTable.get_of_array? ha)
  have hstorage : p.storage = base := by rw [hp, storageOf, hbase, Option.getD_some]
  constructor
  · unfold innateError?
    rw [h]
    simp only [hindexed, hslice]
    rfl
  · rw [violation_useError? (outcome?_of_array h hindexed), hslice, hstorage]
    cases href : base.referenceable with
    | true => simp [objection?, shapeOf, href, ReturnKind.isByRef, Storage.escape?]
    | false =>
      rw [(placed_of_storageOf? hbase).escape?_of_not_referenceable href]
      simp [objection?, shapeOf, href, ReturnKind.isByRef]

/-- The first slice of the array; one without an address cannot be sliced. -/
theorem first_slice {id : ExprId} {range : Argument Expr} {access : Access}
    (hrange : c.typeOf range.value = TypeTable.range)
    (h : c.bind (.element id a [range]) = .ok access) :
    (c.innateError? (.element id a [range])).map (·.violation) =
        (if base.referenceable then none else some .nonReferenceable) ∧
      (c.useError? (.element id a [range]) (.returned .value)).map (·.violation) =
        base.escape? := by
  have hslice : access.isSlice = true :=
    (isSlice_of_bind h htypes).2 (typeOf?_of_typeOf hrange nofun)
  obtain ⟨p, hindexed, hp⟩ := indexed_of_array h (TypeTable.get_of_array? ha)
  have hstorage : p.storage = base := by rw [hp, storageOf, hbase, Option.getD_some]
  constructor
  · unfold innateError?
    rw [h]
    simp only [hindexed, hslice, Projection.viaTemporary, hstorage, Bool.true_and]
    cases base.referenceable <;> rfl
  · rw [violation_useError? (outcome?_of_array h hindexed), hslice, hstorage]
    rfl

/-- A slice of a slice. -/
theorem next_slice {slices : List (ExprId × Argument Expr)} {slice slice' : ExprId × Argument Expr}
    (hranges : ∀ r ∈ slice :: slice' :: slices, c.typeOf r.2.value = TypeTable.range)
    (hs : (c.storageOf? (a.sliced (slice' :: slices))).isSome) {access : Access}
    (h : c.bind (a.sliced (slice :: slice' :: slices)) = .ok access) :
    c.innateError? (a.sliced (slice :: slice' :: slices)) = none ∧
      (c.useError? (a.sliced (slice :: slice' :: slices)) (.returned .value)).map (·.violation) =
        base.escape? := by
  have hslice : access.isSlice = true :=
    (isSlice_of_bind h htypes).2 (typeOf?_of_typeOf (hranges slice List.mem_cons_self) nofun)
  have hrest : ∀ r ∈ slice' :: slices, c.typeOf r.2.value = TypeTable.range :=
    fun r hr ↦ hranges r (List.mem_cons_of_mem _ hr)
  have hstorage : c.storageOf (a.sliced (slice' :: slices)) = base.projected := by
    rw [storageOf, storageOf?_sliced ha htypes hrest hs, hbase]
    rfl
  obtain ⟨s, hs⟩ := Option.isSome_iff_exists.1 hs
  obtain ⟨t, ht⟩ := typeForStorage?_of_storageOf? hs
  obtain ⟨-, s', -, hspan⟩ := typeForStorage?_sliced ha htypes hrest ht
  rw [← typeOf_of_typeForStorage ht] at hspan
  have hindexed := indexed_of_span h hspan
  constructor
  · unfold innateError?
    simp only [Expr.sliced] at h hindexed ⊢
    rw [h]
    simp only [hindexed]
  · have houtcome := outcome?_of_span h hindexed
    rw [hstorage] at houtcome
    have hplaced : base.Placed := placed_of_storageOf? hbase
    calc (c.useError? (a.sliced (slice :: slice' :: slices)) (.returned .value)).map (·.violation)
      _ = c.objection? (a.sliced (slice :: slice' :: slices)) (.returned .value) _ :=
        violation_useError? houtcome
      _ = _ := by rw [hslice]; rfl
      _ = base.escape? := hplaced.escape?_eq _

end

/-! ## Chains of slices -/

theorem checkUse_receiver {e : Expr} (h : c.innateError? e = none) (r : Rejections) :
    r.checkUse c (e, .receiver) = r := by
  unfold Rejections.checkUse
  rw [h]
  rfl

theorem findings_returned {e : Expr} {kind : ReturnKind} (h : c.innateError? e = none) :
    c.findings [(e, .returned kind)] =
      ((c.useError? e (.returned kind)).map (·.violation)).toList := by
  simp only [findings, rejections, List.foldl_cons, List.foldl_nil, Rejections.checkUse, h,
    Usage.isChecked, Rejections.covers_empty, Bool.not_false, Bool.and_self, if_true]
  cases c.useError? e (.returned kind) <;> rfl

/-- Nothing is found about what is built on a rejected expression. -/
theorem checkUse_of_covers {e : Expr} {usage : Usage} {r : Rejections}
    (h : c.innateError? e = none) (hr : r.covers e) : r.checkUse c (e, usage) = r := by
  simp only [Rejections.checkUse, h, hr, Bool.not_true, Bool.and_false]
  rfl

section

variable {a : Expr} {type : ArrayType} (ha : c.types.array? (c.typeOf a) = some type)
  (htypes : c.types.WellFormed) {base : Storage} (hbase : c.storageOf? a = some base)
include ha htypes hbase

theorem isSome_storageOf?_sliced {slices : List (ExprId × Argument Expr)}
    {slice : ExprId × Argument Expr}
    (hranges : ∀ r ∈ slice :: slices, c.typeOf r.2.value = TypeTable.range)
    (hs : (c.storageOf? (a.sliced (slice :: slices))).isSome) :
    (c.storageOf? (a.sliced slices)).isSome := by
  cases slices with
  | nil => exact hbase ▸ rfl
  | cons slice' slices => exact storageOf?_sliced_cons ha htypes hranges hs ▸ hs

/-- Slices of storage with an address are fine as receivers. -/
theorem rejections_sliceUses (href : base.referenceable = true)
    {slices : List (ExprId × Argument Expr)}
    (hranges : ∀ r ∈ slices, c.typeOf r.2.value = TypeTable.range)
    (hs : (c.storageOf? (a.sliced slices)).isSome) (hbind : c.SlicesBind a slices) :
    c.rejections (a.sliceUses slices) = {} := by
  induction slices with
  | nil => rfl
  | cons slice slices ih =>
    obtain ⟨hrest, access, haccess⟩ := hbind
    have hs' := isSome_storageOf?_sliced ha htypes hbase hranges hs
    have hinnate : c.innateError? (a.sliced (slice :: slices)) = none := by
      cases slices with
      | nil =>
        have hfirst := (first_slice ha htypes hbase (hranges slice List.mem_cons_self) haccess).1
        rw [href, if_pos rfl] at hfirst
        exact Option.map_eq_none_iff.1 hfirst
      | cons slice' slices => exact (next_slice ha htypes hbase hranges hs' haccess).1
    rw [Expr.sliceUses, rejections_append,
      ih (fun r hr ↦ hranges r (List.mem_cons_of_mem _ hr)) hs' hrest]
    exact checkUse_receiver hinnate {}

/-- Of slices of a temporary value the first one is rejected, and those built on it are not
considered. -/
theorem rejections_sliceUses_temporary (href : base.referenceable = false)
    {slices : List (ExprId × Argument Expr)} {slice : ExprId × Argument Expr}
    (hranges : ∀ r ∈ slice :: slices, c.typeOf r.2.value = TypeTable.range)
    (hs : (c.storageOf? (a.sliced (slice :: slices))).isSome)
    (hbind : c.SlicesBind a (slice :: slices)) (usage : Usage) :
    c.findings (a.sliceUses slices ++ [(a.sliced (slice :: slices), usage)]) =
        [.nonReferenceable] ∧
      (c.rejections (a.sliceUses slices ++ [(a.sliced (slice :: slices), usage)])).covers
        (a.sliced (slice :: slices)) := by
  rw [findings, rejections_append]
  induction slices generalizing slice usage with
  | nil =>
    obtain ⟨-, access, haccess⟩ := hbind
    have hfirst := (first_slice ha htypes hbase (hranges slice List.mem_cons_self) haccess).1
    rw [href, if_neg (by decide)] at hfirst
    obtain ⟨reason, hreason, hviolation⟩ := Option.map_eq_some_iff.1 hfirst
    have hcheck : (c.rejections (a.sliceUses [])).checkUse c (a.sliced [slice], usage) =
        ({} : Rejections).reject (a.sliced [slice]) reason := by
      unfold Rejections.checkUse
      rw [show c.innateError? (a.sliced [slice]) = some reason from hreason]
      rfl
    rw [hcheck]
    constructor
    · exact congrArg ([·]) hviolation
    · simp [Rejections.reject, Rejections.covers, Expr.sliced, Expr.id]
  | cons slice' slices ih =>
    obtain ⟨hrest, access, haccess⟩ := hbind
    have hs' := isSome_storageOf?_sliced ha htypes hbase hranges hs
    have hinnate := (next_slice ha htypes hbase hranges hs' haccess).1
    obtain ⟨hreasons, hcovers⟩ :=
      ih (fun r hr ↦ hranges r (List.mem_cons_of_mem _ hr)) hs' hrest .receiver
    have hsame : (c.rejections (a.sliceUses slices)).checkUse c
        (a.sliced (slice' :: slices), .receiver) = c.rejections (a.sliceUses (slice' :: slices)) :=
      (c.rejections_append _ _).symm
    rw [hsame] at hreasons hcovers
    have hbuilt {r : Rejections} (hr : r.covers (a.sliced (slice' :: slices)) = true) :
        r.covers (a.sliced (slice :: slice' :: slices)) = true := by
      change (r.rejected.contains slice.1 || r.covers (a.sliced (slice' :: slices))) = true
      rw [hr, Bool.or_true]
    rw [checkUse_of_covers hinnate (hbuilt hcovers)]
    exact ⟨hreasons, hbuilt hcovers⟩

theorem findings_slice {slices : List (ExprId × Argument Expr)} {slice : ExprId × Argument Expr}
    (hranges : ∀ r ∈ slice :: slices, c.typeOf r.2.value = TypeTable.range)
    (hs : (c.storageOf? (a.sliced (slice :: slices))).isSome)
    (hbind : c.SlicesBind a (slice :: slices)) :
    c.findings [(a.sliced (slice :: slices), .returned .value)] = base.escape?.toList := by
  obtain ⟨-, access, haccess⟩ := id hbind
  cases slices with
  | cons slice' slices =>
    have hs' := isSome_storageOf?_sliced ha htypes hbase hranges hs
    obtain ⟨hinnate, huse⟩ := next_slice ha htypes hbase hranges hs' haccess
    rw [findings_returned hinnate, huse]
  | nil =>
    obtain ⟨hinnate, huse⟩ := first_slice ha htypes hbase (hranges slice List.mem_cons_self) haccess
    cases href : base.referenceable with
    | true =>
      rw [href, if_pos rfl] at hinnate
      rw [findings_returned (e := a.sliced [slice]) (Option.map_eq_none_iff.1 hinnate)]
      exact congrArg _ huse
    | false =>
      rw [(placed_of_storageOf? hbase).escape?_of_not_referenceable href]
      exact (rejections_sliceUses_temporary ha htypes hbase href hranges hs hbind _).1

/-- The slices that a slice is built on do not change what is found about returning it. -/
theorem findings_sliceUses {slices : List (ExprId × Argument Expr)} {slice : ExprId × Argument Expr}
    (hranges : ∀ r ∈ slice :: slices, c.typeOf r.2.value = TypeTable.range)
    (hs : (c.storageOf? (a.sliced (slice :: slices))).isSome)
    (hbind : c.SlicesBind a (slice :: slices)) :
    c.findings (a.sliceUses slices ++ [(a.sliced (slice :: slices), .returned .value)]) =
      base.escape?.toList := by
  cases href : base.referenceable with
  | true =>
    have hs' := isSome_storageOf?_sliced ha htypes hbase hranges hs
    have hreceivers : c.rejections (a.sliceUses slices) = {} :=
      rejections_sliceUses ha htypes hbase href (fun r hr ↦ hranges r (List.mem_cons_of_mem _ hr))
        hs' hbind.1
    rw [← findings_slice ha htypes hbase hranges hs hbind, findings, rejections_append, hreceivers]
    rfl
  | false =>
    rw [(placed_of_storageOf? hbase).escape?_of_not_referenceable href]
    exact (rejections_sliceUses_temporary ha htypes hbase href hranges hs hbind _).1

end

/-- An element of a slice, however often it was sliced, has the scope, the origin and the mutability
of an element of the inline array, and an address if that has one.  So returning the slice is refused
for the reason for which returning a read-only reference to the element is refused, if there is one. -/
theorem slices_preserve_storage {a : Expr} {type : ArrayType}
    {slices : List (ExprId × Argument Expr)} {id : ExprId} (id' : ExprId) {index : Argument Expr}
    {s : Storage} (htypes : c.types.WellFormed) (ha : c.types.array? (c.typeOf a) = some type)
    (hranges : ∀ r ∈ slices, c.typeOf r.2.value = TypeTable.range)
    (hindex : c.typeOf index.value = TypeTable.int)
    (hs : c.storageOf? (.element id (a.sliced slices) [index]) = some s) :
    (∃ base element, c.storageOf? a = some base ∧
      c.storageOf? (.element id' a [index]) = some element ∧ s.scope = element.scope ∧
      s.readonly = element.readonly ∧ s.origin = element.origin ∧
      (base.referenceable → s.referenceable = element.referenceable)) ∧
    (slices ≠ [] → c.SlicesBind a slices →
      (∃ access, c.bind (.element id' a [index]) = .ok access) →
      c.findings [(a.sliced slices, .returned .value)] =
          c.findings [(.element id' a [index], .returned .refReadonly)] ∧
        c.findings (a.sliceUses slices.tail ++ [(a.sliced slices, .returned .value)]) =
          c.findings [(.element id' a [index], .returned .refReadonly)]) := by
  obtain ⟨hslices, base, element, hbase, hstorage⟩ :=
    storageOf?_element_sliced ha htypes hranges id' hindex hs
  refine ⟨⟨base, element, hbase, hstorage⟩, ?_⟩
  rintro hne hbind ⟨access, haccess⟩
  obtain ⟨slice, rest, rfl⟩ := List.exists_cons_of_ne_nil hne
  obtain ⟨hinnate, huse⟩ := element_returned ha htypes hbase hindex haccess
  have helement : c.findings [(.element id' a [index], .returned .refReadonly)] =
      base.escape?.toList := by
    rw [findings_returned hinnate, huse]
  rw [helement]
  exact ⟨findings_slice ha htypes hbase hranges hslices hbind,
    findings_sliceUses ha htypes hbase hranges hslices hbind⟩

end Context

/-- A local inline array and, of two slices of it, the second. -/
def slicesLocal : Context :=
  let buffer : Expr := .var 0 0
  let whole : Argument Expr := { value := .range 1 none none }
  let index : Argument Expr := { value := .int 2 1 }
  let slice : Expr := buffer.sliced [(4, whole), (3, whole)]
  let body : Body :=
    { name := "Main"
      exprs := #[buffer, whole.value, index.value, buffer.sliced [(3, whole)], slice,
        .element 5 slice [index], .element 6 buffer [index]]
      vars := #[{ name := "b", kind := .stackLocal, type := TypeTable.builtin.length }] }
  ⟨bufferTypes, {}, body.finish⟩

/-- Returning an element by reference is refused as returning the slice is. -/
theorem slicesLocal_findings :
    slicesLocal.storageOf? (.element 6 (.var 0 0) [{ value := .int 2 1 }]) =
        some { scope := .currentMethod, origin := .stackLocal "b" } ∧
      slicesLocal.findings [(.element 6 (.var 0 0) [{ value := .int 2 1 }],
        .returned .refReadonly)] = [.returnLocalMember "b"] := by
  let slices : List (ExprId × Argument Expr) :=
    [(4, { value := .range 1 none none }), (3, { value := .range 1 none none })]
  have harray : slicesLocal.types.array? (slicesLocal.typeOf (.var 0 0)) =
      some ⟨"Buffer4", TypeTable.int, 4⟩ := by cbv
  have hranges : ∀ r ∈ slices, slicesLocal.typeOf r.2.value = TypeTable.range :=
    List.forall_mem_cons.2 ⟨by cbv, List.forall_mem_singleton.2 (by cbv)⟩
  have hlocal : slicesLocal.storageOf? (.var 0 0) =
      some { scope := .currentMethod, origin := .stackLocal "b" } := by cbv
  have hslice : slicesLocal.storageOf? (.element 5 ((Expr.var 0 0).sliced slices)
      [{ value := .int 2 1 }]) = some { scope := .currentMethod, origin := .stackLocal "b" } := by
    cbv
  have hfindings : slicesLocal.findings [((Expr.var 0 0).sliced slices, .returned .value)] =
      [.returnLocalMember "b"] := by cbv
  obtain ⟨⟨base, element, hbase, helement, hscope, hreadonly, horigin, href⟩, hreturned⟩ :=
    Context.slices_preserve_storage 6 bufferTypes_built.wellFormed harray hranges (by cbv) hslice
  have hbind : slicesLocal.SlicesBind (.var 0 0) slices := ⟨⟨trivial, _, by cbv⟩, _, by cbv⟩
  refine ⟨?_, hfindings ▸ (hreturned (List.cons_ne_nil _ _) hbind ⟨_, by cbv⟩).1.symm⟩
  rw [hlocal] at hbase
  cases hbase
  cases element
  cases hscope
  cases horigin
  cases hreadonly
  cases href rfl
  exact helement

end InlineArrays
