import InlineArrays.Code.OfExpr
import InlineArrays.Proofs.Code.Regions
import InlineArrays.Proofs.Resolution.AccessTypes
import InlineArrays.Proofs.Resolution.PathStorage
import InlineArrays.Proofs.Resolution.Replacement
import InlineArrays.Proofs.Validation.Slices
import InlineArrays.Proofs.Validation.Untyped

/-!
# Regions of expressions

The region of storage tells whether it may be storage of the activation itself and whether it may be
written.  A span is over data, in the region of what its scope outlives and of its kind; everything
else refers to nothing but shared storage.  The storage that an expression is made of is in no larger
region than the expression.
-/

namespace InlineArrays

namespace EscapeScope

/-- What outlives a scope outlives every narrower one. -/
theorem outlives_trans {a b required : EscapeScope} (hab : a.outlives b)
    (hb : b.outlives required) : a.outlives required := by
  simp only [outlives, decide_eq_true_eq] at *
  exact Nat.le_trans hb hab

end EscapeScope

namespace Storage

variable {s : Storage}

/-- Whether it may be storage of the activation itself. -/
def isOwn (s : Storage) : Bool := !s.scope.outlives .returnOnly

/-- Where data is that is stored so. -/
def region (s : Storage) : Region := .data s.isOwn (!s.projectsReadonly)

/-- The storage of an element of a span that is over storage. -/
def elementOf (s : Storage) (readonly : Bool) : Storage := { s with referenceable := true, readonly }

theorem region_temporary : temporary.region = .data true false := rfl

@[simp]
theorem isOwn_projected : s.projected.isOwn = s.isOwn := rfl

@[simp]
theorem isOwn_readonlyIf (readonly : Bool) : (s.readonlyIf readonly).isOwn = s.isOwn := rfl

theorem region_projected : s.projected.region = s.region := by
  cases s with
  | mk scope origin referenceable readonly => cases referenceable <;> cases readonly <;> rfl

theorem region_le_readonlyIf (readonly : Bool) : s.region ≤ (s.readonlyIf readonly).region := by
  refine Region.data_le_data (Bool.le_refl _) (Bool.le_iff_imp.2 ?_)
  simp only [projectsReadonly, readonlyIf, Bool.not_or, Bool.not_not, Bool.and_eq_true]
  exact fun h ↦ ⟨h.1.1, h.2⟩

/-- No region of data is above that of temporaries. -/
theorem region_le_temporary : s.region ≤ temporary.region :=
  Region.data_le_data (Bool.le_true _) (Bool.false_le _)

/-- What outlives other storage is the activation's own only if that is. -/
theorem isOwn_le {s' : Storage} (h : s.scope.outlives s'.scope) : s.isOwn ≤ s'.isOwn := by
  unfold isOwn
  cases hs' : s'.scope.outlives .returnOnly with
  | false => exact Bool.le_true _
  | true => rw [EscapeScope.outlives_trans h hs']

end Storage

namespace TypeTable

/-- Spans are no parts of other types. -/
def SpansApart (t : TypeTable) : Prop := ∀ data ∈ t.entries, ∀ ref ∈ data.refs, t.isSpan ref = false

instance (t : TypeTable) : Decidable t.SpansApart :=
  inferInstanceAs (Decidable (∀ data ∈ t.entries, ∀ ref ∈ data.refs, t.isSpan ref = false))

variable {t : TypeTable}

theorem SpansApart.refs (ht : t.SpansApart) (id : TypeId) {ref : TypeId}
    (href : ref ∈ (t.get id).refs) : t.isSpan ref = false := by
  cases hget : t.entries[id]? with
  | none =>
    rw [get, hget] at href
    cases href
  | some data =>
    rw [get, hget] at href
    exact ht data (List.mem_of_getElem? hget) ref href

theorem isSpan_eq_false {id : TypeId} : t.isSpan id = false ↔ t.spanParts? id = none := by
  simp [isSpan]

end TypeTable

namespace Context

/-- What the value of an expression refers to. -/
def valueRegion (c : Context) (e : Expr) : Region :=
  match c.types.spanParts? (c.typeOf e) with
  | some (_, readonly) => .data (c.storageOf e).isOwn (!readonly)
  | none => .shared

/-- Where the storage of an expression is, if it is a span that of a variable. -/
def placeRegion (c : Context) (e : Expr) : Region :=
  match c.types.spanParts? (c.typeOf e) with
  | some (_, readonly) => .spans true (!readonly)
  | none => (c.storageOf e).region

/-- What the slot of a variable refers to, where the variable is stored or what it holds. -/
def slotRegion (c : Context) (v : VariableId) : Region :=
  let held := c.holdsAddress (c.method.var v)
  let s := c.storageOf (.var 0 v)
  match c.types.spanParts? (c.method.var v).type with
  | some (_, readonly) => if held then .spans false (!readonly) else .data s.isOwn (!readonly)
  | none => if held then s.region else .shared

/-- The layout of some code of a method. -/
def layout (c : Context) (code : List Instr) : Layout where
  code
  region? v := if v < c.method.vars.size then some (c.slotRegion v) else none
  shared_le {v κ} h := by
    obtain ⟨-, h⟩ := Option.ite_none_right_eq_some.1 h
    obtain rfl := Option.some.inj h
    unfold slotRegion
    dsimp only
    split <;> split <;> trivial

variable {c : Context} {e receiver : Expr} {id : ExprId} {v : VariableId} {code : List Instr}

theorem layout_region? (code : List Instr) (h : v < c.method.vars.size) :
    (c.layout code).region? v = some (c.slotRegion v) := if_pos h

theorem valueRegion_of_isSpan (h : c.types.isSpan (c.typeOf e) = false) : c.valueRegion e = .shared := by
  rw [valueRegion, TypeTable.isSpan_eq_false.1 h]

theorem placeRegion_of_isSpan (h : c.types.isSpan (c.typeOf e) = false) :
    c.placeRegion e = (c.storageOf e).region := by
  rw [placeRegion, TypeTable.isSpan_eq_false.1 h]

theorem valueRegion_of_span {element : TypeId} {readonly : Bool}
    (h : c.types.get (c.typeOf e) = .span element readonly) :
    c.valueRegion e = .data (c.storageOf e).isOwn (!readonly) := by
  rw [valueRegion, TypeTable.spanParts?, h]

theorem shared_le_valueRegion : .shared ≤ c.valueRegion e := by
  unfold valueRegion
  split <;> trivial

theorem shared_le_placeRegion : .shared ≤ c.placeRegion e := by
  unfold placeRegion
  split <;> trivial

/-! ## Variables -/

/-- A variable is stored the same way wherever it is used. -/
theorem storageOf_var (id id' : ExprId) : c.storageOf (.var id v) = c.storageOf (.var id' v) := by
  rw [storageOf, storageOf, storageOf?_var id id' v]

theorem typeOf_var (id : ExprId) : c.typeOf (.var id v) = (c.method.var v).type := rfl

/-- What is stored in the slot of a variable is gone with the activation. -/
theorem fixedStorage_isOwn {v : Variable} (h : c.holdsAddress v = false) :
    (c.fixedStorage v).isOwn := by
  unfold holdsAddress at h
  unfold fixedStorage
  cases hkind : v.kind with
  | stackLocal => rfl
  | refLocal =>
    rw [hkind] at h
    cases h
  | parameter kind =>
    rw [hkind] at h
    cases kind <;> first | rfl | cases h
  | receiver =>
    rw [hkind] at h
    dsimp only at h ⊢
    cases howner : c.method.owner with
    | none => rfl
    | some owner =>
      rw [howner, Option.any_some, Bool.not_eq_false', TypeTable.isClass] at h
      obtain ⟨type, hstruct, hclass⟩ := (Option.any_eq_true _ _).1 h
      dsimp only
      rw [hstruct]
      dsimp only
      rw [if_pos hclass]
      rfl

/-- The storage of a variable that is no span and does not hold the address of its storage. -/
theorem isOwn_of_not_holdsAddress (hspan : c.types.isSpan (c.method.var v).type = false)
    (h : c.holdsAddress (c.method.var v) = false) : (c.storageOf (.var id v)).isOwn := by
  have hkind : ∀ readonly, (c.method.var v).kind ≠ .refLocal readonly := by
    intro readonly hkind
    rw [holdsAddress, hkind] at h
    cases h
  rw [storageOf, storageOf?_root id hspan hkind]
  exact fixedStorage_isOwn h

/-! ## What expressions are made of -/

/-- What the receiver of an access refers to when it is viewed as a span. -/
def receiverRegion (c : Context) (a : Access) : Region :=
  match a.indexed with
  | .array _ => (c.storageOf a.receiver).region
  | .span .. => c.valueRegion a.receiver

section

variable (hc : c.Grounded) (hvalid : c.validate? = some [])
include hc hvalid

theorem Grounded.typeForStorage? (he : c.method.Reaches e) : c.typeForStorage? e = some (c.typeOf e) :=
  typeForStorage?_of_typeOf? hc.orderly (he.records hc.orderly) (hc.answered hvalid he).1

/-- A field is where the struct is, unless that is an object. -/
theorem Grounded.region_field {name : String} (he : c.method.Reaches (.field id receiver name))
    (hspan : c.types.isSpan (c.typeOf (.field id receiver name)) = false)
    (hclass : c.types.isClass (c.typeOf receiver) = false) :
    (c.storageOf receiver).region ≤ (c.storageOf (.field id receiver name)).region := by
  have htype := hc.typeForStorage? hvalid he
  have hreceiver := he.child List.mem_cons_self
  have hr := hc.typeForStorage? hvalid hreceiver
  have hparts := TypeTable.isSpan_eq_false.1 hspan
  obtain ⟨init, hstorage⟩ := c.storageOf?_eq
  cases hstruct : c.types.struct? (c.typeOf receiver) with
  | none =>
    have hfield : c.storageOf (.field id receiver name) = .temporary := by
      rw [storageOf, hstorage, storageWith, htype, hr]
      simp only [Option.bind_eq_bind, Option.bind_some, hparts, hstruct]
      rfl
    rw [hfield]
    exact Storage.region_le_temporary
  | some type =>
    rw [TypeTable.isClass, hstruct] at hclass
    have hfield : c.storageOf (.field id receiver name) = (c.storageOf receiver).readonlyIf
        ((type.field? name).any (·.readonly) || type.isReadonly) := by
      rw [storageOf, hstorage, storageWith_structField htype hparts hr hstruct hclass, ← hstorage,
        (hc.answered hvalid hreceiver).2]
      rfl
    rw [hfield]
    exact Storage.region_le_readonlyIf _

section

variable {args : List (Argument Expr)} {a : Access} (hbuilt : c.types.Built)
  (hspans : c.types.SpansApart) (he : c.method.Reaches (.element id receiver args))
  (hbind : c.bind (.element id receiver args) = .ok a)
include hbuilt he hbind

theorem Grounded.typeOf_element : c.typeOf (.element id receiver args) = a.type := by
  have hstored := (hc.answered hvalid (he.child List.mem_cons_self)).2
  rw [typeOf, (typeOf?_of_bind hbuilt hbind (by rw [hstored]; rfl)).1, Option.getD_some]

/-- What a slice refers to. -/
theorem Grounded.valueRegion_slice (hslice : a.isSlice) :
    c.valueRegion (.element id receiver args) =
      .data (c.storageOf (.element id receiver args)).isOwn (!a.indexed.kind.isReadonly) := by
  have hstored := (hc.answered hvalid (he.child List.mem_cons_self)).2
  have hspan := (typeOf?_of_bind hbuilt hbind (by rw [hstored]; rfl)).2.2 hslice
  exact valueRegion_of_span (hc.typeOf_element hvalid hbuilt he hbind ▸ hspan.2)

include hspans

/-- Only slices of what is indexed are spans. -/
theorem Grounded.isSpan_element :
    c.types.isSpan (c.typeOf (.element id receiver args)) = a.isSlice := by
  have hstored := (hc.answered hvalid (he.child List.mem_cons_self)).2
  rw [hc.typeOf_element hvalid hbuilt he hbind]
  cases hs : a.isSlice with
  | true =>
    have hspan := (typeOf?_of_bind hbuilt hbind (by rw [hstored]; rfl)).2.2 hs
    rw [TypeTable.isSpan, TypeTable.spanParts?, hspan.2]
    rfl
  | false =>
    obtain ⟨-, -, hindexed, arg, rfl, -, hplain⟩ := bind_eq_ok hbind
    rw [if_neg (by rw [← Access.isSlice, hs]; exact Bool.false_ne_true)] at hplain
    rw [hplain]
    rcases indexed_cases hindexed with ⟨type, harray, helement, -⟩ | hspan
    · exact hspans.refs (c.typeOf receiver) (by simp [harray, helement, TypeData.refs])
    · exact hspans.refs (c.typeOf receiver) (by simp [hspan, TypeData.refs])

/-- An element is stored as the array is or as the span says, and a slice of a span as the span. -/
theorem Grounded.storageOf_element : c.storageOf (.element id receiver args) =
    match a.indexed with
    | .array _ => (c.storageOf receiver).projected
    | .span kind _ _ =>
      if a.isSlice then c.storageOf receiver
      else (c.storageOf receiver).elementOf kind.isReadonly := by
  have hisSpan := hc.isSpan_element hvalid hbuilt hspans he hbind
  obtain ⟨-, -, hindexed, arg, rfl, -⟩ := bind_eq_ok hbind
  have hchild := he.child List.mem_cons_self
  have hstorage := storageOf?_element (hc.typeForStorage? hvalid he) (hc.typeForStorage? hvalid hchild)
  rw [(hc.answered hvalid hchild).2, (hc.answered hvalid he).2] at hstorage
  cases hi : a.indexed with
  | array p =>
    obtain ⟨type, harray, -⟩ := project?_of_indexed (hi ▸ hindexed)
    rw [TypeTable.get_of_array? harray] at hstorage
    exact Option.some.inj hstorage
  | span kind element s =>
    obtain ⟨readonly, hget, rfl⟩ := span_of_indexed (hi ▸ hindexed)
    rw [hget, hisSpan] at hstorage
    dsimp only
    rw [SpanKind.isReadonly_ofReadonly]
    exact Option.some.inj hstorage

/-- An element or a slice is in what the receiver refers to as a span. -/
theorem Grounded.receiverRegion_eq :
    c.receiverRegion a = if a.isSlice then c.valueRegion (.element id receiver args)
      else (c.storageOf (.element id receiver args)).region := by
  have hstorage := hc.storageOf_element hvalid hbuilt hspans he hbind
  have hslice (h : a.isSlice) := hc.valueRegion_slice hvalid hbuilt he hbind h
  obtain ⟨-, hreceiver, hindexed, -⟩ := bind_eq_ok hbind
  rw [receiverRegion, hreceiver]
  cases hi : a.indexed with
  | array p =>
    obtain ⟨type, harray, rfl⟩ := project?_of_indexed (hi ▸ hindexed)
    rw [hi] at hstorage
    cases hs : a.isSlice with
    | false => rw [if_neg Bool.false_ne_true, hstorage, Storage.region_projected]
    | true =>
      rw [if_pos rfl, hslice hs, hstorage, hi, Indexed.kind, SpanKind.isReadonly_ofReadonly]
      rfl
  | span kind element s =>
    obtain ⟨readonly, hget, rfl⟩ := span_of_indexed (hi ▸ hindexed)
    rw [hi] at hstorage
    rw [valueRegion_of_span hget]
    cases hs : a.isSlice with
    | false =>
      rw [hs] at hstorage
      rw [if_neg Bool.false_ne_true, hstorage]
      cases readonly <;> rfl
    | true =>
      rw [hs] at hstorage
      rw [if_pos rfl, hslice hs, hstorage, hi, Indexed.kind, SpanKind.isReadonly_ofReadonly]
      rfl

end

/-- A conversion is in what is converted. -/
theorem Grounded.region_span {readonly : Bool}
    (he : c.method.Reaches (.span id receiver readonly)) {type : ArrayType}
    (harray : c.types.array? (c.typeOf receiver) = some type) :
    (c.storageOf receiver).region ≤ c.valueRegion (.span id receiver readonly) := by
  have hchild := he.child List.mem_cons_self
  obtain ⟨htypeOf, hstored⟩ := hc.answered hvalid hchild
  obtain ⟨span, hspan, hget⟩ := hc.wellFormed.findSpan_array harray readonly
  have htype : c.typeOf (.span id receiver readonly) = span := by
    rw [typeOf_span htypeOf, harray, Option.map_some, Option.getD_some, findSpan, hspan,
      Option.getD_some]
  have hstorage : c.storageOf (.span id receiver readonly) =
      (c.storageOf receiver).projected.readonlyIf readonly := by
    have hisSpan : c.types.isSpan span := by rw [TypeTable.isSpan, TypeTable.spanParts?, hget]; rfl
    obtain ⟨init, hstorage⟩ := c.storageOf?_eq
    rw [hstorage] at hstored
    rw [storageOf, hstorage, storageWith, hc.typeForStorage? hvalid he, htype]
    simp only [Option.bind_eq_bind, Option.bind_some, hisSpan, if_true, hstored]
    rfl
  rw [valueRegion_of_span (htype ▸ hget), hstorage]
  refine Region.data_le_data (Bool.le_refl _) ?_
  cases readonly with
  | true => exact Bool.false_le _
  | false =>
    obtain ⟨hreferenceable, hreadonly⟩ := writable_of_span (hc.innateError?_eq_none hvalid he)
    rw [Storage.projectsReadonly, hreferenceable, hreadonly]
    exact Bool.le_refl _

end

end Context

end InlineArrays
