import InlineArrays.Proofs.Resolution.RefLocals
import InlineArrays.Proofs.Resolution.Slices

/-!
# Storage of paths

A path leads from a variable through fields and elements of inline arrays, and through ref locals to
what they are bound to.  Where it leaves no object, it is stored as far away as its root, and may be
written if nothing on the way is read-only; a field of an object is on the heap, and what lies before
it does not matter.
-/

namespace InlineArrays

/-- What a path passes through. -/
inductive Crossing where
  /-- A field of a plain struct, read-only if it or the struct is. -/
  | field (readonly : Bool)
  | objectField (readonly : Bool)
  | element
  | refLocal (name : String) (readonly : Bool)
  deriving DecidableEq, Repr

namespace Crossing

def isReadonly : Crossing → Bool
  | .field readonly | .objectField readonly | .refLocal _ readonly => readonly
  | .element => false

def entersHeap : Crossing → Bool
  | .objectField _ => true
  | _ => false

/-- Where what lies behind the crossing comes from, if it makes a difference. -/
def origin? : Crossing → Option Origin
  | .objectField _ => some .heap
  | .refLocal name _ => some (.refLocal name)
  | .field _ | .element => none

/-- The storage behind a crossing. -/
def apply (x : Crossing) (s : Storage) : Storage :=
  match x with
  | .field readonly => s.readonlyIf readonly
  | .objectField readonly => { scope := .callingMethod, origin := .heap, readonly }
  | .element => s.projected
  | .refLocal name readonly => Context.refLocalStorage name readonly (some s)

variable {base : Storage}

theorem apply_origin (x : Crossing) : (x.apply base).origin = x.origin?.getD base.origin := by
  cases x with
  | refLocal name readonly =>
    unfold apply Context.refLocalStorage
    dsimp only
    split <;> rfl
  | _ => rfl

theorem apply_of_referenceable {x : Crossing} (hbase : base.referenceable)
    (hx : x.entersHeap = false) : x.apply base =
      ⟨base.scope, x.origin?.getD base.origin, true, base.readonly || x.isReadonly⟩ := by
  cases x with
  | objectField => cases hx
  | field readonly => simp [apply, Storage.readonlyIf, origin?, isReadonly, hbase]
  | element => simp [apply, Storage.projected, Storage.projectsReadonly, origin?, isReadonly, hbase]
  | refLocal name readonly => simp [apply, Context.refLocalStorage, origin?, isReadonly, hbase]

/-- Behind some crossings, of which the last one comes first. -/
def applyAll (crossings : List Crossing) (base : Storage) : Storage := crossings.foldr apply base

theorem applyAll_origin (crossings : List Crossing) :
    (applyAll crossings base).origin = (crossings.findSome? origin?).getD base.origin := by
  induction crossings with
  | nil => rfl
  | cons x crossings ih =>
    rw [applyAll, List.foldr_cons, apply_origin, List.findSome?_cons]
    cases x.origin? with
    | none => exact ih
    | some origin => rfl

/-- What comes before a field of an object does not matter. -/
theorem applyAll_objectField (later earlier : List Crossing) (readonly : Bool) :
    applyAll (later ++ .objectField readonly :: earlier) base =
      applyAll later { scope := .callingMethod, origin := .heap, readonly } :=
  List.foldr_append

theorem applyAll_of_referenceable {crossings : List Crossing} (hbase : base.referenceable)
    (hcrossings : ∀ x ∈ crossings, x.entersHeap = false) :
    applyAll crossings base = ⟨base.scope, (crossings.findSome? origin?).getD base.origin, true,
      base.readonly || crossings.any isReadonly⟩ := by
  induction crossings with
  | nil => simp [applyAll, ← hbase]
  | cons x crossings ih =>
    have hrest := ih fun y hy ↦ hcrossings y (List.mem_cons_of_mem _ hy)
    have hstored : (applyAll crossings base).referenceable := by rw [hrest]
    have hlast := apply_of_referenceable hstored (hcrossings x List.mem_cons_self)
    have hreadonly : ((base.readonly || crossings.any isReadonly) || x.isReadonly) =
        (base.readonly || (x :: crossings).any isReadonly) := by
      rw [List.any_cons, Bool.or_assoc, Bool.or_comm x.isReadonly]
    rw [applyAll, List.foldr_cons, ← applyAll, hlast, hrest, hreadonly, List.findSome?_cons]
    cases x.origin? <;> rfl

end Crossing

/-! ## Paths -/

namespace Context

variable {c : Context} {root : VariableId} {crossings : List Crossing} {e : Expr}

/-- A path from the variable `root`, which at a ref local may go on to what that is bound to.  The
last crossing comes first; no step is a span. -/
inductive Path (c : Context) (root : VariableId) : List Crossing → Expr → Prop
  | root {id : ExprId} :
    c.types.isSpan (c.method.var root).type = false → Path c root [] (.var id root)
  | field {id : ExprId} {receiver : Expr} {name : String} {type : StructType} {f : Field}
      {crossings : List Crossing} :
    Path c root crossings receiver → c.types.struct? (c.typeOf receiver) = some type →
      type.isClass = false → type.field? name = some f → c.types.isSpan f.type = false →
        Path c root (.field (f.readonly || type.isReadonly) :: crossings) (.field id receiver name)
  | objectField {id : ExprId} {receiver : Expr} {name : String} {type : StructType} {f : Field}
      {crossings : List Crossing} :
    Path c root crossings receiver → c.types.struct? (c.typeOf receiver) = some type →
      type.isClass → type.field? name = some f → c.types.isSpan f.type = false →
        Path c root (.objectField f.readonly :: crossings) (.field id receiver name)
  | element {id : ExprId} {receiver : Expr} {index : Argument Expr} {type : ArrayType}
      {crossings : List Crossing} :
    Path c root crossings receiver → c.types.array? (c.typeOf receiver) = some type →
      c.typeOf? index.value = some TypeTable.int → c.types.isSpan type.element = false →
        Path c root (.element :: crossings) (.element id receiver [index])
  | refLocal {id : ExprId} {r : VariableId} {readonly : Bool} {init : Expr}
      {crossings : List Crossing} :
    Path c root crossings init → (c.method.var r).kind = .refLocal readonly →
      c.method.refLocalInit? r = some init → c.types.isSpan (c.method.var r).type = false →
        Path c root (.refLocal (c.method.var r).name readonly :: crossings) (.var id r)

/-- What has a type is typed by the questions that storage is asked with: a longer chain of
questions would lead back to itself. -/
theorem typeForStorage?_of_typeOf? (hc : c.method.Orderly) (he : c.method.Records e) {t : TypeId}
    (h : c.typeOf? e = some t) : c.typeForStorage? e = some t := by
  have hsome : (c.typeForStorage? e).isSome := by
    refine typed_of_answered (Nat.le_succ _) e fun asked hasks ↦ ?_
    by_contra hnone
    have hanswered : (c.freshStorage c.questions asked).isSome :=
      answered_of_typed hasks (Option.isSome_iff_exists.2 ⟨t, h⟩)
    obtain ⟨chain, hlength, hchain, hrecords⟩ := exists_chain_of_unanswered hc (Nat.le_succ _)
      (records_of_typingAsks hc hasks he) (Option.not_isSome_iff_eq_none.1 hnone)
    obtain ⟨e', he', hcircular⟩ := exists_circular hchain hrecords (by simp [hlength])
    have hpairwise : (asked :: chain).Pairwise (Relation.TransGen c.Asks) :=
      (hchain.imp fun _ _ ↦ .single).pairwise
    obtain ⟨n, hn⟩ : ∃ n, (c.freshStorage n e').isSome := by
      rcases List.mem_cons.1 he' with rfl | he'
      · exact ⟨_, hanswered⟩
      · obtain ⟨n, -, hn⟩ :=
          exists_lt_of_transGen ((List.pairwise_cons.1 hpairwise).1 e' he') hanswered
        exact ⟨n, hn⟩
    rw [hcircular.freshStorage_eq_none] at hn
    cases hn
  obtain ⟨t', ht'⟩ := Option.isSome_iff_exists.1 hsome
  rw [ht', typeWith_agree _ e t' t ht' h]

section

variable {id : ExprId} {receiver : Expr} {name : String} {t r : TypeId} {type : StructType}
  {f : Field} (htype : c.typeForStorage? (.field id receiver name) = some t)
  (hspan : c.types.isSpan t = false)
  (hr : c.typeForStorage? receiver = some r) (hstruct : c.types.struct? r = some type)
  (hfield : type.field? name = some f)
include htype hspan hr hstruct hfield

/-- A field of a plain struct is stored where the struct is. -/
theorem storageOf?_field (hclass : type.isClass = false) :
    c.storageOf? (.field id receiver name) =
      (c.storageOf? receiver).map (Crossing.field (f.readonly || type.isReadonly)).apply := by
  have hparts : c.types.spanParts? t = none := by simpa [TypeTable.isSpan] using hspan
  obtain ⟨init, hstorage⟩ := c.storageOf?_eq
  rw [hstorage, hstorage, storageWith_structField htype hparts hr hstruct hclass, hfield]
  rfl

/-- A field of an object is on the heap. -/
theorem storageOf?_objectField (hclass : type.isClass) (base : Storage) :
    c.storageOf? (.field id receiver name) =
      some ((Crossing.objectField f.readonly).apply base) := by
  have hparts : c.types.spanParts? t = none := by simpa [TypeTable.isSpan] using hspan
  obtain ⟨init, hstorage⟩ := c.storageOf?_eq
  rw [hstorage, storageWith, htype, hr]
  simp only [Option.bind_eq_bind, Option.bind_some, hparts, hstruct, hclass, if_true, hfield]
  rfl

end

theorem storageOf?_var (id id' : ExprId) (v : VariableId) :
    c.storageOf? (.var id v) = c.storageOf? (.var id' v) := by
  obtain ⟨init, hstorage⟩ := c.storageOf?_eq
  rw [hstorage, hstorage]
  rfl

namespace Path

/-- Every path has a type. -/
theorem exists_type (hpath : c.Path root crossings e) (hc : c.method.Orderly)
    (he : c.method.Records e) : ∃ t, c.typeForStorage? e = some t ∧ c.types.isSpan t = false := by
  induction hpath with
  | root hspan | refLocal _ _ _ hspan => exact ⟨_, rfl, hspan⟩
  | @field id receiver name type f _ _ hstruct _ hfield hspan ih
  | @objectField id receiver name type f _ _ hstruct _ hfield hspan ih =>
    obtain ⟨t, ht, -⟩ := ih (hc.children _ he receiver (by simp [Expr.children]))
    rw [typeOf_of_typeForStorage ht] at hstruct
    refine ⟨f.type, ?_, hspan⟩
    unfold typeForStorage? at ht ⊢
    simp [typeWith, ht, hstruct, hfield]
  | @element id receiver index type _ _ harray hindex hspan ih =>
    obtain ⟨t, ht, -⟩ := ih (hc.children _ he receiver (by simp [Expr.children]))
    have hrecords := hc.children _ he index.value (by simp [Expr.children])
    have hindex' := typeForStorage?_of_typeOf? hc hrecords hindex
    refine ⟨type.element, ?_, hspan⟩
    rw [typeForStorage?_element_eq ht hindex', accessType, get_of_typeForStorage? harray ht]
    rfl

theorem isSpan_root (hpath : c.Path root crossings e) :
    c.types.isSpan (c.method.var root).type = false := by
  induction hpath with
  | root hspan => exact hspan
  | field _ _ _ _ _ ih | objectField _ _ _ _ _ ih | element _ _ _ _ ih | refLocal _ _ _ _ ih =>
    exact ih

/-- The storage at the end of a path is that of its root behind all its crossings; the root need not
have storage where the path enters the heap. -/
theorem storageOf?_eq (hpath : c.Path root crossings e) (hc : c.method.Orderly)
    (he : c.method.Records e) (base : Storage)
    (hbase : (∀ x ∈ crossings, x.entersHeap = false) →
      ∀ id, c.storageOf? (.var id root) = some base) :
    c.storageOf? e = some (Crossing.applyAll crossings base) := by
  induction hpath with
  | @root id => exact hbase (by simp) id
  | @field id receiver name type f crossings hreceiver hstruct hclass hfield hplain ih =>
    have hrecords := hc.children _ he receiver (by simp [Expr.children])
    obtain ⟨r, hr, -⟩ := hreceiver.exists_type hc hrecords
    obtain ⟨t, ht, hspan⟩ := (hreceiver.field hstruct hclass hfield hplain).exists_type hc he
    rw [typeOf_of_typeForStorage hr] at hstruct
    rw [storageOf?_field ht hspan hr hstruct hfield hclass,
      ih hrecords fun h ↦ hbase (by simpa [Crossing.entersHeap] using h)]
    rfl
  | @objectField id receiver name type f crossings hreceiver hstruct hclass hfield hplain =>
    have hrecords := hc.children _ he receiver (by simp [Expr.children])
    obtain ⟨r, hr, -⟩ := hreceiver.exists_type hc hrecords
    obtain ⟨t, ht, hspan⟩ := (hreceiver.objectField hstruct hclass hfield hplain).exists_type hc he
    rw [typeOf_of_typeForStorage hr] at hstruct
    exact storageOf?_objectField ht hspan hr hstruct hfield hclass
      (Crossing.applyAll crossings base)
  | @element id receiver index type crossings hreceiver harray hindex hplain ih =>
    have hrecords := hc.children _ he receiver (by simp [Expr.children])
    obtain ⟨r, hr, -⟩ := hreceiver.exists_type hc hrecords
    obtain ⟨t, ht, -⟩ := (hreceiver.element harray hindex hplain).exists_type hc he
    rw [storageOf?_element ht hr, get_of_typeForStorage? harray hr,
      ih hrecords fun h ↦ hbase (by simpa [Crossing.entersHeap] using h)]
    rfl
  | @refLocal id r readonly init crossings hinit hkind hbound hspan ih =>
    have hrecords := records_of_followed hc (followed?_refLocal hspan hkind hbound)
    rw [storageOf?_refLocal hspan hkind hbound hc,
      ih hrecords fun h ↦ hbase (by simpa [Crossing.entersHeap] using h)]
    rfl

end Path

/-! ## Roots -/

/-- A variable that is passed or called on read-only. -/
def IsReadonlyRoot (c : Context) (v : Variable) : Prop :=
  (∃ kind, v.kind = .parameter kind ∧ kind.isReadonly) ∨
    v.kind = .receiver ∧ ∃ owner type, c.method.owner = some owner ∧
      c.types.struct? owner.type = some type ∧ (owner.readonly ∨ type.isReadonly)

theorem readonly_fixedStorage {v : Variable} (h : (c.fixedStorage v).referenceable) :
    (c.fixedStorage v).readonly ↔ c.IsReadonlyRoot v := by
  unfold fixedStorage at h ⊢
  unfold IsReadonlyRoot
  cases hkind : v.kind with
  | stackLocal => simp
  | refLocal => simp [hkind, Storage.temporary] at h
  | parameter kind =>
    cases kind <;> cases v.confined <;> simp [ParameterKind.isReadonly]
  | receiver =>
    simp only [hkind] at h
    cases howner : c.method.owner with
    | none => simp [howner, Storage.temporary] at h
    | some owner =>
      cases hstruct : c.types.struct? owner.type with
      | none => simp [howner, hstruct, Storage.temporary] at h
      | some type =>
        cases hclass : type.isClass with
        | true => simp [howner, hstruct, hclass, Storage.temporary] at h
        | false => simp [hstruct, hclass]

theorem storageOf?_root (id : ExprId) {v : VariableId}
    (hspan : c.types.isSpan (c.method.var v).type = false)
    (hkind : ∀ readonly, (c.method.var v).kind ≠ .refLocal readonly) :
    c.storageOf? (.var id v) = some (c.fixedStorage (c.method.var v)) := by
  have hparts : c.types.spanParts? (c.method.var v).type = none := by
    simpa [TypeTable.isSpan] using hspan
  obtain ⟨init, hstorage⟩ := c.storageOf?_eq
  rw [hstorage]
  change c.variableStorage v (c.method.var v).type _ _ = _
  rw [variableStorage]
  cases hv : (c.method.var v).kind with
  | refLocal readonly => exact absurd hv (hkind readonly)
  | _ => simp only [hparts]

end Context

/-- Where a path of a method is stored.  Unless it enters the heap, it has the scope of its root, if
that has an address, and may be written unless the root, or a field, a struct or a ref local on the
way, is read-only; if it enters the heap, only the last field of an object and what comes after it
matter.  The storage comes from the heap or from a ref local, whichever the path passes last, or else
from where that of the root does. -/
theorem Program.storage_of_path {s : Scenario} {p : Program} (hbuild : s.build = .ok p) {m : Method}
    (hm : m ∈ p.methods) (members : MemberTable) {root : VariableId} {crossings : List Crossing}
    {e : Expr} (hpath : (p.context members m).Path root crossings e) (he : m.Records e) :
    (∀ id base, (p.context members m).storageOf? (.var id root) = some base →
      ∃ storage, (p.context members m).storageOf? e = some storage ∧
        storage.origin = (crossings.findSome? (·.origin?)).getD base.origin ∧
        (base.referenceable → (∀ x ∈ crossings, x.entersHeap = false) →
          storage.scope = base.scope ∧ storage.referenceable ∧
            storage.readonly = (base.readonly || crossings.any (·.isReadonly)))) ∧
    (∀ later readonly earlier, crossings = later ++ .objectField readonly :: earlier →
      (∀ x ∈ later, x.entersHeap = false) →
        (p.context members m).storageOf? e = some
          { scope := .callingMethod, origin := (later.findSome? (·.origin?)).getD .heap
            referenceable := true, readonly := readonly || later.any (·.isReadonly) }) ∧
    ((∀ readonly, (m.var root).kind ≠ .refLocal readonly) →
      ∃ base, (∀ id, (p.context members m).storageOf? (.var id root) = some base) ∧
        (base.referenceable →
          (base.readonly ↔ (p.context members m).IsReadonlyRoot (m.var root)))) := by
  have hc : m.toBody.Orderly := (Scenario.build_orderly hbuild).1 m hm
  refine ⟨fun id base hbase ↦ ?_, fun later readonly earlier hcrossings hlater ↦ ?_, fun hkind ↦ ?_⟩
  · have hroot (id' : ExprId) : (p.context members m).storageOf? (.var id' root) = some base :=
      (Context.storageOf?_var id' id root).trans hbase
    refine ⟨_, hpath.storageOf?_eq hc he base fun _ ↦ hroot, Crossing.applyAll_origin crossings,
      fun href hcrossings ↦ ?_⟩
    rw [Crossing.applyAll_of_referenceable href hcrossings]
    exact ⟨rfl, rfl, rfl⟩
  · have hheap : ¬ ∀ x ∈ crossings, x.entersHeap = false := fun h ↦
      Bool.noConfusion (h (.objectField readonly) (by simp [hcrossings]))
    rw [hpath.storageOf?_eq hc he .temporary fun h ↦ absurd h hheap, hcrossings,
      Crossing.applyAll_objectField, Crossing.applyAll_of_referenceable rfl hlater]
  · exact ⟨_, fun id ↦ Context.storageOf?_root id hpath.isSpan_root hkind,
      Context.readonly_fixedStorage⟩

/-- Refers to cells of an array and of an object that it may not write to. -/
def refersToCells : Scenario where
  options := {}
  arrays := [⟨"Cells", "Cell", 4⟩]
  structs :=
    [⟨"Cell", .value, [⟨"value", "int", false⟩]⟩,
      ⟨"Board", .reference, [⟨"cells", "Cells", false⟩]⟩]
  methods :=
    [{ name := "Main", returns := .void, returnType := none, owner := none
       parameters := [⟨"a", .input, "Cells", false⟩, ⟨"b", .input, "Board", false⟩]
       locals := []
       body :=
        [.refLocal "r" false "Cell" (.index (.path "a") (.int 0)),
          .refLocal "q" false "Cell" (.index (.field (.path "b") "cells") (.int 1)),
          .expression (.field (.path "r") "value"), .expression (.field (.path "q") "value")] }]
  inputs := []
  expect := none

/-- The first cell of the array, that of the object at the next position, and their values. -/
def cellOfArray : Expr := .element 2 (.var 0 0) [{ value := .int 1 0 }]

def cellOfBoard : Expr := .element 6 (.field 4 (.var 3 1) "cells") [{ value := .int 5 1 }]

def valueInArray : Expr := .field 8 (.var 7 2) "value"

def valueInBoard : Expr := .field 10 (.var 9 3) "value"

def refersToCellsMethod : Method :=
  Body.finish
    { name := "Main"
      exprs := #[.var 0 0, .int 1 0, cellOfArray, .var 3 1, .field 4 (.var 3 1) "cells", .int 5 1,
        cellOfBoard, .var 7 2, valueInArray, .var 9 3, valueInBoard]
      vars := #[{ name := "a", kind := .parameter .input, type := 9 },
        { name := "b", kind := .parameter .input, type := 8 },
        { name := "r", kind := .refLocal false, type := 7 },
        { name := "q", kind := .refLocal false, type := 7 }]
      statements := [.refLocal 2 cellOfArray, .refLocal 3 cellOfBoard, .expression valueInArray,
        .expression valueInBoard] }

def refersToCellsProgram : Program where
  types :=
    ⟨[.struct ⟨"Cell", .value, [⟨"value", TypeTable.int, false⟩]⟩,
      .struct ⟨"Board", .reference, [⟨"cells", 9, false⟩]⟩, .array ⟨"Cells", 7, 4⟩,
      .span 7 false, .span 7 true]⟩
  methods := [refersToCellsMethod]

theorem build_refersToCells : refersToCells.build = .ok refersToCellsProgram := by cbv

/-- What is reached in a cell through a ref local. -/
theorem path_value {root : VariableId} {crossings : List Crossing} {id use : ExprId}
    {r : VariableId}
    (hpath : (refersToCellsProgram.context {} refersToCellsMethod).Path root crossings (.var use r))
    (htype : (refersToCellsMethod.var r).type = 7) :
    (refersToCellsProgram.context {} refersToCellsMethod).Path root (.field false :: crossings)
      (.field id (.var use r) "value") := by
  have hstruct : (refersToCellsProgram.context {} refersToCellsMethod).types.struct? 7 =
      some ⟨"Cell", .value, [⟨"value", TypeTable.int, false⟩]⟩ := rfl
  rw [← htype] at hstruct
  exact hpath.field (f := ⟨"value", TypeTable.int, false⟩) hstruct rfl rfl rfl

/-- The cell of the array may not be written, as the array; the cell of the object may. -/
theorem refersToCells_storage :
    (refersToCellsProgram.context {} refersToCellsMethod).storageOf? valueInArray =
      some ⟨.returnOnly, .refLocal "r", true, true⟩ ∧
    (refersToCellsProgram.context {} refersToCellsMethod).storageOf? valueInBoard =
      some ⟨.callingMethod, .refLocal "q", true, false⟩ := by
  have harray : (refersToCellsProgram.context {} refersToCellsMethod).Path 0
      [.field false, .refLocal "r" false, .element] valueInArray :=
    path_value (.refLocal (r := 2) (.element (.root rfl) rfl rfl rfl) rfl rfl rfl) rfl
  have hboard : (refersToCellsProgram.context {} refersToCellsMethod).Path 1
      [.field false, .refLocal "q" false, .element, .objectField false] valueInBoard :=
    path_value (.refLocal (r := 3) (.element (.objectField (f := ⟨"cells", 9, false⟩) (.root rfl)
      rfl rfl rfl rfl) rfl rfl rfl) rfl rfl rfl) rfl
  constructor
  · have hroot : (refersToCellsProgram.context {} refersToCellsMethod).storageOf? (.var 0 0) =
        some ⟨.returnOnly, .refParameter "a", true, true⟩ := Context.storageOf?_root 0 rfl nofun
    obtain ⟨⟨scope, origin, referenceable, readonly⟩, hstorage, horigin, hrest⟩ :=
      (Program.storage_of_path build_refersToCells (List.mem_singleton.2 rfl) {} harray rfl).1
        0 _ hroot
    obtain ⟨rfl, rfl, rfl⟩ := hrest rfl (by decide)
    obtain rfl := horigin
    exact hstorage
  · exact (Program.storage_of_path build_refersToCells (List.mem_singleton.2 rfl) {} hboard rfl).2.1
      [.field false, .refLocal "q" false, .element] false [] rfl (by decide)

end InlineArrays
