import InlineArrays.Proofs.Access
import InlineArrays.Proofs.Elements.Places

/-!
# Locals over places

A ref local bound to an array at a place, and a local that holds slices of such arrays, have the
scope of the parameter and may be written through.  Every access to a constant element of one, or of
an array at a place, binds.
-/

namespace InlineArrays

namespace Expr

/-- A constant subscript of an access. -/
def constantSubscript : Expr → Subscript Expr
  | .fromEnd _ count => .fromEnd count
  | e => .int e

theorem isSlice_constantSubscript (position : Expr) : position.constantSubscript.isSlice = false := by
  unfold constantSubscript
  split <;> rfl

/-- A constant bound of a range. -/
def constantBound : Option Expr → Bound Expr
  | none => .omitted
  | some (.fromEnd _ count) => .fromEnd count
  | some e => .int e

end Expr

namespace Context

variable {c : Context} {x : VariableId} {e receiver : Expr} {w : Window}

theorem whole?_eq_some (h : c.whole? x e = some w) :
    ∃ t array, c.Place x e w.path t ∧ c.types.array? t = some array ∧
      array.element = TypeTable.int ∧ w.start = 0 ∧ w.length = array.length := by
  obtain ⟨⟨path, t⟩, hplace, h⟩ := Option.bind_eq_some_iff.1 h
  obtain ⟨array, harray, h⟩ := Option.bind_eq_some_iff.1 h
  obtain ⟨helement, h⟩ := Option.ite_none_right_eq_some.1 h
  cases h
  exact ⟨t, array, place_of_placeIn? e hplace, harray, helement, rfl, rfl⟩

theorem slice?_eq_some (h : c.slice? x e = some w) :
    ∃ id receiver range whole, e = .element id receiver [⟨range, none, .none⟩] ∧
      c.whole? x receiver = some whole ∧ range.extent? whole.length = some (w.start, w.length) ∧
      w.path = whole.path := by
  unfold slice? at h
  split at h
  · obtain ⟨whole, hwhole, h⟩ := Option.bind_eq_some_iff.1 h
    obtain ⟨⟨start, length⟩, hextent, h⟩ := Option.bind_eq_some_iff.1 h
    cases h
    exact ⟨_, _, _, whole, rfl, hwhole, hextent, rfl⟩
  · cases h

/-- An expression that stands for a window, whatever the body has done: an array at a place, a
mutable ref local bound to one, or a local that is given slices of such arrays. -/
inductive Gives (c : Context) (x : VariableId) : Expr → Window → Prop
  | whole {e : Expr} {w : Window} : c.whole? x e = some w → Gives c x e w
  | refLocal {id : ExprId} {v : VariableId} {init : Expr} {path : List Step} {w : Window} :
    (c.method.var v).kind = .refLocal false → c.method.refLocalInit? v = some init →
      c.Place x init path (c.method.var v).type → c.whole? x init = some w →
      Gives c x (.var id v) w
  | slices {id : ExprId} {v : VariableId} {value : Expr} {first w : Window} :
    (c.method.var v).kind = .stackLocal →
      c.types.get (c.method.var v).type = .span TypeTable.int false →
      c.method.firstAssignment? v = some value → c.slice? x value = some first →
      Gives c x (.var id v) w

/-- What the analysis of a method has to go on. -/
structure Analysed (c : Context) (x : VariableId) : Prop where
  wellFormed : c.types.WellFormed
  parameter : c.IsStructByRef x
  variable_lt : x < c.method.vars.size
  exprs_pos : 0 < c.method.exprs.size
  provides : ∀ member, c.members.provides member

section

variable (hc : c.Analysed x)
include hc

/-! ## Slices -/

/-- A slice of a place is a mutable span over integers. -/
theorem Analysed.typeWith_slice (h : c.slice? x e = some w) {n : Nat} (hn : 0 < n) :
    ∃ span, c.typeWith (c.freshStorage n) e = some span ∧
      c.types.get span = .span TypeTable.int false := by
  obtain ⟨id, receiver, range, whole, rfl, hwhole, hextent, -⟩ := slice?_eq_some h
  obtain ⟨t, array, hplace, harray, helement, -, -⟩ := whole?_eq_some hwhole
  obtain ⟨rid, start, stop, last, rfl, -⟩ := Expr.extent?_eq_some hextent
  obtain ⟨span, hspan, hget⟩ := hc.wellFormed.findSpan_array harray false
  obtain ⟨href, hreadonly⟩ := hc.parameter.referenceable
  obtain ⟨questions, rfl⟩ := Nat.exists_eq_succ_of_ne_zero (Nat.ne_of_gt hn)
  have harrayGet := TypeTable.get_of_array? harray
  have hstorage := hplace.freshStorage hc.parameter questions
    (by rw [TypeTable.spanParts?, harrayGet])
  refine ⟨span, ?_, helement ▸ hget⟩
  unfold typeWith
  simp [hplace.typeWith, typeWith, accessType, harrayGet, hstorage, findSpan,
    Storage.projectsReadonly, href, hreadonly, hspan]

theorem Analysed.followLocals_slice (h : c.slice? x e = some w) {n : Nat} (hn : 0 < n) (jumps : Nat)
    (active : List VariableId) :
    c.followLocals (c.typeWith (c.freshStorage n)) jumps active e = some (c.storageIn x) := by
  obtain ⟨span, htype, -⟩ := hc.typeWith_slice h hn
  obtain ⟨id, receiver, range, whole, rfl, hwhole, hextent, -⟩ := slice?_eq_some h
  obtain ⟨t, array, hplace, harray, helement, -, -⟩ := whole?_eq_some hwhole
  obtain ⟨href, hreadonly⟩ := hc.parameter.referenceable
  have hget := TypeTable.get_of_array? harray
  have hstorage (init : List VariableId → Expr → Option Storage) :=
    hplace.storageWith hc.parameter (fun h ↦ h.typeWith (c.freshStorage n)) init active
      (by rw [TypeTable.spanParts?, hget])
  obtain ⟨init, hfollow⟩ := c.followLocals_eq (c.typeWith (c.freshStorage n)) jumps
  rw [hfollow]
  unfold storageWith
  simp [htype, hplace.typeWith, hget, hstorage, Storage.projected_eq_self href hreadonly]

theorem Analysed.storageOf_slice (h : c.slice? x e = some w) : c.storageOf e = c.storageIn x :=
  congrArg (·.getD .temporary) (hc.followLocals_slice h hc.exprs_pos c.method.vars.size [])

/-! ## Locals -/

/-- The storage of a variable is that of what it was first given, if it was given anything. -/
theorem Analysed.storageOf_var (id : ExprId) (v : VariableId) : ∃ jumps,
    c.storageOf (.var id v) = (c.variableStorage v (c.method.var v).type false
      (c.followLocals c.typeForStorage? jumps [v])).getD .temporary := by
  obtain ⟨jumps, hjumps⟩ := Nat.exists_eq_succ_of_ne_zero
    (Nat.ne_of_gt (Nat.zero_lt_of_lt hc.variable_lt))
  refine ⟨jumps, ?_⟩
  rw [storageOf, storageOf?, questions, freshStorage, hjumps]
  rfl

/-- What stands for a window has an address, may be written and lasts as long as the parameter. -/
theorem Analysed.storage_of_gives (h : c.Gives x e w) :
    (c.storageOf e).scope = (c.storageIn x).scope ∧ (c.storageOf e).referenceable = true ∧
      (c.storageOf e).readonly = false := by
  obtain ⟨href, hreadonly⟩ := hc.parameter.referenceable
  cases h with
  | whole hwhole =>
    obtain ⟨t, array, hplace, harray, -⟩ := whole?_eq_some hwhole
    have hstorage := hplace.storageOf hc.parameter
      (by rw [TypeTable.spanParts?, TypeTable.get_of_array? harray])
    rw [hstorage]
    exact ⟨rfl, href, hreadonly⟩
  | @refLocal id v init path w hkind hinit hplace hwhole =>
    obtain ⟨t, array, hplace', harray, -⟩ := whole?_eq_some hwhole
    obtain ⟨jumps, hstorage⟩ := hc.storageOf_var id v
    have hspan : c.types.spanParts? (c.method.var v).type = none := by
      rw [← hplace.typeOf, hplace'.typeOf, TypeTable.spanParts?, TypeTable.get_of_array? harray]
    have hfollow := hplace.followLocals hc.parameter
      (fun h ↦ h.typeWith (c.freshStorage c.method.exprs.size)) jumps [v] hspan
    have hvariable : c.variableStorage v (c.method.var v).type false
        (c.followLocals c.typeForStorage? jumps [v]) =
        some (refLocalStorage (c.method.var v).name false (some (c.storageIn x))) := by
      unfold variableStorage
      simp [hspan, hkind, hinit, typeForStorage?, hfollow]
    rw [hstorage, hvariable]
    simp [refLocalStorage, href, hreadonly]
  | @slices id v value first w hkind htype hfirst hslice =>
    obtain ⟨jumps, hstorage⟩ := hc.storageOf_var id v
    have hspan : c.types.spanParts? (c.method.var v).type = some (TypeTable.int, false) := by
      rw [TypeTable.spanParts?, htype]
    have hfollow := hc.followLocals_slice hslice hc.exprs_pos jumps [v]
    have hvariable : c.variableStorage v (c.method.var v).type false
        (c.followLocals c.typeForStorage? jumps [v]) =
        some { scope := (c.storageIn x).scope, origin := .spanLocal (c.method.var v).name } := by
      unfold variableStorage
      simp [hspan, hkind, hfirst, typeForStorage?, hfollow]
    rw [hstorage, hvariable]
    exact ⟨rfl, rfl, rfl⟩

/-! ## Accesses -/

theorem Analysed.missing_eq_nil (a : Access) : c.missing a = [] := by
  rw [missing, List.filter_eq_nil_iff.2 (fun m _ ↦ by simp [hc.provides m])]
  rfl

omit hc in
/-- An array that has an address and may be written is indexed through a mutable span. -/
theorem indexed_array {array : ArrayType} (harray : c.types.array? (c.typeOf e) = some array)
    (href : (c.storageOf e).referenceable = true) (hreadonly : (c.storageOf e).readonly = false) :
    c.indexed e = .ok (.array
      ⟨c.typeOf e, array.element, array.length, .mutable, c.storageOf e⟩) := by
  have hget := TypeTable.get_of_array? harray
  unfold indexed project?
  simp [hget, harray, Storage.projectsReadonly, href, hreadonly, SpanKind.ofReadonly]

omit hc in
/-- A constant subscript is bound as it is written. -/
theorem subscript_position {length i : Nat} {position : Expr}
    (h : position.position? length = some i) :
    c.subscript position = .ok position.constantSubscript ∧
      outOfBounds? length position.constantSubscript = none := by
  rcases Expr.position?_eq_some h with ⟨id, n, rfl, hle, hlt, -⟩ | ⟨id, id', n, rfl, hle, hlt, -⟩
  · have htype : c.types.get (c.typeOf (.int id n)) = .int := rfl
    unfold subscript outOfBounds? Expr.constantSubscript
    simp [htype, hle, hlt]
  · have htype : c.types.get (c.typeOf (.int id' n)) = .int := rfl
    unfold subscript outOfBounds? Expr.constantSubscript requireInt
    simp [htype, hle, hlt, Except.map]

/-- An access to a constant element within a known length binds. -/
theorem Analysed.bind_position (id : ExprId) {position : Expr} {indexed : Indexed} {length i : Nat}
    (hindexed : c.indexed receiver = .ok indexed) (hlength : ∀ n ∈ indexed.length?, n = length)
    (h : position.position? length = some i) :
    c.bind (.element id receiver [⟨position, none, .none⟩]) =
      .ok ⟨.element id receiver [⟨position, none, .none⟩], receiver, indexed,
        position.constantSubscript, indexed.element⟩ := by
  obtain ⟨hsubscript, hinside⟩ := subscript_position (c := c) h
  have hslice := position.isSlice_constantSubscript
  have hinside : (indexed.length?.bind fun n ↦ (outOfBounds? n position.constantSubscript).map
      fun written ↦ (⟨.indexOutOfBounds written n,
        c.method.span (.element id receiver [⟨position, none, .none⟩])⟩ : Diagnostic)) = none := by
    cases hknown : indexed.length? with
    | none => rfl
    | some n => simp [hlength n hknown, hinside]
  unfold bind bindOne
  simp only [hindexed, hsubscript, hinside, formErrors, hc.missing_eq_nil, hslice]
  rfl

omit hc in
/-- A constant bound is bound as it is written. -/
theorem bound_boundary {length i : Nat} {bound : Option Expr} {otherwise : Nat}
    (h : bound.elim (some otherwise) (·.boundary? length) = some i) :
    c.bound bound = .ok (Expr.constantBound bound) := by
  cases bound with
  | none => rfl
  | some bound =>
    rcases Expr.boundary?_eq_some h with ⟨id, n, rfl, -⟩ | ⟨id, id', n, rfl, -⟩
    · rfl
    · have htype : c.types.get (c.typeOf (.int id' n)) = .int := rfl
      unfold Context.bound requireInt
      simp [htype, Except.map, Expr.constantBound]

/-- A constant slice binds. -/
theorem Analysed.bind_extent (id : ExprId) {rid : ExprId} {start stop : Option Expr} {indexed : Indexed}
    {length first count : Nat} (hindexed : c.indexed receiver = .ok indexed)
    (h : (Expr.range rid start stop).extent? length = some (first, count)) :
    c.bind (.element id receiver [⟨.range rid start stop, none, .none⟩]) =
      .ok ⟨.element id receiver [⟨.range rid start stop, none, .none⟩], receiver, indexed,
        .rangeLiteral (Expr.constantBound start) (Expr.constantBound stop),
        c.findSpan indexed.element indexed.kind.isReadonly⟩ := by
  obtain ⟨_, _, _, last, heq, hstart, hstop, -⟩ := Expr.extent?_eq_some h
  cases heq
  have hsubscript : c.subscript (.range rid start stop) =
      .ok (.rangeLiteral (Expr.constantBound start) (Expr.constantBound stop)) := by
    unfold subscript
    dsimp only
    rw [bound_boundary hstart, bound_boundary hstop]
    rfl
  have hinside : (indexed.length?.bind fun n ↦ (outOfBounds? n
      (.rangeLiteral (Expr.constantBound start) (Expr.constantBound stop))).map fun written ↦
        (⟨.indexOutOfBounds written n, c.method.span
          (.element id receiver [⟨.range rid start stop, none, .none⟩])⟩ : Diagnostic)) = none := by
    cases indexed.length? <;> rfl
  unfold bind bindOne
  simp only [hindexed, hsubscript, hinside, formErrors, hc.missing_eq_nil]
  rfl

/-- What stands for a window is indexed as an array of as many integers or, if it is a local that
holds slices, as a mutable span. -/
theorem Analysed.indexed_of_gives (h : c.Gives x e w) :
    (w.start = 0 ∧ ∃ t, c.indexed e =
      .ok (.array ⟨t, TypeTable.int, w.length, .mutable, c.storageOf e⟩)) ∨
    ∃ id v storage, e = .var id v ∧ (c.method.var v).kind = .stackLocal ∧
      c.indexed e = .ok (.span .mutable TypeTable.int storage) := by
  obtain ⟨-, href, hreadonly⟩ := hc.storage_of_gives h
  have harray {t : TypeId} {array : ArrayType} (htype : c.typeOf e = t)
      (harray : c.types.array? t = some array) := indexed_array (htype ▸ harray) href hreadonly
  cases h with
  | whole hwhole =>
    obtain ⟨t, array, hplace, hget, helement, hstart, hlength⟩ := whole?_eq_some hwhole
    exact .inl ⟨hstart, _, by rw [harray hplace.typeOf hget, helement, hlength]⟩
  | @refLocal id v init path w hkind hinit hplace hwhole =>
    obtain ⟨t, array, hplace', hget, helement, hstart, hlength⟩ := whole?_eq_some hwhole
    have htype : c.typeOf (.var id v) = t := by rw [← hplace'.typeOf, hplace.typeOf]; rfl
    exact .inl ⟨hstart, _, by rw [harray htype hget, helement, hlength]⟩
  | @slices id v value first w hkind htype hfirst hslice =>
    have hget : c.types.get (c.typeOf (.var id v)) = .span TypeTable.int false := htype
    refine .inr ⟨id, v, c.storageOf (.var id v), rfl, hkind, ?_⟩
    unfold indexed
    rw [hget]
    rfl

end

end Context

end InlineArrays
