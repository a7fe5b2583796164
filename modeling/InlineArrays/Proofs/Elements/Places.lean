import InlineArrays.Proofs.Elements.Windows
import InlineArrays.Proofs.Resolution.Structure
import InlineArrays.Proofs.Types.Nesting

/-!
# Types and storage of places

A place in a parameter has the type its path leads to, and the storage of the parameter: that is
found without following any local.  A slice of an array at a place is a mutable span over that
storage.
-/

namespace InlineArrays

namespace Expr

/-- A constant subscript is `n` or `^n`. -/
theorem position?_eq_some {length i : Nat} {e : Expr} (h : e.position? length = some i) :
    (∃ id n, e = .int id n ∧ 0 ≤ n.toInt ∧ n.toInt < length ∧ i = n.toInt.toNat) ∨
      ∃ id id' n, e = .fromEnd id (.int id' n) ∧ 1 ≤ n.toInt ∧ n.toInt ≤ length ∧
        i = length - n.toInt.toNat := by
  unfold position? at h
  split at h
  · rename_i id n
    obtain ⟨⟨hle, hlt⟩, hi⟩ := Option.ite_none_right_eq_some.1 h
    exact .inl ⟨id, n, rfl, hle, hlt, (Option.some.inj hi).symm⟩
  · rename_i id id' n
    obtain ⟨⟨hle, hlt⟩, hi⟩ := Option.ite_none_right_eq_some.1 h
    exact .inr ⟨id, id', n, rfl, hle, hlt, (Option.some.inj hi).symm⟩
  · cases h

theorem position?_lt {length i : Nat} {e : Expr} (h : e.position? length = some i) : i < length := by
  rcases position?_eq_some h with ⟨_, n, -, _, _, rfl⟩ | ⟨_, _, n, -, _, _, rfl⟩ <;> omega

theorem boundary?_eq_some {length i : Nat} {e : Expr} (h : e.boundary? length = some i) :
    (∃ id n, e = .int id n ∧ 0 ≤ n.toInt ∧ n.toInt ≤ length ∧ i = n.toInt.toNat) ∨
      ∃ id id' n, e = .fromEnd id (.int id' n) ∧ 0 ≤ n.toInt ∧ n.toInt ≤ length ∧
        i = length - n.toInt.toNat := by
  unfold boundary? at h
  split at h
  · rename_i id n
    obtain ⟨⟨hle, hlt⟩, hi⟩ := Option.ite_none_right_eq_some.1 h
    exact .inl ⟨id, n, rfl, hle, hlt, (Option.some.inj hi).symm⟩
  · rename_i id id' n
    obtain ⟨⟨hle, hlt⟩, hi⟩ := Option.ite_none_right_eq_some.1 h
    exact .inr ⟨id, id', n, rfl, hle, hlt, (Option.some.inj hi).symm⟩
  · cases h

theorem boundary?_le {length i : Nat} {e : Expr} (h : e.boundary? length = some i) :
    i ≤ length := by
  rcases boundary?_eq_some h with ⟨_, n, -, _, _, rfl⟩ | ⟨_, _, n, -, _, _, rfl⟩ <;> omega

theorem extent?_eq_some {length first count : Nat} {e : Expr}
    (h : e.extent? length = some (first, count)) :
    ∃ id start stop last, e = .range id start stop ∧
      start.elim (some 0) (·.boundary? length) = some first ∧
      stop.elim (some length) (·.boundary? length) = some last ∧ first ≤ last ∧ last ≤ length ∧
      count = last - first := by
  unfold extent? at h
  split at h
  · rename_i id start stop
    obtain ⟨first', hfirst, h⟩ := Option.bind_eq_some_iff.1 h
    obtain ⟨last, hlast, h⟩ := Option.bind_eq_some_iff.1 h
    obtain ⟨hle, h⟩ := Option.ite_none_right_eq_some.1 h
    obtain ⟨rfl, rfl⟩ := Prod.mk.inj (Option.some.inj h)
    refine ⟨id, start, stop, last, rfl, hfirst, hlast, hle, ?_, rfl⟩
    cases stop with
    | none => exact Nat.le_of_eq (Option.some.inj hlast).symm
    | some bound => exact boundary?_le hlast
  · cases h

end Expr

namespace Storage

theorem readonlyIf_false (s : Storage) : s.readonlyIf false = s := by
  simp [readonlyIf]

/-- Elements of an array that has an address and may be written are stored like the array. -/
theorem projected_eq_self {s : Storage} (href : s.referenceable = true)
    (hreadonly : s.readonly = false) : s.projected = s := by
  have hprojects : s.projectsReadonly = s.readonly := by simp [projectsReadonly, href, hreadonly]
  rw [projected, hprojects]

end Storage

namespace Context

variable {c : Context} {x : VariableId} {e : Expr} {path : List Step} {t : TypeId}

/-- The place in the parameter `x` that an expression names, by its form. -/
inductive Place (c : Context) (x : VariableId) : Expr → List Step → TypeId → Prop
  | var {id : ExprId} : Place c x (.var id x) [] (c.method.var x).type
  | field {id : ExprId} {receiver : Expr} {name : String} {path : List Step} {t : TypeId}
    {struct : StructType} {field : Field} :
    Place c x receiver path t → c.types.struct? t = some struct → struct.kind = .value →
      struct.field? name = some field → field.readonly = false →
      Place c x (.field id receiver name) (path ++ [.field name]) field.type
  | element {id : ExprId} {receiver position : Expr} {path : List Step} {t : TypeId}
    {array : ArrayType} {i : Nat} :
    Place c x receiver path t → c.types.array? t = some array →
      position.position? array.length = some i →
      Place c x (.element id receiver [⟨position, none, .none⟩]) (path ++ [.element i]) array.element

theorem place_of_placeIn? : (e : Expr) → {path : List Step} → {t : TypeId} →
    c.placeIn? x e = some (path, t) → c.Place x e path t
  | .var id v, path, t, h => by
    unfold placeIn? at h
    obtain ⟨rfl, h⟩ := Option.ite_none_right_eq_some.1 h
    obtain ⟨rfl, rfl⟩ := Prod.mk.inj (Option.some.inj h)
    exact .var
  | .field id receiver name, path, t, h => by
    unfold placeIn? at h
    obtain ⟨⟨path', t'⟩, hreceiver, h⟩ := Option.bind_eq_some_iff.1 h
    obtain ⟨struct, hstruct, h⟩ := Option.bind_eq_some_iff.1 h
    obtain ⟨field, hfield, h⟩ := Option.bind_eq_some_iff.1 h
    obtain ⟨⟨hkind, hreadonly⟩, h⟩ := Option.ite_none_right_eq_some.1 h
    obtain ⟨rfl, rfl⟩ := Prod.mk.inj (Option.some.inj h)
    exact .field (place_of_placeIn? receiver hreceiver) hstruct hkind hfield hreadonly
  | .element id receiver args, path, t, h => by
    unfold placeIn? at h
    split at h
    · rename_i heq
      cases heq
    · rename_i heq
      cases heq
    · rename_i heq
      cases heq
      obtain ⟨⟨path', t'⟩, hreceiver, h⟩ := Option.bind_eq_some_iff.1 h
      obtain ⟨array, harray, h⟩ := Option.bind_eq_some_iff.1 h
      obtain ⟨i, hi, h⟩ := Option.bind_eq_some_iff.1 h
      obtain ⟨rfl, rfl⟩ := Prod.mk.inj (Option.some.inj h)
      exact .element (place_of_placeIn? receiver hreceiver) harray hi
    · cases h
  | .call .., _, _, h | .int .., _, _, h | .bool .., _, _, h | .string .., _, _, h
  | .fromEnd .., _, _, h | .range .., _, _, h | .default .., _, _, h | .span .., _, _, h
  | .conditional .., _, _, h | .placeholder .., _, _, h => by
    unfold placeIn? at h
    cases h

/-- Constant subscripts have types of their own. -/
theorem typeWith_position {f : Expr → Option Storage} {length i : Nat} {position : Expr}
    (h : position.position? length = some i) :
    ∃ type, c.typeWith f position = some type ∧ (type == TypeTable.range) = false := by
  rcases Expr.position?_eq_some h with ⟨id, n, rfl, -⟩ | ⟨id, id', n, rfl, -⟩
  · exact ⟨TypeTable.int, rfl, rfl⟩
  · exact ⟨TypeTable.index, rfl, rfl⟩

/-- The type of a place does not depend on storage. -/
theorem Place.typeWith (h : c.Place x e path t) (f : Expr → Option Storage) :
    c.typeWith f e = some t := by
  induction h with
  | var => rfl
  | field _ hstruct _ hfield _ ih =>
    unfold Context.typeWith
    simp [ih, hstruct, hfield]
  | element _ harray hposition ih =>
    obtain ⟨type, htype, hrange⟩ := typeWith_position (c := c) (f := f) hposition
    unfold Context.typeWith
    have hget := TypeTable.get_of_array? harray
    simp [ih, htype, hrange, accessType, hget]

/-- A parameter that is a plain struct passed by reference. -/
structure IsStructByRef (c : Context) (x : VariableId) : Prop where
  kind_eq : (c.method.var x).kind = .parameter .ref
  plain : ∃ struct, c.types.struct? (c.method.var x).type = some struct ∧ struct.kind = .value

/-- The storage of a parameter. -/
def storageIn (c : Context) (x : VariableId) : Storage := c.fixedStorage (c.method.var x)

theorem IsStructByRef.referenceable (hx : c.IsStructByRef x) :
    (c.storageIn x).referenceable = true ∧ (c.storageIn x).readonly = false := by
  unfold storageIn fixedStorage
  rw [hx.kind_eq]
  dsimp only
  split <;> exact ⟨rfl, rfl⟩

theorem IsStructByRef.spanParts? (hx : c.IsStructByRef x) :
    c.types.spanParts? (c.method.var x).type = none := by
  obtain ⟨struct, hstruct, -⟩ := hx.plain
  rw [TypeTable.spanParts?, TypeTable.get_of_struct? hstruct]

/-- A place has the storage of the parameter, whatever becomes of locals. -/
theorem Place.storageWith (hx : c.IsStructByRef x) {type : Expr → Option TypeId}
    (htype : ∀ {e path t}, c.Place x e path t → type e = some t)
    (init : List VariableId → Expr → Option Storage) (active : List VariableId)
    (h : c.Place x e path t) (hspan : c.types.spanParts? t = none) :
    c.storageWith type init active e = some (c.storageIn x) := by
  obtain ⟨href, hreadonly⟩ := hx.referenceable
  induction h with
  | @var id =>
    have hvar : type (.var id x) = some (c.method.var x).type := htype .var
    unfold Context.storageWith
    simp [hvar, variableStorage, hx.spanParts?, hx.kind_eq, storageIn]
  | @field id receiver name path t struct field hreceiver hstruct hkind hfield hfixed ih =>
    have hinner := ih (by rw [TypeTable.spanParts?, TypeTable.get_of_struct? hstruct])
    have hwritable : (field.readonly || struct.isReadonly) = false := by
      rw [StructType.isReadonly, hkind, hfixed]
      rfl
    have hself : type (.field id receiver name) = some field.type :=
      htype (.field hreceiver hstruct hkind hfield hfixed)
    unfold Context.storageWith
    simp [hself, htype hreceiver, hspan,
      hstruct, StructType.isClass, hkind, hfield, hwritable, hinner, Storage.readonlyIf_false]
  | @element id receiver position path t array i hreceiver harray hposition ih =>
    have hget := TypeTable.get_of_array? harray
    have hinner := ih (by rw [TypeTable.spanParts?, hget])
    have hself : type (.element id receiver [⟨position, none, .none⟩]) = some array.element :=
      htype (.element hreceiver harray hposition)
    unfold Context.storageWith
    simp [hself, htype hreceiver, hget, hinner,
      Storage.projected_eq_self href hreadonly]

theorem Place.followLocals (hx : c.IsStructByRef x) {type : Expr → Option TypeId}
    (htype : ∀ {e path t}, c.Place x e path t → type e = some t) (jumps : Nat)
    (active : List VariableId) (h : c.Place x e path t) (hspan : c.types.spanParts? t = none) :
    c.followLocals type jumps active e = some (c.storageIn x) := by
  obtain ⟨init, hfollow⟩ := c.followLocals_eq type jumps
  rw [hfollow]
  exact h.storageWith hx htype init active hspan

theorem Place.freshStorage (hx : c.IsStructByRef x) (questions : Nat) (h : c.Place x e path t)
    (hspan : c.types.spanParts? t = none) :
    c.freshStorage (questions + 1) e = some (c.storageIn x) :=
  h.followLocals hx (fun h ↦ h.typeWith _) _ [] hspan

theorem Place.typeOf (h : c.Place x e path t) : c.typeOf e = t := by
  rw [Context.typeOf, typeOf?, h.typeWith, Option.getD_some]

theorem Place.storageOf (hx : c.IsStructByRef x) (h : c.Place x e path t)
    (hspan : c.types.spanParts? t = none) : c.storageOf e = c.storageIn x := by
  rw [Context.storageOf, storageOf?, questions, h.freshStorage hx _ hspan, Option.getD_some]

end Context

end InlineArrays
