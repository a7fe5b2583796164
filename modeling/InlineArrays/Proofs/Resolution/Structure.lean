import InlineArrays.Proofs.Resolution.Fuel

/-!
# Storage by structure

The storage of an expression in terms of its type and of the storage of its parts.
-/

namespace InlineArrays

namespace Storage

/-- The storage has an address, unless it is that of a temporary value. -/
def Placed (s : Storage) : Prop :=
  s.referenceable = false → s.scope = .block ∧ s.origin = .temporary

theorem placed_temporary : Placed .temporary := fun _ ↦ ⟨rfl, rfl⟩

theorem placed_of_referenceable {s : Storage} (h : s.referenceable = true) : s.Placed := by
  intro hnot
  rw [h] at hnot
  cases hnot

end Storage

namespace Context

variable {c : Context}

/-- The types that the storage of an expression is resolved with. -/
def typeForStorage? (c : Context) : Expr → Option TypeId :=
  c.typeWith (c.freshStorage c.method.exprs.size)

theorem typeOf_of_typeForStorage {e : Expr} {t : TypeId} (h : c.typeForStorage? e = some t) :
    c.typeOf e = t := by
  rw [typeOf, typeWith_freshStorage_le e t h, Option.getD_some]

/-- The type of a field, which is the error type if there is no such field. -/
theorem typeOf_field (c : Context) (id : ExprId) (r : Expr) (name : String) :
    c.typeOf (.field id r name) =
      (((c.types.struct? (c.typeOf r)).bind (·.field? name)).map (·.type)).getD TypeTable.error := by
  have htype : c.typeOf? (.field id r name) = (c.typeOf? r).bind fun t ↦
      some ((((c.types.struct? t).bind (·.field? name)).map (·.type)).getD TypeTable.error) := rfl
  rw [typeOf, htype, typeOf]
  cases c.typeOf? r with
  | some t => rfl
  | none => rfl

/-- Following locals is to have one way to answer for their values. -/
theorem followLocals_eq (c : Context) (type : Expr → Option TypeId) (jumps : Nat) :
    ∃ init : List VariableId → Expr → Option Storage, ∀ active e,
      c.followLocals type jumps active e = c.storageWith type init active e := by
  cases jumps with
  | zero => exact ⟨fun _ _ ↦ none, fun _ _ ↦ rfl⟩
  | succ jumps => exact ⟨_, fun _ _ ↦ rfl⟩

/-- Storage is resolved with one way to answer for the values of locals. -/
theorem storageOf?_eq (c : Context) : ∃ init : List VariableId → Expr → Option Storage,
    ∀ e, c.storageOf? e = c.storageWith c.typeForStorage? init [] e := by
  obtain ⟨init, hfollow⟩ := c.followLocals_eq c.typeForStorage? c.method.vars.size
  exact ⟨init, hfollow []⟩

/-- What has an address according to its storage. -/
def IsStored (c : Context) (e : Expr) : Prop := (c.storageOf e).referenceable

instance (e : Expr) : Decidable (c.IsStored e) := inferInstanceAs (Decidable (_ = true))

theorem IsStored.exists {e : Expr} (h : c.IsStored e) :
    ∃ s, c.storageOf? e = some s ∧ s.referenceable := by
  unfold IsStored storageOf at h
  cases hs : c.storageOf? e with
  | none =>
    rw [hs] at h
    cases h
  | some s =>
    rw [hs] at h
    exact ⟨s, rfl, h⟩

/-- A call that yields a value is stored nowhere, unless the value is a span. -/
theorem IsStored.call {id : ExprId} {callee : String} {returns : ReturnKind} {t : TypeId}
    (h : c.IsStored (.call id callee returns t)) : returns.isByRef ∨ c.types.isSpan t := by
  obtain ⟨s, hs, href⟩ := h.exists
  obtain ⟨init, hstorage⟩ := c.storageOf?_eq
  rw [hstorage] at hs
  unfold storageWith at hs
  obtain ⟨t', ht, hs⟩ := Option.bind_eq_some_iff.1 hs
  cases ht
  cases hspan : c.types.spanParts? t with
  | some parts => exact .inr (by simp [TypeTable.isSpan, hspan])
  | none =>
    simp only [hspan] at hs
    cases returns with
    | ref | refReadonly => exact .inl rfl
    | void | value =>
      cases hs
      cases href

theorem IsStored.default {id : ExprId} {t : TypeId} (h : c.IsStored (.default id t)) :
    c.types.isSpan t := by
  obtain ⟨s, hs, href⟩ := h.exists
  obtain ⟨init, hstorage⟩ := c.storageOf?_eq
  rw [hstorage] at hs
  unfold storageWith at hs
  obtain ⟨t', ht, hs⟩ := Option.bind_eq_some_iff.1 hs
  cases ht
  cases hspan : c.types.spanParts? t with
  | some parts => simp [TypeTable.isSpan, hspan]
  | none =>
    simp only [hspan] at hs
    cases hs
    cases href

theorem IsStored.span {id : ExprId} {operand : Expr} {readonly : Bool}
    (h : c.IsStored (.span id operand readonly)) :
    c.types.isSpan (c.typeOf (.span id operand readonly)) := by
  obtain ⟨s, hs, href⟩ := h.exists
  obtain ⟨init, hstorage⟩ := c.storageOf?_eq
  rw [hstorage] at hs
  obtain ⟨t, ht, hs⟩ := Option.bind_eq_some_iff.1 hs
  rw [typeOf_of_typeForStorage ht]
  by_cases hspan : c.types.isSpan t
  · exact hspan
  · rw [if_neg hspan] at hs
    cases hs
    cases href

/-- Literals, offsets, ranges and conditional accesses are values. -/
theorem not_isStored {e : Expr}
    (h : ∀ init type, c.storageWith type init [] e = (type e).bind fun _ ↦ some .temporary) :
    ¬ c.IsStored e := by
  intro hstored
  obtain ⟨s, hs, href⟩ := hstored.exists
  obtain ⟨init, hstorage⟩ := c.storageOf?_eq
  rw [hstorage, h] at hs
  obtain ⟨t, -, hs⟩ := Option.bind_eq_some_iff.1 hs
  cases hs
  cases href

/-! ## Storage without an address -/

theorem placed_fixedStorage (v : Variable) : (c.fixedStorage v).Placed := by
  unfold fixedStorage
  repeat' split
  all_goals first | exact Storage.placed_of_referenceable rfl | exact Storage.placed_temporary

theorem placed_refLocalStorage (name : String) (readonly : Bool) (target : Option Storage) :
    (refLocalStorage name readonly target).Placed := by
  unfold refLocalStorage
  repeat' split
  all_goals exact Storage.placed_of_referenceable rfl

theorem placed_variableStorage {target : VariableId} {type : TypeId} {cut : Bool}
    {init : Expr → Option Storage} {s : Storage}
    (h : c.variableStorage target type cut init = some s) : s.Placed := by
  unfold variableStorage at h
  dsimp only at h
  split at h
  · split at h
    · cases h
      exact placed_refLocalStorage _ _ _
    · obtain ⟨_, -, rfl⟩ := Option.map_eq_some_iff.1 h
      exact placed_refLocalStorage _ _ _
  · cases h
    exact placed_fixedStorage _
  · split at h
    · cases h
      exact Storage.placed_of_referenceable rfl
    · split at h
      · cases h
        exact Storage.placed_of_referenceable rfl
      · obtain ⟨_, -, rfl⟩ := Option.map_eq_some_iff.1 h
        exact Storage.placed_of_referenceable rfl
  · cases h
    split <;> exact Storage.placed_of_referenceable rfl
  · cases h
    exact Storage.placed_of_referenceable rfl

theorem placed_storageWith (type : Expr → Option TypeId)
    (init : List VariableId → Expr → Option Storage) (active : List VariableId) :
    (e : Expr) → (s : Storage) → c.storageWith type init active e = some s → s.Placed
  | .var .., s, h => by
    obtain ⟨t, -, h⟩ := Option.bind_eq_some_iff.1 h
    exact placed_variableStorage h
  | .field id receiver name, s, h => by
    obtain ⟨t, -, h⟩ := Option.bind_eq_some_iff.1 h
    split at h
    · cases h
      exact Storage.placed_of_referenceable rfl
    · obtain ⟨r, -, h⟩ := Option.bind_eq_some_iff.1 h
      split at h
      · cases h
        exact Storage.placed_temporary
      · dsimp only at h
        split at h
        · cases h
          exact Storage.placed_of_referenceable rfl
        · obtain ⟨s', hs', h⟩ := Option.bind_eq_some_iff.1 h
          cases h
          exact placed_storageWith type init active receiver s' hs'
  | .call .., s, h => by
    obtain ⟨t, -, h⟩ := Option.bind_eq_some_iff.1 h
    split at h <;> cases h <;>
      first | exact Storage.placed_of_referenceable rfl | exact Storage.placed_temporary
  | .default .., s, h => by
    obtain ⟨t, -, h⟩ := Option.bind_eq_some_iff.1 h
    split at h <;> cases h <;>
      first | exact Storage.placed_of_referenceable rfl | exact Storage.placed_temporary
  | .element id receiver args, s, h => by
    obtain ⟨t, -, h⟩ := Option.bind_eq_some_iff.1 h
    obtain ⟨r, -, h⟩ := Option.bind_eq_some_iff.1 h
    split at h
    · obtain ⟨s', hs', h⟩ := Option.bind_eq_some_iff.1 h
      cases h
      exact placed_storageWith type init active receiver s' hs'
    · obtain ⟨s', hs', h⟩ := Option.bind_eq_some_iff.1 h
      cases h
      split
      · exact placed_storageWith type init active receiver s' hs'
      · exact Storage.placed_of_referenceable rfl
    · cases h
      exact Storage.placed_temporary
  | .span id operand readonly, s, h => by
    obtain ⟨t, -, h⟩ := Option.bind_eq_some_iff.1 h
    split at h
    · obtain ⟨s', hs', h⟩ := Option.bind_eq_some_iff.1 h
      cases h
      exact placed_storageWith type init active operand s' hs'
    · cases h
      exact Storage.placed_temporary
  | .int .., s, h | .bool .., s, h | .string .., s, h | .fromEnd .., s, h | .range .., s, h
  | .conditional .., s, h | .placeholder .., s, h => by
    obtain ⟨t, -, h⟩ := Option.bind_eq_some_iff.1 h
    cases h
    exact Storage.placed_temporary

theorem placed_of_storageOf? {e : Expr} {s : Storage} (h : c.storageOf? e = some s) : s.Placed := by
  obtain ⟨init, hstorage⟩ := c.storageOf?_eq
  rw [hstorage] at h
  exact placed_storageWith _ _ _ e s h

end Context

end InlineArrays
