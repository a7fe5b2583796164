import InlineArrays.Resolution

/-!
# Resolution settles

An answer that was found is found again with more questions allowed, so the storage of an expression
is built from the types and the storage that resolution has for its parts.
-/

namespace InlineArrays

/-- Every answer of `f` is one of `g`. -/
def AnswersLe {α β : Type} (f g : α → Option β) : Prop := ∀ a b, f a = some b → g a = some b

theorem AnswersLe.refl {α β : Type} (f : α → Option β) : AnswersLe f f := fun _ _ h ↦ h

namespace Context

variable {c : Context}

theorem accessType_mono {f g : Expr → Option Storage} (hle : AnswersLe f g) {receiver : Expr}
    {receiverType t : TypeId} {slicing slicing' : Option Bool}
    (hslicing : ∀ b, slicing = some b → slicing' = some b)
    (h : c.accessType f receiver receiverType slicing = some t) :
    c.accessType g receiver receiverType slicing' = some t := by
  obtain ⟨b, hb, h⟩ := Option.bind_eq_some_iff.1 h
  refine Option.bind_eq_some_iff.2 ⟨b, hslicing b hb, ?_⟩
  revert h
  split
  · split
    · intro h
      obtain ⟨s, hs, ht⟩ := Option.bind_eq_some_iff.1 h
      exact Option.bind_eq_some_iff.2 ⟨s, hle _ _ hs, ht⟩
    · exact id
  · exact id
  · exact id

theorem typeWith_mono {f g : Expr → Option Storage} (hle : AnswersLe f g) :
    (e : Expr) → (t : TypeId) → c.typeWith f e = some t → c.typeWith g e = some t
  | .var .., _, h | .call .., _, h | .int .., _, h | .bool .., _, h | .string .., _, h
  | .fromEnd .., _, h | .range .., _, h | .default .., _, h => h
  | .field _ receiver _, _, h => by
    obtain ⟨receiverType, hreceiver, ht⟩ := Option.bind_eq_some_iff.1 h
    exact Option.bind_eq_some_iff.2 ⟨receiverType, typeWith_mono hle receiver _ hreceiver, ht⟩
  | .element _ receiver args, t, h => by
    unfold typeWith at h ⊢
    obtain ⟨receiverType, hreceiver, h⟩ := Option.bind_eq_some_iff.1 h
    refine Option.bind_eq_some_iff.2 ⟨receiverType, typeWith_mono hle receiver _ hreceiver, ?_⟩
    refine accessType_mono hle ?_ h
    intro slicing hslicing
    cases args with
    | nil => exact hslicing
    | cons arg args =>
      obtain ⟨value, name, modifier⟩ := arg
      obtain ⟨type, htype, hrange⟩ := Option.map_eq_some_iff.1 hslicing
      exact Option.map_eq_some_iff.2 ⟨type, typeWith_mono hle value _ htype, hrange⟩
  | .span _ operand _, _, h => by
    obtain ⟨operandType, hoperand, ht⟩ := Option.bind_eq_some_iff.1 h
    exact Option.bind_eq_some_iff.2 ⟨operandType, typeWith_mono hle operand _ hoperand, ht⟩
  | .conditional _ _ access, t, h => typeWith_mono hle access t h
  | .placeholder _ receiver, t, h => typeWith_mono hle receiver t h

theorem variableStorage_mono {init init' : Expr → Option Storage} (hle : AnswersLe init init')
    {target : VariableId} {type : TypeId} {cut : Bool} {s : Storage}
    (h : c.variableStorage target type cut init = some s) :
    c.variableStorage target type cut init' = some s := by
  unfold variableStorage at h ⊢
  dsimp only at h ⊢
  split at h
  · split at h
    · exact h
    · obtain ⟨t, ht, hs⟩ := Option.map_eq_some_iff.1 h
      exact Option.map_eq_some_iff.2 ⟨t, hle _ _ ht, hs⟩
  · exact h
  · split at h
    · rw [if_pos ‹_›]
      exact h
    · rw [if_neg ‹_›]
      split at h
      · exact h
      · obtain ⟨t, ht, hs⟩ := Option.map_eq_some_iff.1 h
        exact Option.map_eq_some_iff.2 ⟨t, hle _ _ ht, hs⟩
  · exact h
  · exact h

section

variable {type type' : Expr → Option TypeId}
  {init init' : List VariableId → Expr → Option Storage}
  (htype : AnswersLe type type') (hinit : ∀ active, AnswersLe (init active) (init' active))
include htype hinit

theorem storageWith_mono (active : List VariableId) :
    (e : Expr) → (s : Storage) → c.storageWith type init active e = some s →
      c.storageWith type' init' active e = some s
  | .var id target, s, h => by
    obtain ⟨t, ht, h⟩ := Option.bind_eq_some_iff.1 h
    exact Option.bind_eq_some_iff.2 ⟨t, htype _ _ ht, variableStorage_mono (hinit _) h⟩
  | .field id receiver name, s, h => by
    obtain ⟨t, ht, h⟩ := Option.bind_eq_some_iff.1 h
    refine Option.bind_eq_some_iff.2 ⟨t, htype _ _ ht, ?_⟩
    cases hspan : c.types.spanParts? t with
    | some parts => simpa only [hspan] using h
    | none =>
      simp only [hspan] at h ⊢
      obtain ⟨r, hr, h⟩ := Option.bind_eq_some_iff.1 h
      refine Option.bind_eq_some_iff.2 ⟨r, htype _ _ hr, ?_⟩
      cases hstruct : c.types.struct? r with
      | none => simpa only [hstruct] using h
      | some type =>
        simp only [hstruct] at h ⊢
        by_cases hclass : type.isClass
        · rw [if_pos hclass] at h ⊢
          exact h
        · rw [if_neg hclass] at h ⊢
          obtain ⟨t, ht, h⟩ := Option.bind_eq_some_iff.1 h
          exact Option.bind_eq_some_iff.2 ⟨t, storageWith_mono active receiver _ ht, h⟩
  | .call id callee returns t, s, h => by
    obtain ⟨t, ht, h⟩ := Option.bind_eq_some_iff.1 h
    exact Option.bind_eq_some_iff.2 ⟨t, htype _ _ ht, h⟩
  | .default id t, s, h => by
    obtain ⟨t, ht, h⟩ := Option.bind_eq_some_iff.1 h
    exact Option.bind_eq_some_iff.2 ⟨t, htype _ _ ht, h⟩
  | .element id receiver args, s, h => by
    obtain ⟨t, ht, h⟩ := Option.bind_eq_some_iff.1 h
    refine Option.bind_eq_some_iff.2 ⟨t, htype _ _ ht, ?_⟩
    obtain ⟨r, hr, h⟩ := Option.bind_eq_some_iff.1 h
    refine Option.bind_eq_some_iff.2 ⟨r, htype _ _ hr, ?_⟩
    split at h
    · obtain ⟨t, ht, h⟩ := Option.bind_eq_some_iff.1 h
      exact Option.bind_eq_some_iff.2 ⟨t, storageWith_mono active receiver _ ht, h⟩
    · obtain ⟨t, ht, h⟩ := Option.bind_eq_some_iff.1 h
      exact Option.bind_eq_some_iff.2 ⟨t, storageWith_mono active receiver _ ht, h⟩
    · exact h
  | .span id operand readonly, s, h => by
    obtain ⟨t, ht, h⟩ := Option.bind_eq_some_iff.1 h
    refine Option.bind_eq_some_iff.2 ⟨t, htype _ _ ht, ?_⟩
    by_cases hspan : c.types.isSpan t
    · rw [if_pos hspan] at h ⊢
      obtain ⟨t, ht, h⟩ := Option.bind_eq_some_iff.1 h
      exact Option.bind_eq_some_iff.2 ⟨t, storageWith_mono active operand _ ht, h⟩
    · rw [if_neg hspan] at h ⊢
      exact h
  | .int .., s, h | .bool .., s, h | .string .., s, h | .fromEnd .., s, h | .range .., s, h
  | .conditional .., s, h | .placeholder .., s, h => by
    obtain ⟨t, ht, h⟩ := Option.bind_eq_some_iff.1 h
    exact Option.bind_eq_some_iff.2 ⟨t, htype _ _ ht, h⟩

end

theorem followLocals_mono {type type' : Expr → Option TypeId} (htype : AnswersLe type type')
    (jumps : Nat) (active : List VariableId) :
    AnswersLe (c.followLocals type jumps active) (c.followLocals type' jumps active) := by
  induction jumps generalizing active with
  | zero => exact storageWith_mono htype (fun _ _ _ h ↦ h) active
  | succ jumps ih => exact storageWith_mono htype ih active

theorem freshStorage_mono (questions : Nat) :
    AnswersLe (c.freshStorage questions) (c.freshStorage (questions + 1)) := by
  induction questions with
  | zero => exact fun _ _ h ↦ nomatch h
  | succ questions ih => exact followLocals_mono (typeWith_mono ih) _ _

/-- The types that storage is asked with are those of resolution. -/
theorem typeWith_freshStorage_le :
    AnswersLe (c.typeWith (c.freshStorage c.method.exprs.size)) c.typeOf? :=
  typeWith_mono (freshStorage_mono c.method.exprs.size)

end Context

end InlineArrays
