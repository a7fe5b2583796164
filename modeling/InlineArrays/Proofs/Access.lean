import InlineArrays.Access
import InlineArrays.Proofs.Except
import InlineArrays.Proofs.Resolution.Structure
import InlineArrays.Proofs.Types.Table

/-!
# Bound accesses

What an access that binds is made of.
-/

namespace InlineArrays.Context

variable {c : Context}

/-- The binding of an access tells its parts. -/
theorem bind_eq_ok {id : ExprId} {receiver : Expr} {args : List (Argument Expr)} {a : Access}
    (h : c.bind (.element id receiver args) = .ok a) :
    a.expr = .element id receiver args ∧ a.receiver = receiver ∧
      c.indexed receiver = .ok a.indexed ∧ ∃ arg, args = [arg] ∧
        c.subscript arg.value = .ok a.subscript ∧
        a.type = if a.subscript.isSlice then c.findSpan a.indexed.element a.indexed.kind.isReadonly
          else a.indexed.element := by
  unfold Context.bind at h
  dsimp only at h
  cases hindexed : c.indexed receiver with
  | error errors =>
    rw [hindexed] at h
    cases h
  | ok indexed =>
    rw [hindexed] at h
    dsimp only at h
    split at h
    · rename_i arg
      unfold bindOne at h
      cases hsubscript : c.subscript arg.value with
      | error refused =>
        rw [hsubscript] at h
        cases h
      | ok subscript =>
        rw [hsubscript] at h
        dsimp only at h
        split at h
        · split at h
          · cases h
            exact ⟨rfl, rfl, rfl, arg, rfl, hsubscript, rfl⟩
          · cases h
        · cases h
    · cases h

/-- An inline array is indexed through a projection of it. -/
theorem project?_of_indexed {receiver : Expr} {p : Projection}
    (h : c.indexed receiver = .ok (.array p)) :
    ∃ type, c.types.array? (c.typeOf receiver) = some type ∧
      p = ⟨c.typeOf receiver, type.element, type.length,
        .ofReadonly (c.storageOf receiver).projectsReadonly, c.storageOf receiver⟩ := by
  unfold indexed at h
  split at h
  · cases hproject : c.project? receiver with
    | none =>
      rw [hproject] at h
      cases h
    | some p' =>
      rw [hproject] at h
      cases h
      obtain ⟨type, htype, rfl⟩ := Option.map_eq_some_iff.1 hproject
      exact ⟨type, htype, rfl⟩
  all_goals cases h

theorem typeOf?_of_typeOf {e : Expr} {t : TypeId} (h : c.typeOf e = t) (ht : t ≠ TypeTable.error) :
    c.typeOf? e = some t := by
  unfold typeOf at h
  cases htype : c.typeOf? e with
  | none =>
    rw [htype] at h
    exact absurd h.symm ht
  | some t' =>
    rw [htype] at h
    exact congrArg some h

/-- An access is a slice exactly if its argument is a range. -/
theorem isSlice_subscript (hc : c.types.WellFormed) {value : Expr} {s : Subscript Expr}
    (h : c.subscript value = .ok s) : s.isSlice ↔ c.typeOf? value = some TypeTable.range := by
  unfold subscript at h
  split at h
  · rename_i id count
    obtain ⟨_, -, rfl⟩ := Except.map_eq_ok.1 h
    exact iff_of_false Bool.false_ne_true fun hvalue ↦ by cases hvalue
  · rename_i id start stop
    obtain ⟨b, -, h⟩ := Except.bind_eq_ok.1 h
    obtain ⟨b', -, h⟩ := Except.bind_eq_ok.1 h
    cases h
    exact ⟨fun _ ↦ rfl, fun _ ↦ rfl⟩
  · have hne : ∀ {data}, c.types.get (c.typeOf value) = data → data ≠ .error →
        c.typeOf? value = some (c.typeOf value) := by
      rintro data hdata hne
      refine typeOf?_of_typeOf rfl fun herror ↦ hne ?_
      rw [← hdata, herror]
      rfl
    have hrange : c.typeOf? value = some TypeTable.range →
        c.types.get (c.typeOf value) = .range := fun hvalue ↦ by
      rw [typeOf, hvalue]
      rfl
    split at h
    · rename_i hget
      cases h
      exact iff_of_false Bool.false_ne_true fun hvalue ↦ by rw [hrange hvalue] at hget; cases hget
    · rename_i hget
      cases h
      exact iff_of_false Bool.false_ne_true fun hvalue ↦ by rw [hrange hvalue] at hget; cases hget
    · rename_i hget
      cases h
      refine ⟨fun _ ↦ ?_, fun _ ↦ rfl⟩
      rw [hne hget (fun herror ↦ by cases herror), hc.eq_range hget]
    · rename_i hget
      cases h
      exact iff_of_false Bool.false_ne_true fun hvalue ↦ by rw [hrange hvalue] at hget; cases hget
    · cases h

/-- A slice is a span, or has no type. -/
theorem array?_typeOf_slice (hc : c.types.WellFormed) {id : ExprId} {receiver : Expr}
    {args : List (Argument Expr)} {a : Access} (hbind : c.bind (.element id receiver args) = .ok a)
    (hslice : a.isSlice) : c.types.array? (c.typeOf (.element id receiver args)) = none := by
  obtain ⟨-, -, -, arg, rfl, hsubscript, -⟩ := bind_eq_ok hbind
  have harg := (isSlice_subscript hc hsubscript).1 hslice
  have htype : c.typeOf? (.element id receiver [arg]) =
      (c.typeOf? receiver).bind fun t ↦ c.accessType c.storageOf? receiver t (some true) := by
    change ((c.typeOf? receiver).bind fun t ↦ c.accessType c.storageOf? receiver t
      ((c.typeOf? arg.value).map (· == TypeTable.range))) = _
    rw [harg]
    rfl
  unfold typeOf
  rw [htype]
  cases c.typeOf? receiver with
  | none => rfl
  | some t =>
    change c.types.array? ((c.accessType c.storageOf? receiver t (some true)).getD _) = none
    cases hget : c.types.get t with
    | array type =>
      simp only [accessType, hget, Option.bind_eq_bind, Option.bind_some, if_true]
      cases c.storageOf? receiver with
      | none => rfl
      | some s =>
        change c.types.array? ((c.types.findSpan type.element s.projectsReadonly).getD _) = none
        cases hspan : c.types.findSpan type.element s.projectsReadonly with
        | none => rfl
        | some span => simp [TypeTable.array?, TypeTable.findSpan_eq_some hspan]
    | span => simp [accessType, TypeTable.array?, hget]
    | _ =>
      simp only [accessType, hget, Option.bind_eq_bind, Option.bind_some]
      rfl

end InlineArrays.Context
