import InlineArrays.Proofs.Elements.Bodies
import InlineArrays.Proofs.Resolution.Circular

/-!
# Bodies of writes to elements resolve

A question about the storage of an expression leads to one about a part of it or, through a local, to
one about a place; that one leads no further.
-/

namespace InlineArrays.Context

variable {c : Context} {x : VariableId} {e asked : Expr} {w : Window} {active : List VariableId}

/-- What is asked in typing an expression is a part of it. -/
theorem TypingAsks.sizeOf_lt (h : c.TypingAsks asked e) : sizeOf asked < sizeOf e := by
  induction h with
  | field _ ih | receiver _ ih | span _ ih | conditional _ ih | placeholder _ ih =>
    simp only [Expr.field.sizeOf_spec, Expr.element.sizeOf_spec, Expr.span.sizeOf_spec,
      Expr.conditional.sizeOf_spec, Expr.placeholder.sizeOf_spec]
    omega
  | @argument id receiver arg args _ ih =>
    obtain ⟨value, name, modifier⟩ := arg
    simp only [Expr.element.sizeOf_spec, List.cons.sizeOf_spec, Argument.mk.sizeOf_spec]
    dsimp only at ih
    omega
  | slice =>
    simp only [Expr.element.sizeOf_spec]
    omega

theorem sizeOf_carrier {part : Expr} (h : c.carrier? e = some part) : sizeOf part < sizeOf e := by
  unfold carrier? at h
  split at h
  · split at h
    · cases h
    · split at h
      · split at h
        · cases h
        · cases h
          simp only [Expr.field.sizeOf_spec]
          omega
      · cases h
  · split at h
    · cases h
      simp only [Expr.element.sizeOf_spec]
      omega
    · cases h
      simp only [Expr.element.sizeOf_spec]
      omega
    · cases h
  · obtain ⟨-, h⟩ := Option.ite_none_right_eq_some.1 h
    cases h
    simp only [Expr.span.sizeOf_spec]
    omega
  · cases h

/-- Nothing is asked in typing a constant subscript. -/
theorem not_typingAsks_position {length i : Nat} {position : Expr}
    (h : position.position? length = some i) : ¬ c.TypingAsks asked position := by
  rcases Expr.position?_eq_some h with ⟨id, n, rfl, -⟩ | ⟨id, id', n, rfl, -⟩ <;> nofun

theorem typeOf_position_ne_range {length i : Nat} {position : Expr}
    (h : position.position? length = some i) : c.typeOf position ≠ TypeTable.range := by
  rcases Expr.position?_eq_some h with ⟨id, n, rfl, -⟩ | ⟨id, id', n, rfl, -⟩
  · exact fun h ↦ absurd (show TypeTable.int = TypeTable.range from h) (by decide)
  · exact fun h ↦ absurd (show TypeTable.index = TypeTable.range from h) (by decide)

theorem Place.not_typingAsks {path : List Step} {t : TypeId} (h : c.Place x e path t) :
    ¬ c.TypingAsks asked e := by
  induction h with
  | var => nofun
  | field _ _ _ _ _ ih => exact fun | .field hasks => ih hasks
  | element _ _ hposition ih =>
    exact fun
      | .receiver hasks => ih hasks
      | .argument hasks => not_typingAsks_position hposition hasks
      | .slice _ hslice => typeOf_position_ne_range hposition hslice

/-- The parameter itself is no local whose value is followed. -/
theorem IsStructByRef.followed?_eq_none (hx : c.IsStructByRef x) : c.followed? x = none := by
  rw [followed?, hx.spanParts?, hx.kind_eq]

theorem Place.not_storageAsks (hx : c.IsStructByRef x) {path : List Step} {t : TypeId}
    (h : c.Place x e path t) : ¬ c.StorageAsks asked active e := by
  induction h with
  | var =>
    intro hasks
    cases hasks with
    | typing hasks => cases hasks
    | carrier hpart _ => cases hpart
    | followed hvalue _ _ =>
      rw [hx.followed?_eq_none] at hvalue
      cases hvalue
  | @field id receiver name path t struct field hreceiver hstruct hkind hfield hfixed ih =>
    have hplace : c.Place x (.field id receiver name) (path ++ [.field name]) field.type :=
      .field hreceiver hstruct hkind hfield hfixed
    intro hasks
    cases hasks with
    | typing hasks => exact hplace.not_typingAsks hasks
    | carrier hpart hasks =>
      rw [carrier?] at hpart
      split at hpart
      · cases hpart
      · rw [hreceiver.typeOf, hstruct] at hpart
        dsimp only at hpart
        split at hpart
        · cases hpart
        · cases hpart
          exact ih hasks
  | @element id receiver position path t array i hreceiver harray hposition ih =>
    have hplace : c.Place x (.element id receiver [⟨position, none, .none⟩]) _ array.element :=
      .element hreceiver harray hposition
    intro hasks
    cases hasks with
    | typing hasks => exact hplace.not_typingAsks hasks
    | carrier hpart hasks =>
      rw [carrier?] at hpart
      rw [hreceiver.typeOf, TypeTable.get_of_array? harray] at hpart
      cases hpart
      exact ih hasks

/-- The only question about a slice of a place is about that place. -/
theorem exists_place_of_storageAsks_slice (hx : c.IsStructByRef x) (hslice : c.slice? x e = some w)
    (h : c.StorageAsks asked active e) : ∃ path t, c.Place x asked path t := by
  obtain ⟨id, receiver, range, whole, rfl, hwhole, hextent, -⟩ := slice?_eq_some hslice
  obtain ⟨t, array, hplace, harray, -⟩ := whole?_eq_some hwhole
  obtain ⟨rid, start, stop, last, rfl, -⟩ := Expr.extent?_eq_some hextent
  cases h with
  | typing hasks =>
    cases hasks with
    | receiver hasks => exact absurd hasks hplace.not_typingAsks
    | argument hasks => cases hasks
    | slice => exact ⟨_, _, hplace⟩
  | carrier hpart hasks =>
    rw [carrier?] at hpart
    rw [hplace.typeOf, TypeTable.get_of_array? harray] at hpart
    cases hpart
    exact absurd hasks (hplace.not_storageAsks hx)

section

variable {first last : Tracking} {body : List Statement} {value : Expr} {path : List Step}
  (hbody : c.TracksBody x first body value last path)
include hbody

/-- What a local of the body has is a place, or a slice of one. -/
theorem TracksBody.followed {v : VariableId} {init : Expr} (h : c.followed? v = some init) :
    (∃ path t, c.Place x init path t) ∨ ∃ w, c.slice? x init = some w := by
  have htracks {s : Statement} (hs : s ∈ c.method.statements)
      (hreturn : ∀ value, s ≠ .ret value) : ∃ u u', c.Tracks x u s u' := by
    rw [hbody.statements_eq, List.mem_append, List.mem_singleton] at hs
    exact exists_tracks_of_mem hbody.body (hs.resolve_right (hreturn _))
  unfold followed? at h
  split at h
  · obtain ⟨s, hs, hinit⟩ := List.exists_of_findSome?_eq_some h
    cases s with
    | refLocal bound value =>
      obtain ⟨u, u', hstep⟩ := htracks hs nofun
      obtain ⟨-, hinit⟩ := Option.ite_none_right_eq_some.1 hinit
      cases hinit
      cases hstep with
      | bind _ hplace _ => exact .inl ⟨_, _, hplace⟩
    | _ => cases hinit
  · obtain ⟨s, hs, hinit⟩ := List.exists_of_findSome?_eq_some h
    cases s with
    | assign target value =>
      obtain ⟨u, u', hstep⟩ := htracks hs nofun
      cases hstep with
      | slice _ _ hslice =>
        obtain ⟨-, hinit⟩ := Option.ite_none_right_eq_some.1 hinit
        cases hinit
        exact .inr ⟨_, hslice⟩
      | write => cases hinit
    | _ => cases hinit
  · cases h

variable (hx : c.IsStructByRef x)
include hx

theorem TracksBody.asks (h : c.StorageAsks asked active e) :
    (∃ path t, c.Place x asked path t) ∨ sizeOf asked < sizeOf e := by
  induction h with
  | typing hasks => exact .inr hasks.sizeOf_lt
  | carrier hpart _ ih => exact ih.imp_right fun hlt ↦ Nat.lt_trans hlt (sizeOf_carrier hpart)
  | followed hvalue _ hasks _ =>
    rcases hbody.followed hvalue with ⟨path, t, hplace⟩ | ⟨w, hslice⟩
    · exact absurd hasks (hplace.not_storageAsks hx)
    · exact .inl (exists_place_of_storageAsks_slice hx hslice hasks)

/-- Questions that lead on are about ever smaller expressions. -/
theorem TracksBody.not_circular : ¬ c.Circular e := by
  have hstep {e asked further : Expr} (h : c.Asks e asked) (hfurther : c.Asks asked further) :
      sizeOf asked < sizeOf e := by
    rcases hbody.asks hx h with ⟨path, t, hplace⟩ | hlt
    · exact absurd hfurther (hplace.not_storageAsks hx)
    · exact hlt
  have hchain {e asked further : Expr} (h : Relation.TransGen c.Asks e asked)
      (hfurther : c.Asks asked further) : sizeOf asked < sizeOf e := by
    induction h generalizing further with
    | single h => exact hstep h hfurther
    | tail _ h ih => exact Nat.lt_trans (hstep h hfurther) (ih h)
  intro hcircular
  obtain ⟨further, hfirst, -⟩ := Relation.TransGen.head'_iff.1 hcircular
  exact Nat.lt_irrefl _ (hchain hcircular hfirst)

theorem TracksBody.resolves (horderly : c.method.Orderly) : c.resolves :=
  (resolves_iff_not_circular horderly).2 fun _ _ ↦ hbody.not_circular hx

end

end InlineArrays.Context
