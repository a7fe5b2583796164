import InlineArrays.Proofs.Code.MutableViews
import InlineArrays.Proofs.Evaluation.Locations
import InlineArrays.Proofs.Resolution.Replacement

/-!
# Where expressions with an address lie

An inline array or a struct that has an address lies in memory, and so do its parts.  A slice is taken
of an inline array in memory only: where copies are made, validation has seen to it that nothing is
sliced.
-/

namespace InlineArrays

namespace Context

variable {c : Context} {σ : Situation} {id : ExprId} {r e : Expr} {args : List (Argument Expr)}
  {a : Access}

/-- The forms of an argument that is accepted. -/
theorem subscript_cases {value : Expr} {s : Subscript Expr} (h : c.subscript value = .ok s) :
    (∃ id count, value = .fromEnd id count ∧ s = .fromEnd count) ∨
    (∃ id start stop first last, value = .range id start stop ∧ s = .rangeLiteral first last) ∨
    ((∀ id count, value ≠ .fromEnd id count) ∧ (∀ id start stop, value ≠ .range id start stop) ∧
      ((c.types.get (c.typeOf value) = .int ∧ s = .int value) ∨
        (c.types.get (c.typeOf value) = .index ∧ s = .index value) ∨
        (c.types.get (c.typeOf value) = .range ∧ s = .range value) ∨
        (c.types.get (c.typeOf value) = .dynamic ∧ s = .dynamic value))) := by
  unfold subscript at h
  split at h
  · rename_i id count
    obtain ⟨_, -, rfl⟩ := Except.map_eq_ok.1 h
    exact .inl ⟨id, count, rfl, rfl⟩
  · rename_i id start stop
    obtain ⟨first, -, h⟩ := Except.bind_eq_ok.1 h
    obtain ⟨last, -, h⟩ := Except.bind_eq_ok.1 h
    cases h
    exact .inr (.inl ⟨id, start, stop, first, last, rfl, rfl⟩)
  · rename_i hfromEnd hrange
    refine .inr (.inr ⟨hfromEnd, hrange, ?_⟩)
    split at h
    · rename_i hget
      cases h
      exact .inl ⟨hget, rfl⟩
    · rename_i hget
      cases h
      exact .inr (.inl ⟨hget, rfl⟩)
    · rename_i hget
      cases h
      exact .inr (.inr (.inl ⟨hget, rfl⟩))
    · rename_i hget
      cases h
      exact .inr (.inr (.inr ⟨hget, rfl⟩))
    · cases h

theorem isSlice_subscriptOf {arg : Argument Expr} (h : c.subscript arg.value = .ok a.subscript)
    {y : Subscript Value} (hvalue : c.subscriptOf σ a [arg] = .ok y) :
    y.isSlice = a.isSlice := by
  obtain ⟨value, name, modifier⟩ := arg
  rw [Access.isSlice]
  rcases subscript_cases h with ⟨id, count, rfl, hs⟩ | ⟨id, start, stop, first, last, rfl, hs⟩ |
    ⟨hfromEnd, hrange, hs⟩
  · obtain ⟨l, -, hvalue⟩ := Except.bind_eq_ok.1 hvalue
    obtain ⟨v, -, hvalue⟩ := Except.bind_eq_ok.1 hvalue
    cases hvalue
    rw [hs]
    rfl
  · obtain ⟨first, -, hvalue⟩ := Except.bind_eq_ok.1 hvalue
    obtain ⟨last, -, hvalue⟩ := Except.bind_eq_ok.1 hvalue
    cases hvalue
    rw [hs]
    rfl
  · rw [subscriptOf_value hfromEnd hrange] at hvalue
    obtain ⟨v, -, rfl⟩ := Except.map_eq_ok.1 hvalue
    rcases hs with ⟨-, hs⟩ | ⟨-, hs⟩ | ⟨-, hs⟩ | ⟨-, hs⟩ <;> rw [hs] <;> rfl

/-- The location of an access that binds. -/
theorem locationOf_element (hbind : c.bind (.element id r args) = .ok a) :
    c.locationOf σ (.element id r args) =
      (c.locationOf σ r >>= c.extent σ a) >>= fun x ↦ c.subscriptOf σ a args >>= fun y ↦ y.locate x := by
  conv_lhs => unfold locationOf
  rw [hbind, bind_assoc]

theorem storageDemand_of_not_isStored (h : ¬ c.IsStored e) : c.storageDemand e = .value := by
  rw [IsStored] at h
  simp [storageDemand, h]

section Extents

variable {p : Projection}

theorem extent_eq_span {kind : SpanKind} {element : TypeId} {storage : Storage}
    (h : a.indexed = .span kind element storage) :
    c.locationOf σ r >>= c.extent σ a = Extent.span <$> c.valueOf σ r := by
  rw [valueOf, map_bind]
  congr 1
  funext l
  rw [extent, h]

theorem extent_eq_ofArray (h : a.indexed = .array p) (hdemand : c.storageDemand a.receiver = .address) :
    c.locationOf σ r >>= c.extent σ a = c.locationOf σ r >>= Extent.ofArray p.kind p.length := by
  congr 1
  funext l
  rw [extent, h, hdemand]
  rfl

theorem extent_eq_copied (h : a.indexed = .array p) (hdemand : c.storageDemand a.receiver = .value) :
    c.locationOf σ r >>= c.extent σ a = (fun w ↦ .copied w [] p.length) <$> c.valueOf σ r := by
  rw [valueOf, map_bind]
  congr 1
  funext l
  rw [extent, h, hdemand]
  cases hread : l.read σ.memory <;> simp only [Demand.take, hread] <;> rfl

end Extents

/-- A span is neither a struct nor an inline array. -/
theorem not_isSpan {t : TypeId} (h : (c.types.struct? t).isSome ∨ (c.types.array? t).isSome) :
    ¬ c.types.isSpan t := by
  unfold TypeTable.isSpan TypeTable.spanParts?
  unfold TypeTable.struct? TypeTable.array? at h
  cases hget : c.types.get t <;> simp [hget] at h ⊢

/-- An element of what is referred to is so itself. -/
theorem locate_span {v : Value} {y : Subscript Value} {l : Location} (hslice : y.isSlice = false)
    (h : y.locate (.span v) = .ok l) : ∃ address, l = .stored address := by
  have hindex {position : Value} {l : Location} (h : (Extent.span v).index position = .ok l) :
      ∃ address, l = .stored address := by
    obtain ⟨address, -, rfl⟩ := Except.map_eq_ok.1 h
    exact ⟨address, rfl⟩
  have hlocate {n : Value} (h : y.locateIn (.span v) n = .ok l) : ∃ address, l = .stored address := by
    cases y with
    | int position => exact hindex h
    | fromEnd | index | dynamic =>
      obtain ⟨position, -, h⟩ := Except.bind_eq_ok.1 h
      exact hindex h
    | rangeLiteral | range => cases hslice
  rw [Subscript.locate] at h
  split at h
  · obtain ⟨n, -, h⟩ := Except.bind_eq_ok.1 h
    exact hlocate h
  · exact hlocate h

/-- What is indexed in memory, or is a span, is no copy. -/
theorem extent_span {l : Location} {x : Extent}
    (hl : ∀ p, a.indexed = .array p → c.IsStored a.receiver ∧ ∃ v, l = .referred v)
    (h : c.extent σ a l = .ok x) : ∃ v, x = .span v := by
  rw [extent] at h
  split at h
  · obtain ⟨hstored, v, rfl⟩ := hl _ ‹_›
    rw [storageDemand_of_isStored hstored] at h
    obtain ⟨_, htake, h⟩ := Except.bind_eq_ok.1 h
    cases htake
    obtain ⟨address, -, h⟩ := Except.bind_eq_ok.1 h
    cases h
    exact ⟨_, rfl⟩
  · obtain ⟨v, -, rfl⟩ := Except.map_eq_ok.1 h
    exact ⟨v, rfl⟩

/-- The array or struct that an expression with an address is lies in memory. -/
theorem referred_of_isStored (hc : c.Regular) : (e : Expr) → c.Approves e → c.IsStored e →
    (c.types.struct? (c.typeOf e)).isSome ∨ (c.types.array? (c.typeOf e)).isSome →
    ∀ {l : Location}, c.locationOf σ e = .ok l → ∃ v, l = .referred v
  | .var _ target, _, _, _, l, hl => by
    change c.variableLocation σ target = .ok l at hl
    unfold variableLocation at hl
    dsimp only at hl
    split at hl
    · obtain ⟨v, -, rfl⟩ := Except.map_eq_ok.1 hl
      exact ⟨v, rfl⟩
    · cases hl
      exact ⟨_, rfl⟩
  | .field id r name, he, hs, hkind, l, hl => by
    obtain ⟨lr, hlr, hl⟩ := Except.bind_eq_ok.1 hl
    obtain ⟨owner, howner, hl⟩ := Except.bind_eq_ok.1 hl
    -- A field of what is referred to is so itself.
    suffices hreferred : ∃ v, owner = .referred v by
      obtain ⟨v, rfl⟩ := hreferred
      obtain ⟨address, -, rfl⟩ := Except.map_eq_ok.1 hl
      exact ⟨_, rfl⟩
    rw [ownerLocation] at howner
    by_cases hclass : c.types.isClass (c.typeOf r)
    · rw [if_pos hclass] at howner
      obtain ⟨v, -, rfl⟩ := Except.map_eq_ok.1 howner
      exact ⟨v, rfl⟩
    · rw [if_neg hclass] at howner
      rcases (hc.isStored_field he.records).1 hs with hspan | ⟨type, htype, hfield⟩
      · exact absurd hspan (not_isSpan hkind)
      · have hr : c.IsStored r := hfield.resolve_left fun h ↦ hclass (by
          rw [TypeTable.isClass, htype]
          exact h)
        rw [storageDemand_of_isStored hr] at howner
        cases howner
        exact referred_of_isStored hc r (he.field hc) hr (.inl (by rw [htype]; rfl)) hlr
  | .element id r args, he, hs, hkind, l, hl => by
    obtain ⟨⟨a, hbind⟩, -⟩ := he.accesses _ (Expr.mem_parts_self _) rfl
    obtain ⟨-, rfl, hindexed, arg, rfl, hsubscript, -⟩ := bind_eq_ok hbind
    have hslice : a.isSlice = false := by
      by_contra hslice
      obtain ⟨htype, hspan⟩ := hc.typeOf_element he.records hbind
      exact not_isSpan hkind (htype ▸ hspan (by simpa using hslice))
    rw [locationOf_element hbind] at hl
    obtain ⟨x, hx, hl⟩ := Except.bind_eq_ok.1 hl
    obtain ⟨y, hy, hl⟩ := Except.bind_eq_ok.1 hl
    obtain ⟨lr, hlr, hx⟩ := Except.bind_eq_ok.1 hx
    have hspan : ∃ v, x = .span v := by
      refine extent_span (fun p harray ↦ ?_) hx
      rw [harray] at hindexed
      obtain ⟨type, htype, -⟩ := project?_of_indexed hindexed
      have hr : c.IsStored a.receiver := (hc.isStored_element he.records htype).1 hs
      exact ⟨hr, referred_of_isStored hc a.receiver (he.receiver hc) hr
        (.inr (by rw [htype]; rfl)) hlr⟩
    obtain ⟨v, rfl⟩ := hspan
    obtain ⟨address, rfl⟩ := locate_span ((isSlice_subscriptOf hsubscript hy).trans hslice) hl
    exact ⟨_, rfl⟩
  | .int .., _, hs, _, _, _ | .bool .., _, hs, _, _, _ | .string .., _, hs, _, _, _
  | .fromEnd .., _, hs, _, _, _ | .range .., _, hs, _, _, _ | .conditional .., _, hs, _, _, _
  | .placeholder .., _, hs, _, _, _ => absurd hs (not_isStored fun _ _ ↦ rfl)
  | .default .., _, hs, hkind, _, _ => absurd hs.default (not_isSpan hkind)
  | .call .., _, _, _, _, hl | .span .., _, _, _, _, hl => nomatch hl

/-- Nothing is sliced in a copy. -/
theorem extent_of_slice (hc : c.Regular) (he : c.Approves (.element id r args))
    (hbind : c.bind (.element id r args) = .ok a) (hslice : a.isSlice) {x : Extent}
    (h : (c.locationOf σ r >>= c.extent σ a) = .ok x) : ∃ v, x = .span v := by
  obtain ⟨-, rfl, hindexed, -⟩ := bind_eq_ok hbind
  obtain ⟨l, hl, hx⟩ := Except.bind_eq_ok.1 h
  refine extent_span (fun p harray ↦ ?_) hx
  have hstored := he.isStored_of_slice hbind hslice harray
  rw [harray] at hindexed
  obtain ⟨type, htype, -⟩ := project?_of_indexed hindexed
  exact ⟨hstored, referred_of_isStored hc a.receiver (he.receiver hc) hstored
    (.inr (by rw [htype]; rfl)) hl⟩

end Context

end InlineArrays
