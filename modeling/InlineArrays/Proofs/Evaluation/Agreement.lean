import InlineArrays.Proofs.Evaluation.Parts

/-!
# Expressions with the receiver written out evaluate alike

An access to the receiver of a conditional and the same access with the receiver written out are
evaluated part by part.  Where a part has an address in one and none in the other, it is read from
memory in the one and from a copy in the other.
-/

namespace InlineArrays

/-! ## Agreement of computations -/

/-- Both computations have one result or both fail, with one error where `fits` holds. -/
inductive Agree {α : Type} (fits : Prop) : Except RuntimeError α → Except RuntimeError α → Prop
  | ok (a : α) : Agree fits (.ok a) (.ok a)
  | error {e e' : RuntimeError} (h : fits → e = e') : Agree fits (.error e) (.error e')

namespace Agree

variable {α β : Type} {fits : Prop} {x y : Except RuntimeError α}
  {f g : α → Except RuntimeError β}

@[refl]
theorem refl (x : Except RuntimeError α) : Agree fits x x := by
  cases x with
  | ok a => exact .ok a
  | error e => exact .error fun _ ↦ rfl

theorem of_eq (h : y = x) : Agree fits x y := by
  rw [h]

theorem bind (h : Agree fits x y) (hf : ∀ a, x = .ok a → y = .ok a → Agree fits (f a) (g a)) :
    Agree fits (x >>= f) (y >>= g) := by
  cases h with
  | ok a => exact hf a rfl rfl
  | error h => exact .error h

/-- What is computed from one result in one way. -/
theorem bindSame (h : Agree fits x y) (f : α → Except RuntimeError β) :
    Agree fits (x >>= f) (y >>= f) :=
  h.bind fun a _ _ ↦ refl (f a)

theorem map (h : Agree fits x y) (f : α → β) : Agree fits (f <$> x) (f <$> y) := by
  rw [map_eq_pure_bind, map_eq_pure_bind]
  exact h.bindSame _

theorem cases (h : Agree fits x y) : (∃ a, x = .ok a ∧ y = .ok a) ∨
    ∃ e e', x = .error e ∧ y = .error e' ∧ (fits → e = e') := by
  cases h with
  | ok a => exact .inl ⟨a, rfl, rfl⟩
  | error h => exact .inr ⟨_, _, rfl, rfl, h⟩

end Agree

/-! ## Evaluation of one chain -/

theorem Context.Alongside.refl (c : Context) : c.Alongside c :=
  ⟨rfl, rfl, rfl, fun _ ↦ rfl, fun _ ↦ rfl⟩

open Context

variable {c c' : Context} {σ σ' : Situation}

/-- Two methods that resolve alike, each in a situation of its own over one memory. -/
structure Paired (c c' : Context) (σ σ' : Situation) : Prop where
  alongside : c.Alongside c'
  regular : c.Regular
  regular' : c'.Regular
  memory : σ'.memory = σ.memory
  frame : σ'.frame = σ.frame

/-- A variable lies in one place, whichever of two methods is asked. -/
theorem Paired.variableLocation_eq (h : Paired c c' σ σ') (v : VariableId) :
    c'.variableLocation σ' v = c.variableLocation σ v := by
  rw [variableLocation, variableLocation, h.alongside.var, h.memory, h.frame, holdsAddress,
    holdsAddress, h.alongside.owner, h.alongside.types]

/-- Occurrences of one chain lie in one place. -/
theorem SameChain.locationOf_eq {x x' : Expr} (h : SameChain x x') (hpair : Paired c c' σ σ')
    (hx : c.method.Records x) (hx' : c'.method.Records x') :
    c'.locationOf σ' x' = c.locationOf σ x ∧ c'.storageDemand x' = c.storageDemand x := by
  have halong := hpair.alongside
  have hc := hpair.regular
  have hc' := hpair.regular'
  induction h with
  | var =>
    refine ⟨hpair.variableLocation_eq _, ?_⟩
    have hstorage := halong.storageOf?_var_agree (hc.resolved hx).2 (hc'.resolved hx').2
    rw [storageDemand, storageDemand, hstorage]
    rfl
  | @field id id' r r' name hsame ih =>
    have hr := hc.orderly.children _ hx _ List.mem_cons_self
    have hr' := hc'.orderly.children _ hx' _ List.mem_cons_self
    obtain ⟨hlocation, hdemand⟩ := ih hr hr'
    obtain ⟨htype, -⟩ := hsame.resolves_eq halong hc hc' hr hr'
    obtain ⟨-, hstorage⟩ := (SameChain.field hsame).resolves_eq halong hc hc' hx hx'
    constructor
    · conv => congr <;> unfold locationOf
      simp only [hlocation, ownerLocation, htype, halong.types, hdemand, hpair.memory]
    · rw [storageDemand, storageDemand, hstorage]
      rfl

/-! ## Agreement of expressions -/

/-- What is said of an expression and of what stands against it; `fits` is about the receiver that is
written out. -/
structure Agrees (c c' : Context) (σ σ' : Situation) (fits : Prop) (x x' : Expr) : Prop where
  value : Agree fits (c.valueOf σ x) (c'.valueOf σ' x')
  /-- What has an address in both has one address. -/
  location : c.IsStored x → ¬ c.types.isSpan (c.typeOf x) →
    Agree fits (c.locationOf σ x) (c'.locationOf σ' x')
  /-- What has an address in the second only can be copied. -/
  whole : fits → ¬ c.IsStored x → c'.IsStored x' →
    (c.types.struct? (c.typeOf x)).isSome ∨ (c.types.array? (c.typeOf x)).isSome →
      ∀ l, c'.locationOf σ' x' = .ok l →
        ∃ v, l.read σ'.memory = .ok v ∧ c.types.Fits (c.typeOf x) v
  /-- If fields may be found in another way than by steps into what holds them, they are found in the
  same way in both. -/
  proper : (c'.locationOf σ' x' = c.locationOf σ x ∧ c'.storageDemand x' = c.storageDemand x) ∨
    (∀ l, c.locationOf σ x = .ok l → l.IsProper) ∧ ∀ l, c'.locationOf σ' x' = .ok l → l.IsProper

namespace Agrees

variable {fits : Prop} {x x' r r' : Expr} {id id' : ExprId}

/-- What lies in one place and is stored alike. -/
theorem of_location (hmemory : σ'.memory = σ.memory)
    (hlocation : c'.locationOf σ' x' = c.locationOf σ x) (hstorage : c'.storageOf x' = c.storageOf x)
    (hplaceholder : x'.isPlaceholder = x.isPlaceholder) : Agrees c c' σ σ' fits x x' where
  value := .of_eq (by rw [valueOf, valueOf, hlocation, hmemory])
  location _ _ := .of_eq hlocation
  whole _ hx hx' := absurd (by rwa [IsStored, ← hstorage]) hx
  proper := .inl ⟨hlocation, by rw [storageDemand, storageDemand, hstorage, hplaceholder]⟩

/-- What has no address. -/
theorem of_value (hvalue : Agree fits (c.valueOf σ x) (c'.valueOf σ' x')) (hx : ¬ c.IsStored x)
    (hx' : ¬ c'.IsStored x') (hvar : x.isVariable = false) (hvar' : x'.isVariable = false) :
    Agrees c c' σ σ' fits x x' where
  value := hvalue
  location h _ := absurd h hx
  whole _ _ h := absurd h hx'
  proper := .inr ⟨fun _ ↦ isProper_of_locationOf hvar, fun _ ↦ isProper_of_locationOf hvar'⟩

/-! ### Fields -/

section

variable {name : String} (hpair : Paired c c' σ σ') (hr : Agrees c c' σ σ' fits r r')
  (hmatch : c.Matches c' r r') (hx : c.Approves (.field id r name))
include hpair hmatch

omit hx in
theorem isClass_eq : c'.types.isClass (c'.typeOf r') = c.types.isClass (c.typeOf r) := by
  rw [hpair.alongside.types, hmatch.type]

include hr

omit hx in
theorem value_field :
    Agree fits (c.valueOf σ (.field id r name)) (c'.valueOf σ' (.field id' r' name)) := by
  have hclasses := isClass_eq hpair hmatch
  by_cases hclass : c.types.isClass (c.typeOf r)
  · rw [valueOf_fieldOfObject hclass, valueOf_fieldOfObject (hclasses.trans hclass), hpair.memory]
    exact hr.value.bindSame _
  · rcases hr.proper with ⟨hlocation, hdemand⟩ | ⟨hproper, hproper'⟩
    · refine .of_eq ?_
      simp only [valueOf, locationOf, ownerLocation, hclasses, hlocation, hdemand, hpair.memory]
    · rw [valueOf_fieldOfStruct hclass hproper,
        valueOf_fieldOfStruct (by rwa [hclasses]) hproper']
      exact hr.value.bindSame _

include hx

theorem location_field (hstored : c.IsStored (.field id r name))
    (hspan : ¬ c.types.isSpan (c.typeOf (.field id r name))) :
    Agree fits (c.locationOf σ (.field id r name)) (c'.locationOf σ' (.field id' r' name)) := by
  have hclasses := isClass_eq hpair hmatch
  obtain ⟨type, htype, hfield⟩ :=
    ((hpair.regular.isStored_field hx.records).1 hstored).resolve_left hspan
  by_cases hclass : c.types.isClass (c.typeOf r)
  · rw [locationOf_fieldOfObject hclass, locationOf_fieldOfObject (hclasses.trans hclass)]
    exact hr.value.bindSame _
  · have hr' : c.IsStored r := hfield.resolve_left fun h ↦ hclass (by
      rw [TypeTable.isClass, htype]
      exact h)
    rw [locationOf_fieldOfStored hclass (storageDemand_of_isStored hr'),
      locationOf_fieldOfStored (by rwa [hclasses]) (storageDemand_of_isStored (hmatch.stored hr'))]
    exact (hr.location hr' (not_isSpan (.inl (by rw [htype]; rfl)))).bindSame _

/-- A field of a struct that fits is there and fits. -/
theorem whole_field (hx' : c'.Approves (.field id' r' name)) (hfits : fits)
    (hstored : ¬ c.IsStored (.field id r name)) (hstored' : c'.IsStored (.field id' r' name))
    (hkind : (c.types.struct? (c.typeOf (.field id r name))).isSome ∨
      (c.types.array? (c.typeOf (.field id r name))).isSome)
    {l : Location} (hl : c'.locationOf σ' (.field id' r' name) = .ok l) :
    ∃ v, l.read σ'.memory = .ok v ∧ c.types.Fits (c.typeOf (.field id r name)) v := by
  have htypes : c'.typeOf (.field id' r' name) = c.typeOf (.field id r name) := by
    rw [typeOf_field, typeOf_field, hpair.alongside.types, hmatch.type]
  have hplace := (hpair.regular'.isStored_field hx'.records).1 hstored'
  rw [hpair.alongside.types, htypes, hmatch.type] at hplace
  obtain ⟨type, htype, hfield⟩ := hplace.resolve_left (not_isSpan hkind)
  rw [hpair.regular.isStored_field hx.records, not_or] at hstored
  have hclass : ¬ type.isClass := fun h ↦ hstored.2 ⟨type, htype, .inl h⟩
  have hr' : c'.IsStored r' := hfield.resolve_left hclass
  have hclass' : ¬ c'.types.isClass (c'.typeOf r') := by
    rw [isClass_eq hpair hmatch, TypeTable.isClass, htype]
    exact hclass
  obtain ⟨f, hf, hftype⟩ : ∃ f, type.field? name = some f ∧
      c.typeOf (.field id r name) = f.type := by
    rw [typeOf_field, htype, Option.bind_some] at hkind ⊢
    cases hf : type.field? name with
    | none =>
      rw [hf] at hkind
      simp [TypeTable.struct?, TypeTable.array?, show c.types.get TypeTable.error = .error from rfl]
        at hkind
    | some f => exact ⟨f, rfl, rfl⟩
  rw [locationOf_fieldOfStored hclass' (storageDemand_of_isStored hr')] at hl
  obtain ⟨owner, howner, hl⟩ := Except.bind_eq_ok.1 hl
  obtain ⟨w, hw, hwhole⟩ := hr.whole hfits (fun h ↦ hstored.2 ⟨type, htype, .inr h⟩) hr'
    (.inl (by rw [htype]; rfl)) owner howner
  obtain ⟨v, hv, hvfits⟩ := hwhole.field htype (by simpa using hclass) hf
  have hread := Location.field_bind_read (m := σ'.memory) (Location.isProper_of_read hw) name
  rw [hl, hw] at hread
  exact ⟨v, hread.trans hv, hftype ▸ hvfits⟩

theorem field (hx' : c'.Approves (.field id' r' name)) :
    Agrees c c' σ σ' fits (.field id r name) (.field id' r' name) where
  value := value_field hpair hr hmatch
  location := location_field hpair hr hmatch hx
  whole hfits hstored hstored' hkind _ := whole_field hpair hr hmatch hx hx' hfits hstored hstored' hkind
  proper := .inr ⟨fun _ ↦ isProper_of_locationOf (e := .field id r name) rfl,
    fun _ ↦ isProper_of_locationOf (e := .field id' r' name) rfl⟩

end

end Agrees

/-! ### Elements -/

/-- An access and one that stands against it, of receivers and arguments that agree. -/
structure AccessPair (c c' : Context) (σ σ' : Situation) (fits : Prop) (id id' : ExprId) (r r' : Expr)
    (args args' : List (Argument Expr)) (a a' : Access) : Prop extends Paired c c' σ σ' where
  approves : c.Approves (.element id r args)
  approves' : c'.Approves (.element id' r' args')
  bind : c.bind (.element id r args) = .ok a
  bind' : c'.bind (.element id' r' args') = .ok a'
  receiver : Agrees c c' σ σ' fits r r'
  matching : c.Matches c' r r'
  argument : Agree fits (c.subscriptOf σ a args) (c'.subscriptOf σ' a' args')
  isSlice : a'.isSlice = a.isSlice

namespace AccessPair

variable {fits : Prop} {id id' : ExprId} {r r' : Expr} {args args' : List (Argument Expr)}
  {a a' : Access} (h : AccessPair c c' σ σ' fits id id' r r' args args' a a')
include h

/-- Elements of what is indexed alike lie in one place. -/
theorem agrees_of_extent
    (hextent : Agree fits (c.locationOf σ r >>= c.extent σ a)
      (c'.locationOf σ' r' >>= c'.extent σ' a'))
    (hstored : (c.types.struct? (c.typeOf (.element id r args))).isSome ∨
      (c.types.array? (c.typeOf (.element id r args))).isSome → c.IsStored (.element id r args)) :
    Agrees c c' σ σ' fits (.element id r args) (.element id' r' args') := by
  have hlocation : Agree fits (c.locationOf σ (.element id r args))
      (c'.locationOf σ' (.element id' r' args')) := by
    rw [locationOf_element h.bind, locationOf_element h.bind']
    exact hextent.bind fun x _ _ ↦ h.argument.bindSame fun y ↦ y.locate x
  refine ⟨?_, fun _ _ ↦ hlocation, fun _ hx _ hkind ↦ absurd (hstored hkind) hx,
    .inr ⟨fun _ ↦ isProper_of_locationOf (e := .element id r args) rfl,
      fun _ ↦ isProper_of_locationOf (e := .element id' r' args') rfl⟩⟩
  rw [valueOf, valueOf, h.memory]
  exact hlocation.bindSame _

theorem agrees_of_span {kind : SpanKind} {element : TypeId} {storage storage' : Storage}
    (hspan : a.indexed = .span kind element storage)
    (hspan' : a'.indexed = .span kind element storage') :
    Agrees c c' σ σ' fits (.element id r args) (.element id' r' args') := by
  refine h.agrees_of_extent ?_ fun hkind ↦ ?_
  · rw [extent_eq_span hspan, extent_eq_span hspan']
    exact h.receiver.value.map _
  · obtain ⟨-, -, hindexed, arg, rfl, -⟩ := bind_eq_ok h.bind
    rw [hspan] at hindexed
    obtain ⟨readonly, hget, -⟩ := span_of_indexed hindexed
    rw [IsStored, h.regular.storageOf_element h.approves.records, hget]
    simp only [if_neg (not_isSpan hkind)]

variable {p p' : Projection} (harray : a.indexed = .array p) (harray' : a'.indexed = .array p')
include harray harray'

theorem agrees_of_stored (hlength : p'.length = p.length) (hkind : p'.kind = p.kind)
    (hstored : c.IsStored r) :
    Agrees c c' σ σ' fits (.element id r args) (.element id' r' args') := by
  obtain ⟨type, htype⟩ := Option.isSome_iff_exists.1 (isSome_array?_of_bind h.bind harray)
  obtain ⟨-, rfl, -, arg, rfl, -⟩ := bind_eq_ok h.bind
  obtain ⟨-, rfl, -⟩ := bind_eq_ok h.bind'
  refine h.agrees_of_extent ?_ fun _ ↦
    (h.regular.isStored_element h.approves.records htype).2 hstored
  rw [extent_eq_ofArray harray (storageDemand_of_isStored hstored),
    extent_eq_ofArray harray' (storageDemand_of_isStored (h.matching.stored hstored)), hlength, hkind]
  exact (h.receiver.location hstored (not_isSpan (.inr (by rw [htype]; rfl)))).bindSame _

omit harray' in
/-- What is copied is not sliced. -/
theorem isSlice_of_copied (hcopied : ¬ c.IsStored r) : a.isSlice = false ∧ a'.isSlice = false := by
  have hslice : a.isSlice = false := by
    by_contra hslice
    exact hcopied (h.approves.isStored_of_slice h.bind (by simpa using hslice) harray)
  exact ⟨hslice, h.isSlice.trans hslice⟩

/-- In memory the array is not read before its element is. -/
theorem value_of_copied (hlength : p'.length = p.length) (hcopied : ¬ c.IsStored r)
    (hstored' : c'.IsStored r') :
    Agree fits (c.valueOf σ (.element id r args)) (c'.valueOf σ' (.element id' r' args')) := by
  obtain ⟨hslice, hslice'⟩ := h.isSlice_of_copied harray hcopied
  have hkind' := isSome_array?_of_bind h.bind' harray'
  rw [valueOf_elementOfCopy h.bind harray (storageDemand_of_not_isStored hcopied)]
  rcases h.receiver.value.cases with ⟨w, hw, hw'⟩ | ⟨e, e', he, he', hsame⟩
  · obtain ⟨l, hl, hread⟩ := Except.bind_eq_ok.1 hw'
    obtain ⟨v, rfl⟩ := referred_of_isStored h.regular' r' (h.approves'.receiver h.regular') hstored'
      (.inr hkind') hl
    obtain ⟨base, hbase, hread⟩ := Except.bind_eq_ok.1 hread
    obtain rfl := Value.toAddress_eq_ok hbase
    rw [hw, valueOf_elementOfStored h.bind' harray' hstored' hl, hlength]
    refine h.argument.bind fun y hy _ ↦ .of_eq ?_
    obtain ⟨-, -, -, arg, rfl, hform, -⟩ := bind_eq_ok h.bind
    rw [← h.memory]
    exact Subscript.locate_bind_read ((isSlice_subscriptOf hform hy).trans hslice) _ hread _
  · rw [he]
    cases hv : c'.valueOf σ' (.element id' r' args') with
    | ok v =>
      obtain ⟨w, hw⟩ := exists_valueOf_of_element h.bind' harray' h.regular' h.approves' hslice'
        hstored' hv
      rw [he'] at hw
      cases hw
    | error e'' =>
      refine .error fun hfits ↦ ?_
      cases hl : c'.locationOf σ' r' with
      | error e''' =>
        rw [valueOf, hl] at he'
        rw [valueOf, locationOf_element h.bind', hl] at hv
        cases he'
        cases hv
        exact hsame hfits
      | ok l =>
        obtain ⟨w, hw, -⟩ := h.receiver.whole hfits hcopied hstored' (.inr (by
          rw [← h.matching.type, ← h.alongside.types]
          exact hkind')) l hl
        rw [valueOf, hl] at he'
        cases hw.symm.trans he'

/-- An element of an array that fits is there and fits. -/
theorem whole_of_copied (hlength : p'.length = p.length) (hcopied : ¬ c.IsStored r)
    (hstored' : c'.IsStored r') (hfits : fits) {l : Location}
    (hl : c'.locationOf σ' (.element id' r' args') = .ok l) :
    ∃ v, l.read σ'.memory = .ok v ∧ c.types.Fits (c.typeOf (.element id r args)) v := by
  obtain ⟨hslice, hslice'⟩ := h.isSlice_of_copied harray hcopied
  obtain ⟨-, -, hindexed, -, -, -, htypes⟩ := bind_eq_ok h.bind
  rw [harray] at hindexed htypes
  obtain ⟨type, htype, hp⟩ := project?_of_indexed hindexed
  have helement : c.typeOf (.element id r args) = type.element := by
    rw [(h.regular.typeOf_element h.approves.records h.bind).1, htypes,
      if_neg (by rw [show a.subscript.isSlice = false from hslice]; decide), hp]
    rfl
  obtain ⟨base, k, hk, hbase, rfl⟩ := locationOf_elementOfStored h.bind' harray' h.regular'
    h.approves' hslice' hstored' hl
  obtain ⟨w, hw, hwhole⟩ := h.receiver.whole hfits hcopied hstored' (.inr (by rw [htype]; rfl)) _
    hbase
  have hk : k < type.length := by
    rw [hlength, hp] at hk
    exact hk
  obtain ⟨v, hv, hvfits⟩ := hwhole.element htype hk
  refine ⟨v, (σ'.memory.read_join base (.element k)).trans ?_, helement ▸ hvfits⟩
  rw [show σ'.memory.read base = .ok w from hw]
  exact hv

theorem agrees_of_copied (hlength : p'.length = p.length) (hcopied : ¬ c.IsStored r) :
    Agrees c c' σ σ' fits (.element id r args) (.element id' r' args') := by
  obtain ⟨type, htype⟩ := Option.isSome_iff_exists.1 (isSome_array?_of_bind h.bind harray)
  obtain ⟨type', htype'⟩ := Option.isSome_iff_exists.1 (isSome_array?_of_bind h.bind' harray')
  obtain ⟨-, -, -, arg, rfl, -⟩ := bind_eq_ok h.bind
  obtain ⟨-, -, -, arg', rfl, -⟩ := bind_eq_ok h.bind'
  have hiff := h.regular.isStored_element h.approves.records htype
  have hiff' := h.regular'.isStored_element h.approves'.records htype'
  refine ⟨?_, fun hx _ ↦ absurd (hiff.1 hx) hcopied, fun hfits _ hx' _ l hl ↦
    h.whole_of_copied harray harray' hlength hcopied (hiff'.1 hx') hfits hl,
    .inr ⟨fun _ ↦ isProper_of_locationOf (e := .element id r [arg]) rfl,
      fun _ ↦ isProper_of_locationOf (e := .element id' r' [arg']) rfl⟩⟩
  by_cases hstored' : c'.IsStored r'
  · exact h.value_of_copied harray harray' hlength hcopied hstored'
  · rw [valueOf_elementOfCopy h.bind harray (storageDemand_of_not_isStored hcopied),
      valueOf_elementOfCopy h.bind' harray' (storageDemand_of_not_isStored hstored'), hlength,
      h.memory]
    exact h.receiver.value.bind fun w _ _ ↦ h.argument.bindSame _

omit harray harray' in
theorem agrees : Agrees c c' σ σ' fits (.element id r args) (.element id' r' args') := by
  obtain ⟨-, -, hindexed, -⟩ := bind_eq_ok h.bind
  obtain ⟨-, -, hindexed', -⟩ := bind_eq_ok h.bind'
  rcases h.matching.indexed h.alongside hindexed hindexed' with
    ⟨p, p', harray, harray', -, hlength, hkind⟩ | ⟨kind, element, storage, storage', hspan, hspan'⟩
  · by_cases hstored : c.IsStored r
    · exact h.agrees_of_stored harray harray' hlength (hkind hstored) hstored
    · exact h.agrees_of_copied harray harray' hlength hstored
  · exact h.agrees_of_span hspan hspan'

end AccessPair

/-! ### Arguments -/

/-- As an argument, the expression is used by its value. -/
def Expr.isByValue : Expr → Bool
  | .fromEnd .. | .range .. => false
  | _ => true

theorem Expr.isByValue_iff {x : Expr} : x.isByValue ↔
    (∀ id count, x ≠ .fromEnd id count) ∧ ∀ id start stop, x ≠ .range id start stop := by
  cases x <;> simp [isByValue]

/-- What is said of an expression and of what stands against it where they are arguments or bounds,
which may be literals that have no value there. -/
structure AgreesAsArgument (c c' : Context) (σ σ' : Situation) (fits : Prop) (x x' : Expr) :
    Prop where
  subscript {a a' : Access} {name name' : Option String} {modifier modifier' : Modifier} :
    c.subscript x = .ok a.subscript → c'.subscript x' = .ok a'.subscript →
      Agree fits (c.subscriptOf σ a [⟨x, name, modifier⟩])
        (c'.subscriptOf σ' a' [⟨x', name', modifier'⟩])
  bound : Agree fits (c.boundOf σ (some x)) (c'.boundOf σ' (some x'))

section Arguments

variable {fits : Prop} {x x' : Expr}

/-- Values of one type are subscripts of one kind. -/
theorem Context.Matches.holding_eq {s s' : Subscript Expr} (hmatch : c.Matches c' x x')
    (htypes : c'.types = c.types) (hs : c.subscript x = .ok s) (hs' : c'.subscript x' = .ok s')
    (hform : x.isByValue) (hform' : x'.isByValue) (v : Value) : s'.holding v = s.holding v := by
  have hkind {c : Context} {x : Expr} {s : Subscript Expr} (hs : c.subscript x = .ok s)
      (hform : x.isByValue) :
      (c.types.get (c.typeOf x) = .int ∧ s = .int x) ∨
        (c.types.get (c.typeOf x) = .index ∧ s = .index x) ∨
        (c.types.get (c.typeOf x) = .range ∧ s = .range x) ∨
        (c.types.get (c.typeOf x) = .dynamic ∧ s = .dynamic x) := by
    rcases subscript_cases hs with ⟨id, count, h, -⟩ | ⟨id, start, stop, _, _, h, -⟩ | ⟨-, -, h⟩
    · exact absurd h ((Expr.isByValue_iff.1 hform).1 id count)
    · exact absurd h ((Expr.isByValue_iff.1 hform).2 id start stop)
    · exact h
  have hget : c'.types.get (c'.typeOf x') = c.types.get (c.typeOf x) := by rw [htypes, hmatch.type]
  have hs' := hkind hs' hform'
  rw [hget] at hs'
  rcases hkind hs hform with ⟨hx, rfl⟩ | ⟨hx, rfl⟩ | ⟨hx, rfl⟩ | ⟨hx, rfl⟩ <;> rw [hx] at hs' <;>
    rcases hs' with ⟨h, rfl⟩ | ⟨h, rfl⟩ | ⟨h, rfl⟩ | ⟨h, rfl⟩ <;> first | rfl | cases h

theorem AgreesAsArgument.of_value (hpair : Paired c c' σ σ') (hmatch : c.Matches c' x x')
    (hvalue : Agree fits (c.valueOf σ x) (c'.valueOf σ' x'))
    (hform : x.isByValue) (hform' : x'.isByValue) : AgreesAsArgument c c' σ σ' fits x x' where
  subscript {a a' name name' modifier modifier'} hs hs' := by
    obtain ⟨hfromEnd, hrange⟩ := Expr.isByValue_iff.1 hform
    obtain ⟨hfromEnd', hrange'⟩ := Expr.isByValue_iff.1 hform'
    rw [subscriptOf_value hfromEnd hrange, subscriptOf_value hfromEnd' hrange',
      funext (hmatch.holding_eq hpair.alongside.types hs hs' hform hform')]
    exact hvalue.map _
  bound := by
    rw [boundOf_value (Expr.isByValue_iff.1 hform).1, boundOf_value (Expr.isByValue_iff.1 hform').1]
    have hsame : c'.boundOfValue x' = c.boundOfValue x := by
      funext v
      rw [boundOfValue, boundOfValue, hmatch.type]
    rw [hsame]
    exact hvalue.map _

end Arguments

end InlineArrays
