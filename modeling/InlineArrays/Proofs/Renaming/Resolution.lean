import InlineArrays.Proofs.Renaming.Method
import InlineArrays.Projection

/-!
# Resolution under other type ids

In a table that the types are embedded into, expressions have the types under their new ids, and the
same storage.
-/

namespace InlineArrays

/-- The context with its types under other ids, in a table that holds them. -/
def Context.rename (c : Context) (ρ : TypeId → TypeId) (u : TypeTable) : Context :=
  ⟨u, c.members, c.method.rename ρ⟩

def Projection.rename (ρ : TypeId → TypeId) (p : Projection) : Projection :=
  { p with arrayType := ρ p.arrayType, element := ρ p.element }

namespace Context

variable {c : Context} {ρ : TypeId → TypeId} {u : TypeTable} (h : TypeTable.Embeds ρ c.types u)

theorem refLocalInit?_rename (v : VariableId) :
    (c.rename ρ u).method.refLocalInit? v = (c.method.refLocalInit? v).map (·.rename ρ) :=
  c.method.toBody.refLocalInit?_rename ρ v

theorem firstAssignment?_rename (v : VariableId) :
    (c.rename ρ u).method.firstAssignment? v = (c.method.firstAssignment? v).map (·.rename ρ) :=
  c.method.toBody.firstAssignment?_rename ρ v

@[simp]
theorem span_rename (e : Expr) : (c.rename ρ u).method.span (e.rename ρ) = c.method.span e :=
  c.method.span_rename ρ e

@[simp]
theorem text_rename (e : Expr) : (c.rename ρ u).method.text (e.rename ρ) = c.method.text e :=
  c.method.text_rename ρ e

section

include h

theorem var_rename (v : VariableId) :
    (c.rename ρ u).method.var v = (c.method.var v).rename ρ :=
  c.method.toBody.var_rename h.error v

theorem get_rename (id : TypeId) : (c.rename ρ u).types.get (ρ id) = (c.types.get id).rename ρ :=
  h.get id

theorem findSpan_rename {element span : TypeId} {readonly : Bool}
    (hspan : c.types.findSpan element readonly = some span) :
    (c.rename ρ u).findSpan (ρ element) readonly = ρ (c.findSpan element readonly) := by
  have hfound : u.findSpan (ρ element) readonly = some (ρ span) :=
    h.findSpan (TypeTable.findSpan_eq_some hspan)
  rw [findSpan, findSpan, hspan]
  exact congrArg (·.getD TypeTable.error) hfound

/-- The spans over the elements of an inline array are in both tables. -/
theorem findSpan_array_rename {id : TypeId} {type : ArrayType}
    (htype : c.types.get id = .array type) (readonly : Bool) :
    (c.rename ρ u).findSpan (ρ type.element) readonly = ρ (c.findSpan type.element readonly) := by
  have harray : c.types.array? id = some type := by rw [TypeTable.array?, htype]
  obtain ⟨span, hspan, -⟩ := h.wellFormed.findSpan_array harray readonly
  exact findSpan_rename h hspan

/-! ## Types -/

section

variable {storage storage' : Expr → Option Storage} (hstorage : ∀ e, storage' (e.rename ρ) = storage e)
include hstorage

theorem accessType_rename (receiver : Expr) (receiverType : TypeId) (slicing : Option Bool) :
    (c.rename ρ u).accessType storage' (receiver.rename ρ) (ρ receiverType) slicing =
      (c.accessType storage receiver receiverType slicing).map ρ := by
  cases slicing with
  | none => rfl
  | some slicing =>
    simp only [accessType, Option.bind_eq_bind, Option.bind_some, get_rename h, hstorage]
    cases hget : c.types.get receiverType with
    | array type =>
      cases slicing with
      | true =>
        cases storage receiver with
        | none => rfl
        | some s => exact congrArg some (findSpan_array_rename h hget s.projectsReadonly)
      | false => rfl
    | span element readonly => cases slicing <;> rfl
    | _ => exact congrArg some h.error.symm

theorem typeWith_rename : (e : Expr) →
    (c.rename ρ u).typeWith storage' (e.rename ρ) = (c.typeWith storage e).map ρ
  | .var _ target => by
    simp only [Expr.rename, typeWith, var_rename h]
    rfl
  | .field _ receiver name => by
    simp only [Expr.rename, typeWith, typeWith_rename receiver]
    cases c.typeWith storage receiver with
    | none => rfl
    | some type =>
      change some (((u.struct? (ρ type)).bind (·.field? name)).map (·.type) |>.getD _) =
        some (ρ (((c.types.struct? type).bind (·.field? name)).map (·.type) |>.getD _))
      rw [h.struct?]
      cases c.types.struct? type with
      | none => exact congrArg some h.error.symm
      | some type =>
        simp only [Option.map_some, Option.bind_some, StructType.field?_rename]
        cases type.field? name with
        | none => exact congrArg some h.error.symm
        | some f => rfl
  | .call .. | .default .. => rfl
  | .int .. => congrArg some (h.builtin _ (by decide)).symm
  | .bool .. => congrArg some (h.builtin _ (by decide)).symm
  | .string .. => congrArg some (h.builtin _ (by decide)).symm
  | .fromEnd .. => congrArg some (h.builtin _ (by decide)).symm
  | .range .. => congrArg some (h.builtin _ (by decide)).symm
  | .element _ receiver args => by
    rw [Expr.rename]
    unfold typeWith
    rw [typeWith_rename receiver]
    cases c.typeWith storage receiver with
    | none => rfl
    | some type =>
      refine Eq.trans (congrArg ((c.rename ρ u).accessType storage' (receiver.rename ρ) (ρ type))
        ?_) (accessType_rename h hstorage receiver type _)
      -- Renaming leaves alone whether the argument is a range.
      cases args with
      | nil => rfl
      | cons arg args =>
        simp only [Expr.renameArguments, typeWith_rename arg.value, Option.map_map]
        refine congrArg (Option.map · (c.typeWith storage arg.value)) (funext fun type ↦ ?_)
        simp only [Function.comp_apply]
        rw [Bool.eq_iff_iff, beq_iff_eq, beq_iff_eq, h.eq_range_iff]
  | .span _ operand readonly => by
    simp only [Expr.rename, typeWith, typeWith_rename operand]
    cases c.typeWith storage operand with
    | none => rfl
    | some type =>
      change some (((u.array? (ρ type)).map fun type ↦ _).getD _) =
        some (ρ (((c.types.array? type).map fun type ↦ _).getD _))
      rw [h.array?]
      cases harray : c.types.array? type with
      | none => exact congrArg some h.error.symm
      | some array =>
        obtain ⟨span, hspan, -⟩ := h.wellFormed.findSpan_array harray readonly
        exact congrArg some (findSpan_rename h hspan)
  | .conditional _ _ access => typeWith_rename access
  | .placeholder _ receiver => typeWith_rename receiver
termination_by structural e => e

end

/-! ## Storage -/

theorem fixedStorage_rename (v : Variable) :
    (c.rename ρ u).fixedStorage (v.rename ρ) = c.fixedStorage v := by
  obtain ⟨name, kind, type, confined, assigned⟩ := v
  cases kind with
  | receiver =>
    have howner : (c.rename ρ u).method.owner = c.method.owner.map (·.rename ρ) := rfl
    simp only [fixedStorage, Variable.rename, howner]
    cases c.method.owner with
    | none => rfl
    | some owner =>
      have hstruct : (c.rename ρ u).types.struct? (owner.rename ρ).type =
          (c.types.struct? owner.type).map (·.rename ρ) := h.struct? owner.type
      simp only [Option.map_some, hstruct]
      cases c.types.struct? owner.type <;> rfl
  | parameter kind => cases kind <;> rfl
  | _ => rfl

theorem variableStorage_rename {init init' : Expr → Option Storage}
    (hinit : ∀ e, init' (e.rename ρ) = init e) (target : VariableId) (type : TypeId) (cut : Bool) :
    (c.rename ρ u).variableStorage target (ρ type) cut init' =
      c.variableStorage target type cut init := by
  have hspan : (c.rename ρ u).types.spanParts? (ρ type) = _ := h.spanParts? type
  simp only [variableStorage, hspan, var_rename h, refLocalInit?_rename, firstAssignment?_rename,
    Variable.rename]
  cases c.types.spanParts? type with
  | none =>
    cases hkind : (c.method.var target).kind with
    | refLocal readonly =>
      cases cut with
      | true => rfl
      | false => cases c.method.refLocalInit? target <;> simp [hinit]
    | _ =>
      have hfixed := fixedStorage_rename h (c.method.var target)
      simp only [Variable.rename, hkind] at hfixed
      exact congrArg some hfixed
  | some parts =>
    cases (c.method.var target).kind with
    | stackLocal => cases c.method.firstAssignment? target <;> simp [hinit]
    | _ => rfl

omit h in
/-- The storage of a value is the same in every table. -/
theorem storageWith_temporary {type type' : Expr → Option TypeId}
    (htype : ∀ e, type' (e.rename ρ) = (type e).map ρ) {e : Expr} {s s' : Option Storage}
    (hs : s = (type e).bind fun _ ↦ some .temporary)
    (hs' : s' = (type' (e.rename ρ)).bind fun _ ↦ some .temporary) : s' = s := by
  rw [hs, hs', htype]
  cases type e <;> rfl

theorem storageWith_rename {type type' : Expr → Option TypeId}
    (htype : ∀ e, type' (e.rename ρ) = (type e).map ρ)
    {init init' : List VariableId → Expr → Option Storage}
    (hinit : ∀ active e, init' active (e.rename ρ) = init active e) (active : List VariableId) :
    (e : Expr) → (c.rename ρ u).storageWith type' init' active (e.rename ρ) =
      c.storageWith type init active e
  | .var id target => by
    have ht := htype (.var id target)
    simp only [Expr.rename] at ht
    simp only [Expr.rename, storageWith, ht]
    cases type (.var id target) with
    | none => rfl
    | some t => exact variableStorage_rename h (hinit _) target t _
  | .field id receiver name => by
    have ht := htype (.field id receiver name)
    simp only [Expr.rename] at ht
    simp only [Expr.rename, storageWith, ht, htype receiver]
    cases type (.field id receiver name) with
    | none => rfl
    | some t =>
      have hspan : (c.rename ρ u).types.spanParts? (ρ t) = _ := h.spanParts? t
      simp only [Option.map_some, Option.bind_eq_bind, Option.bind_some, hspan]
      cases c.types.spanParts? t with
      | some parts => rfl
      | none =>
        cases type receiver with
        | none => rfl
        | some r =>
          have hstruct : (c.rename ρ u).types.struct? (ρ r) = _ := h.struct? r
          simp only [Option.map_some, Option.map_none, Option.bind_some, hstruct]
          cases c.types.struct? r with
          | none => rfl
          | some struct =>
            simp only [Option.map_some, storageWith_rename htype hinit active receiver,
              StructType.field?_rename, Option.any_map]
            rfl
  | .call id callee returns t => by
    have ht := htype (.call id callee returns t)
    simp only [Expr.rename] at ht
    simp only [Expr.rename, storageWith, ht]
    cases type (.call id callee returns t) with
    | none => rfl
    | some t =>
      have hspan : (c.rename ρ u).types.spanParts? (ρ t) = _ := h.spanParts? t
      simp only [Option.map_some, Option.bind_eq_bind, Option.bind_some, hspan]
      cases c.types.spanParts? t <;> cases returns <;> rfl
  | .default id t => by
    have ht := htype (.default id t)
    simp only [Expr.rename] at ht
    simp only [Expr.rename, storageWith, ht]
    cases type (.default id t) with
    | none => rfl
    | some t =>
      have hspan : (c.rename ρ u).types.spanParts? (ρ t) = _ := h.spanParts? t
      simp only [Option.map_some, Option.bind_eq_bind, Option.bind_some, hspan]
      cases c.types.spanParts? t <;> rfl
  | .element id receiver args => by
    have ht := htype (.element id receiver args)
    simp only [Expr.rename] at ht
    simp only [Expr.rename, storageWith, ht, htype receiver]
    cases type (.element id receiver args) with
    | none => rfl
    | some t =>
      cases type receiver with
      | none => rfl
      | some r =>
        have hisSpan : (c.rename ρ u).types.isSpan (ρ t) = _ := h.isSpan t
        simp only [Option.map_some, Option.bind_eq_bind, Option.bind_some, get_rename h, hisSpan]
        cases c.types.get r <;>
          simp only [TypeData.rename, storageWith_rename htype hinit active receiver]
  | .span id operand readonly => by
    have ht := htype (.span id operand readonly)
    simp only [Expr.rename] at ht
    simp only [Expr.rename, storageWith, ht, storageWith_rename htype hinit active operand]
    cases type (.span id operand readonly) with
    | none => rfl
    | some t =>
      have hisSpan : (c.rename ρ u).types.isSpan (ρ t) = _ := h.isSpan t
      simp only [Option.map_some, Option.bind_eq_bind, Option.bind_some, hisSpan]
  | .int .. | .bool .. | .string .. | .fromEnd .. | .range .. | .conditional .. | .placeholder .. =>
    storageWith_temporary htype rfl rfl
termination_by structural e => e

theorem followLocals_rename {type type' : Expr → Option TypeId}
    (htype : ∀ e, type' (e.rename ρ) = (type e).map ρ) (jumps : Nat) (active : List VariableId)
    (e : Expr) :
    (c.rename ρ u).followLocals type' jumps active (e.rename ρ) =
      c.followLocals type jumps active e := by
  induction jumps generalizing active e with
  | zero => exact storageWith_rename h htype (fun _ _ ↦ rfl) active e
  | succ jumps ih => exact storageWith_rename h htype ih active e

theorem freshStorage_rename (questions : Nat) (e : Expr) :
    (c.rename ρ u).freshStorage questions (e.rename ρ) = c.freshStorage questions e := by
  have hvars : (c.rename ρ u).method.vars.size = c.method.vars.size := Array.size_map
  induction questions generalizing e with
  | zero => rfl
  | succ questions ih =>
    rw [freshStorage, freshStorage, hvars]
    exact followLocals_rename h (typeWith_rename h ih) _ _ e

theorem storageOf?_rename (e : Expr) : (c.rename ρ u).storageOf? (e.rename ρ) = c.storageOf? e := by
  have hexprs : (c.rename ρ u).questions = c.questions := congrArg (· + 1) Array.size_map
  rw [storageOf?, storageOf?, hexprs, freshStorage_rename h]

theorem typeOf?_rename (e : Expr) : (c.rename ρ u).typeOf? (e.rename ρ) = (c.typeOf? e).map ρ :=
  typeWith_rename h (storageOf?_rename h) e

theorem storageOf_rename (e : Expr) : (c.rename ρ u).storageOf (e.rename ρ) = c.storageOf e := by
  rw [storageOf, storageOf, storageOf?_rename h]

theorem typeOf_rename (e : Expr) : (c.rename ρ u).typeOf (e.rename ρ) = ρ (c.typeOf e) := by
  rw [typeOf, typeOf, typeOf?_rename h]
  cases c.typeOf? e with
  | none => exact h.error.symm
  | some t => rfl

theorem resolves_rename : (c.rename ρ u).resolves = c.resolves := by
  have hexprs : (c.rename ρ u).method.exprs = c.method.exprs.map (·.rename ρ) := rfl
  rw [resolves, resolves, hexprs, Array.all_map]
  simp [typeOf?_rename h, storageOf?_rename h]

theorem project?_rename (receiver : Expr) :
    (c.rename ρ u).project? (receiver.rename ρ) = (c.project? receiver).map (·.rename ρ) := by
  have harray : (c.rename ρ u).types.array? (ρ (c.typeOf receiver)) = _ := h.array? _
  simp only [project?, typeOf_rename h, storageOf_rename h, harray, Option.map_map]
  rfl

end

end Context

end InlineArrays
