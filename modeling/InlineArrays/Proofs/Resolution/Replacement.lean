import InlineArrays.Proofs.Parts
import InlineArrays.Proofs.Resolution.AccessTypes
import InlineArrays.Proofs.Resolution.PathStorage
import InlineArrays.Proofs.Validation.Accepted

/-!
# Replacing the placeholder of an access

In the access of a conditional a placeholder stands for the receiver.  Written out in its place, the
receiver is a variable or a chain of fields, with an address perhaps, where the placeholder is a value
without one.  The types of all parts of the access stay the same; parts that have an address keep it
and its mutability, and some that have none get one.
-/

namespace InlineArrays

/-- Neither a call nor a conversion to a span. -/
def Expr.isPlain : Expr → Bool
  | .call .. | .span .. => false
  | _ => true

/-- Two occurrences of a variable, or of one chain of fields of it. -/
inductive SameChain : Expr → Expr → Prop
  | var {id id' : ExprId} {v : VariableId} : SameChain (.var id v) (.var id' v)
  | field {id id' : ExprId} {receiver receiver' : Expr} {name : String} :
    SameChain receiver receiver' → SameChain (.field id receiver name) (.field id' receiver' name)

/-- Receivers of conditional accesses, with those that stand against them; none stands against the
one that is written out. -/
abbrev ReceiverPairs := List (Expr × Option Expr)

/-- In accesses to `r` and to `r'`, the bindings of other receivers of these ids are gone. -/
def ReceiverPairs.bind (Γ : ReceiverPairs) (r r' : Expr) : ReceiverPairs :=
  (r, some r') :: Γ.filter fun p ↦ p.1.id != r.id && p.2.all (·.id != r'.id)

/-- The second expression is the first with `e` written out for the placeholders that stand for it.
Nothing is called and nothing converted to a span. -/
inductive Replaces (e : Expr) : ReceiverPairs → Expr → Expr → Prop
  | var {Γ : ReceiverPairs} {id id' : ExprId} {v : VariableId} :
    Replaces e Γ (.var id v) (.var id' v)
  | int {Γ : ReceiverPairs} {id id' : ExprId} {n : Int64} : Replaces e Γ (.int id n) (.int id' n)
  | bool {Γ : ReceiverPairs} {id id' : ExprId} {b : Bool} :
    Replaces e Γ (.bool id b) (.bool id' b)
  | string {Γ : ReceiverPairs} {id id' : ExprId} {text : String} :
    Replaces e Γ (.string id text) (.string id' text)
  | default {Γ : ReceiverPairs} {id id' : ExprId} {type : TypeId} :
    Replaces e Γ (.default id type) (.default id' type)
  | field {Γ : ReceiverPairs} {id id' : ExprId} {r r' : Expr} {name : String} :
    Replaces e Γ r r' → Replaces e Γ (.field id r name) (.field id' r' name)
  | fromEnd {Γ : ReceiverPairs} {id id' : ExprId} {count count' : Expr} :
    Replaces e Γ count count' → Replaces e Γ (.fromEnd id count) (.fromEnd id' count')
  | range {Γ : ReceiverPairs} {id id' : ExprId} {start stop start' stop' : Option Expr} :
    start.isSome = start'.isSome → stop.isSome = stop'.isSome →
      (∀ x x', start = some x → start' = some x' → Replaces e Γ x x') →
        (∀ x x', stop = some x → stop' = some x' → Replaces e Γ x x') →
          Replaces e Γ (.range id start stop) (.range id' start' stop')
  | element {Γ : ReceiverPairs} {id id' : ExprId} {r r' : Expr} {arg arg' : Argument Expr} :
    Replaces e Γ r r' → Replaces e Γ arg.value arg'.value →
      Replaces e Γ (.element id r [arg]) (.element id' r' [arg'])
  | conditional {Γ : ReceiverPairs} {id id' : ExprId} {r r' access access' : Expr} :
    Replaces e Γ r r' → Replaces e (Γ.bind r r') access access' →
      Replaces e Γ (.conditional id r access) (.conditional id' r' access')
  | placeholder {Γ : ReceiverPairs} {id id' : ExprId} {r r' : Expr} :
    (r, some r') ∈ Γ → Replaces e Γ (.placeholder id r) (.placeholder id' r')
  | written {Γ : ReceiverPairs} {id : ExprId} {e' : Expr} :
    (e, none) ∈ Γ → SameChain e e' → Replaces e Γ (.placeholder id e) e'

namespace Context

/-! ## Methods that resolve alike -/

/-- Two methods over one table of types with the same variables and the same first values of
locals. -/
structure Alongside (c c' : Context) : Prop where
  types : c'.types = c.types
  vars : c'.method.vars = c.method.vars
  owner : c'.method.owner = c.method.owner
  refLocalInit? : ∀ v, c'.method.refLocalInit? v = c.method.refLocalInit? v
  firstAssignment? : ∀ v, c'.method.firstAssignment? v = c.method.firstAssignment? v

namespace Alongside

variable {c c' : Context}

theorem var (h : c.Alongside c') (v : VariableId) : c'.method.var v = c.method.var v := by
  rw [Body.var, Body.var, h.vars]

section

variable (h : c.Alongside c')
include h

theorem accessType_eq (storage? : Expr → Option Storage) :
    c'.accessType storage? = c.accessType storage? := by
  funext receiver receiverType slicing
  simp only [accessType, findSpan, h.types]

theorem typeWith_eq (storage? : Expr → Option Storage) :
    (e : Expr) → c'.typeWith storage? e = c.typeWith storage? e
  | .var _ target => by rw [typeWith, typeWith, h.var]
  | .field _ receiver name => by
    rw [typeWith, typeWith, typeWith_eq storage? receiver, h.types]
  | .element _ receiver args => by
    unfold typeWith
    rw [typeWith_eq storage? receiver, h.accessType_eq]
    cases args with
    | nil => rfl
    | cons arg args =>
      obtain ⟨value, name, modifier⟩ := arg
      dsimp only
      rw [typeWith_eq storage? value]
  | .span _ operand readonly => by
    simp only [typeWith, typeWith_eq storage? operand, h.types, findSpan]
  | .conditional _ _ access => by rw [typeWith, typeWith, typeWith_eq storage? access]
  | .placeholder _ receiver => by rw [typeWith, typeWith, typeWith_eq storage? receiver]
  | .call .. | .default .. | .int .. | .bool .. | .string .. | .fromEnd .. | .range .. => rfl

theorem fixedStorage_eq (v : Variable) : c'.fixedStorage v = c.fixedStorage v := by
  unfold fixedStorage
  rw [h.owner, h.types]

theorem variableStorage_eq (target : VariableId) :
    c'.variableStorage target = c.variableStorage target := by
  funext type cut init
  simp only [variableStorage, h.var, h.types, h.refLocalInit?, h.firstAssignment?, h.fixedStorage_eq]

theorem storageWith_eq (type? : Expr → Option TypeId)
    (init : List VariableId → Expr → Option Storage) (active : List VariableId) :
    (e : Expr) → c'.storageWith type? init active e = c.storageWith type? init active e
  | .var id target => by rw [storageWith, storageWith, h.variableStorage_eq]
  | .field id receiver name => by
    simp only [storageWith, h.types, storageWith_eq type? init active receiver]
  | .element id receiver args => by
    simp only [storageWith, h.types, storageWith_eq type? init active receiver]
  | .span id operand readonly => by
    simp only [storageWith, h.types, storageWith_eq type? init active operand]
  | .call .. | .default .. => by simp only [storageWith, h.types]
  | .int .. | .bool .. | .string .. | .fromEnd .. | .range .. | .conditional .. | .placeholder .. =>
    rfl

theorem followLocals_eq (type? : Expr → Option TypeId) (jumps : Nat) :
    c'.followLocals type? jumps = c.followLocals type? jumps := by
  induction jumps with
  | zero =>
    funext active e
    exact h.storageWith_eq type? _ active e
  | succ jumps ih =>
    funext active e
    rw [followLocals, followLocals, ih]
    exact h.storageWith_eq type? _ active e

theorem freshStorage_eq (questions : Nat) :
    c'.freshStorage questions = c.freshStorage questions := by
  induction questions with
  | zero => rfl
  | succ questions ih =>
    funext e
    rw [freshStorage, freshStorage, ih, h.followLocals_eq, h.vars,
      funext (h.typeWith_eq (c.freshStorage questions))]

/-- Where both tell the storage of a variable, they tell the same. -/
theorem storageOf?_var_agree {id id' : ExprId} {v : VariableId} {s s' : Storage}
    (hs : c.storageOf? (.var id v) = some s) (hs' : c'.storageOf? (.var id' v) = some s') :
    s' = s := by
  rw [storageOf?_var id' id, storageOf?, h.freshStorage_eq] at hs'
  rcases Nat.le_total c.questions c'.questions with hle | hle
  · exact Option.some.inj (hs'.symm.trans (freshStorage_le hle _ _ hs))
  · exact (Option.some.inj (hs.symm.trans (freshStorage_le hle _ _ hs'))).symm

end

end Alongside

/-! ## Recorded expressions of methods that resolve -/

/-- The method was built over a table that was, and resolves. -/
structure Regular (c : Context) : Prop where
  built : c.types.Built
  orderly : c.method.Orderly
  resolves : c.resolves

namespace Regular

variable {c : Context} {e r : Expr} {id : ExprId} {name : String}

theorem resolved (hc : c.Regular) (he : c.method.Records e) :
    c.typeForStorage? e = some (c.typeOf e) ∧ c.storageOf? e = some (c.storageOf e) := by
  obtain ⟨hlt, hget⟩ := Array.getElem?_eq_some_iff.1 he
  have hall := Array.all_eq_true.1 hc.resolves e.id hlt
  rw [hget, Bool.and_eq_true] at hall
  obtain ⟨t, ht⟩ := Option.isSome_iff_exists.1 hall.1
  obtain ⟨s, hs⟩ := Option.isSome_iff_exists.1 hall.2
  rw [typeForStorage?_of_typeOf? hc.orderly he ht, typeOf, storageOf, ht, hs]
  exact ⟨rfl, rfl⟩

theorem storageOf_eq (hc : c.Regular) (he : c.method.Records e) :
    ∃ init, c.storageWith c.typeForStorage? init [] e = some (c.storageOf e) ∧
      ∀ part, c.method.Records part →
        c.storageWith c.typeForStorage? init [] part = some (c.storageOf part) := by
  obtain ⟨init, hstorage⟩ := c.storageOf?_eq
  exact ⟨init, hstorage e ▸ (hc.resolved he).2, fun part hpart ↦
    hstorage part ▸ (hc.resolved hpart).2⟩

/-- A field is stored on the heap if it is a span or a field of an object, and otherwise where its
struct is. -/
theorem storageOf_field (hc : c.Regular) (he : c.method.Records (.field id r name)) :
    c.storageOf (.field id r name) =
      match c.types.spanParts? (c.typeOf (.field id r name)) with
      | some (_, readonly) => { scope := .callingMethod, origin := .heap, readonly }
      | none =>
        match c.types.struct? (c.typeOf r) with
        | none => .temporary
        | some type =>
          if type.isClass then
            { scope := .callingMethod, origin := .heap
              readonly := (type.field? name).any (·.readonly) }
          else (c.storageOf r).readonlyIf ((type.field? name).any (·.readonly) || type.isReadonly) := by
  have hr := hc.orderly.children _ he r List.mem_cons_self
  obtain ⟨init, hstorage, hparts⟩ := hc.storageOf_eq he
  refine Option.some.inj (hstorage.symm.trans ?_)
  rw [storageWith, (hc.resolved he).1, (hc.resolved hr).1, hparts r hr]
  simp only [Option.bind_eq_bind, Option.bind_some]
  cases c.types.spanParts? (c.typeOf (.field id r name)) with
  | some parts => rfl
  | none =>
    cases c.types.struct? (c.typeOf r) with
    | none => rfl
    | some type =>
      dsimp only
      split <;> rfl

theorem isStored_field (hc : c.Regular) (he : c.method.Records (.field id r name)) :
    c.IsStored (.field id r name) ↔ c.types.isSpan (c.typeOf (.field id r name)) ∨
      ∃ type, c.types.struct? (c.typeOf r) = some type ∧ (type.isClass ∨ c.IsStored r) := by
  rw [IsStored, hc.storageOf_field he, TypeTable.isSpan]
  cases c.types.spanParts? (c.typeOf (.field id r name)) with
  | some parts => simp
  | none =>
    cases c.types.struct? (c.typeOf r) with
    | none => simp [Storage.temporary]
    | some type =>
      dsimp only
      cases hclass : type.isClass <;> simp [hclass, IsStored, Storage.readonlyIf]

/-- An element of an inline array is stored as the array is; an element of a span is stored where the
span is. -/
theorem storageOf_element (hc : c.Regular) {args : List (Argument Expr)}
    (he : c.method.Records (.element id r args)) :
    c.storageOf (.element id r args) =
      match c.types.get (c.typeOf r) with
      | .array _ => (c.storageOf r).projected
      | .span _ readonly =>
        if c.types.isSpan (c.typeOf (.element id r args)) then c.storageOf r
        else { c.storageOf r with referenceable := true, readonly }
      | _ => .temporary := by
  have hr := hc.orderly.children _ he r List.mem_cons_self
  obtain ⟨init, hstorage, hparts⟩ := hc.storageOf_eq he
  refine Option.some.inj (hstorage.symm.trans ?_)
  rw [storageWith, (hc.resolved he).1, (hc.resolved hr).1, hparts r hr]
  simp only [Option.bind_eq_bind, Option.bind_some]
  cases c.types.get (c.typeOf r) with
  | array type => rfl
  | span element readonly =>
    dsimp only
    split <;> rfl
  | _ => rfl

/-- An element of an inline array is stored if the array is. -/
theorem isStored_element (hc : c.Regular) {arg : Argument Expr} {type : ArrayType}
    (he : c.method.Records (.element id r [arg])) (htype : c.types.array? (c.typeOf r) = some type) :
    c.IsStored (.element id r [arg]) ↔ c.IsStored r := by
  rw [IsStored, hc.storageOf_element he, TypeTable.get_of_array? htype]
  exact Iff.rfl

/-- The type of an access is what it was bound to yield; that of a slice is a span. -/
theorem typeOf_element (hc : c.Regular) {args : List (Argument Expr)} {a : Access}
    (he : c.method.Records (.element id r args)) (hbind : c.bind (.element id r args) = .ok a) :
    c.typeOf (.element id r args) = a.type ∧ (a.isSlice → c.types.isSpan a.type) := by
  have hr := hc.orderly.children _ he r List.mem_cons_self
  have hstorage : (c.storageOf? r).isSome := by rw [(hc.resolved hr).2]; rfl
  obtain ⟨htype, -, hslice⟩ := typeOf?_of_bind hc.built hbind hstorage
  refine ⟨by rw [typeOf, htype, Option.getD_some], fun h ↦ ?_⟩
  rw [TypeTable.isSpan, TypeTable.spanParts?, (hslice h).2]
  rfl

end Regular

/-- A span is indexed as what it is. -/
theorem span_of_indexed {c : Context} {r : Expr} {kind : SpanKind} {element : TypeId}
    {storage : Storage} (h : c.indexed r = .ok (.span kind element storage)) :
    ∃ readonly, c.types.get (c.typeOf r) = .span element readonly ∧
      kind = .ofReadonly readonly := by
  unfold indexed at h
  split at h
  · split at h <;> cases h
  · rename_i element readonly hget
    cases h
    exact ⟨readonly, hget, rfl⟩
  · cases h
  · cases h

/-- The expression is recorded, nothing in it is called or converted to a span, and the accesses in it
bind and are fine wherever they are used. -/
structure Approves (c : Context) (e : Expr) : Prop where
  records : c.method.Records e
  isPlain : ∀ part ∈ e.parts, part.isPlain
  accesses : ∀ part ∈ e.parts, part.isElement →
    (∃ a, c.bind part = .ok a) ∧ c.innateError? part = none

namespace Approves

variable {c : Context} {e x : Expr}

theorem child (hc : c.Regular) (h : c.Approves e) (hchild : x ∈ e.children)
    (hparts : ∀ part ∈ x.parts, part ∈ e.parts) : c.Approves x where
  records := hc.orderly.children _ h.records x hchild
  isPlain part hpart := h.isPlain part (hparts part hpart)
  accesses part hpart := h.accesses part (hparts part hpart)

/-- An inline array that is sliced has an address. -/
theorem isStored_of_slice {id : ExprId} {r : Expr} {args : List (Argument Expr)} {a : Access}
    {p : Projection} (h : c.Approves (.element id r args)) (hbind : c.bind (.element id r args) = .ok a)
    (hslice : a.isSlice) (harray : a.indexed = .array p) : c.IsStored r := by
  obtain ⟨-, -, hindexed, -⟩ := bind_eq_ok hbind
  rw [harray] at hindexed
  obtain ⟨type, -, hp⟩ := project?_of_indexed hindexed
  have hstorage : p.storage = c.storageOf r := by rw [hp]
  have hinnate := (h.accesses _ (Expr.mem_parts_self _) rfl).2
  rw [innateError?, hbind] at hinnate
  simp only [harray, hslice, Bool.true_and, Projection.viaTemporary, hstorage] at hinnate
  by_contra hnot
  rw [IsStored] at hnot
  simp [hnot] at hinnate

variable {id : ExprId} {r : Expr} (hc : c.Regular)
include hc

theorem field {name : String} (h : c.Approves (.field id r name)) : c.Approves r :=
  h.child hc List.mem_cons_self fun part hpart ↦ by simp [Expr.parts_field, hpart]

theorem count (h : c.Approves (.fromEnd id r)) : c.Approves r :=
  h.child hc List.mem_cons_self fun part hpart ↦ by simp [Expr.parts_fromEnd, hpart]

theorem start {stop : Option Expr} (h : c.Approves (.range id (some r) stop)) : c.Approves r :=
  h.child hc (by simp [Expr.children]) fun part hpart ↦ by simp [Expr.parts_range, hpart]

theorem stop {start : Option Expr} (h : c.Approves (.range id start (some r))) : c.Approves r :=
  h.child hc (by simp [Expr.children]) fun part hpart ↦ by simp [Expr.parts_range, hpart]

theorem receiver {args : List (Argument Expr)} (h : c.Approves (.element id r args)) :
    c.Approves r :=
  h.child hc List.mem_cons_self fun part hpart ↦ by simp [Expr.parts_element, hpart]

theorem argument {args : List (Argument Expr)} {arg : Argument Expr}
    (h : c.Approves (.element id r args)) (harg : arg ∈ args) : c.Approves arg.value := by
  refine h.child hc ?_ fun part hpart ↦ ?_
  · exact List.mem_cons_of_mem _ (List.mem_map_of_mem harg)
  · rw [Expr.parts_element]
    exact List.mem_cons_of_mem _ <| List.mem_append_right _ <| List.mem_flatMap.2 ⟨arg, harg, hpart⟩

theorem tested {access : Expr} (h : c.Approves (.conditional id r access)) : c.Approves r :=
  h.child hc List.mem_cons_self fun part hpart ↦ by simp [Expr.parts_conditional, hpart]

theorem access {access : Expr} (h : c.Approves (.conditional id r access)) : c.Approves access :=
  h.child hc (by simp [Expr.children]) fun part hpart ↦ by simp [Expr.parts_conditional, hpart]

end Approves

/-! ## Types and storage of what stands against each other -/

/-- A default value is stored as its type tells. -/
theorem Alongside.storageOf_default_eq {c c' : Context} (halong : c.Alongside c') (hc : c.Regular)
    (hc' : c'.Regular) {id id' : ExprId} {type : TypeId} (hx : c.method.Records (.default id type))
    (hx' : c'.method.Records (.default id' type)) :
    c'.storageOf (.default id' type) = c.storageOf (.default id type) := by
  obtain ⟨init, hstorage, -⟩ := hc.storageOf_eq hx
  obtain ⟨init', hstorage', -⟩ := hc'.storageOf_eq hx'
  refine Option.some.inj (hstorage'.symm.trans (Eq.trans ?_ hstorage))
  rw [storageWith, storageWith, (hc.resolved hx).1, (hc'.resolved hx').1, halong.types]
  rfl

/-- Two expressions of one type, of which the second has an address if the first has, and may then be
written if the first may. -/
structure Matches (c c' : Context) (x x' : Expr) : Prop where
  type : c'.typeOf x' = c.typeOf x
  stored : c.IsStored x → c'.IsStored x'
  readonly : c.IsStored x → (c'.storageOf x').readonly = (c.storageOf x).readonly

namespace Matches

variable {c c' : Context} {x x' r r' : Expr} {id id' : ExprId}

/-- An expression without an address matches any of its type. -/
theorem of_not_isStored (htype : c'.typeOf x' = c.typeOf x) (h : ¬ c.IsStored x) :
    c.Matches c' x x' :=
  ⟨htype, fun hx ↦ absurd hx h, fun hx ↦ absurd hx h⟩

theorem of_storage (htype : c'.typeOf x' = c.typeOf x) (h : c'.storageOf x' = c.storageOf x) :
    c.Matches c' x x' :=
  ⟨htype, fun hx ↦ by rw [IsStored, h]; exact hx, fun _ ↦ by rw [h]⟩

section

variable (halong : c.Alongside c') (hc : c.Regular) (hc' : c'.Regular)
include halong hc hc'

theorem var {v : VariableId} (hx : c.method.Records (.var id v))
    (hx' : c'.method.Records (.var id' v)) : c.Matches c' (.var id v) (.var id' v) := by
  refine of_storage ?_ (halong.storageOf?_var_agree (hc.resolved hx).2 (hc'.resolved hx').2)
  change (c'.method.var v).type = (c.method.var v).type
  rw [halong.var]

theorem field {name : String} (h : c.Matches c' r r')
    (hx : c.method.Records (.field id r name)) (hx' : c'.method.Records (.field id' r' name)) :
    c.Matches c' (.field id r name) (.field id' r' name) := by
  have htype : c'.typeOf (.field id' r' name) = c.typeOf (.field id r name) := by
    rw [typeOf_field, typeOf_field, halong.types, h.type]
  have hstorage' := hc'.storageOf_field hx'
  rw [halong.types, htype, h.type] at hstorage'
  have hstorage := hc.storageOf_field hx
  cases hspan : c.types.spanParts? (c.typeOf (.field id r name)) with
  | some parts =>
    simp only [hspan] at hstorage hstorage'
    exact of_storage htype (hstorage'.trans hstorage.symm)
  | none =>
    cases hstruct : c.types.struct? (c.typeOf r) with
    | none =>
      simp only [hspan, hstruct] at hstorage hstorage'
      exact of_storage htype (hstorage'.trans hstorage.symm)
    | some type =>
      simp only [hspan, hstruct] at hstorage hstorage'
      by_cases hclass : type.isClass
      · rw [if_pos hclass] at hstorage hstorage'
        exact of_storage htype (hstorage'.trans hstorage.symm)
      · rw [if_neg hclass] at hstorage hstorage'
        refine ⟨htype, fun hs ↦ ?_, fun hs ↦ ?_⟩
        · rw [IsStored, hstorage] at hs
          rw [IsStored, hstorage']
          exact h.stored hs
        · rw [IsStored, hstorage] at hs
          rw [hstorage, hstorage', Storage.readonlyIf, Storage.readonlyIf, h.readonly hs]

theorem default {type : TypeId} (hx : c.method.Records (.default id type))
    (hx' : c'.method.Records (.default id' type)) :
    c.Matches c' (.default id type) (.default id' type) :=
  of_storage rfl (halong.storageOf_default_eq hc hc' hx hx')

omit hc hc' in
/-- The one is indexed as the other is. -/
theorem indexed {i i' : Indexed} (h : c.Matches c' r r') (hr : c.indexed r = .ok i)
    (hr' : c'.indexed r' = .ok i') :
    (∃ p p', i = .array p ∧ i' = .array p' ∧ p'.element = p.element ∧ p'.length = p.length ∧
      (c.IsStored r → p'.kind = p.kind)) ∨
    ∃ kind element storage storage', i = .span kind element storage ∧
      i' = .span kind element storage' := by
  cases i with
  | array p =>
    obtain ⟨type, htype, hp⟩ := project?_of_indexed hr
    have hget := TypeTable.get_of_array? htype
    cases i' with
    | array p' =>
      obtain ⟨type', htype', hp'⟩ := project?_of_indexed hr'
      rw [halong.types, h.type, htype] at htype'
      cases htype'
      refine .inl ⟨p, p', rfl, rfl, by rw [hp, hp'], by rw [hp, hp'], fun hs ↦ ?_⟩
      rw [hp, hp', Storage.projectsReadonly, Storage.projectsReadonly, h.readonly hs, h.stored hs,
        show (c.storageOf r).referenceable = true from hs]
    | span kind element storage =>
      obtain ⟨readonly, hget', -⟩ := span_of_indexed hr'
      rw [halong.types, h.type, hget] at hget'
      cases hget'
  | span kind element storage =>
    obtain ⟨readonly, hget, rfl⟩ := span_of_indexed hr
    cases i' with
    | array p' =>
      obtain ⟨type', htype', -⟩ := project?_of_indexed hr'
      rw [halong.types, h.type, TypeTable.array?, hget] at htype'
      cases htype'
    | span kind' element' storage' =>
      obtain ⟨readonly', hget', rfl⟩ := span_of_indexed hr'
      rw [halong.types, h.type, hget] at hget'
      cases hget'
      exact .inr ⟨_, _, _, _, rfl, rfl⟩

/-- Accesses of one form to what stands against each other. -/
theorem element {args args' : List (Argument Expr)} {a a' : Access} (h : c.Matches c' r r')
    (hx : c.Approves (.element id r args)) (hx' : c'.Approves (.element id' r' args'))
    (hbind : c.bind (.element id r args) = .ok a)
    (hbind' : c'.bind (.element id' r' args') = .ok a') (hslice : a'.isSlice = a.isSlice) :
    c.Matches c' (.element id r args) (.element id' r' args') := by
  obtain ⟨-, -, hindexed, arg, rfl, -, htype⟩ := bind_eq_ok hbind
  obtain ⟨-, -, hindexed', arg', rfl, -, htype'⟩ := bind_eq_ok hbind'
  have hsame : a'.type = a.type := by
    rw [htype, htype', show a'.subscript.isSlice = a.subscript.isSlice from hslice]
    rcases h.indexed halong hindexed hindexed' with ⟨p, p', hp, hp', helement, -, hkind⟩ |
      ⟨kind, element, storage, storage', hs, hs'⟩
    · rw [hp, hp']
      split
      · rename_i hsliced
        have hstored := hx.isStored_of_slice hbind hsliced hp
        rw [findSpan, findSpan, halong.types]
        change (c.types.findSpan p'.element p'.kind.isReadonly).getD _ =
          (c.types.findSpan p.element p.kind.isReadonly).getD _
        rw [helement, hkind hstored]
      · exact helement
    · rw [hs, hs', findSpan, findSpan, halong.types]
      rfl
  have htypes : c'.typeOf (.element id' r' [arg']) = c.typeOf (.element id r [arg]) := by
    rw [(hc.typeOf_element hx.records hbind).1, (hc'.typeOf_element hx'.records hbind').1, hsame]
  have hstorage := hc.storageOf_element hx.records
  have hstorage' := hc'.storageOf_element hx'.records
  rw [halong.types, htypes, h.type] at hstorage'
  cases hget : c.types.get (c.typeOf r) with
  | array type =>
    simp only [hget] at hstorage hstorage'
    refine ⟨htypes, fun hs ↦ ?_, fun hs ↦ ?_⟩
    · rw [IsStored, hstorage] at hs
      rw [IsStored, hstorage']
      exact h.stored hs
    · rw [IsStored, hstorage] at hs
      have hs : c.IsStored r := hs
      rw [hstorage, hstorage', Storage.projected, Storage.projected, Storage.projectsReadonly,
        Storage.projectsReadonly, h.readonly hs, h.stored hs,
        show (c.storageOf r).referenceable = true from hs]
  | span element readonly =>
    simp only [hget] at hstorage hstorage'
    by_cases hspan : c.types.isSpan (c.typeOf (.element id r [arg]))
    · rw [if_pos hspan] at hstorage hstorage'
      refine ⟨htypes, fun hs ↦ ?_, fun hs ↦ ?_⟩
      · rw [IsStored, hstorage] at hs
        rw [IsStored, hstorage']
        exact h.stored hs
      · rw [IsStored, hstorage] at hs
        rw [hstorage, hstorage']
        exact h.readonly hs
    · rw [if_neg hspan] at hstorage hstorage'
      refine ⟨htypes, fun _ ↦ ?_, fun _ ↦ ?_⟩
      · rw [IsStored, hstorage']
      · rw [hstorage, hstorage']
  | _ =>
    simp only [hget] at hstorage hstorage'
    exact of_storage htypes (hstorage'.trans hstorage.symm)

end

end Matches

/-- An access is a slice if its argument is a range. -/
theorem isSlice_iff {c : Context} (hc : c.Regular) {id : ExprId} {r : Expr} {arg : Argument Expr} {a : Access}
    (hbind : c.bind (.element id r [arg]) = .ok a) :
    a.isSlice ↔ c.typeOf arg.value = TypeTable.range := by
  obtain ⟨-, -, -, arg', harg, hform, -⟩ := bind_eq_ok hbind
  cases harg
  obtain ⟨t, ht⟩ := Option.isSome_iff_exists.1 (isSome_typeOf?_subscript hform)
  rw [Access.isSlice, isSlice_subscript hc.built.wellFormed hform, typeOf, ht, Option.getD_some,
    Option.some.injEq]

end Context

open Context

variable {c c' : Context} {e x x' r r' : Expr} {Γ : ReceiverPairs}

/-- Occurrences of one chain have one type and one storage. -/
theorem SameChain.resolves_eq (halong : c.Alongside c') (hc : c.Regular) (hc' : c'.Regular)
    (h : SameChain x x') (hx : c.method.Records x) (hx' : c'.method.Records x') :
    c'.typeOf x' = c.typeOf x ∧ c'.storageOf x' = c.storageOf x := by
  induction h with
  | var =>
    exact ⟨congrArg Variable.type (halong.var _),
      halong.storageOf?_var_agree (hc.resolved hx).2 (hc'.resolved hx').2⟩
  | @field id id' r r' name _ ih =>
    obtain ⟨htype, hstorage⟩ := ih (hc.orderly.children _ hx _ List.mem_cons_self)
      (hc'.orderly.children _ hx' _ List.mem_cons_self)
    have htypes : c'.typeOf (.field id' r' name) = c.typeOf (.field id r name) := by
      rw [typeOf_field, typeOf_field, halong.types, htype]
    refine ⟨htypes, ?_⟩
    rw [hc.storageOf_field hx, hc'.storageOf_field hx', halong.types, htypes, htype, hstorage]

/-- Receivers that stand against each other have one type. -/
def ReceiverPairs.Typed (Γ : ReceiverPairs) (c c' : Context) : Prop :=
  ∀ r r', (r, some r') ∈ Γ → c'.typeOf r' = c.typeOf r

theorem ReceiverPairs.Typed.bind (h : Γ.Typed c c') (htype : c'.typeOf r' = c.typeOf r) :
    (Γ.bind r r').Typed c c' := by
  intro s s' hs
  rcases List.mem_cons.1 hs with hs | hs
  · cases hs
    exact htype
  · exact h s s' (List.mem_filter.1 hs).1

namespace Replaces

/-- By cases of what is replaced in; a receiver that is written out may get an address. -/
theorem matches_of_approves (halong : c.Alongside c') (hc : c.Regular) (hc' : c'.Regular)
    (h : Replaces e Γ x x') (hΓ : Γ.Typed c c') (hx : c.Approves x) (hx' : c'.Approves x') :
    c.Matches c' x x' := by
  induction h with
  | var => exact .var halong hc hc' hx.records hx'.records
  | int | bool | string | fromEnd | range =>
    exact .of_not_isStored rfl (not_isStored fun _ _ ↦ rfl)
  | default => exact .default halong hc hc' hx.records hx'.records
  | field _ ih =>
    exact .field halong hc hc' (ih hΓ (hx.field hc) (hx'.field hc')) hx.records hx'.records
  | @element Γ id id' r r' arg arg' _ _ ih iharg =>
    obtain ⟨⟨a, hbind⟩, -⟩ := hx.accesses _ (Expr.mem_parts_self _) rfl
    obtain ⟨⟨a', hbind'⟩, -⟩ := hx'.accesses _ (Expr.mem_parts_self _) rfl
    have harg := iharg hΓ (hx.argument hc List.mem_cons_self) (hx'.argument hc' List.mem_cons_self)
    have hslice : a'.isSlice = a.isSlice := by
      rw [Bool.eq_iff_iff, isSlice_iff hc hbind, isSlice_iff hc' hbind', harg.type]
    exact .element halong hc hc' (ih hΓ (hx.receiver hc) (hx'.receiver hc')) hx hx' hbind hbind'
      hslice
  | conditional _ _ ih ihaccess =>
    have htested := ih hΓ (hx.tested hc) (hx'.tested hc')
    have haccess := ihaccess (hΓ.bind htested.type) (hx.access hc) (hx'.access hc')
    exact .of_not_isStored haccess.type (not_isStored fun _ _ ↦ rfl)
  | placeholder hmem =>
    have htype := hΓ _ _ hmem
    exact .of_not_isStored htype (not_isStored fun _ _ ↦ rfl)
  | written _ hsame =>
    have hrecords := hc.orderly.children _ hx.records _ List.mem_cons_self
    exact .of_not_isStored (hsame.resolves_eq halong hc hc' hrecords hx'.records).1
      (not_isStored fun _ _ ↦ rfl)

end Replaces

end InlineArrays
