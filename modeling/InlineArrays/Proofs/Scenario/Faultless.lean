import InlineArrays.Proofs.Scenario.Tables
import InlineArrays.Proofs.Types.Proper

/-!
# Programs name proper types

Every type that a declaration, a variable or an expression of a program names is read from a name, so
none of them is the error type.
-/

namespace InlineArrays

namespace TypeTable

variable {t t' : TypeTable} {id : TypeId}

theorem Faultless.defineFields (ht : t.Faultless) {fields : List Field}
    (hfields : ∀ f ∈ fields, t.Proper f.type) (h : t.defineFields id fields = .ok t') :
    t'.Faultless := by
  obtain ⟨-, -, type, hget, rfl, hother⟩ := defineFields_eq_ok h
  have hproper {ref : TypeId} (href : t.Proper ref) : t'.Proper ref := by
    by_cases heq : ref = id
    · rw [Proper, heq, hget]
      intro h
      cases h
    · rwa [Proper, hother ref heq]
  intro other ref href
  by_cases heq : other = id
  · rw [heq, hget] at href
    obtain ⟨f, hf, rfl⟩ := List.mem_map.1 href
    exact hproper (hfields f hf)
  · rw [hother other heq] at href
    exact hproper (ht other ref href)

end TypeTable

namespace Scenario

variable {t t' : TypeTable}

theorem addArray_faultless {d : ArrayDecl} (ht : t.Faultless) (h : addArray t d = .ok t') :
    t'.Faultless := by
  obtain ⟨⟨element, mid⟩, hresolve, h⟩ := Except.bind_eq_ok.1 h
  obtain ⟨⟨id, added⟩, hadd, rfl⟩ := Except.map_eq_ok.1 h
  obtain ⟨hmid, helement, -⟩ := ht.resolve hresolve
  exact hmid.addArray helement hadd

theorem defineStruct_faultless {d : TypeId × StructDecl} (ht : t.Faultless)
    (h : defineStruct t d = .ok t') : t'.Faultless := by
  obtain ⟨⟨fields, mid⟩, hfields, hdefine⟩ := Except.bind_eq_ok.1 h
  let Known (state : List Field × TypeTable) : Prop :=
    state.2.Faultless ∧ ∀ f ∈ state.1, state.2.Proper f.type
  have hstep (state : List Field × TypeTable) (f : FieldDecl) (state' : List Field × TypeTable)
      (hstate : Known state) (h : addField state f = .ok state') : Known state' := by
    obtain ⟨⟨type, types⟩, hresolve, h⟩ := Except.bind_eq_ok.1 h
    cases h
    obtain ⟨hfaultless, htype, hkept⟩ := hstate.1.resolve hresolve
    refine ⟨hfaultless, fun g hg ↦ ?_⟩
    rcases List.mem_append.1 hg with hg | hg
    · exact hkept _ (hstate.2 g hg)
    · rw [List.mem_singleton.1 hg]
      exact htype
  have hknown : Known (fields, mid) := Except.foldlM_inv hstep ⟨ht, by simp⟩ hfields
  exact hknown.1.defineFields hknown.2 hdefine

theorem declareTypes_faultless {s : Scenario} {types : TypeTable}
    (h : s.declareTypes = .ok types) : types.Faultless := by
  obtain ⟨structs, hstructs, h⟩ := Except.bind_eq_ok.1 h
  obtain ⟨arrays, harrays, h⟩ := Except.bind_eq_ok.1 h
  have hstructs : structs.Faultless := by
    refine Except.foldlM_inv (fun t d t' ht hstep ↦ ?_) TypeTable.empty_faultless hstructs
    obtain ⟨⟨id, added⟩, hdeclare, rfl⟩ := Except.map_eq_ok.1 hstep
    exact ht.declareStruct hdeclare
  have harrays : arrays.Faultless :=
    Except.foldlM_inv (fun _ _ _ ht hstep ↦ addArray_faultless ht hstep) hstructs harrays
  exact Except.foldlM_inv (fun _ _ _ ht hstep ↦ defineStruct_faultless ht hstep) harrays h

end Scenario

/-- The types of the variables and those that expressions name are proper. -/
structure Body.NamesProper (types : TypeTable) (b : Body) : Prop where
  vars : ∀ v ∈ b.vars, types.Proper v.type
  exprs : ∀ e ∈ b.exprs, ∀ type ∈ e.named, types.Proper type

theorem Body.NamesProper.mono {types types' : TypeTable} {b : Body} (hb : b.NamesProper types)
    (h : ∀ type, types.Proper type → types'.Proper type) : b.NamesProper types' :=
  ⟨fun v hv ↦ h _ (hb.vars v hv), fun e he type htype ↦ h type (hb.exprs e he type htype)⟩

namespace MethodDraft

/-- The draft names proper types so far, and those in `known` are proper as well. -/
structure Faultless (known : TypeId → Prop) (d : MethodDraft) : Prop where
  types : d.types.Faultless
  body : d.body.NamesProper d.types
  known : ∀ type, known type → d.types.Proper type

variable {known : TypeId → Prop}

/-- The known types and one more. -/
def Known.add (known : TypeId → Prop) (type : TypeId) : TypeId → Prop :=
  fun other ↦ known other ∨ other = type

abbrev KeepsFaultless {α : Type} (known : TypeId → Prop) (act : Build α) : Prop :=
  Ensures (Faultless known) act fun _ ↦ Faultless known

theorem Faultless.forget {d : MethodDraft} {type : TypeId} (hd : d.Faultless (Known.add known type)) :
    d.Faultless known :=
  ⟨hd.types, hd.body, fun other hother ↦ hd.known other (.inl hother)⟩

theorem resolve_faultless (name : String) :
    Ensures (Faultless known) (resolve name) fun type ↦ Faultless (Known.add known type) := by
  intro d type d' hd hrun
  unfold resolve liftTypes at hrun
  split at hrun
  · rename_i h
    cases hrun
    obtain ⟨hfaultless, htype, hkept⟩ := hd.types.resolve h
    refine ⟨hfaultless, hd.body.mono hkept, fun other hother ↦ ?_⟩
    rcases hother with hother | rfl
    · exact hkept other (hd.known other hother)
    · exact htype
  · cases hrun

theorem Faultless.record {d : MethodDraft} {make : ExprId → Expr}
    (hmake : ∀ id, ∀ type ∈ (make id).named, d.types.Proper type) (hd : d.Faultless known) :
    { d with body := (d.body.record make).2 }.Faultless known := by
  refine ⟨hd.types, ⟨hd.body.vars, fun e he type htype ↦ ?_⟩, hd.known⟩
  rcases Array.mem_push.1 he with he | rfl
  · exact hd.body.exprs e he type htype
  · exact hmake _ type htype

/-- A type that an expression names has just been resolved. -/
theorem resolve_proper (name : String) :
    Ensures (Faultless known) (resolve name) fun type d ↦ d.Faultless known ∧ d.types.Proper type :=
  (resolve_faultless name).mono (fun _ hd ↦ hd) fun type _ hd ↦ ⟨hd.forget, hd.known type (.inr rfl)⟩

theorem term_faultless (receiver : Option Expr) (t : Term) : KeepsFaultless known (term receiver t) :=
  term_keepsNaming resolve_proper (fun _ _ hmake hd ↦ hd.record hmake) receiver t

theorem arguments_faultless (receiver : Option Expr) (args : List (Argument Term)) :
    KeepsFaultless known (arguments receiver args) :=
  arguments_keepNaming resolve_proper (fun _ _ hmake hd ↦ hd.record hmake) receiver args

theorem append_faultless (s : Statement) : KeepsFaultless known (append s) := by
  intro d a d' hd hrun
  cases hrun
  exact ⟨hd.types, ⟨hd.body.vars, hd.body.exprs⟩, hd.known⟩

theorem bring_faultless (name : String) (v : VariableId) : KeepsFaultless known (bring name v) := by
  intro d a d' hd hrun
  unfold bring at hrun
  split at hrun
  · cases hrun
  · cases hrun
    exact ⟨hd.types, hd.body, hd.known⟩

/-- A step of the body that declares a variable of a known type and records nothing. -/
theorem onBody_faultless {α : Type} {change : Body → α × Body} (v : Variable)
    (hvars : ∀ b, (change b).2.vars = b.vars.push v) (hexprs : ∀ b, (change b).2.exprs = b.exprs) :
    Ensures (Faultless (Known.add known v.type)) (onBody change) fun _ ↦ Faultless known := by
  intro d a d' hd hrun
  cases hrun
  refine ⟨hd.types, ⟨fun w hw ↦ ?_, fun e he ↦ ?_⟩, hd.forget.known⟩
  · rw [hvars] at hw
    rcases Array.mem_push.1 hw with hw | rfl
    · exact hd.body.vars w hw
    · exact hd.known _ (.inr rfl)
  · rw [hexprs] at he
    exact hd.body.exprs e he

theorem declare_faultless (v : Variable) :
    Ensures (Faultless (Known.add known v.type)) (declare v) fun _ ↦ Faultless known :=
  (onBody_faultless v (fun _ ↦ rfl) fun _ ↦ rfl).bind fun _ ↦ (bring_faultless _ _).bind fun _ ↦
    .pure fun _ hd ↦ hd

theorem action_faultless : (a : Action) → KeepsFaultless known (action a)
  | .expression value => (term_faultless none value).bind fun _ ↦ append_faultless _
  | .assign target value => (term_faultless none target).bind fun _ ↦
      (term_faultless none value).bind fun _ ↦ append_faultless _
  | .compound target _ value => (term_faultless none target).bind fun _ ↦
      (term_faultless none value).bind fun _ ↦ append_faultless _
  | .refLocal name readonly type init => (resolve_faultless type).bind fun type ↦
      (term_faultless none init).bind fun _ ↦
        (onBody_faultless { name, kind := .refLocal readonly, type } (fun _ ↦ rfl)
          fun _ ↦ rfl).bind fun _ ↦ bring_faultless _ _
  | .call _ args => (arguments_faultless none args).bind fun _ ↦ append_faultless _
  | .ret none => append_faultless _
  | .ret (some value) => (term_faultless none value).bind fun _ ↦ append_faultless _

theorem owner_faultless (o : Option OwnerDecl) : KeepsFaultless known (owner o) := by
  cases o with
  | none => exact .pure fun _ hd ↦ hd
  | some o =>
    exact (resolve_faultless o.type).bind fun type ↦
      (onBody_faultless { name := "this", kind := .receiver, type } (fun _ ↦ rfl)
        fun _ ↦ rfl).bind fun _ ↦ bring_faultless _ _

theorem method_faultless (m : MethodDecl) : KeepsFaultless known (method m) := by
  refine method_keeps m (owner_faultless m.owner)
    (fun name ↦ (resolve_proper name).mono (fun _ hd ↦ hd) fun _ _ hd ↦ hd.1)
    (fun type d _ d' hd hrun ↦ ?_) (fun p ↦ ?_) (fun l ↦ ?_) action_faultless
  · cases hrun
    exact ⟨hd.types, ⟨hd.body.vars, hd.body.exprs⟩, hd.known⟩
  · exact (resolve_faultless p.type).bind fun type ↦
      (declare_faultless ⟨p.name, .parameter p.kind, type, p.confined, p.kind != .output⟩).bind
        fun _ ↦ .pure fun _ hd ↦ hd
  · exact (resolve_faultless l.type).bind fun type ↦
      (declare_faultless ⟨l.name, .stackLocal, type, false, l.assigned⟩).bind fun _ ↦
        .pure fun _ hd ↦ hd

end MethodDraft

/-- The types of a program are made of proper ones, and its methods name no others. -/
structure Program.Faultless (p : Program) : Prop where
  types : p.types.Faultless
  methods : ∀ m ∈ p.methods, m.toBody.NamesProper p.types

theorem Scenario.build_faultless {s : Scenario} {p : Program} (h : s.build = .ok p) :
    p.Faultless := by
  obtain ⟨types, htypes, h⟩ := Except.bind_eq_ok.1 h
  have htypes : types.Faultless := by
    obtain ⟨declared, hdeclared, htypes⟩ := Except.bind_eq_ok.1 htypes
    split at htypes
    · cases htypes
    · obtain rfl := Except.ok.inj htypes
      exact declareTypes_faultless (Except.mapError_eq_ok.1 hdeclared)
  refine Except.foldlM_inv (fun p m p' (hp : p.Faultless) hstep ↦ ?_) ⟨htypes, by simp⟩ h
  obtain ⟨-, draft, hdraft, rfl⟩ := addMethod_eq_ok hstep
  -- the methods that are there name types that are proper before the new one is built
  have hempty : ({ types := p.types, body := { name := m.name } } : MethodDraft).Faultless
      p.types.Proper := ⟨hp.types, ⟨by simp, by simp⟩, fun _ htype ↦ htype⟩
  have hdraft := MethodDraft.method_faultless m hempty hdraft
  refine ⟨hdraft.types, fun method hmethod ↦ ?_⟩
  rcases List.mem_append.1 hmethod with hmethod | hmethod
  · exact (hp.methods method hmethod).mono hdraft.known
  · rw [List.mem_singleton.1 hmethod]
    exact hdraft.body

end InlineArrays
