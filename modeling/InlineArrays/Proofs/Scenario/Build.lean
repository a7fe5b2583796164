import InlineArrays.Proofs.Except
import InlineArrays.Proofs.Types.Table
import InlineArrays.Resolution
import InlineArrays.Scenario.Program

/-!
# What building keeps

A step of building a method body keeps an invariant of drafts if it holds again after every step
that succeeds.  The table of types is built by operations on tables, from the empty table to that of
the program, and so well formed.
-/

namespace InlineArrays

/-- What the analysis of a method of a program reads. -/
def Program.context (p : Program) (members : MemberTable) (m : Method) : Context :=
  ⟨p.types, members, m⟩

/-- The types that an expression names. -/
def Expr.named : Expr → List TypeId
  | .call _ _ _ type | .default _ type => [type]
  | _ => []

namespace MethodDraft

variable {α β : Type} {pre : MethodDraft → Prop}

/-- Where `act` succeeds from a draft with `pre`, its result and the draft it leaves have `post`. -/
def Ensures (pre : MethodDraft → Prop) (act : Build α) (post : α → MethodDraft → Prop) : Prop :=
  ∀ ⦃d a d'⦄, pre d → act d = .ok (a, d') → post a d'

namespace Ensures

theorem pure {a : α} {post : α → MethodDraft → Prop} (h : ∀ d, pre d → post a d) :
    Ensures pre (Pure.pure a) post := by
  intro d a' d' hd hrun
  cases hrun
  exact h d hd

theorem bind {act : Build α} {f : α → Build β} {mid : α → MethodDraft → Prop}
    {post : β → MethodDraft → Prop} (hact : Ensures pre act mid)
    (hf : ∀ a, Ensures (mid a) (f a) post) : Ensures pre (act >>= f) post := by
  intro d b d' hd hrun
  obtain ⟨⟨a, mid⟩, hfirst, hsecond⟩ := Except.bind_eq_ok.1 hrun
  exact hf a (hact hd hfirst) hsecond

theorem map {act : Build α} {f : α → β} {post : β → MethodDraft → Prop}
    (hact : Ensures pre act fun a ↦ post (f a)) : Ensures pre (f <$> act) post := by
  intro d b d' hd hrun
  obtain ⟨⟨a, mid⟩, hfirst, hsecond⟩ := Except.bind_eq_ok.1 hrun
  cases hsecond
  exact hact hd hfirst

theorem mono {act : Build α} {pre' : MethodDraft → Prop} {post post' : α → MethodDraft → Prop}
    (h : Ensures pre act post) (hpre : ∀ d, pre' d → pre d) (hpost : ∀ a d, post a d → post' a d) :
    Ensures pre' act post' :=
  fun _ _ _ hd hrun ↦ hpost _ _ (h (hpre _ hd) hrun)

theorem forM {f : α → Build Unit} {l : List α} {inv : MethodDraft → Prop}
    (hf : ∀ a, Ensures inv (f a) fun _ ↦ inv) : Ensures inv (l.forM f) fun _ ↦ inv := by
  induction l with
  | nil => exact pure fun _ hd ↦ hd
  | cons a l ih => exact (hf a).bind fun _ ↦ ih

end Ensures

/-- Resolving a type changes nothing but the table of types. -/
theorem resolve_keeps {inv : MethodDraft → Prop} (hinv : ∀ d types, inv d → inv { d with types })
    (name : String) : Ensures inv (resolve name) fun _ ↦ inv := by
  intro d id d' hd hrun
  unfold resolve liftTypes at hrun
  split at hrun
  · cases hrun
    exact hinv _ _ hd
  · cases hrun

/-- Looking a variable up changes nothing. -/
theorem variableNamed_keeps (name : String) : Ensures pre (variableNamed name) fun _ ↦ pre := by
  intro d a d' hd hrun
  unfold variableNamed at hrun
  split at hrun
  · cases hrun
    exact hd
  · cases hrun

/-! ## Terms

Building an expression resolves types and records expressions, and does nothing else.  The types
that a recorded expression names have just been resolved.
-/

section

variable {inv : MethodDraft → Prop} {resolved : TypeId → MethodDraft → Prop}
  (hresolve : ∀ name, Ensures inv (resolve name) fun type d ↦ inv d ∧ resolved type d)
  (hrecord : ∀ d make, (∀ id, ∀ type ∈ (make id).named, resolved type d) → inv d →
    inv { d with body := (d.body.record make).2 })

section

include hrecord

theorem record_keeps {make : ExprId → Expr} (hmake : ∀ id, (make id).named = []) :
    Ensures inv (record make) fun _ ↦ inv := by
  intro d a d' hd hrun
  cases hrun
  exact hrecord d make (fun id type htype ↦ by simp [hmake] at htype) hd

theorem recordNaming_keeps {make : ExprId → Expr} {type : TypeId}
    (hmake : ∀ id, (make id).named = [type]) :
    Ensures (fun d ↦ inv d ∧ resolved type d) (record make) fun _ ↦ inv := by
  intro d a d' hd hrun
  cases hrun
  refine hrecord d make (fun id named hnamed ↦ ?_) hd.1
  rw [hmake, List.mem_singleton] at hnamed
  rw [hnamed]
  exact hd.2

theorem recordFields_keeps (e : Expr) (names : List String) :
    Ensures inv (onBody (·.recordFields e names)) fun _ ↦ inv := by
  induction names generalizing e with
  | nil =>
    intro d a d' hd hrun
    cases hrun
    exact hd
  | cons name names ih =>
    intro d a d' hd hrun
    have hfield : Ensures inv (record (.field · e name)) fun _ ↦ inv :=
      record_keeps hrecord fun _ ↦ rfl
    exact ih _ (hfield hd rfl) hrun

theorem rangeTerm_keeps {start stop : Build (Option Expr)} (hstart : Ensures inv start fun _ ↦ inv)
    (hstop : Ensures inv stop fun _ ↦ inv) : Ensures inv (rangeTerm start stop) fun _ ↦ inv :=
  hstart.bind fun _ ↦ hstop.bind fun _ ↦ record_keeps hrecord fun _ ↦ rfl

end

include hresolve hrecord

mutual

theorem term_keepsNaming (receiver : Option Expr) :
    (t : Term) → Ensures inv (term receiver t) fun _ ↦ inv
  | .path _ => (variableNamed_keeps _).bind fun _ ↦ (record_keeps hrecord fun _ ↦ rfl).bind fun _ ↦
      recordFields_keeps hrecord _ _
  | .field of _ => (term_keepsNaming receiver of).bind fun _ ↦ record_keeps hrecord fun _ ↦ rfl
  | .int _ | .bool _ | .string _ => record_keeps hrecord fun _ ↦ rfl
  | .fromEnd count => (term_keepsNaming receiver count).bind fun _ ↦
      record_keeps hrecord fun _ ↦ rfl
  | .range start stop => by
    unfold term
    refine rangeTerm_keeps hrecord ?_ ?_
    · cases start with
      | none => exact .pure fun _ hd ↦ hd
      | some bound => exact (term_keepsNaming receiver bound).map
    · cases stop with
      | none => exact .pure fun _ hd ↦ hd
      | some bound => exact (term_keepsNaming receiver bound).map
  | .default type => (hresolve type).bind fun _ ↦ recordNaming_keeps hrecord fun _ ↦ rfl
  | .call _ _ type => (hresolve type).bind fun _ ↦ recordNaming_keeps hrecord fun _ ↦ rfl
  | .index of position => (term_keepsNaming receiver of).bind fun _ ↦
      (term_keepsNaming receiver position).bind fun _ ↦ record_keeps hrecord fun _ ↦ rfl
  | .element of args => (term_keepsNaming receiver of).bind fun _ ↦
      (arguments_keepNaming receiver args).bind fun _ ↦ record_keeps hrecord fun _ ↦ rfl
  | .span of _ => (term_keepsNaming receiver of).bind fun _ ↦ record_keeps hrecord fun _ ↦ rfl
  | .conditional of access => (term_keepsNaming receiver of).bind fun _ ↦
      (record_keeps hrecord fun _ ↦ rfl).bind fun placeholder ↦
        (term_keepsNaming (some placeholder) access).bind fun _ ↦ record_keeps hrecord fun _ ↦ rfl
  | .receiver => by
    unfold term
    split
    · exact .pure fun _ hd ↦ hd
    · exact fun _ _ _ _ hrun ↦ nomatch hrun
termination_by structural t => t

theorem arguments_keepNaming (receiver : Option Expr) :
    (args : List (Argument Term)) → Ensures inv (arguments receiver args) fun _ ↦ inv
  | [] => .pure fun _ hd ↦ hd
  | arg :: args => (term_keepsNaming receiver arg.value).bind fun _ ↦
      (arguments_keepNaming receiver args).bind fun _ ↦ .pure fun _ hd ↦ hd
termination_by structural args => args

end

end

section

variable {inv : MethodDraft → Prop} (hresolve : ∀ name, Ensures inv (resolve name) fun _ ↦ inv)
  (hrecord : ∀ d make, inv d → inv { d with body := (d.body.record make).2 })
include hresolve hrecord

theorem term_keeps (receiver : Option Expr) (t : Term) :
    Ensures inv (term receiver t) fun _ ↦ inv :=
  term_keepsNaming (fun name ↦ (hresolve name).mono (fun _ hd ↦ hd) fun _ _ hd ↦ ⟨hd, trivial⟩)
    (fun d make _ ↦ hrecord d make) receiver t

theorem arguments_keep (receiver : Option Expr) (args : List (Argument Term)) :
    Ensures inv (arguments receiver args) fun _ ↦ inv :=
  arguments_keepNaming (fun name ↦ (hresolve name).mono (fun _ hd ↦ hd) fun _ _ hd ↦ ⟨hd, trivial⟩)
    (fun d make _ ↦ hrecord d make) receiver args

end

/-- A method is built step by step: an invariant that holds once there is a receiver is kept to the
end if each kind of step keeps it. -/
theorem method_keeps {inv : MethodDraft → Prop} (m : MethodDecl)
    (howner : Ensures pre (owner m.owner) fun _ ↦ inv)
    (hresolve : ∀ name, Ensures inv (resolve name) fun _ ↦ inv)
    (hreturns : ∀ returnType, Ensures inv
      (onBody fun b ↦ ((), { b with returns := m.returns, returnType })) fun _ ↦ inv)
    (hparameter : ∀ p, Ensures inv (parameter p) fun _ ↦ inv)
    (hlocal : ∀ l, Ensures inv (stackLocal l) fun _ ↦ inv)
    (haction : ∀ a, Ensures inv (action a) fun _ ↦ inv) :
    Ensures pre (method m) fun _ ↦ inv := by
  have hreturn : Ensures inv (returnType m.returnType) fun _ ↦ inv := by
    cases m.returnType with
    | none => exact .pure fun _ hd ↦ hd
    | some type => exact Ensures.map (f := some) (hresolve type)
  exact howner.bind fun _ ↦ hreturn.bind fun type ↦ (hreturns type).bind fun _ ↦
    (Ensures.forM hparameter).bind fun _ ↦ (Ensures.forM hlocal).bind fun _ ↦ Ensures.forM haction

section

variable {inv : MethodDraft → Prop} (hinv : ∀ d d' : MethodDraft, d'.body.exprs = d.body.exprs →
  d'.body.statements = d.body.statements → inv d → inv d')
include hinv

/-- A change of the body that neither records nor appends. -/
theorem onBody_keepsWritten {change : Body → α × Body}
    (h : ∀ b, (change b).2.exprs = b.exprs ∧ (change b).2.statements = b.statements) :
    Ensures inv (onBody change) fun _ ↦ inv := by
  intro d a d' hd hrun
  cases hrun
  exact hinv d _ (h d.body).1 (h d.body).2 hd

theorem bring_keepsWritten (name : String) (v : VariableId) :
    Ensures inv (bring name v) fun _ ↦ inv := by
  intro d a d' hd hrun
  unfold bring at hrun
  split at hrun
  · cases hrun
  · cases hrun
    exact hinv d _ rfl rfl hd

/-- What is written of a method is written by its actions. -/
theorem method_keepsWritten (m : MethodDecl) (haction : ∀ a, Ensures inv (action a) fun _ ↦ inv) :
    Ensures inv (method m) fun _ ↦ inv := by
  have hresolve (name : String) : Ensures inv (resolve name) fun _ ↦ inv :=
    resolve_keeps (fun d types hd ↦ hinv d { d with types } rfl rfl hd) name
  have hdeclare (v : Variable) : Ensures inv (declare v) fun _ ↦ inv :=
    (onBody_keepsWritten hinv fun _ ↦ ⟨rfl, rfl⟩).bind fun _ ↦
      (bring_keepsWritten hinv _ _).bind fun _ ↦ .pure fun _ hd ↦ hd
  refine method_keeps m ?_ hresolve (fun _ ↦ onBody_keepsWritten hinv fun _ ↦ ⟨rfl, rfl⟩)
    (fun p ↦ (hresolve p.type).bind fun _ ↦ (hdeclare _).bind fun _ ↦ .pure fun _ hd ↦ hd)
    (fun l ↦ (hresolve l.type).bind fun _ ↦ (hdeclare _).bind fun _ ↦ .pure fun _ hd ↦ hd) haction
  cases m.owner with
  | none => exact .pure fun _ hd ↦ hd
  | some o => exact (hresolve o.type).bind fun _ ↦
      (onBody_keepsWritten hinv fun _ ↦ ⟨rfl, rfl⟩).bind fun _ ↦ bring_keepsWritten hinv _ _

end

/-! ## Types -/

/-- Steps that only build on the table of types. -/
abbrev KeepsTypes (act : Build α) : Prop := Ensures (·.types.Built) act fun _ d ↦ d.types.Built

theorem resolve_keepsTypes (name : String) : KeepsTypes (resolve name) := by
  intro d id d' hd hrun
  unfold resolve liftTypes at hrun
  split at hrun
  · rename_i h
    cases hrun
    exact hd.resolve h
  · cases hrun

theorem onBody_keepsTypes (change : Body → α × Body) : KeepsTypes (onBody change) := by
  intro d a d' hd hrun
  cases hrun
  exact hd

theorem bring_keepsTypes (name : String) (v : VariableId) : KeepsTypes (bring name v) := by
  intro d a d' hd hrun
  unfold bring at hrun
  split at hrun
  · cases hrun
  · cases hrun
    exact hd

theorem term_keepsTypes (receiver : Option Expr) (t : Term) : KeepsTypes (term receiver t) :=
  term_keeps resolve_keepsTypes (fun _ _ hd ↦ hd) receiver t

theorem arguments_keepsTypes (receiver : Option Expr) (args : List (Argument Term)) :
    KeepsTypes (arguments receiver args) :=
  arguments_keep resolve_keepsTypes (fun _ _ hd ↦ hd) receiver args

theorem append_keepsTypes (s : Statement) : KeepsTypes (append s) := onBody_keepsTypes _

theorem action_keepsTypes : (a : Action) → KeepsTypes (action a)
  | .expression value => (term_keepsTypes none value).bind fun _ ↦ append_keepsTypes _
  | .assign target value => (term_keepsTypes none target).bind fun _ ↦
      (term_keepsTypes none value).bind fun _ ↦ append_keepsTypes _
  | .compound target _ value => (term_keepsTypes none target).bind fun _ ↦
      (term_keepsTypes none value).bind fun _ ↦ append_keepsTypes _
  | .refLocal _ _ type init => (resolve_keepsTypes type).bind fun _ ↦
      (term_keepsTypes none init).bind fun _ ↦ (onBody_keepsTypes _).bind fun _ ↦
        bring_keepsTypes _ _
  | .call _ args => (arguments_keepsTypes none args).bind fun _ ↦ append_keepsTypes _
  | .ret none => append_keepsTypes _
  | .ret (some value) => (term_keepsTypes none value).bind fun _ ↦ append_keepsTypes _

theorem declare_keepsTypes (v : Variable) : KeepsTypes (declare v) :=
  (onBody_keepsTypes _).bind fun _ ↦ (bring_keepsTypes _ _).bind fun _ ↦ .pure fun _ hd ↦ hd

theorem owner_keepsTypes (o : Option OwnerDecl) : KeepsTypes (owner o) := by
  cases o with
  | none => exact .pure fun _ hd ↦ hd
  | some o =>
    exact (resolve_keepsTypes _).bind fun _ ↦ (onBody_keepsTypes _).bind fun _ ↦
      bring_keepsTypes _ _

theorem method_keepsTypes (m : MethodDecl) : KeepsTypes (method m) := by
  refine method_keeps m (owner_keepsTypes m.owner) resolve_keepsTypes (fun _ ↦ onBody_keepsTypes _)
    (fun p ↦ ?_) (fun l ↦ ?_) action_keepsTypes
  · exact (resolve_keepsTypes p.type).bind fun _ ↦ (declare_keepsTypes _).bind fun _ ↦
      .pure fun _ hd ↦ hd
  · exact (resolve_keepsTypes l.type).bind fun _ ↦ (declare_keepsTypes _).bind fun _ ↦
      .pure fun _ hd ↦ hd

end MethodDraft

namespace Scenario

theorem addArray_built {t t' : TypeTable} {d : ArrayDecl} (ht : t.Built)
    (h : addArray t d = .ok t') : t'.Built := by
  obtain ⟨⟨element, mid⟩, hresolve, h⟩ := Except.bind_eq_ok.1 h
  obtain ⟨⟨id, added⟩, hadd, rfl⟩ := Except.map_eq_ok.1 h
  exact (ht.resolve hresolve).addArray hadd

theorem defineStruct_built {t t' : TypeTable} {d : TypeId × StructDecl} (ht : t.Built)
    (h : defineStruct t d = .ok t') : t'.Built := by
  obtain ⟨⟨fields, mid⟩, hfields, hdefine⟩ := Except.bind_eq_ok.1 h
  have hmid : mid.Built := by
    have hstep : ∀ (state : List Field × TypeTable) (f : FieldDecl) (state' : List Field × TypeTable),
        state.2.Built → addField state f = .ok state' → state'.2.Built := by
      intro state f state' hstate h
      obtain ⟨⟨type, types⟩, hresolve, h⟩ := Except.bind_eq_ok.1 h
      cases h
      exact hstate.resolve hresolve
    exact Except.foldlM_inv hstep (b := ([], t)) ht hfields
  exact hmid.defineFields hdefine

theorem declareTypes_built {s : Scenario} {types : TypeTable}
    (h : s.declareTypes = .ok types) : types.Built := by
  obtain ⟨structs, hstructs, h⟩ := Except.bind_eq_ok.1 h
  obtain ⟨arrays, harrays, h⟩ := Except.bind_eq_ok.1 h
  have hstructs : structs.Built := by
    refine Except.foldlM_inv (fun t d t' ht hstep ↦ ?_) .empty hstructs
    obtain ⟨⟨id, added⟩, hdeclare, rfl⟩ := Except.map_eq_ok.1 hstep
    exact ht.declareStruct hdeclare
  have harrays : arrays.Built :=
    Except.foldlM_inv (fun _ _ _ ht hstep ↦ addArray_built ht hstep) hstructs harrays
  exact Except.foldlM_inv (fun _ _ _ ht hstep ↦ defineStruct_built ht hstep) harrays h

theorem buildTypes_built {s : Scenario} {types : TypeTable} (h : s.buildTypes = .ok types) :
    types.Built := by
  obtain ⟨declared, hdeclared, h⟩ := Except.bind_eq_ok.1 h
  split at h
  · cases h
  · cases h
    exact declareTypes_built (Except.mapError_eq_ok.1 hdeclared)

theorem buildTypes_wellFormed {s : Scenario} {types : TypeTable} (h : s.buildTypes = .ok types) :
    types.WellFormed := (buildTypes_built h).wellFormed

theorem addMethod_eq_ok {p p' : Program} {m : MethodDecl} (h : addMethod p m = .ok p') :
    p.methods.any (·.name == m.name) = false ∧ ∃ draft : MethodDraft,
      MethodDraft.method m { types := p.types, body := { name := m.name } } = .ok ((), draft) ∧
        p' = { types := draft.types, methods := p.methods ++ [draft.body.finish] } := by
  unfold addMethod at h
  split at h
  · cases h
  · rename_i hname
    obtain ⟨⟨_, draft⟩, hdraft, h⟩ := Except.bind_eq_ok.1 h
    cases h
    exact ⟨by simpa using hname, draft, hdraft, rfl⟩

/-- What every method that is built has, every method of a program has. -/
theorem build_methods {s : Scenario} {p : Program} {P : Body → Prop}
    (hmethod : ∀ (d : MethodDecl) types draft,
      MethodDraft.method d { types, body := { name := d.name } } = .ok ((), draft) → P draft.body)
    (h : s.build = .ok p) : ∀ m ∈ p.methods, P m.toBody := by
  obtain ⟨types, -, h⟩ := Except.bind_eq_ok.1 h
  have hstep (p : Program) (d : MethodDecl) (p' : Program) (hp : ∀ m ∈ p.methods, P m.toBody)
      (hstep : addMethod p d = .ok p') : ∀ m ∈ p'.methods, P m.toBody := by
    obtain ⟨-, draft, hdraft, rfl⟩ := addMethod_eq_ok hstep
    refine List.forall_mem_append.2 ⟨hp, fun m hm ↦ ?_⟩
    rw [List.mem_singleton.1 hm]
    exact hmethod d p.types draft hdraft
  exact Except.foldlM_inv hstep (by simp) h

/-- The types of a program are built from the empty table. -/
theorem build_built {s : Scenario} {p : Program} (h : s.build = .ok p) : p.types.Built := by
  obtain ⟨types, htypes, h⟩ := Except.bind_eq_ok.1 h
  have hstep (p : Program) (m : MethodDecl) (p' : Program) (hp : p.types.Built)
      (h : addMethod p m = .ok p') : p'.types.Built := by
    obtain ⟨-, draft, hdraft, rfl⟩ := addMethod_eq_ok h
    exact MethodDraft.method_keepsTypes m hp hdraft
  exact Except.foldlM_inv hstep (buildTypes_built htypes) h

theorem build_wellFormed {s : Scenario} {p : Program} (h : s.build = .ok p) :
    p.types.WellFormed := (build_built h).wellFormed

end Scenario

end InlineArrays
