import InlineArrays.Proofs.Renaming.Method
import InlineArrays.Proofs.Scenario.Build
import InlineArrays.Proofs.Types.Union

/-!
# Building under other type ids

What is built over a table is built over every table that the outcome embeds into, up to the ids of
the types.  There no step adds a type: the spans it would intern are found.
-/

namespace InlineArrays

variable {ρ : TypeId → TypeId}

/-! ## Bodies -/

namespace Body

variable (b : Body)

theorem declare_rename (v : Variable) :
    (b.rename ρ).declare (v.rename ρ) = ((b.declare v).1, (b.declare v).2.rename ρ) := by
  simp [declare, rename]

theorem own_rename (o : Owner) :
    (b.rename ρ).own (o.rename ρ) = ((b.own o).1, (b.own o).2.rename ρ) := by
  simp [own, declare, rename, Variable.rename, Owner.rename]

theorem record_rename {make make' : ExprId → Expr} (h : ∀ id, make' id = (make id).rename ρ) :
    (b.rename ρ).record make' = ((b.record make).1.rename ρ, (b.record make).2.rename ρ) := by
  simp [record, rename, h]

theorem recordFields_rename (e : Expr) (names : List String) :
    (b.rename ρ).recordFields (e.rename ρ) names =
      ((b.recordFields e names).1.rename ρ, (b.recordFields e names).2.rename ρ) := by
  induction names generalizing b e with
  | nil => rfl
  | cons name names ih =>
    have hrecord : (b.rename ρ).record (.field · (e.rename ρ) name) =
        ((b.record (.field · e name)).1.rename ρ, (b.record (.field · e name)).2.rename ρ) :=
      b.record_rename fun _ ↦ rfl
    simp only [recordFields, List.foldl_cons, hrecord]
    exact ih _ _

theorem name_recordFields (e : Expr) (names : List String) :
    (b.recordFields e names).2.name = b.name := by
  induction names generalizing b e with
  | nil => rfl
  | cons name names ih => exact ih (b.record (.field · e name)).2 (b.record (.field · e name)).1

theorem append_rename (s : Statement) : (b.rename ρ).append (s.rename ρ) = (b.append s).rename ρ := by
  simp [append, rename]

end Body

namespace MethodDraft

/-- The draft with its types under other ids, in a table that holds them. -/
def rename (ρ : TypeId → TypeId) (u : TypeTable) (d : MethodDraft) : MethodDraft :=
  { d with types := u, body := d.body.rename ρ }

/-- Where `act` leaves a table that is embedded into `u` by way of `T`, `act'` builds the same over
`u`, with the result that `f` gives. -/
def Follows {α β : Type} (ρ : TypeId → TypeId) (T u : TypeTable) (f : α → β) (act : Build α)
    (act' : Build β) : Prop :=
  ∀ ⦃d a d'⦄, act d = .ok (a, d') → TypeTable.Spans d.types d'.types ∧ d'.body.name = d.body.name ∧
    (TypeTable.Spans d'.types T → act' (d.rename ρ u) = .ok (f a, d'.rename ρ u))

variable {α β γ δ : Type} {T u : TypeTable} {f : α → β}

namespace Follows

theorem pure (a : α) : Follows ρ T u f (Pure.pure a) (Pure.pure (f a)) := by
  rintro d a' d' hrun
  cases hrun
  exact ⟨.refl, rfl, fun _ ↦ rfl⟩

theorem bind {g : γ → δ} {act : Build α} {act' : Build β} {next : α → Build γ} {next' : β → Build δ}
    (hact : Follows ρ T u f act act') (hnext : ∀ a, Follows ρ T u g (next a) (next' (f a))) :
    Follows ρ T u g (act >>= next) (act' >>= next') := by
  intro d c d' hrun
  obtain ⟨⟨a, mid⟩, hfirst, hsecond⟩ := Except.bind_eq_ok.1 hrun
  obtain ⟨hspans, hname, hfollows⟩ := hact hfirst
  obtain ⟨hspans', hname', hfollows'⟩ := hnext a hsecond
  refine ⟨hspans.trans hspans', hname'.trans hname, fun hT ↦ ?_⟩
  exact Except.bind_eq_ok.2 ⟨_, hfollows (hspans'.trans hT), hfollows' hT⟩

theorem map {g : γ → δ} {act : Build α} {act' : Build β} {h : α → γ} {h' : β → δ}
    (hact : Follows ρ T u f act act') (hcommute : ∀ a, h' (f a) = g (h a)) :
    Follows ρ T u g (h <$> act) (h' <$> act') := by
  intro d c d' hrun
  obtain ⟨⟨a, mid⟩, hfirst, hsecond⟩ := Except.bind_eq_ok.1 hrun
  cases hsecond
  obtain ⟨hspans, hname, hfollows⟩ := hact hfirst
  refine ⟨hspans, hname, fun hT ↦ Except.bind_eq_ok.2 ⟨_, hfollows hT, ?_⟩⟩
  rw [← hcommute a]
  rfl

theorem forM {l : List α} {act : α → Build Unit} (hact : ∀ a, Follows ρ T u id (act a) (act a)) :
    Follows ρ T u id (l.forM act) (l.forM act) := by
  induction l with
  | nil => exact pure ()
  | cons a l ih => exact (hact a).bind fun _ ↦ ih

theorem onBody {change : Body → α × Body} {change' : Body → β × Body}
    (hname : ∀ b, (change b).2.name = b.name)
    (h : ∀ b, change' (b.rename ρ) = (f (change b).1, (change b).2.rename ρ)) :
    Follows ρ T u f (onBody change) (onBody change') := by
  intro d a d' hrun
  cases hrun
  refine ⟨.refl, hname d.body, fun _ ↦ ?_⟩
  unfold MethodDraft.onBody
  have hbody : (d.rename ρ u).body = d.body.rename ρ := rfl
  rw [hbody, h]
  rfl

theorem record {make make' : ExprId → Expr} (h : ∀ id, make' id = (make id).rename ρ) :
    Follows ρ T u (·.rename ρ) (record make) (record make') :=
  onBody (fun _ ↦ rfl) fun b ↦ b.record_rename h

theorem append (s : Statement) : Follows ρ T u id (append s) (append (s.rename ρ)) :=
  onBody (fun _ ↦ rfl) fun b ↦ by rw [b.append_rename, id]

theorem bring (name : String) (v : VariableId) :
    Follows ρ T u id (bring name v) (bring name v) := by
  intro d a d' hrun
  unfold MethodDraft.bring at hrun ⊢
  split at hrun
  · cases hrun
  · rename_i hnew
    cases hrun
    exact ⟨.refl, rfl, fun _ ↦ if_neg hnew⟩

theorem variableNamed (name : String) :
    Follows ρ T u id (variableNamed name) (variableNamed name) := by
  intro d v d' hrun
  unfold MethodDraft.variableNamed at hrun ⊢
  split at hrun
  · rename_i hfound
    cases hrun
    refine ⟨.refl, rfl, fun _ ↦ ?_⟩
    have hnames : (d.rename ρ u).names = d.names := rfl
    rw [hnames, hfound]
    rfl
  · cases hrun

theorem declare (v : Variable) : Follows ρ T u id (declare v) (declare (v.rename ρ)) :=
  (onBody (f := id) (fun _ ↦ rfl) fun b ↦ b.declare_rename v).bind fun _ ↦
    (bring v.name _).bind fun _ ↦ pure _

theorem rangeTerm {start start' stop stop' : Build (Option Expr)}
    (hstart : Follows ρ T u (Option.map (·.rename ρ)) start start')
    (hstop : Follows ρ T u (Option.map (·.rename ρ)) stop stop') :
    Follows ρ T u (·.rename ρ) (rangeTerm start stop) (rangeTerm start' stop') :=
  hstart.bind fun start ↦ hstop.bind fun stop ↦
    record fun id ↦ (Expr.rename_range ρ id start stop).symm

end Follows

/-- A name of a type in `T` is a name of that type in `u`. -/
theorem resolve_rename (hembeds : TypeTable.Embeds ρ T u) {t t' : TypeTable} {name : List Char} {id : TypeId}
    (h : t.resolve name = .ok (id, t')) (hspans : TypeTable.Spans t' T) :
    u.resolve name = .ok (ρ id, u) := by
  fun_induction TypeTable.resolve t name generalizing id t' with
  | case1 name found hlookup =>
    cases h
    have hfound : u.lookup (String.ofList (Text.trim name)) = some (ρ found) := by
      rw [hembeds.lookup, hspans.lookup_eq, hlookup]
      rfl
    rw [TypeTable.resolve, hfound]
  | case2 name hlookup readonly argument hform hattach ih =>
    obtain ⟨⟨element, mid⟩, hargument, h⟩ := Except.map_eq_ok.1 h
    obtain rfl : (mid.span element readonly).1 = id := congrArg Prod.fst h
    obtain rfl : (mid.span element readonly).2 = t' := congrArg Prod.snd h
    obtain ⟨hearlier, helement⟩ := TypeTable.spans_of_resolve hargument
    have hmid : TypeTable.Spans mid T :=
      Relation.ReflTransGen.head ⟨element, readonly, helement, rfl⟩ hspans
    have hnone : u.lookup (String.ofList (Text.trim name)) = none := by
      rw [hembeds.lookup, hmid.lookup_eq, hearlier.lookup_eq, hlookup]
      rfl
    have hspan : T.get (mid.span element readonly).1 = .span element readonly := by
      rw [hspans.get_eq (TypeTable.span_lt mid element readonly), TypeTable.get_span_fst]
    rw [TypeTable.resolve, hnone]
    simp only [hattach, ih hargument hmid]
    exact congrArg Except.ok (TypeTable.span_of_findSpan (hembeds.findSpan hspan))
  | case3 => cases h

namespace Follows

theorem resolve (hembeds : TypeTable.Embeds ρ T u) (name : String) :
    Follows ρ T u ρ (resolve name) (resolve name) := by
  intro d id d' hrun
  unfold MethodDraft.resolve liftTypes at hrun ⊢
  split at hrun
  · rename_i hresolve
    cases hrun
    refine ⟨(TypeTable.spans_of_resolve hresolve).1, rfl, fun hT ↦ ?_⟩
    have hresolve' : (fun types : TypeTable ↦ types.resolve name.toList) (d.rename ρ u).types =
        .ok (ρ id, u) := resolve_rename hembeds hresolve hT
    rw [hresolve']
    rfl
  · cases hrun

mutual

theorem term (hembeds : TypeTable.Embeds ρ T u) (receiver : Option Expr) : (t : Term) →
    Follows ρ T u (·.rename ρ) (MethodDraft.term receiver t)
      (MethodDraft.term (receiver.map (·.rename ρ)) t)
  | .path text => (variableNamed _).bind fun _ ↦ (record fun _ ↦ rfl).bind fun _ ↦
      onBody (fun b ↦ b.name_recordFields _ _) fun b ↦ b.recordFields_rename _ _
  | .field of _ => (term hembeds receiver of).bind fun _ ↦ record fun _ ↦ rfl
  | .int _ | .bool _ | .string _ => record fun _ ↦ rfl
  | .fromEnd count => (term hembeds receiver count).bind fun _ ↦ record fun _ ↦ rfl
  | .range start stop => by
    unfold MethodDraft.term
    refine rangeTerm ?_ ?_
    · cases start with
      | none => exact pure none
      | some bound => exact (term hembeds receiver bound).map fun _ ↦ rfl
    · cases stop with
      | none => exact pure none
      | some bound => exact (term hembeds receiver bound).map fun _ ↦ rfl
  | .default type => (resolve hembeds type).bind fun _ ↦ record fun _ ↦ rfl
  | .call _ _ type => (resolve hembeds type).bind fun _ ↦ record fun _ ↦ rfl
  | .index of position => (term hembeds receiver of).bind fun _ ↦
      (term hembeds receiver position).bind fun _ ↦ record fun _ ↦ rfl
  | .element of args => (term hembeds receiver of).bind fun _ ↦
      (arguments hembeds receiver args).bind fun _ ↦
        record fun _ ↦ (Expr.rename_element ρ _ _ _).symm
  | .span of _ => (term hembeds receiver of).bind fun _ ↦ record fun _ ↦ rfl
  | .conditional of access => (term hembeds receiver of).bind fun _ ↦ (record fun _ ↦ rfl).bind
      fun placeholder ↦ (term hembeds (some placeholder) access).bind fun _ ↦ record fun _ ↦ rfl
  | .receiver => by
    unfold MethodDraft.term
    cases receiver with
    | none => exact fun _ _ _ hrun ↦ nomatch hrun
    | some placeholder => exact pure placeholder
termination_by structural t => t

theorem arguments (hembeds : TypeTable.Embeds ρ T u) (receiver : Option Expr) :
    (args : List (Argument Term)) →
    Follows ρ T u (List.map (·.rename ρ)) (arguments receiver args)
      (MethodDraft.arguments (receiver.map (·.rename ρ)) args)
  | [] => pure []
  | arg :: args => (term hembeds receiver arg.value).bind fun _ ↦
      (arguments hembeds receiver args).bind fun _ ↦ pure _
termination_by structural args => args

end

theorem action (hembeds : TypeTable.Embeds ρ T u) : (a : Action) →
    Follows ρ T u id (action a) (action a)
  | .expression value => (term hembeds none value).bind fun _ ↦ append _
  | .assign target value => (term hembeds none target).bind fun _ ↦
      (term hembeds none value).bind fun _ ↦ append _
  | .compound target _ value => (term hembeds none target).bind fun _ ↦
      (term hembeds none value).bind fun _ ↦ append _
  | .refLocal name readonly type init => by
    refine (resolve hembeds type).bind fun type ↦ (term hembeds none init).bind fun init ↦ ?_
    refine (onBody (f := id) (fun _ ↦ rfl) fun b ↦ ?_).bind fun bound ↦ bring name bound
    have hdeclare : (b.rename ρ).declare { name, kind := .refLocal readonly, type := ρ type } = _ :=
      b.declare_rename { name, kind := .refLocal readonly, type }
    simp only [id, hdeclare, ← Body.append_rename]
    rfl
  | .call _ args => (arguments hembeds none args).bind fun _ ↦ append _
  | .ret none => append (.ret none)
  | .ret (some value) => (term hembeds none value).bind fun _ ↦ append _

theorem parameter (hembeds : TypeTable.Embeds ρ T u) (p : ParameterDecl) :
    Follows ρ T u id (parameter p) (parameter p) :=
  (resolve hembeds p.type).bind fun _ ↦ (declare _).bind fun _ ↦ pure ()

theorem stackLocal (hembeds : TypeTable.Embeds ρ T u) (l : LocalDecl) :
    Follows ρ T u id (stackLocal l) (stackLocal l) :=
  (resolve hembeds l.type).bind fun _ ↦ (declare _).bind fun _ ↦ pure ()

theorem owner (hembeds : TypeTable.Embeds ρ T u) (o : Option OwnerDecl) :
    Follows ρ T u id (owner o) (owner o) := by
  cases o with
  | none => exact pure ()
  | some o =>
    exact (resolve hembeds o.type).bind fun type ↦
      (onBody (f := id) (fun _ ↦ rfl) fun b ↦ b.own_rename ⟨type, o.readonly, o.unscopedRef⟩).bind
        fun receiver ↦ bring "this" receiver

theorem returnType (hembeds : TypeTable.Embeds ρ T u) (type : Option String) :
    Follows ρ T u (Option.map ρ) (returnType type) (returnType type) := by
  cases type with
  | none => exact pure none
  | some type => exact (resolve hembeds type).map fun _ ↦ rfl

theorem method (hembeds : TypeTable.Embeds ρ T u) (m : MethodDecl) :
    Follows ρ T u id (method m) (method m) :=
  (owner hembeds m.owner).bind fun _ ↦ (returnType hembeds m.returnType).bind fun _ ↦
    (onBody (f := id) (fun _ ↦ rfl) fun _ ↦ rfl).bind fun _ ↦
      (forM (parameter hembeds)).bind fun _ ↦ (forM (stackLocal hembeds)).bind fun _ ↦
        forM (action hembeds)

end Follows

end MethodDraft

end InlineArrays
