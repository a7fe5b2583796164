import InlineArrays.Code.OfMethod
import InlineArrays.Proofs.Elements.Reached

/-!
# Running bodies of writes to elements

Each statement of a tracked body changes what the activation sees as it changes what tracking says,
so that the element returned at the end holds what tracking says it holds.
-/

namespace InlineArrays.Context

variable {c : Context} {x : VariableId} {t t' : Tracking} {s : Statement} {e : Expr} {w : Window}
  {path : List Step} {A : Activation} {view view' : View} {known : List (Operand × Value)}
  {cell : Nat}

/-! ## What is seen -/

/-- A local is given a window. -/
theorem Holds.assign (h : Holds c x cell t view) {v : VariableId} (hv : v ≠ x)
    (hw : c.IsWindow x w) :
    Holds c x cell { t with windows := Function.update t.windows v (some w) }
      { view with slots := assign v (windowValue cell (c.method.var v).kind w) view.slots } where
  parameter := by
    rw [lookup?_assign, if_neg hv]
    exact h.parameter
  declared v' hv' := by
    rw [lookup?_assign]
    split
    · rfl
    · exact h.declared v' hv'
  windows v' w' hw' := by
    dsimp only at hw'
    by_cases heq : v = v'
    · subst heq
      rw [Function.update_self] at hw'
      obtain rfl := Option.some.inj hw'
      exact ⟨hw, by rw [lookup?_assign, if_pos rfl]⟩
    · rw [Function.update_of_ne (Ne.symm heq)] at hw'
      rw [lookup?_assign, if_neg heq]
      exact h.windows v' w' hw'
  value := h.value

/-- An integer in the parameter is replaced. -/
theorem Holds.write (h : Holds c x cell t view) (n : Int64)
    (hpath : c.types.Leads (c.method.var x).type path TypeTable.int) :
    ∃ value value', view.heap[cell]? = some value ∧ Value.set (.int n) value path = .ok value' ∧
      Holds c x cell { t with held := Function.update t.held path n }
        { view with heap := view.heap.set cell value' } := by
  obtain ⟨value, hcell, hvalue⟩ := h.value
  obtain ⟨value', hset, hget⟩ := Value.exists_set_int n (hvalue path hpath)
  refine ⟨value, value', hcell, hset, h.parameter, h.declared, h.windows, value', ?_, ?_⟩
  · exact List.getElem?_set_self (List.getElem?_eq_some_iff.1 hcell).1
  · intro path' hpath'
    dsimp only
    rw [hget path' _ (hvalue path' hpath'), Function.update_apply]

/-! ## Statements -/

/-- A local for slices is one of the variables of the method. -/
theorem var_lt_of_span {v : VariableId} {element : TypeId} {readonly : Bool}
    (htype : c.types.get (c.method.var v).type = .span element readonly) :
    v < c.method.vars.size := by
  refine Nat.lt_of_not_le fun hle ↦ ?_
  have herror : (c.method.var v).type = TypeTable.error := by
    rw [Body.var, Array.getElem?_eq_none hle]
    rfl
  rw [herror, TypeTable.get_of_lt _ (by decide)] at htype
  cases htype

section

variable (hc : c.Analysed x) (htypes : c.types.LengthsFit)
include hc htypes

theorem Holds.realizes_statement (h : Holds c x cell t view) (ht : Tracking.Sound c x t)
    (hs : c.Tracks x t s t') :
    ∃ view', Holds c x cell t' view' ∧
      ∀ (A : Activation) known, A.Realizes view known (c.lowerStatement s) view' fun _ ↦ [] := by
  have hne {v : VariableId} (hv : (c.method.var v).kind ≠ .parameter .ref) : v ≠ x :=
    fun heq ↦ hv (heq ▸ hc.parameter.kind_eq)
  cases hs with
  | @slice id v value w hkind htype hslice =>
    refine ⟨_, h.assign (hne (by rw [hkind]; nofun)) (isWindow_of_slice? hslice), fun A known ↦ ?_⟩
    obtain ⟨old, hold⟩ := Option.isSome_iff_exists.1 (h.declared v (var_lt_of_span htype))
    have haddress : A.Realizes view known (c.lower .address (.var id v)) view fun r ↦
        [(r, .address ⟨.slot A.frame v, []⟩)] :=
      .bind (realizes_localAddress hkind) fun _ ↦ .pure (by simp)
    refine .bind haddress fun target ↦ .bind (h.realizes_slice hc htypes hslice) fun source ↦ ?_
    rw [hkind]
    exact .store (List.mem_cons_of_mem _ List.mem_cons_self) List.mem_cons_self
      fun m hm ↦ hm.write_slot hold
  | @write id literal receiver position n w i hw hi =>
    have hpath := (h.isWindow hw).leads_element (Expr.position?_lt hi)
    obtain ⟨value, value', hcell, hset, hview'⟩ := h.write n hpath
    refine ⟨_, hview', fun A known ↦ ?_⟩
    have haddress : A.Realizes view known
        (c.lower .address (.element id receiver [⟨position, none, .none⟩])) view fun r ↦
          [(r, .address ⟨.heap cell, w.element i⟩)] :=
      h.realizes_element hc htypes ht hw hi fun o more ↦ .pure (by simp)
    refine .bind haddress fun target ↦ .bind (.literal n) fun source ↦ ?_
    exact .store (List.mem_cons_of_mem _ List.mem_cons_self) List.mem_cons_self
      fun m hm ↦ hm.write_heap hcell hset
  | @bind v init path w hkind hplace hwhole =>
    refine ⟨_, h.assign (hne (by rw [hkind]; nofun)) (isWindow_of_whole? hwhole), fun A known ↦ ?_⟩
    obtain ⟨T, array, hplace', -⟩ := whole?_eq_some hwhole
    have haddress : A.Realizes view known (c.lowerInMemory init) view fun r ↦
        [(r, .address ⟨.heap cell, w.path⟩)] := by
      unfold lowerInMemory
      rw [hc.storageDemand_of_gives (.whole hwhole)]
      exact .bind (hplace'.realizes_address hc htypes h.parameter) fun _ ↦ .pure (by simp)
    rw [hkind]
    exact .bind haddress fun _ ↦ .bindSlot List.mem_cons_self

/-- The value that is returned. -/
theorem Holds.realizes_value (h : Holds c x cell t view) (ht : Tracking.Sound c x t)
    (he : c.element? x t e = some path) :
    A.Realizes view known (c.lower .value e) view fun r ↦ [(r, .int (t.held path))] := by
  obtain ⟨id, receiver, position, w, i, rfl, hw, hi, rfl⟩ := element?_eq_some he
  obtain ⟨value, hcell, hvalue⟩ := h.value
  have hget := hvalue _ ((h.isWindow hw).leads_element (Expr.position?_lt hi))
  exact h.realizes_element hc htypes ht hw hi fun o more ↦
    realizes_load_heap hcell hget List.mem_cons_self

/-! ## Bodies -/

variable {first last : Tracking} {body : List Statement} {value : Expr}
  (hbody : c.TracksBody x first body value last path) (horderly : c.method.Orderly)
include hbody horderly

/-- A stretch of the body, wherever its statements stand in the source. -/
theorem Holds.realizes_statements {rest : List (Statement × SourceSpan)}
    (h : Holds c x cell t view) (ht : Tracking.Sound c x t) (hrest : rest.map (·.1) ⊆ body)
    (htracks : (rest.map (·.1)).foldlM (c.track? x) t = some t') :
    ∃ view', Holds c x cell t' view' ∧ Tracking.Sound c x t' ∧
      ∀ (A : Activation) known, A.Realizes view known (c.lowerStatements rest) view' fun _ ↦ [] := by
  induction rest generalizing t view with
  | nil =>
    cases htracks
    exact ⟨view, h, ht, fun A known ↦ .pure (by simp)⟩
  | cons pair rest ih =>
    rw [List.map_cons, List.foldlM_cons] at htracks
    obtain ⟨mid, hs, htracks⟩ := Option.bind_eq_some_iff.1 htracks
    have hs := tracks_of_track? hs
    obtain ⟨view₁, h₁, hstatement⟩ := h.realizes_statement hc htypes ht hs
    have ht₁ := ht.step hbody horderly hs (hrest List.mem_cons_self)
    obtain ⟨view', h', ht', hstatements⟩ :=
      ih h₁ ht₁ (fun s hs ↦ hrest (List.mem_cons_of_mem _ hs)) htracks
    refine ⟨view', h', ht', fun A known ↦ ?_⟩
    unfold lowerStatements
    exact .bind (.setSpan _) fun _ ↦ .bind (hstatement A _) fun _ ↦ hstatements A _

/-- A method whose body is tracked returns what tracking says the element holds. -/
theorem Holds.returns_statements {statements : List (Statement × SourceSpan)}
    (h : Holds c x cell first view) (hfirst : Tracking.Sound c x first)
    (hstatements : statements.map (·.1) = c.method.statements)
    (hreturns : c.method.returns = .value) :
    ∃ view', ∀ (A : Activation) known,
      A.Returns view known (c.lowerStatements statements) view' (.int (last.held path)) := by
  rw [hbody.statements_eq, List.map_eq_append_iff] at hstatements
  obtain ⟨front, back, rfl, hfront, hback⟩ := hstatements
  obtain ⟨⟨s, span⟩, rfl, rfl⟩ := List.map_eq_singleton_iff.1 hback
  have htracks := hbody.body
  rw [← hfront] at htracks
  obtain ⟨view', h', ht', hbefore⟩ := h.realizes_statements hc htypes hbody horderly hfirst
    (hfront ▸ List.Subset.refl _) htracks
  refine ⟨view', fun A known ↦ ?_⟩
  rw [lowerStatements_append]
  refine .bind (hbefore A _) fun _ ↦ ?_
  have hret : c.lowerStatements [(.ret (some value), span)] =
      modify (fun s ↦ { s with span := some span }) >>= fun _ ↦
        c.lower .value value >>= fun value ↦ Emission.emit (.ret · (some value)) := by
    unfold lowerStatements lowerStatements lowerStatement
    simp [hreturns, ReturnKind.isByRef]
  rw [hret]
  exact .bind (.setSpan _) fun _ ↦
    .bind (h'.realizes_value hc htypes ht' hbody.value) fun _ ↦ .ret List.mem_cons_self

end

end InlineArrays.Context
