import InlineArrays.Proofs.Resolution.Circular

/-!
# Ref locals

The storage of an expression is that of the variable it rests on, changed in ways that have nothing
to do with its scope.  So a ref local is stored as what it is bound to, which may be asked for afresh:
only a chain of locals that comes back to the ref local could tell the difference, and such a chain
stays within the method.
-/

namespace InlineArrays

namespace Storage

/-- The storage differs in its scope at most. -/
def SameButScope (s s' : Storage) : Prop := ∃ scope, s' = { s with scope }

theorem SameButScope.refl (s : Storage) : s.SameButScope s := ⟨s.scope, rfl⟩

theorem SameButScope.eq {s s' : Storage} (h : s.SameButScope s') (hscope : s.scope = s'.scope) :
    s = s' := by
  obtain ⟨scope, rfl⟩ := h
  rw [show scope = s.scope from hscope.symm]

/-- What the function makes of storage depends on the scope in its scope at most. -/
def IgnoresScope (f : Storage → Storage) : Prop :=
  ∀ s s', SameButScope s s' → (f s).SameButScope (f s')

theorem ignoresScope_of_eq {f : Storage → Storage}
    (h : ∀ s scope, f { s with scope } = { f s with scope }) : IgnoresScope f := by
  rintro s _ ⟨scope, rfl⟩
  exact ⟨scope, h s scope⟩

end Storage

namespace Context

variable {c : Context}

theorem ignoresScope_refLocal (name : String) (readonly : Bool) :
    Storage.IgnoresScope fun s ↦ refLocalStorage name readonly (some s) := by
  rintro s _ ⟨scope, rfl⟩
  unfold refLocalStorage
  dsimp only
  split
  · exact ⟨scope, rfl⟩
  · exact .refl _

/-- The storage of the expression is the same whatever locals are followed, or else it is made of
that of the variable it rests on. -/
def RestsOnly (c : Context) (e : Expr) : Prop :=
  (∃ s?, ∀ init active, c.storageWith c.typeForStorage? init active e = s?) ∨
    ∃ v f, c.RestsOn v e ∧ Storage.IgnoresScope f ∧ ∀ init active id,
      c.storageWith c.typeForStorage? init active e =
        (c.storageWith c.typeForStorage? init active (.var id v)).map f

theorem RestsOnly.carrier {e part : Expr} {f : Storage → Storage} (hpart : c.carrier? e = some part)
    (hf : Storage.IgnoresScope f)
    (h : ∀ init active, c.storageWith c.typeForStorage? init active e =
      (c.storageWith c.typeForStorage? init active part).map f) (hrests : c.RestsOnly part) :
    c.RestsOnly e := by
  rcases hrests with ⟨s?, hs⟩ | ⟨v, g, hv, hg, hs⟩
  · exact .inl ⟨s?.map f, fun init active ↦ by rw [h, hs]⟩
  · refine .inr ⟨v, f ∘ g, .carrier hpart hv, fun s s' hss ↦ hf _ _ (hg s s' hss),
      fun init active id ↦ ?_⟩
    rw [h, hs _ _ id, Option.map_map]

/-- A field of a plain struct is stored where the struct is. -/
theorem storageWith_structField {id : ExprId} {receiver : Expr} {name : String} {t r : TypeId}
    {type : StructType} (htype : c.typeForStorage? (.field id receiver name) = some t)
    (hparts : c.types.spanParts? t = none) (hr : c.typeForStorage? receiver = some r)
    (hstruct : c.types.struct? r = some type) (hclass : type.isClass = false)
    (init : List VariableId → Expr → Option Storage) (active : List VariableId) :
    c.storageWith c.typeForStorage? init active (.field id receiver name) =
      (c.storageWith c.typeForStorage? init active receiver).map
        (·.readonlyIf ((type.field? name).any (·.readonly) || type.isReadonly)) := by
  simp only [storageWith, htype, hparts, hr, hstruct, hclass, Option.bind_eq_bind, Option.bind_some,
    Bool.false_eq_true, if_false, Option.map_eq_bind]
  rfl

theorem restsOnly_field {id : ExprId} {receiver : Expr} {name : String}
    (hreceiver : c.RestsOnly receiver) : c.RestsOnly (.field id receiver name) := by
  cases htype : c.typeForStorage? (.field id receiver name) with
  | none => exact .inl ⟨none, fun _ _ ↦ by simp [storageWith, htype]⟩
  | some t =>
    cases hparts : c.types.spanParts? t with
    | some parts => exact .inl ⟨_, fun _ _ ↦ by simp [storageWith, htype, hparts]; rfl⟩
    | none =>
      cases hr : c.typeForStorage? receiver with
      | none => exact .inl ⟨none, fun _ _ ↦ by simp [storageWith, htype, hparts, hr]⟩
      | some r =>
        cases hstruct : c.types.struct? r with
        | none => exact .inl ⟨_, fun _ _ ↦ by simp [storageWith, htype, hparts, hr, hstruct]; rfl⟩
        | some type =>
          cases hclass : type.isClass with
          | true =>
            exact .inl ⟨_, fun _ _ ↦ by simp [storageWith, htype, hparts, hr, hstruct, hclass]; rfl⟩
          | false =>
            have hcarrier : c.carrier? (.field id receiver name) = some receiver := by
              simp [carrier?, typeOf_of_typeForStorage htype, typeOf_of_typeForStorage hr,
                TypeTable.isSpan, hparts, hstruct, hclass]
            exact .carrier hcarrier (Storage.ignoresScope_of_eq fun _ _ ↦ rfl)
              (storageWith_structField htype hparts hr hstruct hclass) hreceiver

theorem restsOnly_element {id : ExprId} {receiver : Expr} {args : List (Argument Expr)}
    (hreceiver : c.RestsOnly receiver) : c.RestsOnly (.element id receiver args) := by
  cases htype : c.typeForStorage? (.element id receiver args) with
  | none => exact .inl ⟨none, fun _ _ ↦ by simp [storageWith, htype]⟩
  | some t =>
    cases hr : c.typeForStorage? receiver with
    | none => exact .inl ⟨none, fun _ _ ↦ by simp [storageWith, htype, hr]⟩
    | some r =>
      cases hget : c.types.get r with
      | array type =>
        have hcarrier : c.carrier? (.element id receiver args) = some receiver := by
          simp [carrier?, typeOf_of_typeForStorage hr, hget]
        refine RestsOnly.carrier (f := (·.projected)) hcarrier
          (Storage.ignoresScope_of_eq fun _ _ ↦ rfl) (fun init active ↦ ?_) hreceiver
        simp only [storageWith, htype, hr, hget, Option.bind_eq_bind, Option.bind_some,
          Option.map_eq_bind]
        rfl
      | span element readonly =>
        have hcarrier : c.carrier? (.element id receiver args) = some receiver := by
          simp [carrier?, typeOf_of_typeForStorage hr, hget]
        refine RestsOnly.carrier (f := fun s ↦ if c.types.isSpan t then s
          else { s with referenceable := true, readonly }) hcarrier
          (Storage.ignoresScope_of_eq fun s scope ↦ ?_) (fun init active ↦ ?_) hreceiver
        · split <;> rfl
        · simp only [storageWith, htype, hr, hget, Option.bind_eq_bind, Option.bind_some,
          Option.map_eq_bind]
          rfl
      | _ => exact .inl ⟨_, fun _ _ ↦ by simp [storageWith, htype, hr, hget]; rfl⟩

theorem restsOnly_span {id : ExprId} {operand : Expr} {readonly : Bool}
    (hoperand : c.RestsOnly operand) : c.RestsOnly (.span id operand readonly) := by
  cases htype : c.typeForStorage? (.span id operand readonly) with
  | none => exact .inl ⟨none, fun _ _ ↦ by simp [storageWith, htype]⟩
  | some t =>
    cases hspan : c.types.isSpan t with
    | false => exact .inl ⟨_, fun _ _ ↦ by simp [storageWith, htype, hspan]; rfl⟩
    | true =>
      have hcarrier : c.carrier? (.span id operand readonly) = some operand := by
        simp [carrier?, typeOf_of_typeForStorage htype, hspan]
      refine RestsOnly.carrier (f := (·.projected.readonlyIf readonly)) hcarrier
        (Storage.ignoresScope_of_eq fun _ _ ↦ rfl) (fun init active ↦ ?_) hoperand
      simp only [storageWith, htype, hspan, Option.bind_eq_bind, Option.bind_some, if_true,
        Option.map_eq_bind]
      rfl

theorem restsOnly (c : Context) : (e : Expr) → c.RestsOnly e
  | .var _ v => .inr ⟨v, fun s ↦ s, .var, fun _ _ h ↦ h, fun _ _ _ ↦ Option.map_id'.symm⟩
  | .field _ receiver _ => restsOnly_field (restsOnly c receiver)
  | .element _ receiver _ => restsOnly_element (restsOnly c receiver)
  | .span _ operand _ => restsOnly_span (restsOnly c operand)
  | .call .. | .default .. | .int .. | .bool .. | .string .. | .fromEnd .. | .range ..
  | .conditional .. | .placeholder .. => .inl ⟨_, fun _ _ ↦ rfl⟩

/-! ## Following fewer locals -/

/-- The variable that an expression rests on is at its root. -/
theorem RestsOn.root? {v : VariableId} {e : Expr} (h : c.RestsOn v e) : e.root? = some v := by
  induction h with
  | var => rfl
  | @carrier e part hpart _ ih =>
    have hroot : e.root? = part.root? := by
      unfold carrier? at hpart
      split at hpart
      · split at hpart
        · cases hpart
        · split at hpart
          · split at hpart
            · cases hpart
            · cases hpart
              rfl
          · cases hpart
      · split at hpart <;> cases hpart <;> rfl
      · split at hpart <;> cases hpart
        rfl
      · cases hpart
    exact hroot.trans ih

/-- With more jumps allowed, nothing that was found changes. -/
theorem followLocals_le_succ (type : Expr → Option TypeId) (jumps : Nat)
    (active : List VariableId) :
    AnswersLe (c.followLocals type jumps active) (c.followLocals type (jumps + 1) active) := by
  induction jumps generalizing active with
  | zero => exact storageWith_mono (.refl type) (fun _ _ _ h ↦ by cases h) active
  | succ jumps ih => exact storageWith_mono (.refl type) ih active

/-- How the storage of the values of locals is found. -/
def valueStorage (c : Context) : Nat → List VariableId → Expr → Option Storage
  | 0 => fun _ _ ↦ none
  | jumps + 1 => c.followLocals c.typeForStorage? jumps

theorem followLocals_eq_storageWith (c : Context) (jumps : Nat) :
    c.followLocals c.typeForStorage? jumps =
      c.storageWith c.typeForStorage? (c.valueStorage jumps) := by
  cases jumps <;> rfl

/-- The storage of a variable is the same whichever way the values of locals are found, or else it
is made of that of its value; that of a span local takes nothing but the scope of it. -/
theorem variableStorage_followed (c : Context) (v : VariableId) (cut : Bool) :
    (∃ s?, ∀ init, c.variableStorage v (c.method.var v).type cut init = s?) ∨
      ∃ value f, c.followed? v = some value ∧
        (c.method.refLocalInit? v = some value ∧ Storage.IgnoresScope f ∨
          ∀ s s', (f s).SameButScope (f s')) ∧
        ∀ init, c.variableStorage v (c.method.var v).type cut init = (init value).map f := by
  unfold variableStorage followed?
  dsimp only
  cases c.types.spanParts? (c.method.var v).type with
  | none =>
    cases (c.method.var v).kind with
    | refLocal readonly =>
      cases cut with
      | true => exact .inl ⟨_, fun _ ↦ rfl⟩
      | false =>
        cases hinit : c.method.refLocalInit? v with
        | none => exact .inl ⟨_, fun _ ↦ rfl⟩
        | some value =>
          exact .inr ⟨value, _, rfl, .inl ⟨rfl, ignoresScope_refLocal _ readonly⟩, fun _ ↦ rfl⟩
    | _ => exact .inl ⟨_, fun _ ↦ rfl⟩
  | some parts =>
    cases (c.method.var v).kind with
    | stackLocal =>
      cases cut with
      | true => exact .inl ⟨_, fun _ ↦ rfl⟩
      | false =>
        cases c.method.firstAssignment? v with
        | none => exact .inl ⟨_, fun _ ↦ rfl⟩
        | some value => exact .inr ⟨value, _, rfl, .inr fun s s' ↦ ⟨s'.scope, rfl⟩, fun _ ↦ rfl⟩
    | _ => exact .inl ⟨_, fun _ ↦ rfl⟩

/-- Whichever locals are being resolved, an expression is stored in the same place, unless the value
that the variable it rests on follows is not. -/
theorem followLocals_cases {jumps : Nat} {active active' : List VariableId} {e : Expr}
    {s s' : Storage} (hs : c.followLocals c.typeForStorage? jumps active e = some s)
    (hs' : c.followLocals c.typeForStorage? jumps active' e = some s')
    (hactive : ∀ v, c.RestsOn v e → (v ∈ active ↔ v ∈ active')) :
    s = s' ∨ ∃ v, c.RestsOn v e ∧ ∃ fewer value f t t',
      jumps = fewer + 1 ∧ c.followed? v = some value ∧
      (c.method.refLocalInit? v = some value ∧ Storage.IgnoresScope f ∨
        ∀ s s', (f s).SameButScope (f s')) ∧
      c.followLocals c.typeForStorage? fewer (v :: active) value = some t ∧
      c.followLocals c.typeForStorage? fewer (v :: active') value = some t' ∧
      s = f t ∧ s' = f t' := by
  rw [followLocals_eq_storageWith] at hs hs'
  rcases c.restsOnly e with ⟨s?, heq⟩ | ⟨v, f, hrests, hf, heq⟩
  · exact .inl (Option.some.inj (by rw [← hs, ← hs', heq, heq]))
  rw [heq _ _ 0] at hs hs'
  obtain ⟨t, ht, rfl⟩ := Option.map_eq_some_iff.1 hs
  obtain ⟨t', ht', rfl⟩ := Option.map_eq_some_iff.1 hs'
  have hcut : active'.contains v = active.contains v := by simpa [eq_comm] using hactive v hrests
  change c.variableStorage v (c.method.var v).type (active.contains v) _ = some t at ht
  change c.variableStorage v (c.method.var v).type (active'.contains v) _ = some t' at ht'
  rw [hcut] at ht'
  rcases c.variableStorage_followed v (active.contains v) with
    ⟨s?, heq⟩ | ⟨value, g, hvalue, hg, heq⟩
  · exact .inl (congrArg f (Option.some.inj (by rw [← ht, ← ht', heq, heq])))
  rw [heq] at ht ht'
  obtain ⟨u, hu, rfl⟩ := Option.map_eq_some_iff.1 ht
  obtain ⟨u', hu', rfl⟩ := Option.map_eq_some_iff.1 ht'
  cases jumps with
  | zero => cases hu
  | succ fewer =>
    refine .inr ⟨v, hrests, fewer, value, f ∘ g, u, u', rfl, hvalue, ?_, hu, hu', rfl, rfl⟩
    exact hg.imp (fun hg ↦ ⟨hg.1, fun s s' h ↦ hf _ _ (hg.2 s s' h)⟩)
      fun hg s s' ↦ hf _ _ (hg s s')

/-- To follow no further from `r` on makes a difference only where `r` is reached. -/
theorem followLocals_eq_or_leads {r : VariableId} (jumps : Nat) {active active' : List VariableId}
    (hactive : ∀ v, v ≠ r → (v ∈ active ↔ v ∈ active')) {e : Expr} {s s' : Storage}
    (hs : c.followLocals c.typeForStorage? jumps active e = some s)
    (hs' : c.followLocals c.typeForStorage? jumps active' e = some s') :
    s = s' ∨ ∃ v, c.RestsOn v e ∧ Relation.ReflTransGen c.Leads v r := by
  induction jumps using Nat.strongRecOn generalizing active active' e s s' with
  | ind jumps ih =>
    by_cases hr : c.RestsOn r e
    · exact .inr ⟨r, hr, .refl⟩
    rcases followLocals_cases hs hs' fun v hv ↦ hactive v fun h ↦ hr (h ▸ hv) with
      rfl | ⟨v, hrests, fewer, value, f, t, t', rfl, hvalue, -, ht, ht', rfl, rfl⟩
    · exact .inl rfl
    have hactive' : ∀ w, w ≠ r → (w ∈ v :: active ↔ w ∈ v :: active') := fun w hw ↦ by
      rw [List.mem_cons, List.mem_cons, hactive w hw]
    rcases ih fewer (Nat.lt_succ_self fewer) hactive' ht ht' with rfl | ⟨w, hw, hleads⟩
    · exact .inl rfl
    · exact .inr ⟨v, hrests, .head ⟨value, hvalue, hw⟩ hleads⟩

theorem root?_lt_of_refLocalInit? (hc : c.method.Orderly) {v w : VariableId} {init : Expr}
    (h : c.method.refLocalInit? v = some init) (hroot : init.root? = some w) : w < v := by
  obtain ⟨s, hs, hvalue⟩ := List.exists_of_findSome?_eq_some h
  cases s with
  | refLocal bound value =>
    obtain ⟨rfl, hinit⟩ := Option.ite_none_right_eq_some.1 hvalue
    obtain rfl := Option.some.inj hinit
    exact (hc.refLocals _ _ hs).2.2 w hroot
  | _ => cases hvalue

/-- The ref locals that an expression rests on come before those that are being resolved, so which
those are makes a difference to its scope at most: span locals, which may come back to them, have
nothing but the scope of their values. -/
theorem followLocals_sameButScope (hc : c.method.Orderly) (jumps : Nat)
    {active active' : List VariableId} {e : Expr} {s s' : Storage}
    (hactive : ∀ v, e.root? = some v → ∀ w ∈ active ++ active', v < w)
    (hs : c.followLocals c.typeForStorage? jumps active e = some s)
    (hs' : c.followLocals c.typeForStorage? jumps active' e = some s') : s.SameButScope s' := by
  induction jumps using Nat.strongRecOn generalizing active active' e s s' with
  | ind jumps ih =>
    have hfresh (v : VariableId) (hv : c.RestsOn v e) : v ∉ active ++ active' :=
      fun h ↦ Nat.lt_irrefl v (hactive v hv.root? v h)
    have hiff (v : VariableId) (hv : c.RestsOn v e) : v ∈ active ↔ v ∈ active' :=
      iff_of_false (fun h ↦ hfresh v hv (List.mem_append_left _ h))
        fun h ↦ hfresh v hv (List.mem_append_right _ h)
    rcases followLocals_cases hs hs' hiff with
      rfl | ⟨v, hrests, fewer, value, f, t, t', rfl, hvalue, ⟨hinit, hf⟩ | hf, ht, ht', rfl, rfl⟩
    · exact .refl _
    · refine hf _ _ (ih fewer (Nat.lt_succ_self fewer) (fun w hw u hu ↦ ?_) ht ht')
      have hlt : w < v := root?_lt_of_refLocalInit? hc hinit hw
      have hmem : u = v ∨ u ∈ active ++ active' := by
        simp only [List.mem_append, List.mem_cons] at hu ⊢
        tauto
      rcases hmem with rfl | hmem
      · exact hlt
      · exact Nat.lt_trans hlt (hactive v hrests.root? u hmem)
    · exact hf t t'

/-! ## Asking afresh -/

theorem StorageAsks.mono {asked e : Expr} {active active' : List VariableId}
    (h : c.StorageAsks asked active e) (hsubset : active' ⊆ active) :
    c.StorageAsks asked active' e := by
  induction h generalizing active' with
  | typing h => exact .typing h
  | carrier hpart _ ih => exact .carrier hpart (ih hsubset)
  | followed hvalue hactive _ ih =>
    exact .followed hvalue (fun h ↦ hactive (hsubset h)) (ih (List.cons_subset_cons _ hsubset))

/-- What is asked for by following `r` is asked for by its value, if it is not asked for before. -/
theorem StorageAsks.avoid {asked e value : Expr} {r : VariableId} (hr : c.followed? r = some value)
    {active active' : List VariableId} (h : c.StorageAsks asked active e)
    (hactive : active' ⊆ r :: active) :
    c.StorageAsks asked active' e ∨ c.StorageAsks asked [r] value := by
  induction h generalizing active' with
  | typing h => exact .inl (.typing h)
  | carrier hpart _ ih => exact (ih hactive).imp_left (.carrier hpart)
  | @followed active id v init hvalue hv hasks ih =>
    by_cases hvr : v = r
    · subst hvr
      obtain rfl := Option.some.inj (hr.symm.trans hvalue)
      exact .inr (hasks.mono (by simp))
    · have hv' : v ∉ active' := fun h ↦ (List.mem_cons.1 (hactive h)).elim hvr hv
      refine (ih fun w hw ↦ ?_).imp_left (.followed hvalue hv')
      have hmem := @hactive w
      simp only [List.mem_cons] at hw hmem ⊢
      tauto

/-- A chain of locals that comes back stays within the method, wherever it is entered. -/
theorem scope_of_restsOn_endless {v : VariableId} {e : Expr} (hrests : c.RestsOn v e)
    (hendless : c.Endless v) {jumps : Nat} {active : List VariableId} {s : Storage}
    (hs : c.followLocals c.typeForStorage? jumps active e = some s) : s.scope = .currentMethod := by
  rw [followLocals_eq_storageWith] at hs
  obtain ⟨id, s', hvar, hscope⟩ := hrests.exists_storage hs
  have hs' : c.followLocals c.typeForStorage? jumps active (.var id v) = some s' := by
    rw [followLocals_eq_storageWith]
    exact hvar
  rw [hscope, hendless.scope_followLocals jumps hs']

/-- A ref local is not resolved again on the way from its value, unless the chain of locals comes
back to it; so the value may be asked for afresh. -/
theorem followLocals_fresh (hc : c.method.Orderly) {r : VariableId} {value : Expr}
    (hr : c.followed? r = some value) (hinit : c.method.refLocalInit? r = some value) {jumps : Nat}
    (hjumps : c.method.vars.size = jumps + 1) :
    c.followLocals c.typeForStorage? jumps [r] value =
      c.followLocals c.typeForStorage? (jumps + 1) [] value := by
  have hle : c.method.exprs.size ≤ c.questions := Nat.le_succ _
  cases hvalue : c.followLocals c.typeForStorage? jumps [r] value with
  | none =>
    cases hfresh : c.followLocals c.typeForStorage? (jumps + 1) [] value with
    | none => rfl
    | some s =>
      have hanswered (asked : Expr) (h : c.StorageAsks asked [r] value) :
          (c.freshStorage c.method.exprs.size asked).isSome :=
        answered_of_stored (h.mono (List.nil_subset _)) (jumps + 1)
          (Option.isSome_iff_exists.2 ⟨s, hfresh⟩)
      have hsome : (c.followLocals c.typeForStorage? jumps [r] value).isSome :=
        followed_of_answered hle jumps (by simp)
          (fun v hv ↦ List.mem_singleton.1 hv ▸ lt_of_followed hr)
          (by rw [hjumps, List.length_singleton, Nat.add_comm]) hanswered
      rw [hvalue] at hsome
      cases hsome
  | some s =>
    have hanswered (asked : Expr) (h : c.StorageAsks asked [] value) :
        (c.freshStorage c.method.exprs.size asked).isSome := by
      rcases h.avoid hr (List.Subset.refl [r]) with h | h
      all_goals exact answered_of_stored h jumps (Option.isSome_iff_exists.2 ⟨s, hvalue⟩)
    obtain ⟨s', hs'⟩ : ∃ s', c.followLocals c.typeForStorage? (jumps + 1) [] value = some s' :=
      Option.isSome_iff_exists.1 <|
        followed_of_answered hle (jumps + 1) List.nodup_nil nofun (by simp [hjumps]) hanswered
    have hs := followLocals_le_succ _ jumps [r] value s hvalue
    rw [hs']
    have hsame : s.SameButScope s' := followLocals_sameButScope hc (jumps + 1) (fun v hv w hw ↦ by
      rw [List.append_nil, List.mem_singleton] at hw
      exact hw ▸ root?_lt_of_refLocalInit? hc hinit hv) hs hs'
    rcases followLocals_eq_or_leads (r := r) (jumps + 1) (fun v hv ↦ by simp [hv]) hs hs' with
      rfl | ⟨v, hrests, hleads⟩
    · rfl
    · have hendless : c.Endless v :=
        ⟨r, hleads, Relation.TransGen.head' ⟨value, hr, hrests⟩ hleads⟩
      have hscope := (scope_of_restsOn_endless hrests hendless hs).trans
        (scope_of_restsOn_endless hrests hendless hs').symm
      rw [hsame.eq hscope]

section

variable {r : VariableId} {readonly : Bool} {init : Expr}
  (hspan : c.types.isSpan (c.method.var r).type = false)
  (hkind : (c.method.var r).kind = .refLocal readonly)
  (hinit : c.method.refLocalInit? r = some init)
include hspan hkind hinit

theorem followed?_refLocal : c.followed? r = some init := by
  have hparts : c.types.spanParts? (c.method.var r).type = none := by
    simpa [TypeTable.isSpan] using hspan
  rw [followed?, hparts, hkind, hinit]

/-- A ref local is stored as what it is bound to. -/
theorem storageOf?_refLocal (hc : c.method.Orderly) (id : ExprId) :
    c.storageOf? (.var id r) =
      (c.storageOf? init).map fun s ↦ refLocalStorage (c.method.var r).name readonly (some s) := by
  have hfollowed := followed?_refLocal hspan hkind hinit
  obtain ⟨jumps, hjumps⟩ : ∃ jumps, c.method.vars.size = jumps + 1 :=
    Nat.exists_eq_add_one.2 (Nat.zero_lt_of_lt (lt_of_followed hfollowed))
  have hresolve (e : Expr) :
      c.storageOf? e = c.followLocals c.typeForStorage? (jumps + 1) [] e := by
    rw [storageOf?, questions, freshStorage, hjumps]
    rfl
  have hparts : c.types.spanParts? (c.method.var r).type = none := by
    simpa [TypeTable.isSpan] using hspan
  rw [hresolve, hresolve, ← followLocals_fresh hc hfollowed hinit hjumps]
  change c.variableStorage r (c.method.var r).type false _ = _
  rw [variableStorage]
  simp only [hparts, hkind, hinit]
  rfl

end

end Context

end InlineArrays
