import InlineArrays.Proofs.Elements.HeldOperands
import InlineArrays.Proofs.Evaluation.Places
import InlineArrays.Proofs.Evaluation.Steps

/-!
# Lowered code computes what expressions evaluate to

By induction on an expression, its code computes its location or its value, as is demanded of it.
-/

namespace InlineArrays

open Emission

namespace Context

variable {c : Context} {σ : Situation} {args : List (Argument Expr)} {a : Access}

/-- What an argument is lowered to selects what the access was bound to. -/
theorem isSlice_lowerSubscript {arg : Argument Expr} (h : c.subscript arg.value = .ok a.subscript)
    {s t : Emission} {y : Subscript Operand}
    (hlower : c.lowerSubscript a [arg] s = .ok y t) : y.isSlice = a.isSlice := by
  obtain ⟨value, name, modifier⟩ := arg
  rw [Access.isSlice]
  rcases subscript_cases h with ⟨id, count, rfl, hs⟩ | ⟨id, start, stop, first, last, rfl, hs⟩ |
    ⟨hfromEnd, hrange, hs⟩
  · obtain ⟨o, -, rfl⟩ := Emit.map_eq_ok.1 hlower
    rw [hs]
    rfl
  · obtain ⟨first, _, -, hlower⟩ := Emit.bind_eq_ok.1 hlower
    obtain ⟨last, _, -, hlower⟩ := Emit.bind_eq_ok.1 hlower
    obtain ⟨rfl, -⟩ := Emit.pure_eq_ok.1 hlower
    rw [hs]
    rfl
  · rw [lowerSubscript_value hfromEnd hrange] at hlower
    obtain ⟨o, -, rfl⟩ := Emit.map_eq_ok.1 hlower
    rcases hs with ⟨-, hs⟩ | ⟨-, hs⟩ | ⟨-, hs⟩ | ⟨-, hs⟩ <;> rw [hs] <;> rfl

theorem lowerSubscript_of_two (arg arg' : Argument Expr) :
    c.lowerSubscript a (arg :: arg' :: args) = throw (.unboundAccess (c.method.text a.expr)) := by
  obtain ⟨value, name, modifier⟩ := arg
  cases value <;> rfl

theorem resultOf_value (e : Expr) : c.resultOf σ .value e = Location.whole <$> c.valueOf σ e := by
  rw [resultOf, valueOf, map_bind]
  rfl

end Context

namespace Activation.Computes

variable {A : Activation} {c : Context} {σ : Situation} {count : TempId}
  {known : List (Operand × Value)} {code : Emit Operand} {demand : Demand}

/-! ## Code of expressions -/

/-- What is lowered to a value has it. -/
theorem toValue {e : Expr}
    (h : A.Computes σ count known code (c.resultOf σ .value e) (.result A.frame count .value)) :
    A.Computes σ count known code (c.valueOf σ e) (.value A.frame count) := by
  rw [Context.resultOf_value] at h
  intro s o t hcode
  obtain ⟨emitted, hgrows, hrun⟩ := h hcode
  refine ⟨emitted, hgrows, fun hvalues htemps m hm hknown ↦ ?_⟩
  have hend := hrun hvalues htemps m hm hknown
  cases hv : c.valueOf σ e with
  | error e =>
    rw [hv] at hend
    exact hend
  | ok v =>
    rw [hv] at hend
    obtain ⟨m', found, hrun, hm', hkeeps, ⟨w, hw, htold⟩, hfound⟩ := hend
    cases hw
    exact ⟨m', found, hrun, hm', hkeeps, htold, hfound⟩

theorem ofValue {v : Except RuntimeError Value}
    (h : A.Computes σ count known code v (.value A.frame count)) :
    A.Computes σ count known code (Location.whole <$> v) (.result A.frame count .value) :=
  h.map fun _ _ v _ hv ↦ ⟨v, rfl, hv⟩

theorem variableAddress (hsuits : A.Suits c σ count) (target : VariableId) :
    A.Computes σ count known (c.variableAddress target) (c.variableLocation σ target)
      (.location A.frame count) := by
  let slot : Location := .stored ⟨.slot σ.frame target, []⟩
  have hslot : A.Computes σ count known
      (Emission.define (.addressOf target (c.method.var target).name)) (.ok slot)
      (.location A.frame count) := by
    refine define (fun l ↦ l.reference (.heap 0)) (fun s m _ _ ↦ ?_) fun o l hl ↦ ?_
    · change EStateM.Result.ok (Value.address ⟨.slot A.frame target, []⟩) m = _
      rw [hsuits.frame]
      rfl
    · cases hl
      exact ⟨List.mem_cons_self, Value.within_address.2 trivial⟩
  unfold Context.variableAddress Context.variableLocation
  by_cases hholds : c.holdsAddress (c.method.var target)
  · simp only [if_pos hholds]
    have hload (o : Operand) (l : Location) (more : List (Operand × Value)) (_ : known ⊆ more)
        (ho : (Reading.location A.frame count).Says more o l) :
        A.Computes σ count more (Emission.define (.load o))
          (Location.referred <$> l.read σ.memory) (.location A.frame count) :=
      (load hsuits ho).map fun _ _ _ _ hv ↦ hv
    exact hslot.bind hload
  · simp only [if_neg hholds]
    have hsame (o : Operand) (l : Location) (more : List (Operand × Value)) (_ : known ⊆ more)
        (ho : (Reading.location A.frame count).Says more o l) :
        A.Computes σ count more (Pure.pure o) (.ok l) (.location A.frame count) := passed ho
    exact hslot.bind hsame

theorem variableCode (hsuits : A.Suits c σ count) (target : VariableId) :
    A.Computes σ count known (c.variableCode demand target)
      (c.variableLocation σ target >>= demand.take σ.memory) (.result A.frame count demand) := by
  refine (variableAddress hsuits target).bind fun o l more _ ho ↦ ?_
  cases demand with
  | value => exact (load hsuits ho).ofValue
  | address => exact passed ho

/-- Code of an expression that has a value but no address. -/
theorem valueCode {e : Expr}
    (h : A.Computes σ count known code (c.valueOf σ e) (.value A.frame count)) :
    A.Computes σ count known (c.valueCode demand e code) (c.resultOf σ demand e)
      (.result A.frame count demand) := by
  cases demand with
  | value =>
    rw [Context.resultOf_value]
    exact h.ofValue
  | address => exact throw

/-- What a field is a field of, from the code of its receiver. -/
theorem owner {r : Expr}
    (h : A.Computes σ count known code (c.resultOf σ (c.ownerDemand r) r)
      (.result A.frame count (c.ownerDemand r))) :
    A.Computes σ count known (code >>= c.ownerOf r)
      (c.locationOf σ r >>= c.ownerLocation σ r) (.location A.frame count) := by
  unfold Context.ownerDemand at h
  unfold Context.ownerOf Context.ownerLocation
  by_cases hclass : c.types.isClass (c.typeOf r)
  · simp only [if_pos hclass] at h ⊢
    have hobject : A.Computes σ count known (code >>= Pure.pure)
        (c.valueOf σ r >>= fun v ↦ .ok (.referred v)) (.location A.frame count) :=
      h.toValue.bind fun o v more _ ho ↦ passed ⟨ho.1, ho.2⟩
    simp only [Context.valueOf, bind_assoc] at hobject
    simp only [map_eq_pure_bind]
    exact hobject
  · simp only [if_neg hclass] at h ⊢
    have hstruct : A.Computes σ count known (code >>= (c.storageDemand r).inMemory)
        (c.resultOf σ (c.storageDemand r) r >>= .ok) (.location A.frame count) :=
      h.bind fun o l more _ ho ↦ inMemory ho
    rw [show (Except.ok : Location → Except RuntimeError Location) = Pure.pure from rfl,
      bind_pure] at hstruct
    exact hstruct

theorem fieldCode {id : ExprId} {r : Expr} {name : String} (hsuits : A.Suits c σ count)
    (h : A.Computes σ count known code (c.resultOf σ (c.ownerDemand r) r)
      (.result A.frame count (c.ownerDemand r))) :
    A.Computes σ count known (c.fieldCode demand r name code)
      (c.resultOf σ demand (.field id r name)) (.result A.frame count demand) := by
  have hmember (base : Operand) (l : Location) (more : List (Operand × Value)) (_ : known ⊆ more)
      (hbase : (Reading.location A.frame count).Says more base l) :
      A.Computes σ count more (Emission.define (.fieldAddress base name)) (l.field name)
        (.location A.frame count) := fieldAddress hbase
  have hdemand (address : Operand) (l : Location) (more : List (Operand × Value)) (_ : known ⊆ more)
      (haddress : (Reading.location A.frame count).Says more address l) :
      A.Computes σ count more (demand.fromAddress address) (demand.take σ.memory l)
        (.result A.frame count demand) := fromAddress hsuits haddress
  have hfield := ((owner h).bind hmember).bind hdemand
  simp only [bind_assoc] at hfield
  unfold Context.fieldCode Context.resultOf Context.locationOf
  simp only [bind_assoc]
  exact hfield

/-- What an access indexes, from the code of its receiver. -/
theorem receiverSpan {a : Access}
    (h : A.Computes σ count known code (c.resultOf σ (c.receiverDemand a) a.receiver)
      (.result A.frame count (c.receiverDemand a))) :
    A.Computes σ count known (code >>= c.receiverSpan a)
      (c.locationOf σ a.receiver >>= c.extent σ a) (.extent A.frame count false) := by
  unfold Context.receiverDemand at h
  unfold Context.receiverSpan Context.extent Context.receiverDemand
  cases hindexed : a.indexed with
  | array p =>
    simp only [hindexed] at h ⊢
    have hproject (address : Operand) (l : Location) (more : List (Operand × Value))
        (_ : known ⊆ more) (haddress : (Reading.location A.frame count).Says more address l) :
        A.Computes σ count more (c.projectSpan p.kind p.arrayType p.element p.length address)
          (Extent.ofArray p.kind p.length l) (.extent A.frame count false) := projectSpan haddress
    have hspan := (h.bind fun o l more _ ho ↦ inMemory ho).bind hproject
    simp only [bind_assoc, Context.resultOf] at hspan
    exact hspan
  | span kind element storage =>
    simp only [hindexed] at h ⊢
    have hspan : A.Computes σ count known (code >>= Pure.pure)
        (c.valueOf σ a.receiver >>= fun v ↦ .ok (.span v)) (.extent A.frame count false) :=
      h.toValue.bind fun o v more _ ho ↦ passed ⟨⟨v, ho.1, rfl, ho.2⟩, nofun⟩
    simp only [Context.valueOf, bind_assoc] at hspan
    simp only [map_eq_pure_bind]
    exact hspan

/-- What an access yields of what it selects. -/
theorem yieldSelected {a : Access} {o : Operand} {l : Location} (hsuits : A.Suits c σ count)
    (ho : (Reading.result A.frame count a.demand).Says known o l) :
    A.Computes σ count known (c.yieldSelected demand a o) (demand.take σ.memory l)
      (.result A.frame count demand) := by
  unfold Access.demand at ho
  unfold Context.yieldSelected
  by_cases hslice : a.isSlice
  · simp only [if_pos hslice] at ho ⊢
    cases demand with
    | address => exact throw
    | value =>
      obtain ⟨v, rfl, hv⟩ := ho
      exact passed ⟨v, rfl, hv⟩
  · simp only [if_neg hslice] at ho ⊢
    exact fromAddress hsuits ho

theorem access {id : ExprId} {r : Expr} {args : List (Argument Expr)} {a : Access} (hc : c.Regular)
    (hsuits : A.Suits c σ count) (he : c.Approves (.element id r args))
    (hbind : c.bind (.element id r args) = .ok a)
    (hreceiver : ∀ demand, A.Computes σ count [] (c.lower demand r) (c.resultOf σ demand r)
      (.result A.frame count demand))
    (hsubscript : A.Computes σ count [] (c.lowerSubscript a args) (c.subscriptOf σ a args)
      .subscript) :
    A.Computes σ count [] (c.lower demand (.element id r args))
      (c.resultOf σ demand (.element id r args)) (.result A.frame count demand) := by
  obtain ⟨-, rfl, -, arg, rfl, hform, -⟩ := Context.bind_eq_ok hbind
  have hextent : A.Computes σ count [] (c.lower (c.receiverDemand a) a.receiver >>= c.receiverSpan a)
      ((fun x ↦ x) <$> (c.locationOf σ a.receiver >>= c.extent σ a)) (.extent A.frame count a.isSlice) :=
    (receiverSpan (hreceiver _)).map fun found o x hx ho ↦
      ⟨ho.1, fun hslice ↦ Context.extent_of_slice hc he hbind hslice hx⟩
  have hselected {x : Extent} {v : Value} {temp : TempId} {more : List (Operand × Value)}
      (hx : Reading.SpanOf A.frame count more v x) (hslice : a.isSlice → ∃ w, x = .span w)
      (htemp : (.temp temp, v) ∈ more) :
      A.Computes σ count more
        (c.lowerSubscript a [arg] >>= fun s ↦ s.select (.temp temp) >>= c.yieldSelected demand a)
        (c.subscriptOf σ a [arg] >>= fun y ↦ y.locate x >>= demand.take σ.memory)
        (.result A.frame count demand) := by
    refine (hsubscript.mono (List.nil_subset _)).bindEmitted fun s y t hlower z more' hmore hz ↦ ?_
    have hsame := Context.isSlice_lowerSubscript hform hlower
    have hlocated : A.Computes σ count more' (y.select (.temp temp)) (z.locate x)
        (.result A.frame count a.demand) := by
      rw [Access.demand, ← hsame]
      exact select hz (hmore htemp) (hx.mono hmore) fun h ↦ hslice (hsame ▸ h)
    exact hlocated.bind fun o l more'' _ ho ↦ yieldSelected hsuits ho
  have hresult : c.resultOf σ demand (.element id a.receiver [arg]) =
      (c.locationOf σ a.receiver >>= c.extent σ a) >>= fun x ↦
        c.subscriptOf σ a [arg] >>= fun y ↦ y.locate x >>= demand.take σ.memory := by
    rw [Context.resultOf, Context.locationOf_element hbind]
    simp only [bind_assoc]
  rw [id_map'] at hextent
  rw [Context.lower_yielded hbind, hresult]
  refine hextent.bind fun span x more _ hspan ↦ ?_
  obtain ⟨⟨v, hv, hx⟩, hslice⟩ := hspan
  have hspill : A.Computes σ count more (Emission.spill span) (.ok ()) (.temp v) :=
    spill hv fun _ ↦ List.mem_cons_self
  have hrest (temp : TempId) (u : Unit) (more' : List (Operand × Value)) (hmore : more ⊆ more')
      (htemp : (Reading.temp v).Says more' temp u) :=
    hselected (hx.mono hmore) hslice htemp
  exact hspill.bind hrest

/-! ## Code of arguments -/

theorem makeIndex {o : Operand} {v : Value} {fromEnd : Bool} (ho : (o, v) ∈ known) :
    A.Computes σ count known (Emission.define (.makeIndex o fromEnd)) (v.toIndex fromEnd)
      (.value A.frame count) := by
  refine defineValue (fun s m hm hknown ↦ Operation.run_makeIndex_of (hknown _ ho).2)
    fun o' w hw ↦ ⟨List.mem_cons_self, ?_⟩
  obtain ⟨n, -, hw⟩ := Except.bind_eq_ok.1 hw
  split at hw <;> cases hw
  exact Value.within_index _

/-- An omitted bound is an index of its own. -/
theorem omittedIndex (isStop : Bool) :
    A.Computes σ count known (Emission.define (.makeIndex (.int 0) isStop))
      (.ok (.index ⟨0, isStop⟩)) (.value A.frame count) := by
  refine defineValue (fun s m _ _ ↦ rfl) fun o v hv ↦ ⟨List.mem_cons_self, ?_⟩
  cases hv
  exact Value.within_index _

theorem indexBy {e : Expr} (h : A.Computes σ count known code (c.valueOf σ e) (.value A.frame count)) :
    A.Computes σ count known (code >>= c.indexBy e) (c.valueOf σ e >>= c.indexOfValue e)
      (.value A.frame count) := by
  refine h.bind fun o v more _ ho ↦ ?_
  unfold Context.indexBy Context.indexOfValue
  split
  · exact makeIndex ho.1
  · exact passed ho

theorem boundBy {e : Expr} (h : A.Computes σ count known code (c.valueOf σ e) (.value A.frame count)) :
    A.Computes σ count known (c.boundBy e <$> code) (c.boundOfValue e <$> c.valueOf σ e) .bound := by
  refine h.mapped fun found o v ho ↦ ?_
  unfold Context.boundBy Context.boundOfValue
  split
  · exact .int ho.1
  · exact .index ho.1

theorem rangeCode {start stop : Emit Operand} {x y : Except RuntimeError Value}
    (hstart : A.Computes σ count known start x (.value A.frame count))
    (hstop : A.Computes σ count [] stop y (.value A.frame count)) :
    A.Computes σ count known (Context.rangeCode start stop) (x >>= fun v ↦ y >>= v.rangeTo)
      (.value A.frame count) := by
  refine hstart.bind fun o v more _ ho ↦ (hstop.mono (List.nil_subset _)).bind
    fun o' v' more' hmore ho' ↦ ?_
  refine defineValue (fun s m hm hknown ↦
    Operation.run_makeRange_of (hknown _ (hmore ho.1)).2 (hknown _ ho'.1).2)
    fun o'' w hw ↦ ⟨List.mem_cons_self, ?_⟩
  obtain ⟨_, -, hw⟩ := Except.bind_eq_ok.1 hw
  obtain ⟨_, -, hw⟩ := Except.bind_eq_ok.1 hw
  cases hw
  exact Value.within_range _ _

theorem rangeLiteralCode {start stop : Emit (Bound Operand)} {x y : Except RuntimeError (Bound Value)}
    (hstart : A.Computes σ count known start x .bound)
    (hstop : A.Computes σ count [] stop y .bound) :
    A.Computes σ count known (Context.rangeLiteralCode start stop)
      (x >>= fun first ↦ y >>= fun last ↦ .ok (.rangeLiteral first last)) .subscript :=
  hstart.bind fun _ _ _ _ hfirst ↦ (hstop.mono (List.nil_subset _)).bind
    fun _ _ _ hmore hlast ↦ pure (.rangeLiteral (hfirst.mono hmore) hlast) fun _ hp ↦ .inl hp

/-- A value is the subscript that the type of its expression makes of it. -/
theorem reads_holding {a : Access} {found : List (Operand × Value)} {o : Operand} {v : Value}
    (ho : (o, v) ∈ found) : (a.subscript.withValue o).Reads found (a.subscript.holding v) := by
  cases a.subscript with
  | int | fromEnd | rangeLiteral => exact .int ho
  | index => exact .index ho
  | dynamic => exact .dynamic ho
  | range => exact .range ho

theorem constant {o : Operand} {v : Value} (h : ∀ s m, Memory.Has m s o v)
    (hv : v.Within (Root.Before A.frame count)) :
    A.Computes σ count known (Pure.pure o) (.ok v) (.value A.frame count) :=
  pure ⟨List.mem_cons_self (l := []), hv⟩ (List.forall_mem_singleton.2 (.inr h))

/-- In an access, the receiver is the operand that it was tested as. -/
theorem receiverValue {id : ExprId} (receiver : Expr) :
    A.Computes σ count known (c.receiverValue receiver) (c.valueOf σ (.placeholder id receiver))
      (.value A.frame count) := by
  intro s o t hrun
  cases hbound : s.receiver? receiver.id with
  | none =>
    rw [Context.receiverValue_of_unbound hbound] at hrun
    cases hrun
  | some o' =>
    rw [Context.receiverValue_of_bound hbound] at hrun
    cases hrun
    refine ⟨[], .refl s, fun _ _ m hm hknown ↦ ?_⟩
    obtain ⟨bound, hfind, rfl⟩ := Option.map_eq_some_iff.1 hbound
    obtain ⟨v, hv, hhas, hwithin⟩ := hm.receivers bound (List.mem_of_find?_eq_some hfind)
    have hid : bound.1 = receiver.id := by simpa using List.find?_some hfind
    rw [Context.valueOf_placeholder (hid ▸ hv)]
    exact ⟨m, [(bound.2, v)], rfl, hm.toExtends, fun _ _ _ hw ↦ hw, ⟨List.mem_cons_self, hwithin⟩,
      List.forall_mem_singleton.2 hhas⟩

/-! ## Code of expressions -/

mutual

theorem lower (hc : c.Regular) {σ : Situation} (hsuits : A.Suits c σ count) (demand : Demand) :
    (e : Expr) → c.Approves e → A.Computes σ count [] (c.lower demand e) (c.resultOf σ demand e)
      (.result A.frame count demand)
  | .var _ target, _ => variableCode hsuits target
  | .field _ r _, he => fieldCode hsuits (lower hc hsuits (c.ownerDemand r) r (he.field hc))
  | .element id r args, he => by
    obtain ⟨⟨a, hbind⟩, -⟩ := he.accesses _ (Expr.mem_parts_self _) rfl
    exact access hc hsuits he hbind (fun demand ↦ lower hc hsuits demand r (he.receiver hc))
      (lowerSubscript hc hsuits a args fun arg harg ↦ he.argument hc harg)
  | .int _ n, _ => valueCode <| constant (fun _ _ ↦ ⟨trivial, rfl⟩) (Value.within_int n)
  | .bool _ b, _ => valueCode <| constant (fun _ _ ↦ ⟨trivial, rfl⟩) (Value.within_bool b)
  | .string .., _ => valueCode throw
  | .fromEnd _ count, he => valueCode <| by
    rw [Context.valueOf_fromEnd]
    exact (lower hc hsuits .value count (he.count hc)).toValue.bind fun _ _ _ _ ho ↦ makeIndex ho.1
  | .range _ start stop, he => valueCode <| by
    rw [Context.valueOf_range]
    exact rangeCode (lowerIndex hc hsuits false start fun e h ↦ by subst h; exact he.start hc)
      (lowerIndex hc hsuits true stop fun e h ↦ by subst h; exact he.stop hc)
  | .default _ type, _ => valueCode <| defineValue (fun _ _ _ _ ↦ by rw [hsuits.types]; rfl)
    fun _ _ hv ↦ ⟨List.mem_cons_self, by cases hv; exact Value.defaultValue_within _ _⟩
  | .conditional _ r access, he => valueCode <| by
    rw [Context.valueOf_conditional]
    exact conditionalCode (lower hc hsuits .value r (he.tested hc)).toValue fun v ↦
      (lower hc (hsuits.within r.id v) .value access (he.access hc)).toValue
  | .placeholder _ r, _ => valueCode (receiverValue r)
  | .call .., he | .span .., he => nomatch he.isPlain _ (Expr.mem_parts_self _)

theorem lowerSubscript (hc : c.Regular) {σ : Situation} (hsuits : A.Suits c σ count) (a : Access) :
    (args : List (Argument Expr)) → (∀ arg ∈ args, c.Approves arg.value) →
      A.Computes σ count [] (c.lowerSubscript a args) (c.subscriptOf σ a args) .subscript
  | [], _ => throw
  | _ :: _ :: _, _ => by
    rw [Context.lowerSubscript_of_two]
    exact throw
  | [⟨value, _, _⟩], he => by
    have he := he _ List.mem_cons_self
    have hvalue := (lower hc hsuits .value value he).toValue
    cases value with
    | fromEnd id count =>
      rw [Context.subscriptOf_fromEnd]
      exact (lower hc hsuits .value count (he.count hc)).toValue.mapped fun _ _ _ ho ↦ .fromEnd ho.1
    | range id start stop =>
      exact rangeLiteralCode (lowerBound hc hsuits start fun e h ↦ by subst h; exact he.start hc)
        (lowerBound hc hsuits stop fun e h ↦ by subst h; exact he.stop hc)
    | _ =>
      rw [Context.subscriptOf_value (fun _ _ h ↦ by cases h) (fun _ _ _ h ↦ by cases h),
        Context.lowerSubscript_value (fun _ _ h ↦ by cases h) (fun _ _ _ h ↦ by cases h)]
      exact hvalue.mapped fun _ _ _ ho ↦ reads_holding ho.1

theorem lowerBound (hc : c.Regular) {σ : Situation} (hsuits : A.Suits c σ count) :
    (bound : Option Expr) → (∀ e, bound = some e → c.Approves e) →
      A.Computes σ count [] (c.lowerBound bound) (c.boundOf σ bound) .bound
  | none, _ => pure (.omitted : Bound.Reads [] .omitted .omitted) nofun
  | some e, he => by
    have hvalue := (lower hc hsuits .value e (he e rfl)).toValue
    cases e with
    | fromEnd id count =>
      rw [Context.boundOf_fromEnd]
      exact (lower hc hsuits .value count ((he _ rfl).count hc)).toValue.mapped
        fun _ _ _ ho ↦ .fromEnd ho.1
    | _ =>
      rw [Context.boundOf_value (fun _ _ h ↦ by cases h),
        Context.lowerBound_value (fun _ _ h ↦ by cases h)]
      exact boundBy hvalue

theorem lowerIndex (hc : c.Regular) {σ : Situation} (hsuits : A.Suits c σ count)
    (isStop : Bool) :
    (bound : Option Expr) → (∀ e, bound = some e → c.Approves e) →
      A.Computes σ count [] (c.lowerIndex isStop bound) (c.indexOf σ isStop bound)
        (.value A.frame count)
  | none, _ => omittedIndex isStop
  | some e, he => by
    rw [Context.indexOf_some]
    exact indexBy (lower hc hsuits .value e (he e rfl)).toValue

end

end Activation.Computes

end InlineArrays
