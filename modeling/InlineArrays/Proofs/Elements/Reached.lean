import InlineArrays.Proofs.Elements.Bodies
import InlineArrays.Proofs.Elements.Offsets
import InlineArrays.Proofs.Machine.Leaves
import InlineArrays.Proofs.Machine.Slots
import InlineArrays.Proofs.Scenario.Arrays

/-!
# Code of places and windows

While a body is tracked, the parameter holds the address of a cell of the heap, ref locals hold
addresses in it, and other locals hold spans over arrays in it.  What is emitted for a place computes
its address in the cell; what is emitted for an access to a constant element computes the address of
that element, whichever way the array is reached.
-/

namespace InlineArrays

namespace Context

variable {c : Context} {x : VariableId} {t : Tracking} {e : Expr} {w : Window} {path : List Step}
  {type : TypeId}

theorem Place.leads (h : c.Place x e path type) :
    c.types.Leads (c.method.var x).type path type := by
  induction h with
  | var => exact .nil
  | field _ hstruct hkind hfield _ ih => exact ih.field_right hstruct hkind hfield
  | element _ harray hposition ih => exact ih.element_right harray (Expr.position?_lt hposition)

/-! ## Windows -/

/-- A window over part of an inline array of integers in the parameter. -/
def IsWindow (c : Context) (x : VariableId) (w : Window) : Prop :=
  ∃ t array, c.types.Leads (c.method.var x).type w.path t ∧ c.types.array? t = some array ∧
    array.element = TypeTable.int ∧ w.start + w.length ≤ array.length

theorem isWindow_of_whole? (h : c.whole? x e = some w) : c.IsWindow x w := by
  obtain ⟨t, array, hplace, harray, helement, hstart, hlength⟩ := whole?_eq_some h
  exact ⟨t, array, hplace.leads, harray, helement, by omega⟩

theorem isWindow_of_slice? (h : c.slice? x e = some w) : c.IsWindow x w := by
  obtain ⟨id, receiver, range, whole, rfl, hwhole, hextent, hpath⟩ := slice?_eq_some h
  obtain ⟨t, array, hplace, harray, helement, -, hlength⟩ := whole?_eq_some hwhole
  obtain ⟨-, -, -, last, -, -, -, hle, hlast, hcount⟩ := Expr.extent?_eq_some hextent
  exact ⟨t, array, hpath ▸ hplace.leads, harray, helement, by omega⟩

theorem IsWindow.leads_element (h : c.IsWindow x w) {i : Nat} (hi : i < w.length) :
    c.types.Leads (c.method.var x).type (w.element i) TypeTable.int := by
  obtain ⟨t, array, hleads, harray, helement, hle⟩ := h
  exact helement ▸ hleads.element_right harray (by omega)

theorem IsWindow.length_lt (h : c.IsWindow x w) (htypes : c.types.LengthsFit) :
    w.length < 2 ^ 63 := by
  obtain ⟨t, array, -, harray, -, hle⟩ := h
  have := htypes t array harray
  omega

/-! ## What is seen -/

/-- A window as a span over an array in a cell of the heap. -/
def spanOf (cell : Nat) (w : Window) : SpanView :=
  ⟨some ⟨.heap cell, w.path⟩, w.start, w.length, false⟩

/-- What the slot of a local holds that stands for a window. -/
def windowValue (cell : Nat) (kind : VariableKind) (w : Window) : Value :=
  match kind with
  | .stackLocal => .span (spanOf cell w)
  | _ => .address ⟨.heap cell, w.path⟩

/-- An activation sees what tracking says, with the parameter in a cell of the heap. -/
structure Holds (c : Context) (x : VariableId) (cell : Nat) (t : Tracking) (view : View) :
    Prop where
  parameter : lookup? x view.slots = some (.address ⟨.heap cell, []⟩)
  declared : ∀ v, v < c.method.vars.size → (lookup? v view.slots).isSome
  windows : ∀ v w, t.windows v = some w → c.IsWindow x w ∧
    lookup? v view.slots = some (windowValue cell (c.method.var v).kind w)
  value : ∃ value, view.heap[cell]? = some value ∧
    ∀ path, c.types.Leads (c.method.var x).type path TypeTable.int →
      value.get path = .ok (.int (t.held path))

variable {A : Activation} {view : View} {known : List (Operand × Value)} {cell : Nat}

theorem Holds.isWindow (h : Holds c x cell t view) (hw : c.window? x t e = some w) :
    c.IsWindow x w := by
  rcases window?_eq_some hw with ⟨id, v, rfl, hv⟩ | hwhole
  · exact (h.windows v w hv).1
  · exact isWindow_of_whole? hwhole

/-- The slot of a variable. -/
theorem realizes_slot (v : VariableId) (name : String) :
    A.Realizes view known (Emission.define (.addressOf v name)) view fun r ↦
      [(r, .address ⟨.slot A.frame v, []⟩)] :=
  .define fun _ _ _ ↦ rfl

theorem realizes_load_slot {v : VariableId} {value : Value} {o : Operand} {comment : Option String}
    (hvalue : lookup? v view.slots = some value) (h : (o, .address ⟨.slot A.frame v, []⟩) ∈ known) :
    A.Realizes view known (Emission.define (.load o) comment) view fun r ↦ [(r, value)] :=
  .define fun _ hm hvalues ↦ Operation.run_load (hvalues _ h)
    (Activation.Sees.read ((hm.slot? v).trans hvalue) rfl)

theorem realizes_load_heap {path : List Step} {value inner : Value} {o : Operand}
    (hvalue : view.heap[cell]? = some value) (hget : value.get path = .ok inner)
    (h : (o, .address ⟨.heap cell, path⟩) ∈ known) :
    A.Realizes view known (Emission.define (.load o)) view fun r ↦ [(r, inner)] :=
  .define fun _ hm hvalues ↦ Operation.run_load (hvalues _ h)
    (Activation.Sees.read ((hm.heap? cell).trans hvalue) hget)

/-- The address of a variable whose slot holds it. -/
theorem realizes_variableAddress {v : VariableId} {a : Address}
    (hv : c.holdsAddress (c.method.var v) = true)
    (hvalue : lookup? v view.slots = some (.address a)) :
    A.Realizes view known (c.variableCode .address v) view fun r ↦ [(r, .address a)] := by
  have haddress : A.Realizes view known (c.variableAddress v) view fun r ↦ [(r, .address a)] := by
    unfold variableAddress
    simp only [hv, if_true]
    exact .bind (realizes_slot v _) fun slot ↦ realizes_load_slot hvalue List.mem_cons_self
  exact .bind haddress fun r ↦ .pure (by simp)

/-- The slot of a local is its storage. -/
theorem realizes_localAddress {v : VariableId} (hv : (c.method.var v).kind = .stackLocal) :
    A.Realizes view known (c.variableAddress v) view fun r ↦
      [(r, .address ⟨.slot A.frame v, []⟩)] := by
  unfold variableAddress holdsAddress
  simp only [hv]
  exact .bind (realizes_slot v _) fun slot ↦ .pure (by simp)

theorem realizes_localValue {v : VariableId} {value : Value}
    (hv : (c.method.var v).kind = .stackLocal) (hvalue : lookup? v view.slots = some value) :
    A.Realizes view known (c.variableCode .value v) view fun r ↦ [(r, value)] :=
  .bind (realizes_localAddress hv) fun _ ↦ realizes_load_slot hvalue List.mem_cons_self

/-! ## Accesses -/

/-- An array that is lowered to its address is viewed as a span. -/
theorem realizes_arraySpan {a : Access} {p : Projection} {base : Address} {receiver : Expr}
    (hreceiver : a.receiver = receiver) (ha : a.indexed = .array p)
    (hdemand : c.storageDemand receiver = .address)
    (h : A.Realizes view known (c.lower .address receiver) view fun r ↦ [(r, .address base)]) :
    A.Realizes view known (c.lower (c.receiverDemand a) receiver >>= c.receiverSpan a) view
      fun r ↦ [(r, .span ⟨some base, 0, p.length, p.kind.isReadonly⟩)] := by
  have hdemand' : c.receiverDemand a = .address := by
    rw [receiverDemand, ha, hreceiver]
    exact hdemand
  rw [hdemand']
  refine .bind h fun o ↦ ?_
  unfold receiverSpan
  rw [ha]
  simp only [hdemand', Demand.inMemory, pure_bind]
  exact .define fun _ _ hvalues ↦ Operation.run_project (hvalues _ List.mem_cons_self)

/-- An access to a constant element of what is viewed as a span. -/
theorem realizes_position {demand : Demand} {id : ExprId} {receiver position : Expr} {a : Access}
    {span : SpanView} {base : Address} {i : Nat} {post : Operand → List (Operand × Value)}
    (hbind : c.bind (.element id receiver [⟨position, none, .none⟩]) = .ok a)
    (ha : a.subscript = position.constantSubscript)
    (hspan : A.Realizes view known (c.lower (c.receiverDemand a) receiver >>= c.receiverSpan a) view
      fun o ↦ [(o, .span span)])
    (hposition : position.position? span.length = some i) (hbase : span.base = some base)
    (hlength : span.length < 2 ^ 63)
    (hfrom : ∀ o more, A.Realizes view
      ((o, .address (base.join (.element (span.start + i)))) :: more) (demand.fromAddress o) view
        post) :
    A.Realizes view known (c.lower demand (.element id receiver [⟨position, none, .none⟩])) view
      post := by
  obtain ⟨s, hs, hselects⟩ := lowerSubscript_position (c := c) hposition ha
  have hslice : a.isSlice = false := by
    rw [Access.isSlice, ha, Expr.isSlice_constantSubscript]
  simp only [lower_yielded hbind, hs, yieldSelected_element hslice, pure_bind]
  exact .bind hspan fun o ↦ .bind (.spill List.mem_cons_self) fun temp ↦
    .bind (.select_position hselects List.mem_cons_self hbase hlength) fun r ↦ hfrom r _

/-- A constant slice of what is viewed as a span. -/
theorem realizes_extent {id : ExprId} {receiver range : Expr} {a : Access} {span : SpanView}
    {first count : Nat} (hbind : c.bind (.element id receiver [⟨range, none, .none⟩]) = .ok a)
    (hslice : a.isSlice = true)
    (hspan : A.Realizes view known (c.lower (c.receiverDemand a) receiver >>= c.receiverSpan a) view
      fun o ↦ [(o, .span span)])
    (hextent : range.extent? span.length = some (first, count)) (hlength : span.length < 2 ^ 63) :
    A.Realizes view known (c.lower .value (.element id receiver [⟨range, none, .none⟩])) view
      fun r ↦ [(r, .span { span with start := span.start + first, length := count })] := by
  obtain ⟨start, stop, last, hs, hstart, hstop, hle, hlast, rfl⟩ :=
    lowerSubscript_extent (c := c) (a := a) hextent
  have hdemand : a.demand = .value := by rw [Access.demand, if_pos hslice]
  simp only [← hdemand, lower_selected hbind, hs, pure_bind]
  exact .bind hspan fun o ↦ .bind (.spill List.mem_cons_self) fun temp ↦
    .select_extent hstart hstop hle hlast List.mem_cons_self hlength

/-! ## Places -/

theorem Place.isPlaceholder (h : c.Place x e path type) : e.isPlaceholder = false := by
  cases h <;> rfl

/-- A place whose storage is that of the parameter is lowered to its address. -/
theorem Place.storageDemand (hx : c.IsStructByRef x) (h : c.Place x e path type)
    (hspan : c.types.spanParts? type = none) : c.storageDemand e = .address := by
  unfold Context.storageDemand
  rw [h.isPlaceholder, h.storageOf hx hspan, hx.referenceable.1]
  rfl

section

variable (hc : c.Analysed x) (htypes : c.types.LengthsFit)
include hc htypes

theorem Place.realizes_address (hparameter : lookup? x view.slots = some (.address ⟨.heap cell, []⟩))
    (h : c.Place x e path type) :
    A.Realizes view known (c.lower .address e) view fun r ↦
      [(r, .address ⟨.heap cell, path⟩)] := by
  induction h generalizing known with
  | var =>
    refine realizes_variableAddress ?_ hparameter
    rw [holdsAddress, hc.parameter.kind_eq]
    rfl
  | @field id receiver name path t struct field hreceiver hstruct hkind hfield hfixed ih =>
    have hclass : c.types.isClass (c.typeOf receiver) = false := by
      rw [hreceiver.typeOf, TypeTable.isClass, hstruct]
      simp [StructType.isClass, hkind]
    have hdemand := hreceiver.storageDemand hc.parameter
      (by rw [TypeTable.spanParts?, TypeTable.get_of_struct? hstruct])
    have howner : c.ownerDemand receiver = .address := by
      rw [ownerDemand, hclass]
      exact hdemand
    unfold lower fieldCode ownerOf
    simp only [howner, hclass, hdemand, Demand.inMemory, Demand.fromAddress, if_false, pure_bind,
      bind_pure, Bool.false_eq_true]
    exact .bind ih fun base ↦ .define fun _ _ hvalues ↦
      Operation.run_fieldAddress (hvalues _ List.mem_cons_self)
  | @element id receiver position path t array i hreceiver harray hposition ih =>
    have hget := TypeTable.get_of_array? harray
    have hspan : c.types.spanParts? t = none := by rw [TypeTable.spanParts?, hget]
    obtain ⟨href, hreadonly⟩ := hc.parameter.referenceable
    have hstorage := hreceiver.storageOf hc.parameter hspan
    have hindexed := indexed_array (e := receiver) (by rw [hreceiver.typeOf]; exact harray)
      (by rw [hstorage]; exact href) (by rw [hstorage]; exact hreadonly)
    obtain ⟨a, hbind, hreceiver', ha, hsubscript⟩ : ∃ a : Access,
        c.bind (.element id receiver [⟨position, none, .none⟩]) = .ok a ∧ a.receiver = receiver ∧
          a.indexed = .array ⟨c.typeOf receiver, array.element, array.length, .mutable,
            c.storageOf receiver⟩ ∧ a.subscript = position.constantSubscript :=
      ⟨_, hc.bind_position id hindexed (by simp [Indexed.length?]) hposition, rfl, rfl, rfl⟩
    have hdemand := hreceiver.storageDemand hc.parameter hspan
    refine realizes_position hbind hsubscript (realizes_arraySpan hreceiver' ha hdemand ih) hposition
      rfl (htypes t array harray) ?_
    intro o more
    refine .pure fun p hp ↦ ?_
    rw [List.mem_singleton.1 hp, Nat.zero_add]
    exact List.mem_cons_self

omit htypes in
/-- What stands for a window is lowered to an address where its storage is wanted. -/
theorem Analysed.storageDemand_of_gives (h : c.Gives x e w) : c.storageDemand e = .address := by
  have hplaceholder : e.isPlaceholder = false := by
    cases h with
    | whole hwhole =>
      obtain ⟨t, array, hplace, -⟩ := whole?_eq_some hwhole
      exact hplace.isPlaceholder
    | refLocal => rfl
    | slices => rfl
  unfold Context.storageDemand
  rw [hplaceholder, (hc.storage_of_gives h).2.1]
  rfl

variable (h : Holds c x cell t view) (ht : Tracking.Sound c x t)
include h ht

/-- Whatever gives a window is viewed as the span that the window is. -/
theorem Holds.realizes_window (hw : c.window? x t e = some w) {a : Access}
    (hreceiver : a.receiver = e) (ha : c.indexed e = .ok a.indexed) :
    A.Realizes view known (c.lower (c.receiverDemand a) e >>= c.receiverSpan a) view fun o ↦
      [(o, .span (spanOf cell w))] := by
  have hgives := ht.gives hw
  rcases hc.indexed_of_gives hgives with ⟨hstart, T, hindexed⟩ | ⟨id, v, s, rfl, hkind, hindexed⟩
  · have hindexed' : a.indexed = .array ⟨T, TypeTable.int, w.length, .mutable, c.storageOf e⟩ :=
      Except.ok.inj (ha.symm.trans hindexed)
    have haddress : A.Realizes view known (c.lower .address e) view fun r ↦
        [(r, .address ⟨.heap cell, w.path⟩)] := by
      cases hgives with
      | whole hwhole =>
        obtain ⟨t', array, hplace, -⟩ := whole?_eq_some hwhole
        exact hplace.realizes_address hc htypes h.parameter
      | @refLocal id v init path w hkind =>
        refine realizes_variableAddress ?_ ?_
        · rw [holdsAddress, hkind]
        · rw [(h.windows v w hw).2, hkind]
          rfl
      | @slices id v value first w hkind htype =>
        have hget : c.types.get (c.typeOf (.var id v)) = .span TypeTable.int false := htype
        unfold indexed at hindexed
        rw [hget] at hindexed
        cases hindexed
    have hspan : spanOf cell w = ⟨some ⟨.heap cell, w.path⟩, 0, w.length, false⟩ := by
      rw [spanOf, hstart]
    rw [hspan]
    exact realizes_arraySpan hreceiver hindexed' (hc.storageDemand_of_gives hgives) haddress
  · have hindexed' : a.indexed = .span .mutable TypeTable.int s :=
      Except.ok.inj (ha.symm.trans hindexed)
    have hdemand : c.receiverDemand a = .value := by
      rw [receiverDemand, hindexed']
    have hslot : lookup? v view.slots = some (.span (spanOf cell w)) := by
      rw [(h.windows v w hw).2, hkind]
      rfl
    have hsame (o : Operand) : c.receiverSpan a o = pure o := by
      rw [receiverSpan, hindexed']
    rw [hdemand]
    exact .bind (realizes_localValue hkind hslot) fun o ↦ hsame o ▸ .pure (by simp)

/-- An access to a constant element of a window. -/
theorem Holds.realizes_element {demand : Demand} {id : ExprId} {receiver position : Expr} {i : Nat}
    {post : Operand → List (Operand × Value)} (hw : c.window? x t receiver = some w)
    (hposition : position.position? w.length = some i)
    (hfrom : ∀ o more, A.Realizes view ((o, .address ⟨.heap cell, w.element i⟩) :: more)
      (demand.fromAddress o) view post) :
    A.Realizes view known (c.lower demand (.element id receiver [⟨position, none, .none⟩])) view
      post := by
  have hgives := ht.gives hw
  obtain ⟨indexed, hindexed, hlength⟩ : ∃ indexed, c.indexed receiver = .ok indexed ∧
      ∀ n ∈ indexed.length?, n = w.length := by
    rcases hc.indexed_of_gives hgives with ⟨-, T, hindexed⟩ | ⟨_, v, s, -, -, hindexed⟩
    · exact ⟨_, hindexed, fun n hn ↦ (Option.some.inj hn).symm⟩
    · exact ⟨_, hindexed, nofun⟩
  have hbind := hc.bind_position id hindexed hlength hposition
  exact realizes_position hbind rfl (h.realizes_window hc htypes ht hw rfl hindexed) hposition rfl
    ((h.isWindow hw).length_lt htypes) hfrom

omit ht in
/-- A constant slice of an array at a place. -/
theorem Holds.realizes_slice (hslice : c.slice? x e = some w) :
    A.Realizes view known (c.lower .value e) view fun r ↦ [(r, .span (spanOf cell w))] := by
  obtain ⟨id, receiver, range, whole, rfl, hwhole, hextent, hpath⟩ := slice?_eq_some hslice
  obtain ⟨T, array, hplace, harray, -, hstart, hlength⟩ := whole?_eq_some hwhole
  obtain ⟨rid, start, stop, last, rfl, -⟩ := Expr.extent?_eq_some hextent
  obtain ⟨-, href, hreadonly⟩ := hc.storage_of_gives (.whole hwhole)
  have hindexed := indexed_array (hplace.typeOf.symm ▸ harray) href hreadonly
  rw [hlength] at hextent
  have hbind := hc.bind_extent id hindexed hextent
  have heq : spanOf cell w = ⟨some ⟨.heap cell, whole.path⟩, 0 + w.start, w.length, false⟩ := by
    rw [spanOf, Nat.zero_add, hpath]
  rw [heq]
  exact realizes_extent hbind rfl (realizes_arraySpan rfl rfl
    (hc.storageDemand_of_gives (.whole hwhole)) (hplace.realizes_address hc htypes h.parameter))
    hextent (htypes T array harray)

end

end Context

end InlineArrays
