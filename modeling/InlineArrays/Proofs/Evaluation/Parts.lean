import InlineArrays.Proofs.Evaluation.Places

/-!
# Parts of copies and parts in memory

A field or an element of an expression is read in two ways.  Where the expression has an address its
part is found first and then read; where it has none it is copied as a whole and the part is taken from
the copy.  Both read the same, but for the errors of copying what is not as its type has it.
-/

namespace InlineArrays

/-! ## Values of a type's shape -/

/-- The paths into values of a type along fields of structs and elements of inline arrays. -/
inductive TypeTable.HasPath (t : TypeTable) : TypeId → List Step → Prop
  | whole {id : TypeId} : HasPath t id []
  | field {id : TypeId} {type : StructType} {f : Field} {name : String} {path : List Step} :
    t.struct? id = some type → type.isClass = false → type.field? name = some f →
      HasPath t f.type path → HasPath t id (.field name :: path)
  | element {id : TypeId} {type : ArrayType} {position : Nat} {path : List Step} :
    t.array? id = some type → position < type.length → HasPath t type.element path →
      HasPath t id (.element position :: path)

/-- The value has all fields and elements that its type says it has. -/
def TypeTable.Fits (t : TypeTable) (id : TypeId) (v : Value) : Prop :=
  ∀ path, t.HasPath id path → ∃ w, v.get path = .ok w

namespace TypeTable.Fits

variable {t : TypeTable} {id part : TypeId} {v : Value}

/-- A part of a value that fits is there and fits. -/
theorem step {step : Step} (h : t.Fits id v)
    (hpaths : ∀ path, t.HasPath part path → t.HasPath id (step :: path)) :
    ∃ w, v.get [step] = .ok w ∧ t.Fits part w := by
  obtain ⟨w, hw⟩ := h _ (hpaths [] .whole)
  refine ⟨w, hw, fun path hpath ↦ ?_⟩
  obtain ⟨u, hu⟩ := h _ (hpaths path hpath)
  refine ⟨u, ?_⟩
  rwa [← List.singleton_append, Value.get_append, hw] at hu

theorem field {type : StructType} {f : Field} {name : String} (h : t.Fits id v)
    (htype : t.struct? id = some type) (hclass : type.isClass = false)
    (hfield : type.field? name = some f) :
    ∃ w, v.get [.field name] = .ok w ∧ t.Fits f.type w :=
  h.step fun _ ↦ .field htype hclass hfield

theorem element {type : ArrayType} {position : Nat} (h : t.Fits id v)
    (htype : t.array? id = some type) (hposition : position < type.length) :
    ∃ w, v.get [.element position] = .ok w ∧ t.Fits type.element w :=
  h.step fun _ ↦ .element htype hposition

end TypeTable.Fits

/-! ## Parts of locations -/

theorem Memory.read_join (m : Memory) (a : Address) (step : Step) :
    m.read (a.join step) = m.read a >>= fun v ↦ v.get [step] := by
  rw [Memory.read, Memory.read]
  cases hroot : m.root? a.root with
  | none =>
    rw [show m.root? (a.join step).root = none from hroot]
    rfl
  | some value =>
    rw [show m.root? (a.join step).root = some value from hroot]
    exact value.get_append a.path [step]

namespace Location

variable {m : Memory} {l l' : Location} {v : Value}

/-- Parts of the location are told from it alone; the fields of an object are not parts of the
reference to it. -/
def IsProper : Location → Prop
  | .referred v => ∃ address, v = .address address
  | .copied .. => True

theorem isProper_of_read (h : l.read m = .ok v) : l.IsProper := by
  cases l with
  | referred w =>
    obtain ⟨address, haddress, -⟩ := Except.bind_eq_ok.1 h
    exact ⟨address, Value.toAddress_eq_ok haddress⟩
  | copied => trivial

theorem isProper_of_field {name : String} (h : l.field name = .ok l') : l'.IsProper := by
  cases l with
  | referred v =>
    obtain ⟨address, -, rfl⟩ := Except.map_eq_ok.1 h
    exact ⟨address, rfl⟩
  | copied =>
    cases h
    trivial

theorem field_bind_read (h : l.IsProper) (name : String) :
    (l.field name >>= fun l ↦ l.read m) = l.read m >>= fun v ↦ v.get [.field name] := by
  cases l with
  | referred v =>
    obtain ⟨address, rfl⟩ := h
    exact m.read_join address (.field name)
  | copied v path => exact v.get_append path [.field name]

end Location

/-- A position among so many elements. -/
def Value.toPosition (v : Value) (length : Nat) : Except RuntimeError Nat := do
  let n ← v.toInt
  if 0 ≤ n ∧ n.toUInt64.toNat < length then .ok n.toUInt64.toNat
  else .error (.indexOutOfRange n length)

namespace Extent

variable {length : Nat}

theorem lt_of_toPosition {v : Value} {k : Nat} (h : v.toPosition length = .ok k) : k < length := by
  obtain ⟨n, -, h⟩ := Except.bind_eq_ok.1 h
  split at h
  · rename_i hn
    cases h
    exact hn.2
  · cases h

theorem index_copied (w position : Value) :
    (Extent.copied w [] length).index position =
      (fun k ↦ .copied w [.element k]) <$> position.toPosition length := by
  rw [index, Value.toPosition, map_bind]
  congr 1
  funext n
  split <;> rfl

theorem index_span (base : Address) (readonly : Bool) (position : Value) :
    (Extent.span (.span ⟨some base, 0, length, readonly⟩)).index position =
      (fun k ↦ .stored (base.join (.element k))) <$> position.toPosition length := by
  rw [index, Value.spanElement, Value.toPosition, map_bind]
  cases position.toInt with
  | error e => rfl
  | ok n =>
    change Location.stored <$> SpanView.index ⟨some base, 0, length, readonly⟩ n =
      (fun k ↦ Location.stored (base.join (.element k))) <$>
        if 0 ≤ n ∧ n.toUInt64.toNat < length then Except.ok n.toUInt64.toNat
        else .error (.indexOutOfRange n length)
    by_cases hin : 0 ≤ n ∧ n.toUInt64.toNat < length <;> simp [SpanView.index, hin]

theorem isProper_of_index {x : Extent} {position : Value} {l : Location}
    (h : x.index position = .ok l) : l.IsProper := by
  cases x with
  | span v =>
    obtain ⟨address, -, rfl⟩ := Except.map_eq_ok.1 h
    exact ⟨address, rfl⟩
  | copied v path n =>
    obtain ⟨i, -, h⟩ := Except.bind_eq_ok.1 h
    split at h
    · cases h
      trivial
    · cases h

theorem isProper_of_sliceBetween {x : Extent} {start stop : Value} {l : Location}
    (h : x.sliceBetween start stop = .ok l) : l.IsProper := by
  obtain ⟨count, -, h⟩ := Except.bind_eq_ok.1 h
  cases x with
  | span v =>
    obtain ⟨part, -, rfl⟩ := Except.map_eq_ok.1 h
    trivial
  | copied v path n => cases h

end Extent

namespace Subscript

variable {y : Subscript Value}

/-- An element is found by a position, which depends on the number of elements only. -/
theorem exists_index (hslice : y.isSlice = false) (length : Value) :
    ∃ position : Except RuntimeError Value, ∀ x : Extent, x.length = .ok length →
      y.locate x = position >>= x.index := by
  cases y with
  | int v => exact ⟨.ok v, fun x _ ↦ rfl⟩
  | fromEnd v => exact ⟨length.minus v, fun x hx ↦ by
    change (x.length >>= fun n ↦ n.minus v >>= x.index) = _
    rw [hx]
    rfl⟩
  | index v => exact ⟨v.positionIn length, fun x hx ↦ by
    change (x.length >>= fun n ↦ v.positionIn n >>= x.index) = _
    rw [hx]
    rfl⟩
  | dynamic v => exact ⟨v.converted, fun x _ ↦ rfl⟩
  | rangeLiteral | range => cases hslice

/-- An element of a copy and an element of what it is a copy of are found by one position. -/
theorem exists_position (hslice : y.isSlice = false) (length : Nat) :
    ∃ position : Except RuntimeError Nat, (∀ k, position = .ok k → k < length) ∧
      (∀ w, y.locate (.copied w [] length) = (fun k ↦ .copied w [.element k]) <$> position) ∧
      ∀ base readonly, y.locate (.span (.span ⟨some base, 0, length, readonly⟩)) =
        (fun k ↦ .stored (base.join (.element k))) <$> position := by
  obtain ⟨position, hposition⟩ := exists_index hslice (.int (Int64.ofNat length))
  refine ⟨position >>= fun v ↦ v.toPosition length, fun k hk ↦ ?_, fun w ↦ ?_,
    fun base readonly ↦ ?_⟩
  · obtain ⟨v, -, hk⟩ := Except.bind_eq_ok.1 hk
    exact Extent.lt_of_toPosition hk
  · rw [hposition _ rfl, map_bind, funext (Extent.index_copied w)]
  · rw [hposition _ rfl, map_bind, funext (Extent.index_span base readonly)]

/-- An element of a copy is what is read of the element in memory. -/
theorem locate_bind_read (hslice : y.isSlice = false) (length : Nat) {m : Memory} {base : Address}
    {w : Value} (hw : m.read base = .ok w) (readonly : Bool) :
    (y.locate (.span (.span ⟨some base, 0, length, readonly⟩)) >>= fun l ↦ l.read m) =
      y.locate (.copied w [] length) >>= fun l ↦ l.read m := by
  obtain ⟨position, -, hcopy, hspan⟩ := exists_position hslice length
  rw [hcopy, hspan]
  simp only [map_eq_pure_bind, bind_assoc, pure_bind]
  congr 1
  funext k
  refine (m.read_join base (.element k)).trans ?_
  rw [hw]
  rfl

theorem isProper_of_locateIn {x : Extent} {length : Value} {l : Location}
    (h : y.locateIn x length = .ok l) : l.IsProper := by
  cases y with
  | int v => exact Extent.isProper_of_index h
  | fromEnd v | index v | dynamic v =>
    obtain ⟨position, -, h⟩ := Except.bind_eq_ok.1 h
    exact Extent.isProper_of_index h
  | range v =>
    obtain ⟨_, -, h⟩ := Except.bind_eq_ok.1 h
    obtain ⟨start, -, h⟩ := Except.bind_eq_ok.1 h
    obtain ⟨_, -, h⟩ := Except.bind_eq_ok.1 h
    obtain ⟨stop, -, h⟩ := Except.bind_eq_ok.1 h
    exact Extent.isProper_of_sliceBetween h
  | rangeLiteral start stop =>
    obtain ⟨start, -, h⟩ := Except.bind_eq_ok.1 h
    obtain ⟨stop, -, h⟩ := Except.bind_eq_ok.1 h
    exact Extent.isProper_of_sliceBetween h

theorem isProper_of_locate {x : Extent} {l : Location} (h : y.locate x = .ok l) : l.IsProper := by
  rw [locate] at h
  split at h
  · obtain ⟨length, -, h⟩ := Except.bind_eq_ok.1 h
    exact isProper_of_locateIn h
  · exact isProper_of_locateIn h

end Subscript

namespace Context

variable {c : Context} {σ : Situation} {id : ExprId} {e r : Expr} {name : String}

/-- Only a variable may hold something else than the address of its storage. -/
theorem isProper_of_locationOf (he : e.isVariable = false) {l : Location}
    (h : c.locationOf σ e = .ok l) : l.IsProper := by
  cases e with
  | var id v => cases he
  | field id r name =>
    obtain ⟨owner, -, h⟩ := Except.bind_eq_ok.1 h
    obtain ⟨owner, -, h⟩ := Except.bind_eq_ok.1 h
    exact Location.isProper_of_field h
  | element id r args =>
    cases hbind : c.bind (.element id r args) with
    | error errors =>
      unfold locationOf at h
      rw [hbind] at h
      cases h
    | ok a =>
      rw [locationOf_element hbind] at h
      obtain ⟨x, -, h⟩ := Except.bind_eq_ok.1 h
      obtain ⟨y, -, h⟩ := Except.bind_eq_ok.1 h
      exact Subscript.isProper_of_locate h
  | int | bool | default =>
    cases h
    trivial
  | fromEnd | range =>
    obtain ⟨v, -, h⟩ := Except.bind_eq_ok.1 h
    obtain ⟨v, -, h⟩ := Except.bind_eq_ok.1 h
    obtain ⟨v, -, h⟩ := Except.bind_eq_ok.1 h
    cases h
    trivial
  | conditional id r access =>
    obtain ⟨v, -, h⟩ := Except.bind_eq_ok.1 h
    obtain ⟨v, -, h⟩ := Except.bind_eq_ok.1 h
    split at h
    · cases h
      trivial
    · obtain ⟨v, -, h⟩ := Except.bind_eq_ok.1 h
      obtain ⟨v, -, h⟩ := Except.bind_eq_ok.1 h
      cases h
      trivial
  | placeholder id r =>
    unfold locationOf at h
    split at h
    · cases h
      trivial
    · cases h
  | call | string | span => cases h

theorem locationOf_fieldOfObject (hclass : c.types.isClass (c.typeOf r)) :
    c.locationOf σ (.field id r name) =
      c.valueOf σ r >>= fun v ↦ (Location.referred v).field name := by
  conv_lhs => unfold locationOf
  simp only [valueOf, ownerLocation, if_pos hclass, bind_assoc, map_eq_pure_bind, pure_bind]

theorem locationOf_fieldOfStored (hclass : ¬ c.types.isClass (c.typeOf r))
    (hdemand : c.storageDemand r = .address) :
    c.locationOf σ (.field id r name) = c.locationOf σ r >>= fun l ↦ l.field name := by
  conv_lhs => unfold locationOf
  simp only [ownerLocation, if_neg hclass, hdemand, Demand.take_address]
  rfl

/-- A field of an object is read where the object is. -/
theorem valueOf_fieldOfObject (hclass : c.types.isClass (c.typeOf r)) :
    c.valueOf σ (.field id r name) =
      c.valueOf σ r >>= fun v ↦ v.fieldAddress name >>= σ.memory.read := by
  simp only [valueOf, locationOf, ownerLocation, if_pos hclass, Location.field, bind_assoc,
    map_eq_pure_bind, pure_bind]
  rfl

/-- A field of a struct is read from the struct, whether that is in memory or copied. -/
theorem valueOf_fieldOfStruct (hclass : ¬ c.types.isClass (c.typeOf r))
    (hr : ∀ l, c.locationOf σ r = .ok l → l.IsProper) :
    c.valueOf σ (.field id r name) = c.valueOf σ r >>= fun v ↦ v.get [.field name] := by
  simp only [valueOf, locationOf, ownerLocation, if_neg hclass, bind_assoc]
  cases hl : c.locationOf σ r with
  | error e => rfl
  | ok l =>
    cases hdemand : c.storageDemand r with
    | address => exact Location.field_bind_read (hr l hl) name
    | value =>
      change (Location.whole <$> l.read σ.memory >>= fun l ↦ l.field name >>= fun l ↦
        l.read σ.memory) = l.read σ.memory >>= fun v ↦ v.get [.field name]
      rw [map_eq_pure_bind, bind_assoc]
      rfl

section Elements

variable {args : List (Argument Expr)} {a : Access} {p : Projection} {l : Location}
  (hbind : c.bind (.element id r args) = .ok a) (harray : a.indexed = .array p)
include hbind harray

theorem isSome_array?_of_bind : (c.types.array? (c.typeOf r)).isSome := by
  obtain ⟨-, -, hindexed, -⟩ := bind_eq_ok hbind
  rw [harray] at hindexed
  obtain ⟨type, htype, -⟩ := project?_of_indexed hindexed
  rw [htype]
  rfl

/-- An element of an inline array in memory is there as well. -/
theorem locationOf_elementOfStored (hc : c.Regular) (he : c.Approves (.element id r args))
    (hslice : a.isSlice = false) (hr : c.IsStored r)
    (h : c.locationOf σ (.element id r args) = .ok l) :
    ∃ base k, k < p.length ∧ c.locationOf σ r = .ok (.stored base) ∧
      l = .stored (base.join (.element k)) := by
  have hkind := isSome_array?_of_bind hbind harray
  obtain ⟨-, rfl, -, arg, rfl, hform, -⟩ := bind_eq_ok hbind
  rw [locationOf_element hbind, extent_eq_ofArray harray (storageDemand_of_isStored hr)] at h
  obtain ⟨x, hx, h⟩ := Except.bind_eq_ok.1 h
  obtain ⟨y, hy, h⟩ := Except.bind_eq_ok.1 h
  obtain ⟨lr, hlr, hx⟩ := Except.bind_eq_ok.1 hx
  obtain ⟨v, rfl⟩ := referred_of_isStored hc a.receiver (he.receiver hc) hr (.inr hkind) hlr
  obtain ⟨base, hbase, hx⟩ := Except.bind_eq_ok.1 hx
  cases hx
  obtain ⟨position, hlt, -, hlocate⟩ :=
    Subscript.exists_position ((isSlice_subscriptOf hform hy).trans hslice) p.length
  rw [hlocate] at h
  obtain ⟨k, hk, rfl⟩ := Except.map_eq_ok.1 h
  obtain rfl := Value.toAddress_eq_ok hbase
  exact ⟨base, k, hlt k hk, hlr, rfl⟩

/-- Where an element of an inline array in memory is read, the array can be. -/
theorem exists_valueOf_of_element (hc : c.Regular) (he : c.Approves (.element id r args))
    (hslice : a.isSlice = false) (hr : c.IsStored r) {v : Value}
    (h : c.valueOf σ (.element id r args) = .ok v) : ∃ w, c.valueOf σ r = .ok w := by
  obtain ⟨l, hl, hv⟩ := Except.bind_eq_ok.1 h
  obtain ⟨base, k, -, hbase, rfl⟩ := locationOf_elementOfStored hbind harray hc he hslice hr hl
  have hv : σ.memory.read (base.join (.element k)) = .ok v := hv
  rw [Memory.read_join] at hv
  obtain ⟨w, hw, -⟩ := Except.bind_eq_ok.1 hv
  refine ⟨w, ?_⟩
  rw [valueOf, hbase]
  exact hw

theorem valueOf_elementOfStored (hr : c.IsStored r) {base : Address}
    (hbase : c.locationOf σ r = .ok (.stored base)) :
    c.valueOf σ (.element id r args) = c.subscriptOf σ a args >>= fun y ↦
      y.locate (.span (.span ⟨some base, 0, p.length, p.kind.isReadonly⟩)) >>= fun l ↦
        l.read σ.memory := by
  obtain ⟨-, rfl, -⟩ := bind_eq_ok hbind
  rw [valueOf, locationOf_element hbind, extent_eq_ofArray harray (storageDemand_of_isStored hr),
    hbase]
  simp only [bind_assoc]
  rfl

/-- An element of a copy is read from the copy. -/
theorem valueOf_elementOfCopy (hdemand : c.storageDemand r = .value) :
    c.valueOf σ (.element id r args) = c.valueOf σ r >>= fun w ↦ c.subscriptOf σ a args >>= fun y ↦
      y.locate (.copied w [] p.length) >>= fun l ↦ l.read σ.memory := by
  obtain ⟨-, rfl, -⟩ := bind_eq_ok hbind
  conv_lhs => rw [valueOf, locationOf_element hbind, extent_eq_copied harray hdemand]
  simp only [map_eq_pure_bind, bind_assoc, pure_bind]

end Elements

end Context

end InlineArrays
