import InlineArrays.Machine.Input
import InlineArrays.Proofs.Machine.Materialized

/-!
# Confined values

A value is confined to a set of roots if everything that it or a part of it refers to is stored at
one of them: addresses and spans by their own root, objects by the cell they are in.  Reading and
replacing parts of confined values makes no way out of the set, and nothing dangles in a set that
memory is closed under.
-/

namespace InlineArrays

namespace Value

/-- The root of what a value itself refers to. -/
def target? : Value → Option Root
  | .address target => some target.root
  | .span view => view.base.map (·.root)
  | .object cell => some (.heap cell)
  | _ => none

/-- What the value and its parts refer to is stored at these roots. -/
def Confined (P : Root → Prop) (v : Value) : Prop := ∀ u ∈ v.parts, ∀ r ∈ u.target?, P r

variable {P Q : Root → Prop} {v w new : Value}

theorem Confined.mono (h : v.Confined P) (hPQ : ∀ r, P r → Q r) : v.Confined Q :=
  fun u hu r hr ↦ hPQ r (h u hu r hr)

theorem confined_of_parts_eq (hparts : v.parts = [v]) : v.Confined P ↔ ∀ r ∈ v.target?, P r := by
  rw [Confined, hparts, List.forall_mem_singleton]

theorem confined_of_target?_eq_none (hparts : v.parts = [v]) (ht : v.target? = none) :
    v.Confined P := by
  rw [confined_of_parts_eq hparts, ht]
  exact fun r hr ↦ absurd hr (Option.not_mem_none r)

theorem confined_of_target?_eq_some {r : Root} (hparts : v.parts = [v])
    (ht : v.target? = some r) : v.Confined P ↔ P r := by
  rw [confined_of_parts_eq hparts, ht]
  simp only [Option.mem_some_iff, forall_eq']

@[simp] theorem confined_unit : Confined P .unit := confined_of_target?_eq_none rfl rfl

@[simp] theorem confined_null : Confined P .null := confined_of_target?_eq_none rfl rfl

@[simp] theorem confined_int (n : Int64) : Confined P (.int n) :=
  confined_of_target?_eq_none rfl rfl

@[simp] theorem confined_bool (b : Bool) : Confined P (.bool b) :=
  confined_of_target?_eq_none rfl rfl

@[simp] theorem confined_index (offset : Offset) : Confined P (.index offset) :=
  confined_of_target?_eq_none rfl rfl

@[simp] theorem confined_range (start stop : Offset) : Confined P (.range start stop) :=
  confined_of_target?_eq_none rfl rfl

@[simp] theorem confined_object {cell : Nat} : Confined P (.object cell) ↔ P (.heap cell) :=
  confined_of_target?_eq_some rfl rfl

@[simp] theorem confined_address {target : Address} :
    Confined P (.address target) ↔ P target.root :=
  confined_of_target?_eq_some rfl rfl

@[simp] theorem confined_span {view : SpanView} :
    Confined P (.span view) ↔ ∀ base, view.base = some base → P base.root := by
  rw [confined_of_parts_eq rfl, show (Value.span view).target? = view.base.map (·.root) from rfl]
  simp only [Option.mem_def, Option.map_eq_some_iff, forall_exists_index, and_imp,
    forall_apply_eq_imp_iff₂]

@[simp] theorem confined_struct {fields : List (String × Value)} :
    Confined P (.struct fields) ↔ ∀ f ∈ fields, f.2.Confined P := by
  simp only [Confined, parts, fieldParts_eq, itemParts_eq, List.forall_mem_cons, target?,
    List.mem_flatMap, List.mem_map]
  constructor
  · exact fun h f hf u hu ↦ h.2 u ⟨_, ⟨f, hf, rfl⟩, hu⟩
  · rintro h
    refine ⟨nofun, ?_⟩
    rintro u ⟨_, ⟨f, hf, rfl⟩, hu⟩
    exact h f hf u hu

@[simp] theorem confined_array {items : List Value} :
    Confined P (.array items) ↔ ∀ item ∈ items, item.Confined P := by
  simp only [Confined, parts, itemParts_eq, List.forall_mem_cons, target?, List.mem_flatMap]
  constructor
  · exact fun h item hitem u hu ↦ h.2 u ⟨item, hitem, hu⟩
  · rintro h
    refine ⟨nofun, ?_⟩
    rintro u ⟨item, hitem, hu⟩
    exact h item hitem u hu

/-! ## Parts -/

theorem Confined.of_mem_children (hv : v.Confined P) (hw : w ∈ v.children) : w.Confined P := by
  cases v with
  | struct fields =>
    obtain ⟨f, hf, rfl⟩ := List.mem_map.1 hw
    exact confined_struct.1 hv f hf
  | array items => exact confined_array.1 hv w hw
  | _ => cases hw

theorem Confined.get {path : List Step} (hv : v.Confined P) (h : v.get path = .ok w) :
    w.Confined P :=
  get_inv (fun _ _ hv ↦ hv.of_mem_children) hv h

theorem Confined.setField {name : String} {fields : List (String × Value)}
    (hfields : ∀ f ∈ fields, f.2.Confined P) (hnew : new.Confined P) :
    ∀ f ∈ Value.setField name new fields, f.2.Confined P := by
  induction fields with
  | nil => nofun
  | cons first rest ih =>
    obtain ⟨hfirst, hrest⟩ := List.forall_mem_cons.1 hfields
    unfold Value.setField
    split
    · exact List.forall_mem_cons.2 ⟨hnew, hrest⟩
    · exact List.forall_mem_cons.2 ⟨hfirst, ih hrest⟩

theorem Confined.withChild (hv : v.Confined P) (hnew : new.Confined P) (step : Step) :
    (v.withChild new step).Confined P := by
  cases step with
  | field name =>
    cases v with
    | struct fields => exact confined_struct.2 (Confined.setField (confined_struct.1 hv) hnew)
    | _ => exact hv
  | element position =>
    cases v with
    | array items =>
      refine confined_array.2 fun item hitem ↦ ?_
      rcases List.mem_or_eq_of_mem_set hitem with hold | rfl
      · exact confined_array.1 hv item hold
      · exact hnew
    | _ => exact hv

theorem Confined.set {path : List Step} (hv : v.Confined P) (hnew : new.Confined P)
    (h : Value.set new v path = .ok w) : w.Confined P := by
  induction path generalizing v w with
  | nil =>
    cases h
    exact hnew
  | cons step path ih =>
    obtain ⟨absent, hset⟩ := set_cons new v step path
    rw [hset] at h
    obtain ⟨inner, hinner, h⟩ := Except.bind_eq_ok.1 h
    obtain ⟨changed, hchanged, h⟩ := Except.bind_eq_ok.1 h
    cases h
    have hchild : inner.Confined P := hv.of_mem_children (mem_children_of_child hinner)
    exact hv.withChild (ih hchild hchanged) step

/-! ## Values made from types and inputs -/

theorem defaultWithin_confined (types : TypeTable) (depth : Nat) (type : TypeId) :
    (defaultWithin types depth type).Confined P := by
  induction depth generalizing type with
  | zero => exact confined_null
  | succ depth ih =>
    unfold defaultWithin
    split
    case h_8 array _ =>
      refine confined_array.2 fun item hitem ↦ ?_
      exact List.eq_of_mem_replicate hitem ▸ ih array.element
    case h_9 struct _ =>
      split
      · exact confined_null
      · refine confined_struct.2 fun f hf ↦ ?_
        obtain ⟨field, -, rfl⟩ := List.mem_map.1 hf
        exact ih field.type
    all_goals simp

theorem defaultValue_confined (types : TypeTable) (type : TypeId) :
    (defaultValue types type).Confined P := defaultWithin_confined types _ type

theorem defaultObject_confined (types : TypeTable) (type : TypeId) :
    (defaultObject types type).Confined P := by
  unfold defaultObject
  split
  · refine confined_struct.2 fun f hf ↦ ?_
    obtain ⟨field, -, rfl⟩ := List.mem_map.1 hf
    exact defaultValue_confined types field.type
  · exact confined_null

theorem confined_of_rangeOfData? {entries : List (String × Data)}
    (h : rangeOfData? entries = some v) : v.Confined P := by
  obtain ⟨start, -, h⟩ := Option.bind_eq_some_iff.1 h
  obtain ⟨stop, -, h⟩ := Option.bind_eq_some_iff.1 h
  cases h
  exact confined_range start stop

end Value

namespace SpanView

variable {P : Root → Prop} {view : SpanView}

/-- The elements of a span are in the storage that the span is of. -/
theorem confined_of_index {position : Int64} {element : Address}
    (hview : (Value.span view).Confined P) (h : view.index position = .ok element) :
    (Value.address element).Confined P := by
  unfold index at h
  split at h
  · rename_i base hbase
    split at h
    · cases h
      exact Value.confined_address.2 (Value.confined_span.1 hview base hbase)
    · cases h
  · cases h

theorem confined_of_slice {start count : Int64} {part : SpanView}
    (hview : (Value.span view).Confined P) (h : view.slice start count = .ok part) :
    (Value.span part).Confined P := by
  unfold slice at h
  split at h
  · cases h
    exact Value.confined_span.2 fun base hbase ↦ Value.confined_span.1 hview base hbase
  · cases h

end SpanView

/-! ## Closed sets of roots -/

namespace Memory

variable {m : Memory} {P Q : Root → Prop} {a : Address} {v : Value}

/-- There is something at each of the roots `P`, and it is confined to `Q`. -/
def Holds (m : Memory) (P Q : Root → Prop) : Prop :=
  ∀ r, P r → ∃ v, m.root? r = some v ∧ v.Confined Q

theorem Holds.mono {Q' : Root → Prop} (h : m.Holds P Q) (hQ : ∀ r, Q r → Q' r) : m.Holds P Q' :=
  fun r hr ↦ (h r hr).imp fun _ hv ↦ ⟨hv.1, hv.2.mono hQ⟩

theorem Holds.read_confined (h : m.Holds P Q) (ha : P a.root) (hread : m.read a = .ok v) :
    v.Confined Q := by
  obtain ⟨stored, hstored, hconfined⟩ := h a.root ha
  rw [read, hstored] at hread
  exact hconfined.get hread

theorem Holds.read_ne_dangling (h : m.Holds P Q) (ha : P a.root) {e : RuntimeError}
    (hread : m.read a = .error e) : e ≠ .danglingReference := by
  obtain ⟨stored, hstored, -⟩ := h a.root ha
  rw [read, hstored] at hread
  exact (Value.get_benign hread).ne_dangling

theorem Holds.write_ne_dangling (h : m.Holds P Q) (ha : P a.root) {e : RuntimeError}
    (hwrite : m.write a v = .error e) : e ≠ .danglingReference := by
  obtain ⟨stored, hstored, -⟩ := h a.root ha
  rw [write, hstored] at hwrite
  dsimp only at hwrite
  cases hset : Value.set v stored a.path with
  | ok new =>
    rw [hset] at hwrite
    cases hwrite
  | error e' =>
    rw [hset] at hwrite
    cases hwrite
    exact (Value.set_benign hset).ne_dangling

/-- What a confined value goes on to is confined, and is there. -/
theorem Holds.constituents (h : m.Holds P P) (hv : v.Confined P) :
    match m.constituents v with
    | .ok items => ∀ w ∈ items, w.Confined P
    | .error e => e ≠ .danglingReference := by
  cases v with
  | address target =>
    have htarget := Value.confined_address.1 hv
    rw [Memory.constituents]
    cases hread : m.read target with
    | error e => exact h.read_ne_dangling htarget hread
    | ok found => exact List.forall_mem_singleton.2 (h.read_confined htarget hread)
  | object cell =>
    obtain ⟨stored, hstored, hconfined⟩ := h _ (Value.confined_object.1 hv)
    have hcell : m.heap[cell]? = some stored := hstored
    rw [Memory.constituents, hcell]
    exact List.forall_mem_singleton.2 hconfined
  | span view =>
    rw [Memory.constituents]
    cases hbase : view.base with
    | none =>
      dsimp only
      by_cases hlength : view.length = 0
      · rw [if_pos hlength]
        exact List.forall_mem_nil _
      · rw [if_neg hlength]
        simp
    | some base =>
      intro w hw
      obtain ⟨i, -, rfl⟩ := List.mem_map.1 hw
      exact Value.confined_address.2 (Value.confined_span.1 hv base hbase)
  | struct fields | array items | unit | null | int | bool | index | range =>
    exact fun w hw ↦ hv.of_mem_children hw

/-- In a set that memory is closed under, no value is found to dangle. -/
theorem Holds.materializeWithin_ne_dangling (h : m.Holds P P) (depth : Nat) (hv : v.Confined P) :
    m.materializeWithin depth v ≠ .error .danglingReference := by
  induction depth generalizing v with
  | zero => nofun
  | succ depth ih =>
    have hnext := h.constituents hv
    cases hitems : m.constituents v with
    | error e =>
      rw [hitems] at hnext
      rw [materializeWithin_of_error hitems]
      exact fun heq ↦ hnext (Except.error.inj heq)
    | ok items =>
      rw [hitems] at hnext
      rw [materializeWithin_of_ok hitems]
      intro heq
      cases hshown : items.mapM (m.materializeWithin depth) with
      | ok shown =>
        rw [hshown] at heq
        cases heq
      | error e =>
        rw [hshown] at heq
        cases heq
        obtain ⟨item, hitem, herror⟩ := Except.mapM_eq_error hshown
        exact ih (hnext item hitem) herror

theorem Holds.materialize_ne_dangling (h : m.Holds P P) (hv : v.Confined P) :
    m.materialize v ≠ .error .danglingReference :=
  h.materializeWithin_ne_dangling _ hv

end Memory

end InlineArrays
