import InlineArrays.Machine.Input
import InlineArrays.Proofs.Machine.Values

/-!
# Where values lead

An address and a span lead to the root of the storage they refer to, and a struct or an inline array
leads wherever what is in it leads.  Reading and replacing parts of values that stay within a set of
roots makes no way out of it.
-/

namespace InlineArrays

namespace Value

/-- The value is or holds an address or a span of storage at the root. -/
inductive Leads (r : Root) : Value → Prop
  | address {target : Address} (h : target.root = r) : Leads r (.address target)
  | span {view : SpanView} {base : Address} (hbase : view.base = some base) (h : base.root = r) :
    Leads r (.span view)
  | struct {fields : List (String × Value)} {f : String × Value} (hf : f ∈ fields)
    (h : Leads r f.2) : Leads r (.struct fields)
  | array {items : List Value} {item : Value} (hitem : item ∈ items) (h : Leads r item) :
    Leads r (.array items)

/-- The value leads to these roots only. -/
def Within (P : Root → Prop) (v : Value) : Prop := ∀ r, v.Leads r → P r

variable {P : Root → Prop} {v w new : Value}

@[simp] theorem within_unit : Within P .unit := nofun

@[simp] theorem within_null : Within P .null := nofun

@[simp] theorem within_int (n : Int64) : Within P (.int n) := nofun

@[simp] theorem within_bool (b : Bool) : Within P (.bool b) := nofun

@[simp] theorem within_object (cell : Nat) : Within P (.object cell) := nofun

@[simp] theorem within_index (offset : Offset) : Within P (.index offset) := nofun

@[simp] theorem within_range (start stop : Offset) : Within P (.range start stop) := nofun

@[simp] theorem within_address {target : Address} :
    Within P (.address target) ↔ P target.root := by
  constructor
  · exact fun h ↦ h target.root (.address rfl)
  · rintro h r ⟨rfl⟩
    exact h

@[simp] theorem within_span {view : SpanView} :
    Within P (.span view) ↔ ∀ base, view.base = some base → P base.root := by
  constructor
  · exact fun h base hbase ↦ h base.root (.span hbase rfl)
  · rintro h r (_ | ⟨hbase, rfl⟩)
    exact h _ hbase

@[simp] theorem within_struct {fields : List (String × Value)} :
    Within P (.struct fields) ↔ ∀ f ∈ fields, f.2.Within P := by
  constructor
  · exact fun h f hf r hr ↦ h r (.struct hf hr)
  · rintro h r (_ | _ | ⟨hf, hr⟩)
    exact h _ hf r hr

@[simp] theorem within_array {items : List Value} :
    Within P (.array items) ↔ ∀ item ∈ items, item.Within P := by
  constructor
  · exact fun h item hitem r hr ↦ h r (.array hitem hr)
  · rintro h r (_ | _ | _ | ⟨hitem, hr⟩)
    exact h _ hitem r hr

theorem within_true (v : Value) : v.Within fun _ ↦ True := fun _ _ ↦ trivial

/-! ## Parts -/

theorem Within.field? {name : String} (hv : v.Within P) (h : v.field? name = some w) :
    w.Within P := by
  cases v with
  | struct fields =>
    obtain ⟨f, hfind, rfl⟩ := Option.map_eq_some_iff.1 h
    exact within_struct.1 hv f (List.mem_of_find?_eq_some hfind)
  | _ => cases h

theorem Within.child {absent : String} {step : Step} (hv : v.Within P)
    (h : v.child absent step = .ok w) : w.Within P := by
  cases step with
  | field name =>
    cases v with
    | struct fields =>
      unfold Value.child at h
      dsimp only at h
      split at h
      · rename_i field hfield
        cases h
        exact hv.field? hfield
      · cases h
    | _ => cases h
  | element position =>
    cases v with
    | array items =>
      unfold Value.child at h
      dsimp only at h
      split at h
      · rename_i item hitem
        cases h
        exact within_array.1 hv _ (List.mem_of_getElem? hitem)
      · cases h
    | _ => cases h

theorem Within.setField {name : String} {fields : List (String × Value)}
    (hfields : ∀ f ∈ fields, f.2.Within P) (hnew : new.Within P) :
    ∀ f ∈ Value.setField name new fields, f.2.Within P := by
  induction fields with
  | nil => nofun
  | cons first rest ih =>
    have hrest : ∀ f ∈ rest, f.2.Within P := fun f hf ↦ hfields f (List.mem_cons_of_mem _ hf)
    unfold Value.setField
    split
    · exact List.forall_mem_cons.2 ⟨hnew, hrest⟩
    · exact List.forall_mem_cons.2 ⟨hfields _ List.mem_cons_self, ih hrest⟩

theorem Within.withChild (hv : v.Within P) (hnew : new.Within P) (step : Step) :
    (v.withChild new step).Within P := by
  cases step with
  | field name =>
    cases v with
    | struct fields => exact within_struct.2 (Within.setField (within_struct.1 hv) hnew)
    | _ => exact hv
  | element position =>
    cases v with
    | array items =>
      refine within_array.2 fun item hitem ↦ ?_
      rcases List.mem_or_eq_of_mem_set hitem with hold | rfl
      · exact within_array.1 hv item hold
      · exact hnew
    | _ => exact hv

theorem Within.get {path : List Step} (hv : v.Within P) (h : v.get path = .ok w) :
    w.Within P := by
  induction path generalizing v with
  | nil =>
    cases h
    exact hv
  | cons step path ih =>
    obtain ⟨inner, hinner, h⟩ := get_cons_eq_ok.1 h
    exact ih (hv.child hinner) h

theorem Within.set {path : List Step} (hv : v.Within P) (hnew : new.Within P)
    (h : Value.set new v path = .ok w) : w.Within P := by
  induction path generalizing v w with
  | nil =>
    cases h
    exact hnew
  | cons step path ih =>
    obtain ⟨absent, hset⟩ := set_cons new v step path
    rw [hset] at h
    obtain ⟨inner, hinner, h⟩ := Except.bind_eq_ok.1 h
    obtain ⟨changed, hchanged, h⟩ := Except.bind_eq_ok.1 h
    cases h
    exact hv.withChild (ih (hv.child hinner) hchanged) step

/-! ## Values made from types and inputs -/

theorem defaultWithin_within (types : TypeTable) (depth : Nat) (type : TypeId) :
    (defaultWithin types depth type).Within P := by
  induction depth generalizing type with
  | zero => exact within_null
  | succ depth ih =>
    unfold defaultWithin
    split
    case h_8 array _ =>
      refine within_array.2 fun item hitem ↦ ?_
      exact List.eq_of_mem_replicate hitem ▸ ih array.element
    case h_9 struct _ =>
      split
      · exact within_null
      · refine within_struct.2 fun f hf ↦ ?_
        obtain ⟨field, -, rfl⟩ := List.mem_map.1 hf
        exact ih field.type
    all_goals simp

theorem defaultValue_within (types : TypeTable) (type : TypeId) :
    (defaultValue types type).Within P := defaultWithin_within types _ type

theorem defaultObject_within (types : TypeTable) (type : TypeId) :
    (defaultObject types type).Within P := by
  unfold defaultObject
  split
  · refine within_struct.2 fun f hf ↦ ?_
    obtain ⟨field, -, rfl⟩ := List.mem_map.1 hf
    exact defaultValue_within types field.type
  · exact within_null

theorem within_of_rangeOfData? {entries : List (String × Data)}
    (h : rangeOfData? entries = some v) : v.Within P := by
  obtain ⟨start, -, h⟩ := Option.bind_eq_some_iff.1 h
  obtain ⟨stop, -, h⟩ := Option.bind_eq_some_iff.1 h
  cases h
  exact within_range start stop

end Value

namespace SpanView

variable {P : Root → Prop} {view : SpanView}

/-- The elements of a span are in the storage that the span is of. -/
theorem within_of_index {position : Int64} {element : Address}
    (hview : (Value.span view).Within P) (h : view.index position = .ok element) :
    (Value.address element).Within P := by
  unfold index at h
  split at h
  · rename_i base hbase
    split at h
    · cases h
      exact Value.within_address.2 (Value.within_span.1 hview base hbase)
    · cases h
  · cases h

theorem within_of_slice {start count : Int64} {part : SpanView}
    (hview : (Value.span view).Within P) (h : view.slice start count = .ok part) :
    (Value.span part).Within P := by
  unfold slice at h
  split at h
  · cases h
    exact Value.within_span.2 fun base hbase ↦ Value.within_span.1 hview base hbase
  · cases h

end SpanView

end InlineArrays
