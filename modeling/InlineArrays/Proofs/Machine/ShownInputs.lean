import InlineArrays.Proofs.Machine.Inputs
import InlineArrays.Proofs.Machine.Materialized
import InlineArrays.Scenario.Decode
import Mathlib

/-!
# Inputs shown again

What data is read to is shown as that data again.  Reading boxes lists for spans and tables for
classes on the heap and fills in what a table leaves out; showing follows the references to these
boxes, and the expectation that data makes says nothing on what it leaves out.  Only ranges, and
indices from the end, are no data again.
-/

namespace InlineArrays

/-! ## Data -/

namespace Data

mutual

/-- The keys of each table in the data are distinct. -/
def KeysDistinct : Data → Prop
  | .bool _ | .int _ => True
  | .list items => ItemsDistinct items
  | .table entries => (entries.map (·.1)).Nodup ∧ EntriesDistinct entries

def ItemsDistinct : List Data → Prop
  | [] => True
  | item :: items => item.KeysDistinct ∧ ItemsDistinct items

def EntriesDistinct : List (String × Data) → Prop
  | [] => True
  | (_, data) :: entries => data.KeysDistinct ∧ EntriesDistinct entries

end

section

variable (types : TypeTable)

mutual

/-- Of a type, the data gives no range, and each index as an integer. -/
def IsPlain (type : TypeId) : Data → Prop
  | .int _ => types.get type ≠ .range
  | .bool _ => types.get type ≠ .range ∧ types.get type ≠ .index
  | .list items =>
    match types.get type with
    | .index | .range => False
    | .array array => ItemsPlain array.element items
    | .span element _ => ItemsPlain element items
    | _ => True
  | .table entries =>
    match types.get type with
    | .index | .range => False
    | .struct struct => EntriesPlain struct entries
    | _ => True

def ItemsPlain (element : TypeId) : List Data → Prop
  | [] => True
  | item :: items => IsPlain element item ∧ ItemsPlain element items

def EntriesPlain (struct : StructType) : List (String × Data) → Prop
  | [] => True
  | (key, data) :: entries =>
    (match struct.field? key with
      | some f => IsPlain f.type data
      | none => True) ∧ EntriesPlain struct entries

end

end

theorem EntriesDistinct.mem {entries : List (String × Data)} (h : EntriesDistinct entries)
    {entry : String × Data} (hentry : entry ∈ entries) : entry.2.KeysDistinct := by
  induction entries with
  | nil => cases hentry
  | cons first entries ih =>
    rcases List.mem_cons.1 hentry with rfl | hentry
    · exact h.1
    · exact ih h.2 hentry

theorem EntriesPlain.mem {types : TypeTable} {struct : StructType}
    {entries : List (String × Data)} (h : EntriesPlain types struct entries)
    {key : String} {data : Data} (hentry : (key, data) ∈ entries) {f : Field}
    (hf : struct.field? key = some f) : IsPlain types f.type data := by
  induction entries with
  | nil => cases hentry
  | cons first entries ih =>
    rcases List.mem_cons.1 hentry with rfl | hentry
    · have hfirst := h.1
      rwa [hf] at hfirst
    · exact ih h.2 hentry

end Data

/-! Tables are built in increasing order of their keys. -/

theorem mem_insertEntry {α : Type} {key : String} {value : α} {entries : List (String × α)}
    {entry : String × α} (h : entry ∈ insertEntry key value entries) :
    entry = (key, value) ∨ entry ∈ entries := by
  induction entries with
  | nil => simpa [insertEntry] using h
  | cons first entries ih =>
    unfold insertEntry at h
    split_ifs at h <;> simp only [List.mem_cons] at h ⊢ <;> tauto

/-- Putting an entry into a table keeps it in increasing order of its keys. -/
theorem insertEntry_increasing {α : Type} {entries : List (String × α)}
    (h : entries.Pairwise (·.1 < ·.1)) (key : String) (value : α) :
    (insertEntry key value entries).Pairwise (·.1 < ·.1) := by
  induction entries with
  | nil => exact List.pairwise_singleton ..
  | cons first entries ih =>
    obtain ⟨hfirst, hrest⟩ := List.pairwise_cons.1 h
    unfold insertEntry
    split_ifs with heq hlt
    · exact List.pairwise_cons.2 ⟨fun entry hentry ↦ heq ▸ hfirst entry hentry, hrest⟩
    · refine List.pairwise_cons.2 ⟨fun entry hentry ↦ ?_, h⟩
      rcases List.mem_cons.1 hentry with rfl | hentry
      · exact hlt
      · exact String.lt_trans hlt (hfirst entry hentry)
    · refine List.pairwise_cons.2 ⟨fun entry hentry ↦ ?_, ih hrest⟩
      rcases mem_insertEntry hentry with rfl | hentry
      · exact Std.lt_of_le_of_ne (String.not_lt.1 hlt) (Ne.symm heq)
      · exact hfirst entry hentry

namespace Data

theorem EntriesDistinct.insertEntry {entries : List (String × Data)} (h : EntriesDistinct entries)
    (key : String) {data : Data} (hdata : data.KeysDistinct) :
    EntriesDistinct (insertEntry key data entries) := by
  induction entries with
  | nil => exact ⟨hdata, h⟩
  | cons first entries ih =>
    unfold InlineArrays.insertEntry
    split_ifs with heq hlt
    · exact ⟨hdata, h.2⟩
    · exact ⟨hdata, h⟩
    · exact ⟨h.1, ih h.2⟩

end Data

namespace Toml

mutual

/-- Data that is decoded has distinct keys, also where the tables it is decoded from do not. -/
theorem keysDistinct_of_data? : (t : Toml) → ∀ {data}, t.data? = some data → data.KeysDistinct
  | .boolean _, _, h | .integer _, _, h => by
    cases h
    trivial
  | .array items, _, h => by
    obtain ⟨data, hdata, rfl⟩ := Option.map_eq_some_iff.1 h
    exact itemsDistinct_of_dataItems? items hdata
  | .table entries, _, h => by
    obtain ⟨data, hdata, rfl⟩ := Option.map_eq_some_iff.1 h
    obtain ⟨hincreasing, hdistinct⟩ := entriesDistinct_of_dataEntries? entries hdata
    exact ⟨List.pairwise_map.2 (hincreasing.imp String.ne_of_lt), hdistinct⟩

theorem itemsDistinct_of_dataItems? : (items : List Toml) → ∀ {data},
    dataItems? items = some data → Data.ItemsDistinct data
  | [], _, h => by
    cases h
    trivial
  | item :: items, _, h => by
    obtain ⟨first, hfirst, h⟩ := Option.bind_eq_some_iff.1 h
    obtain ⟨rest, hrest, h⟩ := Option.bind_eq_some_iff.1 h
    cases h
    exact ⟨keysDistinct_of_data? item hfirst, itemsDistinct_of_dataItems? items hrest⟩

theorem entriesDistinct_of_dataEntries? : (entries : List (String × Toml)) → ∀ {data},
    dataEntries? entries = some data →
      data.Pairwise (·.1 < ·.1) ∧ Data.EntriesDistinct data
  | [], _, h => by
    cases h
    exact ⟨.nil, trivial⟩
  | (key, v) :: entries, _, h => by
    obtain ⟨first, hfirst, h⟩ := Option.bind_eq_some_iff.1 h
    obtain ⟨rest, hrest, h⟩ := Option.bind_eq_some_iff.1 h
    cases h
    obtain ⟨hincreasing, hdistinct⟩ := entriesDistinct_of_dataEntries? entries hrest
    exact ⟨insertEntry_increasing hincreasing key first,
      hdistinct.insertEntry key (keysDistinct_of_data? v hfirst)⟩

end

end Toml

/-! ## Memory that has grown -/

theorem Except.mapM_eq_ok {ε α β : Type} {f : α → Except ε β} {l : List α} {bs : List β} :
    l.mapM f = .ok bs ↔ List.Forall₂ (fun a b ↦ f a = .ok b) l bs := by
  induction l generalizing bs with
  | nil =>
    rw [List.mapM_nil, List.forall₂_nil_left_iff]
    exact ⟨fun h ↦ (Except.ok.inj h).symm, fun h ↦ h ▸ rfl⟩
  | cons a l ih =>
    rw [List.mapM_cons, List.forall₂_cons_left_iff]
    constructor
    · intro h
      obtain ⟨b, hb, h⟩ := Except.bind_eq_ok.1 h
      obtain ⟨bs', hbs, h⟩ := Except.bind_eq_ok.1 h
      exact ⟨b, bs', hb, ih.1 hbs, (Except.ok.inj h).symm⟩
    · rintro ⟨b, bs, hb, hbs, rfl⟩
      exact Except.bind_eq_ok.2 ⟨b, hb, Except.bind_eq_ok.2 ⟨bs, ih.2 hbs, rfl⟩⟩

namespace Memory

variable {m m' : Memory} {v w : Value} {items : List Value}

theorem Extends.root? (h : m.Extends m') {r : Root} (hr : m.root? r = some v) :
    m'.root? r = some v := by
  cases r with
  | heap cell => exact (h.heap_of_lt (List.getElem?_eq_some_iff.1 hr).1).trans hr
  | slot | temp =>
    obtain ⟨more, rfl⟩ := h
    exact hr

theorem Extends.read (h : m.Extends m') {a : Address} (ha : m.read a = .ok v) :
    m'.read a = .ok v := by
  unfold Memory.read at ha ⊢
  cases hroot : m.root? a.root with
  | none =>
    rw [hroot] at ha
    cases ha
  | some root =>
    rw [hroot] at ha
    rw [h.root? hroot]
    exact ha

theorem Extends.constituents (h : m.Extends m') (hv : m.constituents v = .ok items) :
    m'.constituents v = .ok items := by
  cases v with
  | address target =>
    obtain ⟨found, hread, rfl⟩ := Except.map_eq_ok.1 hv
    exact Except.map_eq_ok.2 ⟨found, h.read hread, rfl⟩
  | object cell =>
    rw [Memory.constituents] at hv ⊢
    split at hv
    · rename_i object hobject
      have hcell : m'.heap[cell]? = some object := h.root? (r := .heap cell) hobject
      rw [hcell]
      exact hv
    · cases hv
  | _ => exact hv

/-- What is shown does not depend on cells that were added later. -/
theorem Extends.materializeWithin (h : m.Extends m') {depth : Nat}
    (hv : m.materializeWithin depth v = .ok w) : m'.materializeWithin depth v = .ok w := by
  induction depth generalizing v w with
  | zero => cases hv
  | succ depth ih =>
    rw [materializeWithin_succ] at hv
    obtain ⟨items, hitems, hv⟩ := Except.bind_eq_ok.1 hv
    rw [materializeWithin_of_ok (h.constituents hitems)]
    obtain ⟨shown, hshown, hv⟩ := Except.bind_eq_ok.1 hv
    have hsame : items.mapM (m'.materializeWithin depth) = .ok shown :=
      Except.mapM_eq_ok.2 ((Except.mapM_eq_ok.1 hshown).imp fun _ _ ↦ ih)
    rw [hsame]
    exact hv

/-- Whatever the depth that showing a value takes, it is shown. -/
theorem materialize_of_within {depth : Nat} (h : m.materializeWithin depth v = .ok w) :
    m.materialize v = .ok w := by
  have hsettled : m.materializeWithin depth v ≠ .error .cyclicReference := by
    rw [h]
    nofun
  have hpos := v.size_pos
  rcases Nat.le_total depth (2 * (m.size + v.size) + 2) with hle | hle
  · exact (materializeWithin_mono hle hsettled).symm.trans h
  · exact (materializeWithin_stable (by omega) (by omega)).trans h

theorem Extends.materialize (h : m.Extends m') (hv : m.materialize v = .ok w) :
    m'.materialize v = .ok w :=
  materialize_of_within (h.materializeWithin hv)

theorem materialize_array {shown : List Value}
    (h : List.Forall₂ (fun v w ↦ m.materialize v = .ok w) items shown) :
    m.materialize (.array items) = .ok (.array shown) := by
  have hitems : m.constituents (.array items) = .ok items := rfl
  rw [materialize_of_ok hitems, Except.mapM_eq_ok.2 h]
  rfl

/-- A span over all of a boxed array is shown as the array is. -/
theorem materialize_boxed (m : Memory) (items : List Value) (readonly : Bool) :
    ({ m with heap := m.heap ++ [.array items] } : Memory).materialize
        (.span { base := some ⟨.heap m.heap.length, []⟩, length := items.length, readonly }) =
      ({ m with heap := m.heap ++ [.array items] } : Memory).materialize (.array items) := by
  have hread : ({ m with heap := m.heap ++ [.array items] } : Memory).read
      ⟨.heap m.heap.length, []⟩ = .ok (.array items) := by
    simp [Memory.read, Memory.root?, Value.get]
  rw [materialize_span rfl hread (by simp), materialize_of_ok (v := .array items) rfl]
  simp only [List.drop_zero, List.take_length]
  rfl

theorem materialize_struct {fields shown : List (String × Value)}
    (h : List.Forall₂ (fun r r' ↦ r'.1 = r.1 ∧ m.materialize r.2 = .ok r'.2) fields shown) :
    m.materialize (.struct fields) = .ok (.struct shown) := by
  have hitems : m.constituents (.struct fields) = .ok (fields.map (·.2)) := rfl
  have hvalues : List.Forall₂ (fun v w ↦ m.materialize v = .ok w) (fields.map (·.2))
      (shown.map (·.2)) :=
    List.forall₂_map_left_iff.2 (List.forall₂_map_right_iff.2 (h.imp fun _ _ h ↦ h.2))
  have hnames : shown.map (·.1) = fields.map (·.1) := by
    refine List.forall₂_eq_eq_eq ▸ List.forall₂_map_left_iff.2 (List.forall₂_map_right_iff.2 ?_)
    exact h.flip.imp fun _ _ h ↦ h.1
  rw [materialize_of_ok hitems, Except.mapM_eq_ok.2 hvalues]
  exact congrArg (fun r ↦ Except.ok (Value.struct r)) (List.zip_of_prod hnames rfl).symm

/-- An object is shown as its fields are. -/
theorem materialize_object {cell : Nat} (h : m.heap[cell]? = some v) :
    m.materialize (.object cell) = m.materialize v := by
  have hitems : m.constituents (.object cell) = .ok [v] := by
    rw [Memory.constituents, h]
  rw [materialize_of_ok hitems, List.mapM_cons]
  cases m.materialize v <;> rfl

/-- A list of elements each of which is related to something. -/
theorem exists_forall₂ {α β : Type} {R : α → β → Prop} {l : List α} (h : ∀ a ∈ l, ∃ b, R a b) :
    ∃ bs, List.Forall₂ R l bs := by
  induction l with
  | nil => exact ⟨[], .nil⟩
  | cons a l ih =>
    obtain ⟨b, hb⟩ := h a List.mem_cons_self
    obtain ⟨bs, hbs⟩ := ih fun a ha ↦ h a (List.mem_cons_of_mem _ ha)
    exact ⟨b :: bs, .cons hb hbs⟩

/-- A default value refers to nothing that has to be there. -/
theorem materialize_defaultWithin (m : Memory) (types : TypeTable) (depth : Nat) (type : TypeId) :
    ∃ w, m.materialize (defaultWithin types depth type) = .ok w := by
  induction depth generalizing type with
  | zero => exact ⟨.null, rfl⟩
  | succ depth ih =>
    unfold defaultWithin
    cases types.get type with
    | array array =>
      obtain ⟨shown, hshown⟩ := exists_forall₂ (R := fun v w ↦ m.materialize v = .ok w)
        (l := List.replicate array.length (defaultWithin types depth array.element)) fun v hv ↦
          (List.mem_replicate.1 hv).2 ▸ ih array.element
      exact ⟨_, materialize_array hshown⟩
    | struct struct =>
      dsimp only
      split
      · exact ⟨.null, rfl⟩
      · obtain ⟨shown, hshown⟩ := exists_forall₂
          (R := fun r r' : String × Value ↦ r'.1 = r.1 ∧ m.materialize r.2 = .ok r'.2)
          (l := struct.fields.map fun f ↦ (f.name, defaultWithin types depth f.type)) fun r hr ↦ by
            obtain ⟨f, -, rfl⟩ := List.mem_map.1 hr
            obtain ⟨w, hw⟩ := ih f.type
            exact ⟨(f.name, w), rfl, hw⟩
        exact ⟨_, materialize_struct hshown⟩
    | _ => exact ⟨_, rfl⟩

end Memory

/-! ## Agreement with data -/

theorem valueAt?_of_mem {α : Type} {entries : List (String × α)} (hnodup : (entries.map (·.1)).Nodup)
    {entry : String × α} (hentry : entry ∈ entries) : valueAt? entry.1 entries = some entry.2 := by
  unfold valueAt?
  cases hfind : entries.find? (·.1 == entry.1) with
  | none => simpa using List.find?_eq_none.1 hfind entry hentry
  | some other =>
    have hname : other.1 = entry.1 := by simpa using List.find?_some hfind
    rw [List.inj_on_of_nodup_map hnodup (List.mem_of_find?_eq_some hfind) hentry hname]
    rfl

namespace Value

theorem agreeItems_of_forall₂ {items : List Data} {values : List Value}
    (h : List.Forall₂ (fun item v ↦ v.agrees item = true) items values) :
    agreeItems values items = true := by
  induction h with
  | nil => rfl
  | cons hfirst _ ih => rw [agreeItems, hfirst, ih, Bool.and_self]

theorem agreeFields_of_forall {v : Value} {entries : List (String × Data)}
    (h : ∀ entry ∈ entries, ∃ w, v.field? entry.1 = some w ∧ w.agrees entry.2 = true) :
    agreeFields v entries = true := by
  induction entries with
  | nil => rfl
  | cons entry entries ih =>
    obtain ⟨w, hw, hagrees⟩ := h entry List.mem_cons_self
    rw [agreeFields, hw, ih fun entry hentry ↦ h entry (List.mem_cons_of_mem _ hentry)]
    exact Bool.and_eq_true_iff.2 ⟨hagrees, rfl⟩

end Value

/-- The value of a type is shown, and as the data that is given for it if that is plain. -/
def Memory.ShowsAs (m : Memory) (types : TypeTable) (type : TypeId) (data : Option Data)
    (v : Value) : Prop :=
  ∃ w, m.materialize v = .ok w ∧
    ∀ d, data = some d → d.KeysDistinct → d.IsPlain types type → w.agrees d = true

namespace Memory

variable {m m' : Memory} {types : TypeTable} {type : TypeId}

theorem ShowsAs.extends {data : Option Data} {v : Value} (h : m.ShowsAs types type data v)
    (hextends : m.Extends m') : m'.ShowsAs types type data v := by
  obtain ⟨w, hw, hagrees⟩ := h
  exact ⟨w, hextends.materialize hw, hagrees⟩

/-- The elements of an array are shown as the list they were read from. -/
theorem showsAs_items {element : TypeId} {items : List Data} {values : List Value}
    (h : List.Forall₂ (fun item v ↦ m.ShowsAs types element (some item) v) items values) :
    ∃ shown, m.materialize (.array values) = .ok (.array shown) ∧
      (Data.ItemsDistinct items → Data.ItemsPlain types element items →
        Value.agreeItems shown items = true) := by
  have hshown : ∃ shown, List.Forall₂ (fun v w ↦ m.materialize v = .ok w) values shown ∧
      (Data.ItemsDistinct items → Data.ItemsPlain types element items →
        List.Forall₂ (fun item w ↦ Value.agrees w item = true) items shown) := by
    induction h with
    | nil => exact ⟨[], .nil, fun _ _ ↦ .nil⟩
    | cons hfirst _ ih =>
      obtain ⟨w, hw, hagrees⟩ := hfirst
      obtain ⟨shown, hshown, hall⟩ := ih
      exact ⟨w :: shown, .cons hw hshown, fun hdistinct hplain ↦
        .cons (hagrees _ rfl hdistinct.1 hplain.1) (hall hdistinct.2 hplain.2)⟩
  obtain ⟨shown, hshown, hall⟩ := hshown
  exact ⟨shown, materialize_array hshown, fun hdistinct hplain ↦
    Value.agreeItems_of_forall₂ (hall hdistinct hplain)⟩

theorem exists_shown {declared : List Field} {entries : List (String × Data)}
    {fields : List (String × Value)}
    (h : List.Forall₂
      (fun f r ↦ r.1 = f.name ∧ m.ShowsAs types f.type (valueAt? f.name entries) r.2)
      declared fields) :
    ∃ shown : List (String × Value),
      List.Forall₂ (fun r r' ↦ r'.1 = r.1 ∧ m.materialize r.2 = .ok r'.2) fields shown ∧
        List.Forall₂ (fun f r ↦ r.1 = f.name ∧ ∀ d, valueAt? f.name entries = some d →
          d.KeysDistinct → d.IsPlain types f.type → r.2.agrees d = true) declared shown := by
  induction h with
  | nil => exact ⟨[], .nil, .nil⟩
  | @cons f r _ _ hfirst _ ih =>
    obtain ⟨hname, w, hw, hagrees⟩ := hfirst
    obtain ⟨shown, hshown, hall⟩ := ih
    exact ⟨(r.1, w) :: shown, .cons ⟨rfl, hw⟩ hshown, .cons ⟨hname, hagrees⟩ hall⟩

/-- The fields of a struct are shown as the table they were read from. -/
theorem showsAs_fields {struct : StructType} {entries : List (String × Data)}
    {fields : List (String × Value)} (hget : types.get type = .struct struct)
    (hknown : ∀ entry ∈ entries, (struct.field? entry.1).isSome)
    (h : List.Forall₂
      (fun f r ↦ r.1 = f.name ∧ m.ShowsAs types f.type (valueAt? f.name entries) r.2)
      struct.fields fields) : m.ShowsAs types type (some (.table entries)) (.struct fields) := by
  obtain ⟨shown, hshown, hall⟩ := exists_shown h
  refine ⟨.struct shown, materialize_struct hshown, ?_⟩
  rintro _ ⟨⟩ ⟨hnodup, hdistinct⟩ hplain
  rw [Data.IsPlain, hget] at hplain
  rw [Value.agrees]
  refine Value.agreeFields_of_forall fun entry hentry ↦ ?_
  obtain ⟨f, hf⟩ := Option.isSome_iff_exists.1 (hknown entry hentry)
  obtain ⟨v, hv, hagrees⟩ := Value.find?_of_forall₂ (P := fun f v ↦ ∀ d, valueAt? f.name entries = some d →
    d.KeysDistinct → d.IsPlain types f.type → v.agrees d = true) hall hf
  have hname : f.name = entry.1 := by simpa using List.find?_some hf
  have hvalue : valueAt? f.name entries = some entry.2 := by
    rw [hname, valueAt?_of_mem hnodup hentry]
  exact ⟨v, hv, hagrees entry.2 hvalue (hdistinct.mem hentry) (hplain.mem hentry hf)⟩

end Memory

/-! ## Reading and showing -/

section

variable (types : TypeTable) (name : String)

theorem invalidInput_ne_ok {α : Type} {type : TypeId} {m m' : Memory} {a : α} :
    invalidInput types name type m ≠ .ok a m' := nofun

/-- Fields that are read one after the other are all shown in the end. -/
theorem inputFields_shown {entries : List (String × Data)} {declared : List Field}
    (hfield : ∀ f ∈ declared, ∀ {m m' v}, inputField types name f entries m = .ok v m' →
      m.Extends m' ∧ m'.ShowsAs types f.type (valueAt? f.name entries) v)
    {m m' : Memory} {fields : List (String × Value)}
    (h : (declared.mapM fun f ↦ do return (f.name, ← inputField types name f entries)) m =
      .ok fields m') :
    m.Extends m' ∧ List.Forall₂
      (fun f r ↦ r.1 = f.name ∧ m'.ShowsAs types f.type (valueAt? f.name entries) r.2)
      declared fields := by
  induction declared generalizing m fields with
  | nil =>
    rw [List.mapM_nil] at h
    obtain ⟨rfl, rfl⟩ := Run.pure_eq_ok.1 h
    exact ⟨.refl m, .nil⟩
  | cons f declared ih =>
    rw [List.mapM_cons] at h
    obtain ⟨r, m₁, hr, h⟩ := Run.bind_eq_ok.1 h
    obtain ⟨v, m₂, hv, hr⟩ := Run.bind_eq_ok.1 hr
    obtain ⟨rfl, rfl⟩ := Run.pure_eq_ok.1 hr
    obtain ⟨rest, m₃, hrest, h⟩ := Run.bind_eq_ok.1 h
    obtain ⟨rfl, rfl⟩ := Run.pure_eq_ok.1 h
    obtain ⟨hfirst, hshown⟩ := hfield f List.mem_cons_self hv
    obtain ⟨hextends, hall⟩ := ih (fun f hf ↦ hfield f (List.mem_cons_of_mem _ hf)) hrest
    exact ⟨hfirst.trans hextends, .cons ⟨rfl, hshown.extends hextends⟩ hall⟩

mutual

/-- What data is read to is shown as that data; reading has only added to the heap. -/
theorem inputValue_shown (type : TypeId) : (data : Data) → ∀ {m m' v},
    inputValue types name type data m = .ok v m' →
      m.Extends m' ∧ m'.ShowsAs types type (some data) v
  | .int n, m, m', v, h => by
    unfold inputValue at h
    cases hget : types.get type with
    | int | dynamic | index =>
      rw [hget] at h
      obtain ⟨rfl, rfl⟩ := Run.pure_eq_ok.1 h
      refine ⟨.refl m, _, rfl, ?_⟩
      rintro _ ⟨⟩ - -
      simp [Value.agrees]
    | _ =>
      rw [hget] at h
      exact absurd h (invalidInput_ne_ok types name)
  | .bool b, m, m', v, h => by
    unfold inputValue at h
    cases hget : types.get type with
    | bool | dynamic =>
      rw [hget] at h
      obtain ⟨rfl, rfl⟩ := Run.pure_eq_ok.1 h
      refine ⟨.refl m, _, rfl, ?_⟩
      rintro _ ⟨⟩ - -
      simp [Value.agrees]
    | _ =>
      rw [hget] at h
      exact absurd h (invalidInput_ne_ok types name)
  | .list items, m, m', v, h => by
    unfold inputValue at h
    cases hget : types.get type with
    | array array =>
      rw [hget] at h
      dsimp only at h
      split at h
      · obtain ⟨values, m₁, hvalues, h⟩ := Run.bind_eq_ok.1 h
        obtain ⟨rfl, rfl⟩ := Run.pure_eq_ok.1 h
        obtain ⟨hextends, hall⟩ := inputItems_shown array.element items hvalues
        obtain ⟨shown, hshown, hagrees⟩ := Memory.showsAs_items hall
        refine ⟨hextends, .array shown, hshown, ?_⟩
        rintro _ ⟨⟩ hdistinct hplain
        rw [Data.IsPlain, hget] at hplain
        rw [Value.agrees]
        exact hagrees hdistinct hplain
      · exact absurd h (invalidInput_ne_ok types name)
    | span element readonly =>
      rw [hget] at h
      obtain ⟨values, m₁, hvalues, h⟩ := Run.bind_eq_ok.1 h
      obtain ⟨base, m₂, hbase, h⟩ := Run.bind_eq_ok.1 h
      obtain ⟨rfl, rfl⟩ := Run.pure_eq_ok.1 h
      cases hbase
      obtain ⟨hextends, hall⟩ := inputItems_shown element items hvalues
      have hboxed : m₁.Extends { m₁ with heap := m₁.heap ++ [.array values] } := ⟨_, rfl⟩
      obtain ⟨shown, hshown, hagrees⟩ := Memory.showsAs_items (hall.imp fun _ _ h ↦ h.extends hboxed)
      refine ⟨hextends.trans hboxed, .array shown, ?_, ?_⟩
      · rw [hall.length_eq, Memory.materialize_boxed]
        exact hshown
      · rintro _ ⟨⟩ hdistinct hplain
        rw [Data.IsPlain, hget] at hplain
        rw [Value.agrees]
        exact hagrees hdistinct hplain
    | _ =>
      rw [hget] at h
      exact absurd h (invalidInput_ne_ok types name)
  | .table entries, m, m', v, h => by
    unfold inputValue at h
    cases hget : types.get type with
    | index =>
      rw [hget] at h
      dsimp only at h
      cases hoffset : Offset.ofData? (.table entries) with
      | none =>
        rw [hoffset] at h
        exact absurd h (invalidInput_ne_ok types name)
      | some offset =>
        rw [hoffset] at h
        obtain ⟨rfl, rfl⟩ := Run.pure_eq_ok.1 h
        refine ⟨.refl m, _, rfl, ?_⟩
        rintro _ ⟨⟩ - hplain
        rw [Data.IsPlain, hget] at hplain
        exact hplain.elim
    | range =>
      rw [hget] at h
      dsimp only at h
      cases hrange : Value.rangeOfData? entries with
      | none =>
        rw [hrange] at h
        exact absurd h (invalidInput_ne_ok types name)
      | some range =>
        rw [hrange] at h
        obtain ⟨rfl, rfl⟩ := Run.pure_eq_ok.1 h
        obtain ⟨start, -, hrange⟩ := Option.bind_eq_some_iff.1 hrange
        obtain ⟨stop, -, hrange⟩ := Option.bind_eq_some_iff.1 hrange
        cases hrange
        refine ⟨.refl m, _, rfl, ?_⟩
        rintro _ ⟨⟩ - hplain
        rw [Data.IsPlain, hget] at hplain
        exact hplain.elim
    | struct struct =>
      rw [hget] at h
      dsimp only at h
      cases hunknown : entries.any fun (key, _) ↦ (struct.field? key).isNone with
      | true =>
        rw [if_pos hunknown] at h
        obtain ⟨_, _, h, -⟩ := Run.bind_eq_ok.1 h
        exact absurd h (invalidInput_ne_ok types name)
      | false =>
        rw [if_neg (by simp [hunknown])] at h
        obtain ⟨fields, m₁, hfields, h⟩ := Run.bind_eq_ok.1 h
        obtain ⟨hextends, hall⟩ :=
          inputFields_shown types name (fun f _ ↦ inputField_shown f entries) hfields
        have hknown : ∀ entry ∈ entries, (struct.field? entry.1).isSome := fun entry hentry ↦ by
          simpa [Option.isSome_iff_ne_none] using List.any_eq_false.1 hunknown entry hentry
        split at h
        · cases h
          have hboxed : m₁.Extends { m₁ with heap := m₁.heap ++ [.struct fields] } := ⟨_, rfl⟩
          obtain ⟨w, hw, hagrees⟩ := Memory.showsAs_fields hget hknown
            (hall.imp fun _ _ h ↦ ⟨h.1, h.2.extends hboxed⟩)
          refine ⟨hextends.trans hboxed, w, ?_, hagrees⟩
          rw [Memory.materialize_object (v := .struct fields) (by simp)]
          exact hw
        · obtain ⟨rfl, rfl⟩ := Run.pure_eq_ok.1 h
          exact ⟨hextends, Memory.showsAs_fields hget hknown hall⟩
    | _ =>
      rw [hget] at h
      exact absurd h (invalidInput_ne_ok types name)
termination_by structural data => data

theorem inputItems_shown (element : TypeId) : (items : List Data) → ∀ {m m' values},
    inputItems types name element items m = .ok values m' →
      m.Extends m' ∧
        List.Forall₂ (fun item v ↦ m'.ShowsAs types element (some item) v) items values
  | [], m, m', values, h => by
    unfold inputItems at h
    obtain ⟨rfl, rfl⟩ := Run.pure_eq_ok.1 h
    exact ⟨.refl m, .nil⟩
  | item :: items, m, m', values, h => by
    unfold inputItems at h
    obtain ⟨v, m₁, hv, h⟩ := Run.bind_eq_ok.1 h
    obtain ⟨rest, m₂, hrest, h⟩ := Run.bind_eq_ok.1 h
    obtain ⟨rfl, rfl⟩ := Run.pure_eq_ok.1 h
    obtain ⟨hfirst, hshown⟩ := inputValue_shown element item hv
    obtain ⟨hextends, hall⟩ := inputItems_shown element items hrest
    exact ⟨hfirst.trans hextends, .cons (hshown.extends hextends) hall⟩
termination_by structural items => items

theorem inputField_shown (field : Field) : (entries : List (String × Data)) → ∀ {m m' v},
    inputField types name field entries m = .ok v m' →
      m.Extends m' ∧ m'.ShowsAs types field.type (valueAt? field.name entries) v
  | [], m, m', v, h => by
    unfold inputField at h
    obtain ⟨rfl, rfl⟩ := Run.pure_eq_ok.1 h
    obtain ⟨w, hw⟩ := m.materialize_defaultWithin types types.size field.type
    exact ⟨.refl m, w, hw, nofun⟩
  | (key, data) :: entries, m, m', v, h => by
    unfold inputField at h
    by_cases hkey : key = field.name
    · rw [if_pos hkey] at h
      have hfound : valueAt? field.name ((key, data) :: entries) = some data := by
        simp [valueAt?, hkey]
      exact hfound ▸ inputValue_shown field.type data h
    · rw [if_neg hkey] at h
      have hfound : valueAt? field.name ((key, data) :: entries) = valueAt? field.name entries := by
        simp [valueAt?, hkey]
      exact hfound ▸ inputField_shown field entries h
termination_by structural entries => entries

end

end

/-- Data that is read as a value of a type, in whatever memory, is shown again: the value can be shown
and agrees with the data.  What was on the heap stays there, and new cells come behind it. -/
theorem inputs_roundTrip {types : TypeTable} {name : String} {type : TypeId} {data : Data}
    {m m' : Memory} {v : Value} (hkeys : data.KeysDistinct) (hplain : data.IsPlain types type)
    (h : inputValue types name type data m = .ok v m') :
    (∃ shown, m'.materialize v = .ok shown ∧ shown.agrees data = true) ∧
      ∃ more, m' = { m with heap := m.heap ++ more } := by
  obtain ⟨hextends, shown, hshown, hagrees⟩ := inputValue_shown types name type data h
  exact ⟨⟨shown, hshown, hagrees data rfl hkeys hplain⟩, hextends⟩

/-- Nodes of a list, each with two cells, a position and a view. -/
def listTypes : TypeTable :=
  ⟨[.array ⟨"Pair", TypeTable.int, 2⟩, .span TypeTable.int false, .span TypeTable.int true,
    .struct ⟨"Node", .reference, [⟨"cells", 7, false⟩, ⟨"next", 10, false⟩,
      ⟨"at", TypeTable.index, false⟩, ⟨"view", 8, false⟩]⟩]⟩

/-- A node whose next one has a view only. -/
def nodeData : Data :=
  .table [("at", .int 3), ("cells", .list [.int 4, .int 5]),
    ("next", .table [("view", .list [.int 6, .int 7, .int 8])])]

/-- The view, the next node and the node itself come behind what is on the heap already. -/
theorem nodeData_roundTrip :
    let m : Memory := { heap := [.bool true] }
    nodeData.KeysDistinct ∧ nodeData.IsPlain listTypes 10 ∧ ∃ m' shown,
      inputValue listTypes "n" 10 nodeData m = .ok (.object 3) m' ∧
        m'.materialize (.object 3) = .ok shown ∧ shown.agrees nodeData = true ∧
          m'.heap.length = 4 ∧ ∃ more, m' = { m with heap := m.heap ++ more } := by
  intro m
  have hkeys : nodeData.KeysDistinct := by
    simp [nodeData, Data.KeysDistinct, Data.EntriesDistinct, Data.ItemsDistinct]
  have hplain : nodeData.IsPlain listTypes 10 := by
    simp [nodeData, listTypes, Data.IsPlain, Data.EntriesPlain, Data.ItemsPlain, TypeTable.get,
      TypeTable.entries, TypeTable.builtin, StructType.field?, TypeTable.int, TypeTable.index]
  obtain ⟨m', hread, hlength⟩ : ∃ m', inputValue listTypes "n" 10 nodeData m = .ok (.object 3) m' ∧
      m'.heap.length = 4 := ⟨_, by cbv, by cbv⟩
  obtain ⟨⟨shown, hshown, hagrees⟩, hextends⟩ := inputs_roundTrip hkeys hplain hread
  exact ⟨hkeys, hplain, m', shown, hread, hshown, hagrees, hlength, hextends⟩

end InlineArrays
