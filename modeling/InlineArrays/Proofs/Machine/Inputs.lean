import InlineArrays.Machine.Input
import InlineArrays.Proofs.Machine.Leaves
import InlineArrays.Proofs.Machine.Triple
import InlineArrays.Proofs.Types.Paths

/-!
# Integers in inputs

Data that fits a type makes a value of it, whatever memory it is read into; only the heap grows.  The
value holds the integers that the data gives where paths through plain structs and inline arrays lead,
and 0 where it gives none.
-/

namespace InlineArrays

/-! ## Data at a path -/

/-- What data gives at a path. -/
def Data.at? : Data → List Step → Option Data
  | data, [] => some data
  | .table entries, .field name :: path => (valueAt? name entries).bind (·.at? path)
  | .list items, .element i :: path => items[i]?.bind (·.at? path)
  | _, _ => none
termination_by structural _ path => path

/-- The integer at a path in data that may be absent; it is 0 where nothing is given. -/
def intAt (data : Option Data) (path : List Step) : Int64 :=
  match data.bind (·.at? path) with
  | some (.int n) => n
  | _ => 0

section

variable (types : TypeTable)

mutual

/-- Whether data describes a value of a type. -/
def Data.fits (type : TypeId) : Data → Bool
  | .int _ =>
    match types.get type with
    | .int | .dynamic | .index => true
    | _ => false
  | .bool _ =>
    match types.get type with
    | .bool | .dynamic => true
    | _ => false
  | .list items =>
    match types.get type with
    | .array array => items.length == array.length && Data.allFit array.element items
    | .span element _ => Data.allFit element items
    | _ => false
  | .table entries =>
    match types.get type with
    | .index => (Offset.ofData? (.table entries)).isSome
    | .range => (Value.rangeOfData? entries).isSome
    | .struct struct =>
      entries.all (fun (key, _) ↦ (struct.field? key).isSome) &&
        struct.fields.all fun f ↦ Data.fieldFits f entries
    | _ => false
termination_by structural data => data

def Data.allFit (element : TypeId) : List Data → Bool
  | [] => true
  | item :: items => Data.fits element item && Data.allFit element items
termination_by structural items => items

/-- Whether the first entry for a field, if there is one, describes a value of it. -/
def Data.fieldFits (field : Field) : List (String × Data) → Bool
  | [] => true
  | (key, data) :: entries =>
    if key = field.name then Data.fits field.type data else Data.fieldFits field entries
termination_by structural entries => entries

end

end

variable {types : TypeTable} {type : TypeId}

/-- Whether a type is that of integers, or of values with others in place. -/
def TypeData.reachesInside : TypeData → Bool
  | .int | .array _ => true
  | .struct type => type.kind == .value
  | _ => false

/-- A value holds the integers that data gives. -/
def Value.Matches (types : TypeTable) (type : TypeId) (data : Option Data) (v : Value) : Prop :=
  ∀ path, types.Leads type path TypeTable.int → v.get path = .ok (.int (intAt data path))

namespace Value

theorem matches_int {n : Int64} (h : types.get type = .int) :
    Matches types type (some (.int n)) (.int n) := by
  intro path hpath
  cases hpath with
  | nil => rfl
  | field hstruct =>
    rw [TypeTable.get_of_struct? hstruct] at h
    cases h
  | element harray =>
    rw [TypeTable.get_of_array? harray] at h
    cases h

/-- No path to an integer leads into any other type. -/
theorem matches_of_get {data : Option Data} {v : Value}
    (h : (types.get type).reachesInside = false) : Matches types type data v := by
  intro path hpath
  cases hpath with
  | nil =>
    rw [TypeTable.get_of_lt types (by decide)] at h
    cases h
  | field hstruct hkind =>
    rw [TypeTable.get_of_struct? hstruct, TypeData.reachesInside, hkind] at h
    cases h
  | element harray =>
    rw [TypeTable.get_of_array? harray] at h
    cases h

/-- The first field of a name is found in a struct that lists values for the fields in order. -/
theorem find?_of_forall₂ {P : Field → Value → Prop} {declared : List Field}
    {fields : List (String × Value)} {name : String} {f : Field}
    (h : List.Forall₂ (fun f r ↦ r.1 = f.name ∧ P f r.2) declared fields)
    (hf : declared.find? (·.name == name) = some f) :
    ∃ v, (fields.find? (·.1 == name)).map (·.2) = some v ∧ P f v := by
  induction h with
  | nil => cases hf
  | @cons first field declared fields hfirst _ ih =>
    obtain ⟨hname, hvalue⟩ := hfirst
    by_cases heq : first.name = name
    · rw [List.find?_cons_of_pos (by simpa using heq)] at hf
      obtain rfl := Option.some.inj hf
      exact ⟨field.2, by simp [hname, heq], hvalue⟩
    · rw [List.find?_cons_of_neg (by simpa using heq)] at hf
      obtain ⟨v, hv, hP⟩ := ih hf
      exact ⟨v, by rw [List.find?_cons_of_neg (by simpa [hname] using heq), hv], hP⟩

theorem matches_struct {struct : StructType} {entries : List (String × Data)}
    {fields : List (String × Value)} (hget : types.get type = .struct struct)
    (h : List.Forall₂ (fun f r ↦ r.1 = f.name ∧ Matches types f.type (valueAt? f.name entries) r.2)
      struct.fields fields) :
    Matches types type (some (.table entries)) (.struct fields) := by
  intro path hpath
  cases hpath with
  | nil =>
    rw [TypeTable.get_of_lt types (by decide)] at hget
    cases hget
  | @field _ _ struct' f name path hstruct hkind hfield hpath =>
    obtain rfl : struct' = struct := by
      rw [TypeTable.struct?, hget] at hstruct
      exact (Option.some.inj hstruct).symm
    obtain ⟨v, hv, hmatches⟩ := find?_of_forall₂ h hfield
    have hname : f.name = name := by simpa using List.find?_some hfield
    exact get_cons_eq_ok.2 ⟨v, child_field_eq_ok.2 ⟨_, rfl, hv⟩, hname ▸ hmatches path hpath⟩
  | element harray =>
    rw [TypeTable.get_of_array? harray] at hget
    cases hget

theorem matches_array {array : ArrayType} {items : List Data} {values : List Value}
    (hget : types.get type = .array array) (hlength : items.length = array.length)
    (h : List.Forall₂ (fun item v ↦ Matches types array.element (some item) v) items values) :
    Matches types type (some (.list items)) (.array values) := by
  intro path hpath
  cases hpath with
  | nil =>
    rw [TypeTable.get_of_lt types (by decide)] at hget
    cases hget
  | field hstruct =>
    rw [TypeTable.get_of_struct? hstruct] at hget
    cases hget
  | @element _ _ array' i path harray hi hpath =>
    obtain rfl : array' = array := by
      rw [TypeTable.array?, hget] at harray
      exact (Option.some.inj harray).symm
    have hi : i < items.length := hlength ▸ hi
    have hi' : i < values.length := h.length_eq ▸ hi
    have hitem : intAt (some (.list items)) (.element i :: path) = intAt (some items[i]) path := by
      simp [intAt, Data.at?, hi]
    rw [hitem]
    exact get_cons_eq_ok.2 ⟨values[i], child_element_eq_ok.2 ⟨_, rfl, List.getElem?_eq_getElem hi'⟩,
      h.get hi hi' path hpath⟩

/-- A default value holds zeros, as deep down as it was made. -/
theorem defaultWithin_get {a : TypeId} {path : List Step} {depth : Nat}
    (h : types.Leads a path TypeTable.int) (hdepth : path.length < depth) :
    (defaultWithin types depth a).get path = .ok (.int 0) := by
  generalize hb : TypeTable.int = b at h
  induction h generalizing depth with
  | nil =>
    obtain ⟨depth, rfl⟩ := Nat.exists_eq_succ_of_ne_zero (Nat.ne_of_gt hdepth)
    have hget : types.get TypeTable.int = .int := TypeTable.get_of_lt types (by decide)
    rw [← hb, defaultWithin, hget]
    rfl
  | @field a b struct f name path hstruct hkind hfield _ ih =>
    obtain ⟨depth, rfl⟩ := Nat.exists_eq_succ_of_ne_zero (Nat.ne_of_gt (Nat.zero_lt_of_lt hdepth))
    have hvalue := ih (Nat.lt_of_succ_lt_succ hdepth) hb
    have hclass : struct.isClass = false := by simp [StructType.isClass, hkind]
    have hfields : List.Forall₂
        (fun f r ↦ r.1 = f.name ∧ r.2 = defaultWithin types depth f.type) struct.fields
        (struct.fields.map fun f ↦ (f.name, defaultWithin types depth f.type)) := by
      simp
    obtain ⟨v, hv, rfl⟩ := find?_of_forall₂ (P := fun f v ↦ v = defaultWithin types depth f.type)
      hfields hfield
    rw [defaultWithin, TypeTable.get_of_struct? hstruct]
    simp only [hclass]
    exact get_cons_eq_ok.2 ⟨_, child_field_eq_ok.2 ⟨_, rfl, hv⟩, hvalue⟩
  | @element a b array i path harray hi _ ih =>
    obtain ⟨depth, rfl⟩ := Nat.exists_eq_succ_of_ne_zero (Nat.ne_of_gt (Nat.zero_lt_of_lt hdepth))
    have hvalue := ih (Nat.lt_of_succ_lt_succ hdepth) hb
    rw [defaultWithin, TypeTable.get_of_array? harray]
    refine get_cons_eq_ok.2 ⟨_, child_element_eq_ok.2 ⟨_, rfl, ?_⟩, hvalue⟩
    rw [List.getElem?_replicate, if_pos hi]

theorem matches_default (htypes : types.FinitePaths) (type : TypeId) :
    Matches types type none (defaultValue types type) :=
  fun path hpath ↦ defaultWithin_get hpath (htypes type path hpath)

end Value

/-! ## Reading inputs -/

/-- The heap has grown, and nothing else has changed. -/
def Memory.Extends (m m' : Memory) : Prop := ∃ more, m' = { m with heap := m.heap ++ more }

namespace Memory.Extends

variable {m m' m'' : Memory}

theorem refl (m : Memory) : m.Extends m := ⟨[], by simp⟩

theorem trans (h : m.Extends m') (h' : m'.Extends m'') : m.Extends m'' := by
  obtain ⟨more, rfl⟩ := h
  obtain ⟨rest, rfl⟩ := h'
  exact ⟨more ++ rest, by simp⟩

theorem heap_of_lt (h : m.Extends m') {cell : Nat} (hcell : cell < m.heap.length) :
    m'.heap[cell]? = m.heap[cell]? := by
  obtain ⟨more, rfl⟩ := h
  exact List.getElem?_append_left hcell

end Memory.Extends

namespace Run

variable {α β : Type} {post : α → Prop}

/-- A computation that does not fail and only adds to the heap. -/
def Yields (act : Run α) (post : α → Prop) : Prop :=
  ∀ m, ∃ a m', act m = .ok a m' ∧ m.Extends m' ∧ post a

namespace Yields

theorem pure {a : α} (h : post a) : Yields (pure a) post := fun m ↦ ⟨a, m, rfl, .refl m, h⟩

theorem bind {act : Run α} {f : α → Run β} {mid : α → Prop} {post : β → Prop} (hact : Yields act mid)
    (hf : ∀ a, mid a → Yields (f a) post) : Yields (act >>= f) post := by
  intro m
  obtain ⟨a, m', heq, hextends, hmid⟩ := hact m
  obtain ⟨b, m'', heq', hextends', hpost⟩ := hf a hmid m'
  exact ⟨b, m'', by rw [bind_eq heq, heq'], hextends.trans hextends', hpost⟩

theorem map {act : Run α} {f : α → β} {mid : α → Prop} {post : β → Prop} (hact : Yields act mid)
    (hf : ∀ a, mid a → post (f a)) : Yields (f <$> act) post := by
  rw [map_eq_pure_bind]
  exact hact.bind fun a ha ↦ pure (hf a ha)

theorem mapM {f : α → Run β} {post : α → β → Prop} {l : List α} (h : ∀ a ∈ l, Yields (f a) (post a)) :
    Yields (l.mapM f) (List.Forall₂ post l) := by
  induction l with
  | nil =>
    rw [List.mapM_nil]
    exact pure .nil
  | cons a l ih =>
    rw [List.mapM_cons]
    exact (h a List.mem_cons_self).bind fun b hb ↦
      (ih fun a ha ↦ h a (List.mem_cons_of_mem _ ha)).bind fun bs hbs ↦ pure (.cons hb hbs)

theorem box {v : Value} {post : Address → Prop} (h : ∀ a, post a) : Yields (box v) post :=
  fun _ ↦ ⟨_, _, rfl, ⟨[v], rfl⟩, h _⟩

theorem allocateObject {fields : Value} {post : Value → Prop} (h : ∀ v, post v) :
    Yields (allocateObject fields) post :=
  fun _ ↦ ⟨_, _, rfl, ⟨[fields], rfl⟩, h _⟩

end Yields

end Run

section

variable (name : String)

mutual

/-- Data that fits a type is read as a value that holds the integers it gives. -/
theorem inputValue_yields (htypes : types.FinitePaths) (type : TypeId) : (data : Data) → data.fits types type = true →
    (inputValue types name type data).Yields (Value.Matches types type (some data))
  | .int n, h => by
    revert h
    unfold Data.fits inputValue
    cases hget : types.get type with
    | int => exact fun _ ↦ .pure (Value.matches_int hget)
    | dynamic | index =>
      exact fun _ ↦ .pure (Value.matches_of_get (by rw [hget]; rfl))
    | _ => exact nofun
  | .bool b, h => by
    revert h
    unfold Data.fits inputValue
    cases hget : types.get type with
    | bool | dynamic =>
      exact fun _ ↦ .pure (Value.matches_of_get (by rw [hget]; rfl))
    | _ => exact nofun
  | .list items, h => by
    revert h
    unfold Data.fits inputValue
    cases hget : types.get type with
    | array array =>
      dsimp only
      intro h
      obtain ⟨hlength, hitems⟩ := Bool.and_eq_true_iff.1 h
      have hlength : items.length = array.length := by simpa using hlength
      rw [if_pos hlength]
      exact (inputItems_yields htypes array.element items hitems).bind fun values hvalues ↦
        .pure (Value.matches_array hget hlength hvalues)
    | span element readonly =>
      intro h
      exact (inputItems_yields htypes element items h).bind fun values _ ↦
        Run.Yields.bind (.box fun _ ↦ trivial) fun base _ ↦
          .pure (Value.matches_of_get (by rw [hget]; rfl))
    | _ => exact nofun
  | .table entries, h => by
    revert h
    unfold Data.fits inputValue
    cases hget : types.get type with
    | index =>
      dsimp only
      intro h
      obtain ⟨offset, hoffset⟩ := Option.isSome_iff_exists.1 h
      rw [hoffset]
      exact .pure (Value.matches_of_get (by rw [hget]; rfl))
    | range =>
      dsimp only
      intro h
      obtain ⟨range, hrange⟩ := Option.isSome_iff_exists.1 h
      rw [hrange]
      exact .pure (Value.matches_of_get (by rw [hget]; rfl))
    | struct struct =>
      dsimp only
      intro h
      obtain ⟨hkeys, hfields⟩ := Bool.and_eq_true_iff.1 h
      have hknown : (entries.any fun (key, _) ↦ (struct.field? key).isNone) = false := by
        rw [List.any_eq_false]
        intro entry hentry
        simpa [Option.isSome_iff_ne_none] using List.all_eq_true.1 hkeys entry hentry
      have hread : ∀ f ∈ struct.fields, Run.Yields
          (do return (f.name, ← inputField types name f entries))
          fun r ↦ r.1 = f.name ∧ Value.Matches types f.type (valueAt? f.name entries) r.2 :=
        fun f hf ↦ (inputField_yields htypes f entries (List.all_eq_true.1 hfields f hf)).bind
          fun v hv ↦ .pure ⟨rfl, hv⟩
      simp only [hknown]
      refine Run.Yields.bind (.mapM hread) fun fields hvalues ↦ ?_
      split
      · rename_i hclass
        refine .allocateObject fun v ↦ Value.matches_of_get ?_
        have hkind : struct.kind = .reference := by simpa [StructType.isClass] using hclass
        rw [hget, TypeData.reachesInside, hkind]
        rfl
      · exact .pure (Value.matches_struct hget hvalues)
    | _ => exact nofun
termination_by structural data => data

theorem inputItems_yields (htypes : types.FinitePaths) (element : TypeId) : (items : List Data) →
    Data.allFit types element items = true →
    (inputItems types name element items).Yields
      (List.Forall₂ (fun item v ↦ Value.Matches types element (some item) v) items)
  | [], _ => by
    unfold inputItems
    exact .pure .nil
  | item :: items, h => by
    unfold Data.allFit at h
    unfold inputItems
    obtain ⟨hitem, hitems⟩ := Bool.and_eq_true_iff.1 h
    exact (inputValue_yields htypes element item hitem).bind fun v hv ↦
      (inputItems_yields htypes element items hitems).bind fun values hvalues ↦ .pure (.cons hv hvalues)
termination_by structural items => items

theorem inputField_yields (htypes : types.FinitePaths) (field : Field) : (entries : List (String × Data)) →
    Data.fieldFits types field entries = true →
    (inputField types name field entries).Yields
      (Value.Matches types field.type (valueAt? field.name entries))
  | [], _ => by
    unfold inputField
    exact .pure (Value.matches_default htypes field.type)
  | (key, data) :: entries, h => by
    unfold Data.fieldFits at h
    unfold inputField
    by_cases hkey : key = field.name
    · rw [if_pos hkey] at h ⊢
      have hfound : valueAt? field.name ((key, data) :: entries) = some data := by
        simp [valueAt?, hkey]
      exact hfound ▸ inputValue_yields htypes field.type data h
    · rw [if_neg hkey] at h ⊢
      have hfound : valueAt? field.name ((key, data) :: entries) = valueAt? field.name entries := by
        simp [valueAt?, hkey]
      exact hfound ▸ inputField_yields htypes field entries h
termination_by structural entries => entries

end

end

end InlineArrays
