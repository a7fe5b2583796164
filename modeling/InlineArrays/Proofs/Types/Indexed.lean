import InlineArrays.Proofs.Types.Keys
import InlineArrays.Proofs.Types.Union
import Mathlib

/-!
# Tables with their indices

A table is searched by name and by span through two maps that are kept beside it.  The five calls that
change a table do so in place: a call that fails may have changed it by then.  Whatever was called so
far, failing calls included, the maps find just what a search finds, and a call that fails has changed
nothing.
-/

namespace InlineArrays

/-- A type table and the two maps it is searched by. -/
structure IndexedTable extends TypeTable where
  byName : Std.HashMap String TypeId
  bySpan : Std.HashMap (TypeId × Bool) TypeId

/-- A change of a table in place; after a failure the table is what the change had made of it. -/
abbrev Change := EStateM TypeError IndexedTable

namespace IndexedTable

/-! ## Changes in place -/

/-- Built-in types other than the error type have names. -/
def initial : IndexedTable where
  byName := .ofList [("int", TypeTable.int), ("bool", TypeTable.bool), ("string", TypeTable.string),
    ("Index", TypeTable.index), ("Range", TypeTable.range), ("dynamic", TypeTable.dynamic)]
  bySpan := ∅

def push (data : TypeData) : Change TypeId :=
  modifyGet fun t ↦ (t.size, { t with toTypeTable := (t.toTypeTable.push data).2 })

def nameType (name : String) (id : TypeId) : Change Unit :=
  modify fun t ↦ { t with byName := t.byName.insert name id }

def span (element : TypeId) (readonly : Bool) : Change TypeId := do
  match (← get).bySpan[(element, readonly)]? with
  | some id => return id
  | none =>
    let id ← push (.span element readonly)
    modify fun t ↦ { t with bySpan := t.bySpan.insert (element, readonly) id }
    return id

/-- The argument of a span type is resolved first, and interns the spans in it. -/
def resolve (name : List Char) : Change TypeId := do
  match (← get).byName[String.ofList (Text.trim name)]? with
  | some id => return id
  | none =>
    match (TypeTable.spanForm? (Text.trim name)).attach with
    | some ⟨(readonly, argument), _h⟩ => span (← resolve argument) readonly
    | none => throw (.unknown (String.ofList (Text.trim name)))
termination_by name.length
decreasing_by
  exact Nat.lt_of_lt_of_le (TypeTable.length_spanForm?_lt _h) (Text.length_trim_le name)

def addArray (name : String) (element : TypeId) (length : Nat) : Change TypeId := do
  if (← get).byName.contains name then throw (.duplicate name)
  else if length = 0 then throw (.emptyArray name)
  else
    let id ← push (.array ⟨name, element, length⟩)
    nameType name id
    let _ ← span element false
    let _ ← span element true
    return id

def declareStruct (name : String) (kind : StructKind) : Change TypeId := do
  if (← get).byName.contains name then throw (.duplicate name)
  else
    let id ← push (.struct ⟨name, kind, []⟩)
    nameType name id
    return id

def defineFields (id : TypeId) (fields : List Field) : Change Unit := do
  let t ← get
  match t.toTypeTable.get id with
  | .struct type =>
    let added := t.added.set (id - TypeTable.builtin.length) (.struct { type with fields })
    set { t with added }
  | _ => throw (.notStruct (t.format id))

end IndexedTable

/-- A call that changes a table. -/
inductive TypeTable.Call where
  | resolve (name : String)
  | span (element : TypeId) (readonly : Bool)
  | addArray (name : String) (element : TypeId) (length : Nat)
  | declareStruct (name : String) (kind : StructKind)
  | defineFields (id : TypeId) (fields : List Field)

namespace TypeTable.Call

/-- The call on a table without its maps, with the id that it hands out if it does. -/
def on (t : TypeTable) : Call → Except TypeError (Option TypeId × TypeTable)
  | .resolve name => (t.resolve name.toList).map fun (id, t) ↦ (some id, t)
  | .span element readonly => .ok ((t.span element readonly).map some id)
  | .addArray name element length => (t.addArray name element length).map fun (id, t) ↦ (some id, t)
  | .declareStruct name kind => (t.declareStruct name kind).map fun (id, t) ↦ (some id, t)
  | .defineFields id fields => (t.defineFields id fields).map fun t ↦ (none, t)

/-- The call in place. -/
def perform : Call → Change (Option TypeId)
  | .resolve name => some <$> IndexedTable.resolve name.toList
  | .span element readonly => some <$> IndexedTable.span element readonly
  | .addArray name element length => some <$> IndexedTable.addArray name element length
  | .declareStruct name kind => some <$> IndexedTable.declareStruct name kind
  | .defineFields id fields => (fun _ ↦ none) <$> IndexedTable.defineFields id fields

end TypeTable.Call

namespace IndexedTable

open TypeTable (Call)

/-- What a call leaves, successful or failing. -/
def after (t : IndexedTable) (call : Call) : IndexedTable :=
  match call.perform t with
  | .ok _ t' | .error _ t' => t'

def run (t : IndexedTable) (calls : List Call) : IndexedTable := calls.foldl after t

/-! ## Maps and searches -/

/-- The maps find what a search of the table finds. -/
structure Agrees (t : IndexedTable) : Prop where
  names : ∀ name, t.byName[name]? = t.lookup name
  spans : ∀ element readonly, t.bySpan[(element, readonly)]? = t.findSpan element readonly

theorem initial_agrees : initial.Agrees where
  names name := by
    simp only [initial, Std.HashMap.ofList_cons, Std.HashMap.getElem?_insertMany_list,
      List.findSomeRev?_eq_findSome?_reverse, Std.HashMap.getElem?_insert, TypeTable.lookup,
      TypeTable.entries, TypeTable.builtin, List.findIdx?_cons, List.findIdx?_nil, TypeData.name?,
      List.reverse_cons, List.reverse_nil, List.nil_append, List.cons_append, List.findSome?_cons,
      List.findSome?_nil, List.append_nil]
    by_cases h : name ∈ ["int", "bool", "string", "Index", "Range", "dynamic"]
    · fin_cases h <;> simp <;> rfl
    · simp only [List.mem_cons, List.not_mem_nil, or_false, not_or] at h
      obtain ⟨hint, hbool, hstring, hindex, hrange, hdynamic⟩ := h
      simp [Ne.symm hint, Ne.symm hbool, Ne.symm hstring, Ne.symm hindex, Ne.symm hrange,
        Ne.symm hdynamic]
  spans element readonly := by
    simp [initial, TypeTable.findSpan, TypeTable.entries, TypeTable.builtin, List.findIdx?_cons]

variable {α β : Type} {t : IndexedTable}

/-- `act` ends with `result` and leaves the table that goes with it, with maps that agree; if it fails
it leaves everything as it was. -/
def Performs (t : IndexedTable) (act : Change α) (result : Except TypeError (α × TypeTable)) : Prop :=
  match result with
  | .ok result => ∃ t', act t = .ok result.1 t' ∧ t'.toTypeTable = result.2 ∧ t'.Agrees
  | .error e => act t = .error e t

theorem Performs.map {act : Change α} {result : Except TypeError (α × TypeTable)}
    (h : t.Performs act result) (f : α → β) :
    t.Performs (f <$> act) (result.map fun (a, u) ↦ (f a, u)) := by
  cases result with
  | ok result =>
    obtain ⟨t', hact, hu, hagrees⟩ := h
    refine ⟨t', ?_, hu, hagrees⟩
    change EStateM.map f act t = _
    simp only [EStateM.map, hact]
  | error e =>
    have hact : act t = .error e t := h
    change EStateM.map f act t = .error e t
    simp only [EStateM.map, hact]

/-- A span that is not found is new to the map of spans as well. -/
theorem Agrees.pushSpan (ht : t.Agrees) {element : TypeId} {readonly : Bool}
    (hnew : t.findSpan element readonly = none) :
    Agrees ⟨(t.toTypeTable.push (.span element readonly)).2, t.byName,
      t.bySpan.insert (element, readonly) t.size⟩ where
  names name := by
    rw [← TypeTable.find_name, TypeTable.find_push, if_neg nofun, Option.or_none,
      TypeTable.find_name, ht.names]
  spans element' readonly' := by
    rw [← TypeTable.find_span, TypeTable.find_push, TypeTable.find_span, ← ht.spans,
      Std.HashMap.getElem?_insert]
    by_cases heq : (element, readonly) = (element', readonly')
    · cases heq
      rw [ht.spans, hnew]
      simp [TypeData.key?]
    · have hkey : (TypeData.span element readonly).key? ≠ some (.span element' readonly') := by
        rintro ⟨⟩
        exact heq rfl
      rw [if_neg hkey, Option.or_none, if_neg (by simpa using heq)]

theorem Agrees.pushNamed (ht : t.Agrees) {data : TypeData} {name : String}
    (hdata : data.key? = some (.name name)) (hnew : t.lookup name = none) :
    Agrees ⟨(t.toTypeTable.push data).2, t.byName.insert name t.size, t.bySpan⟩ where
  names name' := by
    rw [← TypeTable.find_name, TypeTable.find_push, TypeTable.find_name, ← ht.names,
      Std.HashMap.getElem?_insert, hdata]
    by_cases heq : name = name'
    · cases heq
      rw [ht.names, hnew]
      simp
    · simp [heq]
  spans element readonly := by
    have hkey : data.key? ≠ some (.span element readonly) := by rw [hdata]; nofun
    rw [← TypeTable.find_span, TypeTable.find_push, if_neg hkey, Option.or_none,
      TypeTable.find_span, ht.spans]

theorem performs_span (ht : t.Agrees) (element : TypeId) (readonly : Bool) :
    t.Performs (span element readonly) (.ok (t.toTypeTable.span element readonly)) := by
  have hspan := ht.spans element readonly
  have hrun : span element readonly t =
      (match t.bySpan[(element, readonly)]? with
      | some id => return id
      | none => do
        let id ← push (.span element readonly)
        modify fun t ↦ { t with bySpan := t.bySpan.insert (element, readonly) id }
        return id : Change TypeId) t := rfl
  unfold TypeTable.span
  cases hfind : t.findSpan element readonly with
  | some id =>
    rw [hspan, hfind] at hrun
    exact ⟨t, hrun, rfl, ht⟩
  | none =>
    rw [hspan, hfind] at hrun
    exact ⟨_, hrun, rfl, ht.pushSpan hfind⟩

theorem performs_resolve (ht : t.Agrees) (name : List Char) :
    t.Performs (resolve name) (t.toTypeTable.resolve name) := by
  have hname := ht.names (String.ofList (Text.trim name))
  fun_induction TypeTable.resolve t.toTypeTable name with
  | case1 name id hlookup =>
    have hrun : resolve name t = .ok id t := by
      rw [resolve]
      change (match t.byName[String.ofList (Text.trim name)]? with
        | some id => return id
        | none => _ : Change TypeId) t = _
      rw [hname, hlookup]
      rfl
    exact ⟨t, hrun, rfl, ht⟩
  | case2 name hlookup readonly argument hform hattach ih =>
    have hrun : resolve name t =
        EStateM.bind (resolve argument) (fun element ↦ span element readonly) t := by
      rw [resolve]
      change (match t.byName[String.ofList (Text.trim name)]? with
        | some id => return id
        | none => _ : Change TypeId) t = _
      rw [hname, hlookup, hattach]
      rfl
    have ih := ih (ht.names _)
    cases hargument : t.toTypeTable.resolve argument with
    | error e =>
      rw [hargument] at ih
      have hact : resolve argument t = .error e t := ih
      have hresolve : resolve name t = .error e t := by
        rw [hrun]
        simp only [EStateM.bind, hact]
      exact hresolve
    | ok result =>
      obtain ⟨element, mid⟩ := result
      rw [hargument] at ih
      obtain ⟨t', hact, rfl, hagrees⟩ := ih
      obtain ⟨t'', hspan, hmid, hagrees⟩ := performs_span hagrees element readonly
      have hresolve : resolve name t = .ok (t'.toTypeTable.span element readonly).1 t'' := by
        rw [hrun]
        simp only [EStateM.bind, hact, hspan]
      exact ⟨t'', hresolve, hmid, hagrees⟩
  | case3 name hlookup hform =>
    rw [resolve]
    change (match t.byName[String.ofList (Text.trim name)]? with
      | some id => return id
      | none => _ : Change TypeId) t = _
    rw [hname, hlookup, hform]
    rfl

/-- Whether a name is taken is asked of the map of names. -/
theorem Agrees.contains (ht : t.Agrees) (name : String) :
    t.byName.contains name = (t.lookup name).isSome := by
  rw [Std.HashMap.contains_eq_isSome_getElem?, ht.names]

theorem performs_declareStruct (ht : t.Agrees) (name : String) (kind : StructKind) :
    t.Performs (declareStruct name kind) (t.toTypeTable.declareStruct name kind) := by
  have hrun : declareStruct name kind t =
      (if t.byName.contains name then throw (.duplicate name) else do
        let id ← push (.struct ⟨name, kind, []⟩)
        nameType name id
        return id : Change TypeId) t := rfl
  rw [ht.contains] at hrun
  dsimp only [TypeTable.declareStruct]
  cases hlookup : t.lookup name with
  | some id =>
    rw [hlookup] at hrun
    exact hrun
  | none =>
    rw [hlookup] at hrun
    exact ⟨_, hrun, rfl, ht.pushNamed rfl hlookup⟩

/-- The spans over the elements are interned after the name is taken, which cannot fail. -/
theorem performs_addArray (ht : t.Agrees) (name : String) (element : TypeId) (length : Nat) :
    t.Performs (addArray name element length) (t.toTypeTable.addArray name element length) := by
  have hrun : addArray name element length t =
      (if t.byName.contains name then throw (.duplicate name)
        else if length = 0 then throw (.emptyArray name) else do
        let id ← push (.array ⟨name, element, length⟩)
        nameType name id
        let _ ← span element false
        let _ ← span element true
        return id : Change TypeId) t := rfl
  rw [ht.contains] at hrun
  dsimp only [TypeTable.addArray]
  cases hlookup : t.lookup name with
  | some id =>
    rw [hlookup] at hrun
    exact hrun
  | none =>
    rw [hlookup] at hrun
    by_cases hlength : length = 0
    · rw [if_neg (by simp), if_pos hlength] at hrun ⊢
      exact hrun
    · rw [if_neg (by simp), if_neg hlength] at hrun ⊢
      have hpush : Agrees ⟨(t.toTypeTable.push (.array ⟨name, element, length⟩)).2,
          t.byName.insert name t.size, t.bySpan⟩ := ht.pushNamed rfl hlookup
      obtain ⟨t₁, hmutable, heq₁, h₁⟩ := performs_span hpush element false
      obtain ⟨t₂, hreadonly, heq₂, h₂⟩ := performs_span h₁ element true
      refine ⟨t₂, hrun.trans ?_, by rw [heq₂, heq₁], h₂⟩
      change EStateM.bind (span element false) _ _ = _
      simp only [EStateM.bind, hmutable]
      change EStateM.bind (span element true) _ _ = _
      simp only [EStateM.bind, hreadonly]
      rfl

theorem performs_defineFields (ht : t.Agrees) (id : TypeId) (fields : List Field) :
    t.Performs (defineFields id fields) ((t.toTypeTable.defineFields id fields).map ((), ·)) := by
  have hrun : defineFields id fields t =
      (match t.toTypeTable.get id with
      | .struct type => set { t with
          added := t.added.set (id - TypeTable.builtin.length) (.struct { type with fields }) }
      | _ => throw (.notStruct (t.format id)) : Change Unit) t := rfl
  cases hget : t.toTypeTable.get id with
  | struct type =>
    have hdefine : t.toTypeTable.defineFields id fields =
        .ok ⟨t.added.set (id - TypeTable.builtin.length) (.struct { type with fields })⟩ := by
      unfold TypeTable.defineFields
      rw [hget]
    have hfind := TypeTable.find_defineFields hdefine
    rw [hget] at hrun
    rw [hdefine]
    refine ⟨_, hrun, rfl, fun name ↦ ?_, fun element readonly ↦ ?_⟩
    · rw [ht.names, ← TypeTable.find_name, ← hfind, TypeTable.find_name]
    · rw [ht.spans, ← TypeTable.find_span, ← hfind, TypeTable.find_span]
  | _ =>
    rw [hget] at hrun
    unfold TypeTable.defineFields
    rw [hget]
    exact hrun

theorem performs_call (ht : t.Agrees) (call : Call) :
    t.Performs call.perform (call.on t.toTypeTable) := by
  cases call with
  | resolve name => exact (performs_resolve ht name.toList).map some
  | span element readonly => exact (performs_span ht element readonly).map some
  | addArray name element length => exact (performs_addArray ht name element length).map some
  | declareStruct name kind => exact (performs_declareStruct ht name kind).map some
  | defineFields id fields =>
    have hdefine := (performs_defineFields ht id fields).map fun _ ↦ (none : Option TypeId)
    dsimp only [Call.on]
    cases hresult : t.toTypeTable.defineFields id fields <;> rwa [hresult] at hdefine

/-! ## Sequences of calls -/

/-- A call that succeeds builds a table that keeps all types, and the id it hands out is in it. -/
theorem built_keeps_of_on {call : Call} {u u' : TypeTable} {id : Option TypeId}
    (h : call.on u = .ok (id, u')) : (u.Built → u'.Built) ∧ u.Keeps u' ∧ ∀ i ∈ id, i < u'.size := by
  cases call with
  | resolve name =>
    obtain ⟨⟨found, t'⟩, hresolve, h⟩ := Except.map_eq_ok.1 h
    cases h
    refine ⟨fun hu ↦ .resolve hu hresolve, TypeTable.keeps_resolve hresolve, ?_⟩
    rintro _ ⟨⟩
    exact (TypeTable.spans_of_resolve hresolve).2
  | span element readonly =>
    cases h
    refine ⟨fun hu ↦ .span element readonly hu, TypeTable.keeps_span u element readonly, ?_⟩
    rintro _ ⟨⟩
    exact TypeTable.span_lt u element readonly
  | addArray name element length =>
    obtain ⟨⟨found, t'⟩, hadd, h⟩ := Except.map_eq_ok.1 h
    cases h
    obtain ⟨hkeeps, hfound⟩ := TypeTable.keeps_addArray hadd
    refine ⟨fun hu ↦ .addArray hu hadd, hkeeps, ?_⟩
    rintro _ ⟨⟩
    exact hfound
  | declareStruct name kind =>
    obtain ⟨⟨found, t'⟩, hdeclare, h⟩ := Except.map_eq_ok.1 h
    cases h
    obtain ⟨hkeeps, hfound⟩ := TypeTable.keeps_declareStruct hdeclare
    refine ⟨fun hu ↦ .declareStruct hu hdeclare, hkeeps, ?_⟩
    rintro _ ⟨⟩
    exact hfound
  | defineFields id fields =>
    obtain ⟨t', hdefine, h⟩ := Except.map_eq_ok.1 h
    cases h
    exact ⟨fun hu ↦ .defineFields hu hdefine, TypeTable.keeps_defineFields hdefine, nofun⟩

/-- A call is the operation on the table, or it fails and changes nothing. -/
theorem Agrees.after (ht : t.Agrees) (call : Call) : (t.after call).Agrees ∧
    ((∃ id, call.on t.toTypeTable = .ok (id, (t.after call).toTypeTable)) ∨ t.after call = t) := by
  have hcall := performs_call ht call
  cases hon : call.on t.toTypeTable with
  | ok result =>
    rw [hon] at hcall
    obtain ⟨t', hperform, hu, hagrees⟩ := hcall
    have hafter : t.after call = t' := by rw [IndexedTable.after, hperform]
    rw [hafter]
    exact ⟨hagrees, .inl ⟨result.1, by rw [hu]⟩⟩
  | error e =>
    rw [hon] at hcall
    have hperform : call.perform t = .error e t := hcall
    have hafter : t.after call = t := by rw [IndexedTable.after, hperform]
    rw [hafter]
    exact ⟨ht, .inr rfl⟩

/-- Every call keeps the maps, the table a built one and its types where they are. -/
theorem Agrees.run (ht : t.Agrees) (hbuilt : t.toTypeTable.Built) (calls : List Call) :
    (t.run calls).Agrees ∧ (t.run calls).toTypeTable.Built ∧
      t.toTypeTable.Keeps (t.run calls).toTypeTable := by
  induction calls generalizing t with
  | nil => exact ⟨ht, hbuilt, .refl _⟩
  | cons call calls ih =>
    obtain ⟨hagrees, hafter⟩ := ht.after call
    have hstep : (t.after call).toTypeTable.Built ∧
        t.toTypeTable.Keeps (t.after call).toTypeTable := by
      rcases hafter with ⟨id, hon⟩ | hsame
      · obtain ⟨hbuilt', hkeeps, -⟩ := built_keeps_of_on hon
        exact ⟨hbuilt' hbuilt, hkeeps⟩
      · rw [hsame]
        exact ⟨hbuilt, .refl _⟩
    obtain ⟨hagrees, hbuilt, hkeeps⟩ := ih hagrees hstep.1
    exact ⟨hagrees, hbuilt, hstep.2.trans hkeeps⟩

/-- The maps hold exactly the spans and the names of the table, and with an inline array both spans
over its elements. -/
structure Consistent (t : IndexedTable) : Prop where
  spans : ∀ id element readonly, t.toTypeTable.get id = .span element readonly ↔
    t.bySpan[(element, readonly)]? = some id
  elements : ∀ id type, t.toTypeTable.get id = .array type → ∀ readonly : Bool,
    ∃ span, t.bySpan[(type.element, readonly)]? = some span
  names : ∀ id name, (t.toTypeTable.get id).name? = some name ↔ t.byName[name]? = some id

theorem Agrees.consistent (ht : t.Agrees) (hbuilt : t.toTypeTable.Built) : t.Consistent where
  spans id element readonly := by rw [ht.spans, hbuilt.findSpan_eq_some_iff]
  elements id type htype readonly := by
    have harray : t.toTypeTable.array? id = some type := by rw [TypeTable.array?, htype]
    obtain ⟨span, hspan, -⟩ := hbuilt.wellFormed.findSpan_array harray readonly
    exact ⟨span, by rw [ht.spans, hspan]⟩
  names id name := by rw [ht.names, hbuilt.lookup_eq_some_iff]

/-- Whatever was called so far: the maps hold what the table holds and find what a search finds;
whatever is called from then on, the types stay where they are; and the next call hands out an id of
the table that it leaves, or fails and leaves the table and its maps just as they were. -/
theorem run_consistent (calls : List Call) :
    (initial.run calls).Consistent ∧ (initial.run calls).Agrees ∧
    (∀ more, (initial.run calls).toTypeTable.Keeps ((initial.run calls).run more).toTypeTable) ∧
    ∀ call : Call, match call.perform (initial.run calls) with
      | .ok id t => call.on (initial.run calls).toTypeTable = .ok (id, t.toTypeTable) ∧
        ∀ i ∈ id, i < t.size
      | .error e t => call.on (initial.run calls).toTypeTable = .error e ∧
        t = initial.run calls := by
  obtain ⟨hagrees, hbuilt, -⟩ := initial_agrees.run .empty calls
  refine ⟨hagrees.consistent hbuilt, hagrees, fun more ↦ (hagrees.run hbuilt more).2.2,
    fun call ↦ ?_⟩
  have hcall := performs_call hagrees call
  cases hon : call.on (initial.run calls).toTypeTable with
  | ok result =>
    rw [hon] at hcall
    obtain ⟨t, hperform, hu, -⟩ := hcall
    rw [hperform]
    exact ⟨by rw [hu], hu ▸ (built_keeps_of_on hon).2.2⟩
  | error e =>
    rw [hon] at hcall
    have hperform : call.perform (initial.run calls) = .error e (initial.run calls) := hcall
    rw [hperform]
    exact ⟨rfl, rfl⟩

end IndexedTable

end InlineArrays
