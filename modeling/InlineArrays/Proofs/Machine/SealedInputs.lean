import InlineArrays.Proofs.Machine.ConfinedRuns
import InlineArrays.Proofs.Machine.Inputs

/-!
# Sealed inputs

The cells in which a run keeps its read-only parameters are sealed: nothing on the heap refers to them,
and of the arguments only those for these parameters do.  A run in which every routine may do what it
does leaves them as they were, and never follows a reference to storage that is gone.
-/

namespace InlineArrays

namespace Memory

variable {m m' m'' : Memory} {B B' B'' : Nat → Prop} {v : Value}

/-- The cells of the heap but for those in `B`. -/
def Open (m : Memory) (B : Nat → Prop) (r : Root) : Prop :=
  ∃ c, r = .heap c ∧ c < m.heap.length ∧ ¬ B c

/-- The cells in `B` are there, and nothing on the heap refers to them or beyond it. -/
structure Seals (m : Memory) (B : Nat → Prop) : Prop where
  lt {c : Nat} : B c → c < m.heap.length
  confined {c : Nat} {v : Value} : m.heap[c]? = some v → v.Confined (m.Open B)

/-- The heap has grown, and cells that were there are sealed as before. -/
structure Grows (m : Memory) (B : Nat → Prop) (m' : Memory) (B' : Nat → Prop) : Prop where
  extends_ : m.Extends m'
  seals : m'.Seals B'
  kept {c : Nat} : c < m.heap.length → (B' c ↔ B c)

theorem Extends.length_le (h : m.Extends m') : m.heap.length ≤ m'.heap.length := by
  obtain ⟨more, rfl⟩ := h
  simp

theorem Grows.refl (h : m.Seals B) : m.Grows B m B := ⟨.refl m, h, fun _ ↦ Iff.rfl⟩

theorem Grows.trans (h : m.Grows B m' B') (h' : m'.Grows B' m'' B'') : m.Grows B m'' B'' :=
  ⟨h.extends_.trans h'.extends_, h'.seals, fun hc ↦
    (h'.kept (Nat.lt_of_lt_of_le hc h.extends_.length_le)).trans (h.kept hc)⟩

theorem Grows.open (h : m.Grows B m' B') {r : Root} (hr : m.Open B r) : m'.Open B' r := by
  obtain ⟨c, rfl, hlt, hc⟩ := hr
  exact ⟨c, rfl, Nat.lt_of_lt_of_le hlt h.extends_.length_le, fun hc' ↦ hc ((h.kept hlt).1 hc')⟩

/-- Another cell may be sealed or not. -/
theorem Seals.push (h : m.Seals B) (hv : v.Confined (m.Open B))
    (hkept : ∀ c < m.heap.length, B' c ↔ B c) (hlt : ∀ c, B' c → c ≤ m.heap.length) :
    m.Grows B { m with heap := m.heap ++ [v] } B' := by
  have hopen (r : Root) (hr : m.Open B r) : Open { m with heap := m.heap ++ [v] } B' r := by
    obtain ⟨c, rfl, hc, hnot⟩ := hr
    exact ⟨c, rfl, by simp; omega, fun hc' ↦ hnot ((hkept c hc).1 hc')⟩
  refine ⟨⟨[v], rfl⟩, ⟨fun {c} hc ↦ ?_, fun {c w} hw ↦ ?_⟩, fun {c} hc ↦ hkept c hc⟩
  · have := hlt c hc
    simp
    omega
  · rw [List.getElem?_append] at hw
    split at hw
    · exact (h.confined hw).mono hopen
    · obtain ⟨-, rfl⟩ := List.getElem?_eq_some_iff.1 hw
      simpa using hv.mono hopen

end Memory

/-! ## Reading inputs -/

/-- A computation that does nothing but add cells to the heap, sealed or not. -/
def Run.Fills {α : Type} (B : Nat → Prop) (m : Memory) (act : Run α)
    (post : (Nat → Prop) → α → Memory → Prop) : Prop :=
  match act m with
  | .ok a m' => ∃ B', m.Grows B m' B' ∧ post B' a m'
  | .error e m' => e ≠ .danglingReference ∧ m.Extends m'

namespace Run.Fills

variable {α β : Type} {B : Nat → Prop} {m : Memory} {act : Run α}
  {post mid : (Nat → Prop) → α → Memory → Prop}

theorem pure {a : α} (hm : m.Seals B) (h : post B a m) : Fills B m (pure a) post :=
  ⟨B, .refl hm, h⟩

theorem throw {e : RuntimeError} (h : e ≠ .danglingReference) : Fills B m (throw e) post :=
  ⟨h, .refl m⟩

theorem bind {f : α → Run β} {post : (Nat → Prop) → β → Memory → Prop} (hact : Fills B m act mid)
    (hf : ∀ B' a m', m.Grows B m' B' → mid B' a m' → Fills B' m' (f a) post) :
    Fills B m (act >>= f) post := by
  unfold Fills at hact
  cases hrun : act m with
  | error e m' =>
    rw [hrun] at hact
    rw [Fills, bind_error hrun]
    exact hact
  | ok a m' =>
    rw [hrun] at hact
    obtain ⟨B', hgrows, hmid⟩ := hact
    have hnext := hf B' a m' hgrows hmid
    unfold Fills at hnext ⊢
    rw [bind_eq hrun]
    cases hrun' : f a m' with
    | error e m'' =>
      rw [hrun'] at hnext
      exact ⟨hnext.1, hgrows.extends_.trans hnext.2⟩
    | ok b m'' =>
      rw [hrun'] at hnext
      obtain ⟨B'', hgrows', hpost⟩ := hnext
      exact ⟨B'', hgrows.trans hgrows', hpost⟩

theorem mapM {f : α → Run β} {l : List α} (post : α → (Nat → Prop) → β → Memory → Prop)
    (hm : m.Seals B)
    (hpost : ∀ {a b B B' m m'}, post a B b m → Memory.Grows m B m' B' → post a B' b m')
    (hf : ∀ a ∈ l, ∀ B m, m.Seals B → Fills B m (f a) (post a)) :
    Fills B m (l.mapM f) fun B' bs m' ↦ List.Forall₂ (fun a b ↦ post a B' b m') l bs := by
  induction l generalizing B m with
  | nil =>
    rw [List.mapM_nil]
    exact pure hm .nil
  | cons a l ih =>
    rw [List.mapM_cons]
    exact (hf a List.mem_cons_self B m hm).bind fun B' b m' hm' hb ↦
      (ih hm'.seals fun a ha ↦ hf a (List.mem_cons_of_mem _ ha)).bind fun B'' bs m'' hm'' hbs ↦
        pure hm''.seals (.cons (hpost hb hm'') hbs)

theorem box {v : Value} (hm : m.Seals B) (hv : v.Confined (m.Open B)) :
    Fills B m (box v) fun B' a m' ↦ m'.Open B' a.root :=
  ⟨B, hm.push hv (fun _ _ ↦ Iff.rfl) fun c hc ↦ (hm.lt hc).le, _, rfl, by simp,
    fun hc ↦ absurd (hm.lt hc) (Nat.lt_irrefl _)⟩

theorem allocateObject {v : Value} (hm : m.Seals B) (hv : v.Confined (m.Open B)) :
    Fills B m (allocateObject v) fun B' w m' ↦ w.Confined (m'.Open B') :=
  ⟨B, hm.push hv (fun _ _ ↦ Iff.rfl) fun c hc ↦ (hm.lt hc).le, Value.confined_object.2
    ⟨_, rfl, by simp, fun hc ↦ absurd (hm.lt hc) (Nat.lt_irrefl _)⟩⟩

/-- The cell that a value is put in is sealed. -/
theorem boxSealed {v : Value} (hm : m.Seals B) (hv : v.Confined (m.Open B)) :
    Fills B m (InlineArrays.box v) fun B' a m' ↦ ∃ c, a = ⟨.heap c, []⟩ ∧ c < m'.heap.length ∧ B' c := by
  refine ⟨fun c ↦ B c ∨ c = m.heap.length, hm.push hv (fun c hc ↦ ?_) fun c hc ↦ ?_,
    _, rfl, by simp, .inr rfl⟩
  · exact or_iff_left (Nat.ne_of_lt hc)
  · exact hc.elim (fun hc ↦ (hm.lt hc).le) Nat.le_of_eq

end Run.Fills

theorem forall_mem_of_forall₂ {α β : Type} {P : β → Prop} {l : List α} {bs : List β}
    (h : List.Forall₂ (fun _ b ↦ P b) l bs) : ∀ b ∈ bs, P b := by
  induction h with
  | nil => exact nofun
  | cons hb _ ih => exact List.forall_mem_cons.2 ⟨hb, ih⟩

section

variable (types : TypeTable) (name : String)

theorem invalidInput_fills {α : Type} {B : Nat → Prop} {m : Memory} {type : TypeId}
    {post : (Nat → Prop) → α → Memory → Prop} :
    Run.Fills B m (invalidInput types name type) post := .throw nofun

mutual

/-- What inputs are read to refers to no sealed cell. -/
theorem inputValue_fills (type : TypeId) : (data : Data) → ∀ {B m}, Memory.Seals m B →
    Run.Fills B m (inputValue types name type data) fun B' v m' ↦ v.Confined (m'.Open B')
  | .int n, _, _, hm => by
    unfold inputValue
    split
    · exact .pure hm (Value.confined_int n)
    · exact .pure hm (Value.confined_int n)
    · exact .pure hm (Value.confined_index _)
    · exact invalidInput_fills types name
  | .bool b, _, _, hm => by
    unfold inputValue
    split
    · exact .pure hm (Value.confined_bool b)
    · exact .pure hm (Value.confined_bool b)
    · exact invalidInput_fills types name
  | .list items, _, _, hm => by
    unfold inputValue
    split
    · split
      · exact (inputItems_fills _ items hm).bind fun _ _ _ hm' hvalues ↦
          .pure hm'.seals (Value.confined_array.2 hvalues)
      · exact invalidInput_fills types name
    · refine (inputItems_fills _ items hm).bind fun _ values _ hm' hvalues ↦
        (Run.Fills.box hm'.seals (Value.confined_array.2 hvalues)).bind fun _ base _ hm'' hbase ↦
          .pure hm''.seals (Value.confined_span.2 ?_)
      rintro _ ⟨⟩
      exact hbase
    · exact invalidInput_fills types name
  | .table entries, B, m, hm => by
    unfold inputValue
    split
    · split
      · exact .pure hm (Value.confined_index _)
      · exact invalidInput_fills types name
    · split
      · rename_i hrange
        exact .pure hm (Value.confined_of_rangeOfData? hrange)
      · exact invalidInput_fills types name
    · rename_i struct _
      have hfields : Run.Fills B m (do
          let fields ← struct.fields.mapM fun f ↦ do
            return (f.name, ← inputField types name f entries)
          if struct.isClass then allocateObject (.struct fields)
          else return .struct fields) fun B' v m' ↦ v.Confined (m'.Open B') := by
        refine (Run.Fills.mapM (fun _ B field m ↦ field.2.Confined (m.Open B)) hm
          (fun h hm ↦ h.mono fun _ ↦ hm.open) fun f _ B m hm ↦ (inputField_fills f entries hm).bind
            fun _ _ _ hm' hv ↦ .pure hm'.seals hv).bind fun _ fields _ hm' hfields ↦ ?_
        have hfields := Value.confined_struct.2 (forall_mem_of_forall₂ hfields)
        split
        · exact .allocateObject hm'.seals hfields
        · exact .pure hm'.seals hfields
      have hinvalid : Run.Fills B m (invalidInput (α := Unit) types name type) fun _ _ _ ↦ False :=
        invalidInput_fills types name
      exact iteInduction
        (motive := fun act ↦ Run.Fills B m act fun B' (v : Value) m' ↦ v.Confined (m'.Open B'))
        (fun _ ↦ hinvalid.bind fun _ _ _ _ h ↦ h.elim) fun _ ↦ hfields
    · exact invalidInput_fills types name
termination_by structural data => data

theorem inputItems_fills (element : TypeId) : (items : List Data) → ∀ {B m}, Memory.Seals m B →
    Run.Fills B m (inputItems types name element items) fun B' values m' ↦
      ∀ v ∈ values, v.Confined (m'.Open B')
  | [], _, _, hm => .pure hm nofun
  | item :: items, _, _, hm =>
    (inputValue_fills element item hm).bind fun _ _ _ hm' hv ↦
      (inputItems_fills element items hm'.seals).bind fun _ _ _ hm'' hvalues ↦
        .pure hm''.seals (List.forall_mem_cons.2 ⟨hv.mono fun _ ↦ hm''.open, hvalues⟩)
termination_by structural items => items

theorem inputField_fills (field : Field) : (entries : List (String × Data)) →
    ∀ {B m}, Memory.Seals m B → Run.Fills B m (inputField types name field entries) fun B' v m' ↦
      v.Confined (m'.Open B')
  | [], _, _, hm => .pure hm (Value.defaultValue_confined types field.type)
  | (key, data) :: entries, _, _, hm => by
    unfold inputField
    split
    · exact inputValue_fills field.type data hm
    · exact inputField_fills field entries hm
termination_by structural entries => entries

end

end

/-! ## Starting a run -/

/-- Whether a run keeps what it gives for the variable in a cell of its own that nothing may write. -/
def VariableKind.isSealed : VariableKind → Bool
  | .parameter kind => kind.isReadonly
  | .stackLocal | .refLocal _ | .receiver => false

/-- An argument that refers to a sealed cell exactly if its parameter may not be written. -/
def Memory.Suits (v : Variable) (B : Nat → Prop) (arg : Value) (m : Memory) : Prop :=
  if v.kind.isSealed then ∃ c, arg = .address ⟨.heap c, []⟩ ∧ c < m.heap.length ∧ B c
  else arg.Confined (m.Open B)

theorem Memory.Suits.grows {m m' : Memory} {B B' : Nat → Prop} {v : Variable} {arg : Value}
    (h : Suits v B arg m) (hgrows : m.Grows B m' B') : Suits v B' arg m' := by
  unfold Suits at h ⊢
  split at h
  · rename_i hsealed
    obtain ⟨c, rfl, hlt, hc⟩ := h
    rw [if_pos hsealed]
    exact ⟨c, rfl, Nat.lt_of_lt_of_le hlt hgrows.extends_.length_le, (hgrows.kept hlt).2 hc⟩
  · rename_i hsealed
    rw [if_neg hsealed]
    exact h.mono fun _ ↦ hgrows.open

namespace Executable

variable {x : Executable} {inputs : List (String × Data)} {B : Nat → Prop} {m : Memory}

theorem entryValue_fills {name : String} {type : TypeId} (hm : m.Seals B) :
    Run.Fills B m (x.entryValue inputs name type) fun B' v m' ↦ v.Confined (m'.Open B') := by
  unfold entryValue
  split
  · exact inputValue_fills x.types name type _ hm
  · exact .pure hm (Value.defaultValue_confined x.types type)

/-- A parameter that may not be written is given a sealed cell. -/
theorem entryArgument_fills (hm : m.Seals B) (v : Variable) :
    Run.Fills B m (x.entryArgument inputs v) (Memory.Suits v) := by
  unfold entryArgument Memory.Suits
  refine (entryValue_fills hm).bind fun B' value m' hm' hvalue ↦ ?_
  cases hkind : v.kind with
  | parameter kind =>
    cases kind with
    | input | refReadonly =>
      refine (Run.Fills.boxSealed hm'.seals hvalue).bind fun _ a _ hm'' ha ↦ .pure hm''.seals ?_
      obtain ⟨c, rfl, ha⟩ := ha
      exact ⟨c, rfl, ha⟩
    | ref | output =>
      exact (Run.Fills.box hm'.seals hvalue).bind fun _ _ _ hm'' ha ↦
        .pure hm''.seals (Value.confined_address.2 ha)
    | value => exact .pure hm'.seals hvalue
  | stackLocal | refLocal | receiver => exact .pure hm'.seals hvalue

theorem entryReceiver?_fills (inputs : List (String × Data)) (hm : m.Seals B) (method : Method) :
    Run.Fills B m (x.entryReceiver? inputs method) fun B' receiver m' ↦
      ∀ v ∈ receiver, v.Confined (m'.Open B') := by
  unfold entryReceiver?
  cases method.owner with
  | none => exact .pure hm fun _ h ↦ by cases h
  | some owner =>
    have hreceiver : Run.Fills B m (x.entryReceiver inputs owner) fun B' v m' ↦
        v.Confined (m'.Open B') := by
      refine (entryValue_fills hm).bind fun _ value _ hm' hvalue ↦ ?_
      split
      · split
        · exact .allocateObject hm'.seals (Value.defaultObject_confined x.types owner.type)
        · exact .pure hm'.seals hvalue
      · exact (Run.Fills.box hm'.seals hvalue).bind fun _ _ _ hm'' ha ↦
          .pure hm''.seals (Value.confined_address.2 ha)
    dsimp only
    rw [map_eq_pure_bind]
    exact hreceiver.bind fun _ v _ hm' hv ↦ .pure hm'.seals (by rintro _ ⟨⟩; exact hv)

/-- The arguments of a run suit its parameters. -/
theorem entryArguments_fill (inputs : List (String × Data)) (hm : m.Seals B) (method : Method)
    (ids : List VariableId) :
    Run.Fills B m (ids.mapM fun id ↦ x.entryArgument inputs (method.var id)) fun B' args m' ↦
      List.Forall₂ (fun id arg ↦ Memory.Suits (method.var id) B' arg m') ids args :=
  .mapM (fun id B arg m ↦ Memory.Suits (method.var id) B arg m) hm (fun h ↦ h.grows)
    fun id _ _ _ hm ↦ entryArgument_fills hm (method.var id)

end Executable

/-! ## Running a method -/

/-- Whether nothing in the region may be written. -/
def Region.isUnwritten : Region → Bool
  | .data _ false | .spans .. => true
  | .shared | .data _ true | .slot _ => false

theorem Region.isUnwritten_mono {a b : Region} (hab : a ≤ b) (h : a.isUnwritten) :
    b.isUnwritten := by
  cases a with
  | data own writable =>
    cases writable with
    | true => cases h
    | false =>
      cases b with
      | data own' writable' =>
        cases writable' with
        | true => exact absurd (hab.2 rfl) nofun
        | false => rfl
      | spans => rfl
      | shared | slot => cases hab
  | spans =>
    cases b with
    | spans => rfl
    | shared | data | slot => cases hab
  | shared | slot => cases h

theorem Region.isUnwritten_passed (a : Region) : a.passed.isUnwritten = a.isUnwritten := by
  cases a with
  | data own writable => cases writable <;> rfl
  | shared | spans | slot => rfl

/-- The territory of a run: the heap, sealed cells where nothing is written. -/
def Memory.entry (m : Memory) (B : Nat → Prop) : Territory where
  At a r := ∃ c, r = .heap c ∧ c < m.heap.length ∧ (B c → a.isUnwritten)
  mono hab := fun ⟨c, hr, hlt, hc⟩ ↦ ⟨c, hr, hlt, fun h ↦ Region.isUnwritten_mono hab (hc h)⟩

namespace Memory

variable {m : Memory} {B : Nat → Prop}

theorem Open.entry {r : Root} (h : m.Open B r) (a : Region) : (m.entry B).At a r := by
  obtain ⟨c, hr, hlt, hc⟩ := h
  exact ⟨c, hr, hlt, fun h ↦ absurd h hc⟩

theorem Seals.settled (h : m.Seals B) (hframes : m.frames = []) : (m.entry B).Settled m where
  numbers f hf := by
    rw [hframes] at hf
    cases hf
  holds {a κ} _ := by
    rintro _ ⟨c, rfl, hlt, -⟩
    exact ⟨m.heap[c], List.getElem?_eq_getElem hlt,
      (h.confined (List.getElem?_eq_getElem hlt)).mono fun r hr ↦ hr.entry κ⟩

end Memory

namespace Executable

variable {x : Executable} {layout : Method × Routine → Layout} {host : Host} {entry : String}
  {inputs : List (String × Data)} {B : Nat → Prop} {m start : Memory}

/-- Sealed cells are as they were. -/
def KeepsSealed (B : Nat → Prop) (m m' : Memory) : Prop :=
  ∀ c v, B c → m.heap[c]? = some v → m'.heap[c]? = some v

theorem KeepsSealed.of_extends {m' : Memory} (h : m.Extends m') : KeepsSealed B m m' :=
  fun _ _ _ hv ↦ (h.heap_of_lt (List.getElem?_eq_some_iff.1 hv).1).trans hv

theorem KeepsSealed.of_grows {m' m'' : Memory} {B' : Nat → Prop} (h : m.Grows B m' B')
    (h' : KeepsSealed B' m' m'') : KeepsSealed B m m'' := fun c v hc hv ↦
  h' c v ((h.kept (List.getElem?_eq_some_iff.1 hv).1).2 hc)
    (KeepsSealed.of_extends (B := B) h.extends_ c v hc hv)

theorem KeepsSealed.of_keeps {m' : Memory} (h : (m.entry B).Keeps m m') : KeepsSealed B m m' := by
  intro c v hc hv
  refine h.kept (r := .heap c) hv ?_
  rintro ⟨_, ⟨⟩, -, hunwritten⟩
  cases hunwritten hc

/-- What a run starts a method with suits what its variables may refer to. -/
theorem takes_of_suits {p : Method × Routine} (hfind : x.find? entry = some p)
    (hunwritten : ∀ id κ, (p.1.var id).kind.isSealed → (layout p).region? id = some κ →
      κ.isUnwritten) {args : List Value} {receiver : Option Value}
    (hargs : List.Forall₂ (fun id arg ↦ Memory.Suits (p.1.var id) B arg m) p.2.parameters args)
    (hreceiver : ∀ v ∈ receiver, v.Confined (m.Open B)) :
    x.Takes layout (m.entry B) m entry args receiver where
  outside h := by
    rw [hfind] at h
    cases h
  inside {q} hq _ := by
    obtain rfl := Option.some.inj (hfind.symm.trans hq)
    refine hargs.imp fun id arg hsuits κ hκ ↦ ?_
    unfold Memory.Suits at hsuits
    split at hsuits
    · rename_i hsealed
      obtain ⟨c, rfl, hlt, -⟩ := hsuits
      exact Value.confined_address.2
        ⟨c, rfl, hlt, fun _ ↦ κ.isUnwritten_passed ▸ hunwritten id κ hsealed hκ⟩
    · exact hsuits.mono fun r hr ↦ hr.entry κ.passed
  receives {_ _ κ} _ _ _ v hv := (hreceiver v hv).mono fun r hr ↦ hr.entry κ.passed

/-- What a method returned can be shown if it refers to a closed part of memory. -/
theorem shown_of_holds {r : Routine} {returned : Value} {P : Root → Prop} (h : m.Holds P P)
    (hreturned : returned.Confined P) :
    match shown r returned m with
    | .ok _ m' => m' = m
    | .error e m' => e ≠ .danglingReference ∧ m' = m := by
  unfold shown
  by_cases hvoid : r.returns = .void
  · rw [if_pos hvoid]
    rfl
  · rw [if_neg hvoid]
    have hne := h.materialize_ne_dangling hreturned
    rw [Run.bind_eq (show (get : Run Memory) m = .ok m m from rfl)]
    cases hshown : m.materialize returned with
    | ok value => rfl
    | error e => exact ⟨fun heq ↦ hne (hshown.trans (heq ▸ rfl)), rfl⟩

/-- A run from where its arguments are there. -/
theorem Ranged.runWith_sealed (h : x.Ranged layout) (hhost : host.Harmless) {p : Method × Routine}
    (hfind : x.find? entry = some p)
    (hunwritten : ∀ id κ, (p.1.var id).kind.isSealed → (layout p).region? id = some κ →
      κ.isUnwritten) {args : List Value}
    (hargs : (p.2.parameters.mapM fun id ↦ x.entryArgument inputs (p.1.var id)) {} = .ok args m) :
    ∃ B, List.Forall₂ (fun id arg ↦ Memory.Suits (p.1.var id) B arg m) p.2.parameters args ∧
      match x.runWith host entry inputs {} with
      | .ok _ m' => KeepsSealed B m m'
      | .error e m' => e ≠ .danglingReference ∧ KeepsSealed B m m' := by
  have hseals : ({} : Memory).Seals fun _ ↦ False := ⟨False.elim, fun hv ↦ by cases hv⟩
  have hstart := entryArguments_fill (x := x) inputs hseals p.1 p.2.parameters
  unfold Run.Fills at hstart
  rw [hargs] at hstart
  obtain ⟨B, hm, hsuit⟩ := hstart
  refine ⟨B, hsuit, ?_⟩
  have hreceived := entryReceiver?_fills (x := x) inputs hm.seals p.1
  unfold Run.Fills at hreceived
  unfold runWith
  rw [hfind]
  dsimp only
  rw [Run.bind_eq hargs]
  cases hreceiver : x.entryReceiver? inputs p.1 m with
  | error e m' =>
    rw [hreceiver] at hreceived
    rw [Run.bind_error hreceiver]
    exact ⟨hreceived.1, .of_extends hreceived.2⟩
  | ok receiver m' =>
    rw [hreceiver] at hreceived
    obtain ⟨B', hm', hconfined⟩ := hreceived
    rw [Run.bind_eq hreceiver]
    have hframes : m'.frames = [] := by
      obtain ⟨more, rfl⟩ := hm.extends_.trans hm'.extends_
      rfl
    have hsettled := hm'.seals.settled hframes
    have hinvoke := h.invoke hhost hsettled
      (takes_of_suits hfind hunwritten (hsuit.imp fun _ _ h ↦ h.grows hm') hconfined)
    unfold Territory.Contains at hinvoke
    cases hreturned : x.invoke host entry args receiver m' with
    | error e m'' =>
      rw [hreturned] at hinvoke
      rw [Run.bind_error hreturned]
      exact ⟨hinvoke.1, .of_grows hm' (.of_keeps hinvoke.2)⟩
    | ok returned m'' =>
      rw [hreturned] at hinvoke
      rw [Run.bind_eq hreturned]
      have hkept : KeepsSealed B m m'' := .of_grows hm' (.of_keeps hinvoke.2)
      have hholds : m''.Holds ((m'.entry B').At (.data true false)) ((m'.entry B').At .shared) :=
        hinvoke.2.holds_of trivial (hsettled.holds rfl)
      have hshown := shown_of_holds (r := p.2)
        (hholds.mono fun r ↦ (m'.entry B').mono (a := .shared) trivial) hinvoke.1
      cases hresult : shown p.2 returned m'' with
      | error e mend =>
        rw [hresult] at hshown
        rw [Run.bind_error hresult]
        exact ⟨hshown.1, hshown.2 ▸ hkept⟩
      | ok result mend =>
        rw [hresult] at hshown
        obtain rfl := hshown
        rw [Run.bind_eq hresult]
        exact hkept

theorem KeepsSealed.of_runWith {act : Run Execution} (h : match act {} with
    | .ok _ m' => KeepsSealed B m m'
    | .error e m' => e ≠ .danglingReference ∧ KeepsSealed B m m') :
    KeepsSealed B m (act.after {}) := by
  unfold Run.after
  cases hrun : act {} with
  | ok execution m' =>
    rw [hrun] at h
    exact h
  | error e m' =>
    rw [hrun] at h
    exact h.2

/-- The arguments before a parameter, its own and those after it are made one after the other. -/
theorem entryArguments_eq {p : Method × Routine} {before after : List VariableId} {id : VariableId}
    {passed : List Value} {arg : Value} {boxed : Memory}
    (hparameters : p.2.parameters = before ++ id :: after)
    (hbefore : (before.mapM fun id ↦ x.entryArgument inputs (p.1.var id)) {} = .ok passed m)
    (hbox : x.entryArgument inputs (p.1.var id) m = .ok arg boxed) :
    (p.2.parameters.mapM fun id ↦ x.entryArgument inputs (p.1.var id)) {} =
      (do
        let rest ← after.mapM fun id ↦ x.entryArgument inputs (p.1.var id)
        return passed ++ arg :: rest : Run (List Value)) boxed := by
  rw [hparameters, List.mapM_append, Run.bind_eq hbefore, List.mapM_cons, bind_assoc,
    Run.bind_eq hbox]
  simp only [bind_assoc, pure_bind]

/-- The cell of a parameter that may not be written is as it was when the run has ended. -/
theorem Ranged.runWith_boxed (h : x.Ranged layout) (hhost : host.Harmless) {p : Method × Routine}
    (hfind : x.find? entry = some p)
    (hunwritten : ∀ id κ, (p.1.var id).kind.isSealed → (layout p).region? id = some κ →
      κ.isUnwritten) {before after : List VariableId} {id : VariableId} {passed : List Value}
    {arg : Value} {boxed : Memory} (hparameters : p.2.parameters = before ++ id :: after)
    (hbefore : (before.mapM fun id ↦ x.entryArgument inputs (p.1.var id)) {} = .ok passed m)
    (hbox : x.entryArgument inputs (p.1.var id) m = .ok arg boxed)
    (hsealed : (p.1.var id).kind.isSealed) :
    ∃ cell value, arg = .address ⟨.heap cell, []⟩ ∧ boxed.heap[cell]? = some value ∧
      ((x.runWith host entry inputs).after {}).heap[cell]? = some value := by
  have hseals : ({} : Memory).Seals fun _ ↦ False := ⟨False.elim, fun hv ↦ by cases hv⟩
  have hpassed := entryArguments_fill (x := x) inputs hseals p.1 before
  unfold Run.Fills at hpassed
  rw [hbefore] at hpassed
  obtain ⟨B, hm, hbeforeSuit⟩ := hpassed
  have hboxed : Run.Fills B m (x.entryArgument inputs (p.1.var id)) (Memory.Suits (p.1.var id)) :=
    entryArgument_fills hm.seals (p.1.var id)
  unfold Run.Fills at hboxed
  rw [hbox] at hboxed
  obtain ⟨B', hm', hsuits⟩ := hboxed
  rw [Memory.Suits, if_pos hsealed] at hsuits
  obtain ⟨cell, rfl, hcell, -⟩ := hsuits
  refine ⟨cell, boxed.heap[cell], rfl, List.getElem?_eq_getElem hcell, ?_⟩
  have harguments := entryArguments_eq hparameters hbefore hbox
  have hrest := entryArguments_fill (x := x) inputs hm'.seals p.1 after
  unfold Run.Fills at hrest
  cases hafter : (after.mapM fun id ↦ x.entryArgument inputs (p.1.var id)) boxed with
  | error e m' =>
    rw [hafter] at hrest
    rw [Run.bind_error hafter] at harguments
    have hrun : x.runWith host entry inputs {} = .error e m' := by
      unfold runWith
      rw [hfind]
      exact Run.bind_error harguments
    rw [Run.after, hrun]
    exact (hrest.2.heap_of_lt hcell).trans (List.getElem?_eq_getElem hcell)
  | ok rest start =>
    rw [hafter] at hrest
    obtain ⟨_, hstart, _⟩ := hrest
    rw [Run.bind_eq hafter] at harguments
    obtain ⟨B'', hsuit, hrun⟩ := h.runWith_sealed hhost hfind hunwritten harguments
    have hsplit := List.forall₂_drop before.length (hparameters ▸ hsuit)
    rw [List.drop_left, hbeforeSuit.length_eq, List.drop_left] at hsplit
    obtain ⟨hsuits, -⟩ := List.forall₂_cons.1 hsplit
    rw [Memory.Suits, if_pos hsealed] at hsuits
    obtain ⟨_, ⟨⟩, -, hcell'⟩ := hsuits
    exact KeepsSealed.of_runWith hrun cell _ hcell'
      ((hstart.extends_.heap_of_lt hcell).trans (List.getElem?_eq_getElem hcell))

/-- A run never follows a reference to storage that is gone. -/
theorem Ranged.runWith_ne_dangling (h : x.Ranged layout) (hhost : host.Harmless)
    (hunwritten : ∀ p ∈ x.routines, ∀ id κ, (p.1.var id).kind.isSealed →
      (layout p).region? id = some κ → κ.isUnwritten) {e : RuntimeError}
    (hrun : x.runWith host entry inputs {} = .error e m) : e ≠ .danglingReference := by
  cases hfind : x.find? entry with
  | none =>
    unfold runWith at hrun
    rw [hfind] at hrun
    cases hrun
    exact nofun
  | some p =>
    cases hargs : (p.2.parameters.mapM fun id ↦ x.entryArgument inputs (p.1.var id)) {} with
    | error e' m' =>
      have hseals : ({} : Memory).Seals fun _ ↦ False := ⟨False.elim, fun hv ↦ by cases hv⟩
      have hstart := entryArguments_fill (x := x) inputs hseals p.1 p.2.parameters
      unfold Run.Fills at hstart
      rw [hargs] at hstart
      unfold runWith at hrun
      rw [hfind] at hrun
      dsimp only at hrun
      rw [Run.bind_error hargs] at hrun
      cases hrun
      exact hstart.1
    | ok args m' =>
      obtain ⟨B, -, hsealed⟩ :=
        h.runWith_sealed hhost hfind (hunwritten p (find?_mem hfind)) hargs
      rw [hrun] at hsealed
      exact hsealed.1

end Executable

end InlineArrays
