import InlineArrays.Machine.Run

/-!
# The slots of a new activation

Every variable of a method has a slot when its activation starts: locals and ref locals of their
own, parameters for their arguments, and the receiver for what the method is called on.
-/

namespace InlineArrays

section

variable {α β : Type} [DecidableEq α] {P : α → β → Prop} {entries : List (α × β)} {key k : α}
  {value v : β}

/-- What an association list holds for a key. -/
def lookup? (key : α) (entries : List (α × β)) : Option β :=
  (entries.find? (·.1 == key)).map (·.2)

theorem lookup?_assign :
    lookup? k (assign key value entries) = if key = k then some value else lookup? k entries :=
  find?_assign key k value entries

theorem lookup?_mem (h : lookup? key entries = some value) : (key, value) ∈ entries := by
  obtain ⟨entry, hfind, rfl⟩ := Option.map_eq_some_iff.1 h
  have hkey : entry.1 = key := by simpa using List.find?_some hfind
  exact hkey ▸ List.mem_of_find?_eq_some hfind

theorem lookup?_isSome_of_mem (h : (key, value) ∈ entries) : (lookup? key entries).isSome := by
  rw [lookup?, Option.isSome_map, List.find?_isSome]
  exact ⟨_, h, by simp⟩

theorem forall_mem_assign (hentries : ∀ entry ∈ entries, P entry.1 entry.2) (hvalue : P key value) :
    ∀ entry ∈ assign key value entries, P entry.1 entry.2 := by
  induction entries with
  | nil =>
    intro entry hentry
    rw [List.mem_singleton.1 hentry]
    exact hvalue
  | cons first rest ih =>
    intro entry hentry
    unfold assign at hentry
    split at hentry
    · rcases List.mem_cons.1 hentry with rfl | hentry
      · exact hvalue
      · exact hentries entry (List.mem_cons_of_mem _ hentry)
    · rcases List.mem_cons.1 hentry with rfl | hentry
      · exact hentries _ List.mem_cons_self
      · exact ih (fun entry h ↦ hentries entry (List.mem_cons_of_mem _ h)) entry hentry

theorem forall_mem_foldl_assign {pairs : List (α × β)}
    (hentries : ∀ entry ∈ entries, P entry.1 entry.2) (hpairs : ∀ pair ∈ pairs, P pair.1 pair.2) :
    ∀ entry ∈ pairs.foldl (fun entries (key, value) ↦ assign key value entries) entries,
      P entry.1 entry.2 := by
  induction pairs generalizing entries with
  | nil => exact hentries
  | cons pair pairs ih =>
    exact ih (forall_mem_assign hentries (hpairs pair List.mem_cons_self))
      fun pair h ↦ hpairs pair (List.mem_cons_of_mem _ h)

theorem lookup?_foldl_assign {pairs : List (α × β)}
    (h : (lookup? key entries).isSome ∨ ∃ value, (key, value) ∈ pairs) :
    (lookup? key (pairs.foldl (fun entries (key, value) ↦ assign key value entries) entries)).isSome := by
  induction pairs generalizing entries with
  | nil =>
    rcases h with h | ⟨value, h⟩
    · exact h
    · cases h
  | cons pair pairs ih =>
    refine ih ?_
    rw [lookup?_assign]
    by_cases hkey : pair.1 = key
    · rw [if_pos hkey]
      exact .inl rfl
    · rw [if_neg hkey]
      refine h.imp_right fun ⟨value, hmem⟩ ↦ ⟨value, ?_⟩
      rcases List.mem_cons.1 hmem with rfl | hmem
      · exact absurd rfl hkey
      · exact hmem

end

namespace Executable

variable {x : Executable} {m : Method} {r : Routine} {args : List Value} {receiver : Option Value}

/-- What a local starts with. -/
def initial? (x : Executable) (v : Variable) : Option Value :=
  match v.kind with
  | .stackLocal => some (defaultValue x.types v.type)
  | .refLocal _ => some .null
  | .parameter _ | .receiver => none

/-- The slots of the locals. -/
def declared (x : Executable) (m : Method) : List (VariableId × Value) :=
  m.vars.toList.zipIdx.filterMap fun entry ↦ (x.initial? entry.1).map (entry.2, ·)

/-- Arguments are passed over the slots of the locals, and the receiver over both. -/
theorem slots_eq : x.slots m r args receiver =
    r.receiver.elim id
      (fun v ↦ assign v (receiver.getD (defaultValue x.types (m.var v).type)))
      ((r.parameters.zip args).foldl (fun slots (id, value) ↦ assign id value slots)
        (x.declared m)) := by
  have hdeclared {f : Variable × VariableId → Option (VariableId × Value)}
      (hf : ∀ v id, f (v, id) = (x.initial? v).map (id, ·)) :
      m.vars.toList.zipIdx.filterMap f = x.declared m :=
    congrArg (m.vars.toList.zipIdx.filterMap ·) (funext fun entry ↦ hf entry.1 entry.2)
  unfold slots
  rw [hdeclared fun v id ↦ ?_]
  · cases r.receiver <;> rfl
  · obtain ⟨name, kind, type, confined, assigned⟩ := v
    cases kind <;> rfl

theorem mem_declared {entry : VariableId × Value} (h : entry ∈ x.declared m) :
    x.initial? (m.var entry.1) = some entry.2 := by
  obtain ⟨⟨v, id⟩, hmem, hentry⟩ := List.mem_filterMap.1 h
  obtain ⟨value, hvalue, rfl⟩ := Option.map_eq_some_iff.1 hentry
  have hget := List.mem_zipIdx_iff_getElem?.1 hmem
  simp only [Array.getElem?_toList] at hget
  rw [← hvalue, Body.var, hget]
  rfl

theorem lookup?_declared {v : VariableId} (hv : v < m.vars.size)
    (h : (x.initial? (m.var v)).isSome) : (lookup? v (x.declared m)).isSome := by
  obtain ⟨value, hvalue⟩ := Option.isSome_iff_exists.1 h
  have hvar : (m.var v, v) ∈ m.vars.toList.zipIdx := by
    rw [List.mem_zipIdx_iff_getElem?]
    simp [Body.var, hv]
  have hmem : (v, value) ∈ x.declared m :=
    List.mem_filterMap.2 ⟨(m.var v, v), hvar, by rw [hvalue]; rfl⟩
  exact lookup?_isSome_of_mem hmem

/-- What a slot of a new activation may hold. -/
theorem slots_forall {P : VariableId → Value → Prop}
    (hlocal : ∀ v, (m.var v).kind = .stackLocal → P v (defaultValue x.types (m.var v).type))
    (hrefLocal : ∀ v readonly, (m.var v).kind = .refLocal readonly → P v .null)
    (hargs : ∀ pair ∈ r.parameters.zip args, P pair.1 pair.2)
    (hreceiver : ∀ v, r.receiver = some v →
      P v (receiver.getD (defaultValue x.types (m.var v).type))) :
    ∀ entry ∈ x.slots m r args receiver, P entry.1 entry.2 := by
  have hdeclared : ∀ entry ∈ x.declared m, P entry.1 entry.2 := by
    intro entry hentry
    have hinitial := mem_declared hentry
    unfold initial? at hinitial
    cases hkind : (m.var entry.1).kind with
    | stackLocal =>
      rw [hkind] at hinitial
      exact Option.some.inj hinitial ▸ hlocal entry.1 hkind
    | refLocal readonly =>
      rw [hkind] at hinitial
      exact Option.some.inj hinitial ▸ hrefLocal entry.1 readonly hkind
    | parameter | receiver =>
      rw [hkind] at hinitial
      cases hinitial
  have hpassed := forall_mem_foldl_assign hdeclared hargs
  rw [slots_eq]
  cases hr : r.receiver with
  | none => exact hpassed
  | some v => exact forall_mem_assign hpassed (hreceiver v hr)

/-- Every variable has a slot. -/
theorem lookup?_slots (hargs : args.length = r.parameters.length)
    (hparameters : ∀ v kind, v < m.vars.size → (m.var v).kind = .parameter kind → v ∈ r.parameters)
    (hreceiver : ∀ v, v < m.vars.size → (m.var v).kind = .receiver → r.receiver = some v)
    {v : VariableId} (hv : v < m.vars.size) : (lookup? v (x.slots m r args receiver)).isSome := by
  rw [slots_eq]
  have hkeep {entries : List (VariableId × Value)} (h : (lookup? v entries).isSome) :
      (lookup? v (r.receiver.elim id
        (fun v ↦ assign v (receiver.getD (defaultValue x.types (m.var v).type)))
        entries)).isSome := by
    cases r.receiver with
    | none => exact h
    | some id =>
      rw [Option.elim_some, lookup?_assign]
      split
      · rfl
      · exact h
  cases hkind : (m.var v).kind with
  | stackLocal | refLocal =>
    refine hkeep (lookup?_foldl_assign (.inl (lookup?_declared hv ?_)))
    rw [initial?, hkind]
    rfl
  | parameter kind =>
    refine hkeep (lookup?_foldl_assign (.inr ?_))
    obtain ⟨i, hi, hget⟩ := List.mem_iff_getElem.1 (hparameters v kind hv hkind)
    have hi' : i < args.length := hargs ▸ hi
    refine ⟨args[i], ?_⟩
    rw [List.mem_iff_getElem]
    have hzip : i < (r.parameters.zip args).length := by
      rw [List.length_zip]
      exact Nat.lt_min.2 ⟨hi, hi'⟩
    exact ⟨i, hzip, by simp [hget]⟩
  | receiver =>
    rw [hreceiver v hv hkind, Option.elim_some, lookup?_assign, if_pos rfl]
    rfl

end Executable

end InlineArrays
