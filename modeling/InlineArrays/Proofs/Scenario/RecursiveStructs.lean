import InlineArrays.Proofs.Types.ByValue
import InlineArrays.Proofs.Validation.Settled

/-!
# Structs that contain themselves

A scenario whose names resolve is refused exactly if one of its structs contains itself by value, and
the first such struct is named.  In the types of a scenario that is not refused nothing contains
itself, also after any further names are resolved; so all that recurses into fields and elements ends.
-/

namespace InlineArrays

namespace TypeTable

variable {t t' : TypeTable} {root : TypeId}

/-- Names are resolved, any number of them. -/
def Resolves : TypeTable → TypeTable → Prop :=
  Relation.ReflTransGen fun t t' ↦ ∃ name id, t.resolve name = .ok (id, t')

theorem Resolves.spans (h : Resolves t t') : Spans t t' := by
  induction h with
  | refl => exact .refl
  | tail _ hresolve ih =>
    obtain ⟨name, id, hresolve⟩ := hresolve
    exact ih.trans (spans_of_resolve hresolve).1

/-- Spans hold nothing, so what holds what is as before. -/
theorem Spans.holdsByValue_eq (h : Spans t t') : t'.HoldsByValue = t.HoldsByValue := by
  funext outer inner
  refine propext ⟨?_, ?_⟩
  · rintro (⟨hstruct, hclass, hf⟩ | harray)
    · exact .field (h.struct?_eq outer ▸ hstruct) hclass hf
    · exact .element (h.array?_eq outer ▸ harray)
  · rintro (⟨hstruct, hclass, hf⟩ | harray)
    · exact .field ((h.struct?_eq outer).trans hstruct) hclass hf
    · exact .element ((h.array?_eq outer).trans harray)

theorem Spans.keeps (h : Spans t t') : t.Keeps t' where
  size_le := h.size_le
  get _ hid := h.get_eq hid ▸ .same _

/-- A type that stays keeps its name. -/
theorem Keeps.name?_eq (h : t.Keeps t') {id : TypeId} {name : String}
    (hname : (t.get id).name? = some name) : (t'.get id).name? = some name := by
  have hid : id < t.size := by
    apply lt_size
    intro hget
    rw [hget] at hname
    cases hname
  have hget := h.get id hid
  generalize t.get id = data at hname hget
  generalize t'.get id = data' at hget
  cases hget with
  | same => exact hname
  | fields type fields => exact hname

/-- Descending into the fields of places ends where descending into types does. -/
theorem wellFounded_fieldOf (h : WellFounded fun inner outer ↦ t.HoldsByValue outer inner)
    (root : TypeId) : WellFounded fun q p ↦ t.FieldOf root p q := by
  have hacc (id : TypeId) : ∀ p, t.placeType? root p = some id → Acc (fun q p ↦ t.FieldOf root p q) p := by
    induction id using h.induction with
    | _ id ih =>
      intro p hp
      refine .intro p fun q hfield ↦ ?_
      obtain ⟨type, id', f, hp', hstruct, hclass, hf, hq⟩ := hfield.exists_type
      obtain rfl := Option.some.inj (hp.symm.trans hp')
      exact ih f.type (.field hstruct hclass hf) q hq
  refine ⟨fun p ↦ .intro p fun q hfield ↦ ?_⟩
  obtain ⟨type, id, f, -, -, -, -, hq⟩ := hfield.exists_type
  exact hacc f.type q hq

end TypeTable

/-- Where structs nest finitely deep, a place is covered as a whole or field by field. -/
theorem Assignments.covers_iff {a : Assignments} {t : TypeTable} (ht : t.Finite) {root : TypeId}
    {p : Place} : a.covers t root p ↔
      (∃ q ∈ a.places, q.Above p) ∨ ∃ type, t.structAt? root p = some type ∧ type.fields ≠ [] ∧
        ∀ q, t.FieldOf root p q → a.covers t root q := by
  have hdeeper : a.coversWithin t root (t.size + 1 + 1) p = a.covers t root p := by
    cases hp : t.placeType? root p with
    | none => simp only [covers, coversWithin, hp, Option.bind_none]
    | some id => exact coversWithin_of_nestsWithin a hp (ht id) (Nat.le_succ _)
  rw [← hdeeper]
  exact coversWithin_succ_iff

/-- Whatever recurses into fields and elements of the types of the table ends: types hold each other
to a finite depth, as fields of places do; default values are made of those of the types held, and a
place is assigned if it is as a whole or if all its fields are. -/
structure TypeTable.Descends (t : TypeTable) : Prop where
  types : WellFounded fun inner outer ↦ t.HoldsByValue outer inner
  places : ∀ root, WellFounded fun q p ↦ t.FieldOf root p q
  defaults : ∀ id, defaultValue t id = defaultFrom (defaultValue t) (t.get id)
  covers : ∀ (a : Assignments) (root : TypeId) (p : Place), a.covers t root p ↔
    (∃ q ∈ a.places, q.Above p) ∨ ∃ type, t.structAt? root p = some type ∧ type.fields ≠ [] ∧
      ∀ q, t.FieldOf root p q → a.covers t root q

theorem TypeTable.Sound.descends {t : TypeTable} (ht : t.Sound)
    (hnone : ∀ id, ¬ t.HoldsItself id) : t.Descends := by
  have hcontains (id : TypeId) : t.containsItself id = false := by
    rw [Bool.eq_false_iff, ne_eq, containsItself_iff ht.closed]
    exact hnone id
  have hshallow := shallow_of_not_containsItself ht.closed hcontains
  have htypes : WellFounded fun inner outer ↦ t.HoldsByValue outer inner :=
    ⟨fun id ↦ (hshallow id).acc⟩
  exact ⟨htypes, wellFounded_fieldOf htypes, fun id ↦ (hshallow id).defaultValue_eq, fun _ _ _ ↦
    Assignments.covers_iff (finite_of_not_containsItself fun id _ ↦ hcontains id)⟩

namespace Scenario

variable {s : Scenario} {types : TypeTable}

/-! ## Declared structs and their types -/

/-- The structs of a list are declared one after the other, from the end of the table on. -/
theorem declareStructs_name? {l : List StructDecl} {t t' : TypeTable}
    (h : l.foldlM (fun types d ↦ (types.declareStruct d.name d.kind).map (·.2)) t = .ok t') :
    t.Keeps t' ∧ ∀ n d, l[n]? = some d → (t'.get (t.size + n)).name? = some d.name := by
  induction l generalizing t with
  | nil =>
    cases h
    exact ⟨.refl _, nofun⟩
  | cons d l ih =>
    rw [List.foldlM_cons] at h
    obtain ⟨mid, hdeclare, h⟩ := Except.bind_eq_ok.1 h
    obtain ⟨⟨id, added⟩, hadded, rfl⟩ := Except.map_eq_ok.1 hdeclare
    obtain ⟨hkeeps, hnames⟩ := ih h
    have hpush : added = (t.push (.struct ⟨d.name, d.kind, []⟩)).2 := by
      unfold TypeTable.declareStruct at hadded
      split at hadded
      · cases hadded
      · exact (congrArg Prod.snd (Except.ok.inj hadded)).symm
    subst hpush
    refine ⟨(TypeTable.keeps_push t _).trans hkeeps, fun n d' hd' ↦ ?_⟩
    cases n with
    | zero =>
      obtain rfl := Option.some.inj hd'
      exact hkeeps.name?_eq (by rw [Nat.add_zero, TypeTable.get_push, if_pos rfl]; rfl)
    | succ n =>
      have hname := hnames n d' hd'
      rw [TypeTable.size_push] at hname
      rwa [Nat.succ_eq_add_one, Nat.add_comm n 1, ← Nat.add_assoc]

theorem addArray_keeps {t t' : TypeTable} {d : ArrayDecl} (h : addArray t d = .ok t') :
    t.Keeps t' := by
  obtain ⟨⟨element, mid⟩, hresolve, h⟩ := Except.bind_eq_ok.1 h
  obtain ⟨⟨id, added⟩, hadd, rfl⟩ := Except.map_eq_ok.1 h
  exact (TypeTable.keeps_resolve hresolve).trans (TypeTable.keeps_addArray hadd).1

theorem defineStruct_keeps {t t' : TypeTable} {d : TypeId × StructDecl}
    (h : defineStruct t d = .ok t') : t.Keeps t' := by
  obtain ⟨⟨fields, mid⟩, hfields, hdefine⟩ := Except.bind_eq_ok.1 h
  obtain ⟨hspans, -⟩ := addFields_spans (by simp) hfields
  exact hspans.keeps.trans (TypeTable.keeps_defineFields hdefine)

/-- A declared struct is found by its name. -/
theorem lookup_of_mem_declared (h : s.declareTypes = .ok types) {id : TypeId} {d : StructDecl}
    (hd : (id, d) ∈ s.declared) : types.lookup d.name = some id := by
  rw [(declareTypes_built h).lookup_eq_some_iff]
  obtain ⟨structs, hstructs, h⟩ := Except.bind_eq_ok.1 h
  obtain ⟨arrays, harrays, h⟩ := Except.bind_eq_ok.1 h
  have hkeeps : structs.Keeps types := by
    have harrays : structs.Keeps arrays :=
      Except.foldlM_inv (fun _ _ _ ht hstep ↦ ht.trans (addArray_keeps hstep)) (.refl _) harrays
    exact Except.foldlM_inv (fun _ _ _ ht hstep ↦ ht.trans (defineStruct_keeps hstep)) harrays h
  obtain ⟨n, hn⟩ := List.mem_iff_getElem?.1 hd
  obtain ⟨hid, hd⟩ := List.getElem?_zip_eq_some.1 hn
  obtain rfl : TypeTable.builtin.length + n = id := by
    obtain ⟨_, rfl⟩ := List.getElem?_eq_some_iff.1 hid
    rw [List.getElem_range', Nat.one_mul]
  exact hkeeps.name?_eq ((declareStructs_name? hstructs).2 n d hd)

/-! ## Refused scenarios -/

/-- The struct that is declared contains itself by value. -/
def Recursive (types : TypeTable) (d : StructDecl) : Prop :=
  ∃ id, types.lookup d.name = some id ∧ types.HoldsItself id

open Classical in
/-- The first declared struct that is found to contain itself is the first that does. -/
theorem find?_recursive (h : s.declareTypes = .ok types) :
    s.structs.find? (fun d ↦ decide (Recursive types d)) =
      (s.declared.find? fun (id, _) ↦ types.containsItself id).map (·.2) := by
  have hclosed := (declareTypes_sound h).1.closed
  have hstructs : s.declared.map (·.2) = s.structs := by
    rw [declared, List.map_snd_zip]
    simp
  have hsame : ∀ entry ∈ s.declared,
      decide (Recursive types entry.2) = types.containsItself entry.1 := by
    intro entry hentry
    have hlookup := lookup_of_mem_declared h hentry
    rw [Bool.eq_iff_iff, decide_eq_true_iff, TypeTable.containsItself_iff hclosed]
    constructor
    · rintro ⟨id, hid, hholds⟩
      rw [hlookup] at hid
      exact Option.some.inj hid ▸ hholds
    · exact fun hholds ↦ ⟨entry.1, hlookup, hholds⟩
  conv_lhs => rw [← hstructs, List.find?_map]
  exact congrArg (Option.map Prod.snd) (List.find?_congr hsame)

end Scenario

/-- Declares a struct of the given kind that holds itself by way of an array. -/
def declaresLoop (kind : StructKind) : Scenario where
  options := {}
  arrays := [⟨"Row", "Loop", 3⟩]
  structs :=
    [⟨"Leaf", .value, [⟨"x", "int", false⟩]⟩,
      ⟨"Loop", kind, [⟨"leaf", "Leaf", false⟩, ⟨"inner", "Row", false⟩]⟩]
  methods := []
  inputs := []
  expect := none

def loopTypes (kind : StructKind) : TypeTable :=
  ⟨[.struct ⟨"Leaf", .value, [⟨"x", TypeTable.int, false⟩]⟩,
    .struct ⟨"Loop", kind, [⟨"leaf", 7, false⟩, ⟨"inner", 9, false⟩]⟩,
    .array ⟨"Row", 8, 3⟩, .span 8 false, .span 8 true]⟩

end InlineArrays
