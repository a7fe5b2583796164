import InlineArrays.Proofs.Renaming.Validation
import InlineArrays.Proofs.Scenario.Tables
import Mathlib

/-!
# Settled places

A walk over the steps of a method assigns some places and reports others, which are read before they
are assigned; either way a place is settled from then on, and so is what lies below it.  A place
that is read is reported exactly if one of its leaves, the parts of it that are no plain structs,
neither is settled nor lies below anything settled.
-/

namespace InlineArrays

/-- The statement assigns what the expression denotes, or calls something that does. -/
def Statement.Assigns (s : Statement) (e : Expr) : Prop :=
  match s with
  | .assign target _ => e = target
  | .call _ args => ∃ arg ∈ args, arg.modifier = .output ∧ arg.value = e
  | _ => False

namespace Place

/-- The place is `q` or what `q` is a part of. -/
def Above (p q : Place) : Prop := p.root = q.root ∧ p.segments <+: q.segments

theorem Above.refl (p : Place) : p.Above p := ⟨rfl, List.prefix_rfl⟩

theorem Above.trans {p q r : Place} (h : p.Above q) (h' : q.Above r) : p.Above r :=
  ⟨h.1.trans h'.1, h.2.trans h'.2⟩

theorem above_push (p : Place) (s : Segment) : p.Above (p.push s) :=
  ⟨rfl, List.prefix_append p.segments [s]⟩

theorem mem_cons_parents {p q : Place} : q ∈ p :: p.parents ↔ q.Above p := by
  rw [List.mem_cons, parents, List.mem_map]
  constructor
  · rintro (rfl | ⟨n, -, rfl⟩)
    · exact .refl q
    · exact ⟨rfl, List.take_prefix n p.segments⟩
  · rintro ⟨hroot, hsegments⟩
    have htake : q = ⟨p.root, p.segments.take q.segments.length⟩ := by
      rw [← List.prefix_iff_eq_take.1 hsegments, ← hroot]
    rcases Nat.lt_or_ge q.segments.length p.segments.length with hlt | hge
    · exact .inr ⟨_, List.mem_range.2 hlt, htake.symm⟩
    · rw [List.take_of_length_le hge] at htake
      exact .inl htake

end Place

/-! ## Leaves -/

namespace TypeTable

variable {t : TypeTable} {root : TypeId} {p q leaf : Place}

/-- The plain struct that is at a place in a variable of type `root`. -/
def structAt? (t : TypeTable) (root : TypeId) (p : Place) : Option StructType :=
  ((t.placeType? root p).bind t.struct?).filter (!·.isClass)

theorem structAt?_eq_some {type : StructType} : t.structAt? root p = some type ↔
    ∃ id, t.placeType? root p = some id ∧ t.struct? id = some type ∧ type.isClass = false := by
  simp only [structAt?, Option.filter_eq_some_iff, Option.bind_eq_some_iff, Bool.not_eq_true',
    ← exists_and_right, and_assoc]

/-- Fields of the plain struct at a place. -/
inductive FieldOf (t : TypeTable) (root : TypeId) (p : Place) : Place → Prop
  | intro {type : StructType} {f : Field} : t.structAt? root p = some type → f ∈ type.fields →
      FieldOf t root p (p.push (.member f.name))

/-- A place is reached from another by fields of plain structs. -/
def Below (t : TypeTable) (root : TypeId) : Place → Place → Prop :=
  Relation.ReflTransGen (t.FieldOf root)

theorem Below.above (h : t.Below root p q) : p.Above q := by
  induction h with
  | refl => exact .refl p
  | tail _ hfield ih =>
    cases hfield
    exact ih.trans (Place.above_push _ _)

/-- A part of a place that is no plain struct. -/
structure IsLeaf (t : TypeTable) (root : TypeId) (p leaf : Place) : Prop where
  below : t.Below root p leaf
  structAt? : t.structAt? root leaf = none

/-- No struct at a place or below it is without fields. -/
def Populated (t : TypeTable) (root : TypeId) (p : Place) : Prop :=
  ∀ q type, t.Below root p q → t.structAt? root q = some type → type.fields ≠ []

theorem IsLeaf.of_field (hfield : t.FieldOf root p q) (h : t.IsLeaf root q leaf) :
    t.IsLeaf root p leaf := ⟨.head hfield h.below, h.structAt?⟩

theorem Populated.field (h : t.Populated root p) (hfield : t.FieldOf root p q) :
    t.Populated root q := fun q' type hbelow ↦ h q' type (.head hfield hbelow)

/-- A leaf of a place is that place or a leaf of one of its fields. -/
theorem IsLeaf.cases_field (h : t.IsLeaf root p leaf) :
    leaf = p ∨ ∃ q, t.FieldOf root p q ∧ t.IsLeaf root q leaf := by
  rcases h.below.cases_head with rfl | ⟨q, hfield, hbelow⟩
  · exact .inl rfl
  · exact .inr ⟨q, hfield, hbelow, h.structAt?⟩

/-- The type of a field of the plain struct at a place. -/
theorem FieldOf.exists_type (h : t.FieldOf root p q) : ∃ type id f, t.placeType? root p = some id ∧
    t.struct? id = some type ∧ type.isClass = false ∧ f ∈ type.fields ∧
      t.placeType? root q = some f.type := by
  cases h with
  | @intro type f hstruct hf =>
    obtain ⟨id, hid, hstruct, hclass⟩ := structAt?_eq_some.1 hstruct
    obtain ⟨found, hfound⟩ : ∃ found, type.field? f.name = some found :=
      Option.isSome_iff_exists.1 (List.find?_isSome.2 ⟨f, hf, by simp⟩)
    refine ⟨type, id, found, hid, hstruct, hclass, List.mem_of_find?_eq_some hfound, ?_⟩
    simp [placeType?_push, hid, hstruct, hfound]

end TypeTable

namespace Assignments

variable {a : Assignments} {t : TypeTable} {root : TypeId} {p : Place}

/-- A place is covered as a whole, or field by field. -/
theorem coversWithin_succ_iff {depth : Nat} : a.coversWithin t root (depth + 1) p ↔
    (∃ q ∈ a.places, q.Above p) ∨ ∃ type, t.structAt? root p = some type ∧ type.fields ≠ [] ∧
      ∀ q, t.FieldOf root p q → a.coversWithin t root depth q := by
  have hwhole : (p :: p.parents).any a.places.contains ↔ ∃ q ∈ a.places, q.Above p := by
    simp only [List.any_eq_true, List.contains_iff_mem, Place.mem_cons_parents]
    exact exists_congr fun q ↦ and_comm
  have hfields {type : StructType} (hstruct : t.structAt? root p = some type) :
      (∀ f ∈ type.fields, a.coversWithin t root depth (p.push (.member f.name))) ↔
        ∀ q, t.FieldOf root p q → a.coversWithin t root depth q := by
    constructor
    · rintro h q ⟨hstruct', hf⟩
      obtain rfl := Option.some.inj (hstruct.symm.trans hstruct')
      exact h _ hf
    · exact fun h f hf ↦ h _ ⟨hstruct, hf⟩
  rw [coversWithin, Bool.or_eq_true, hwhole]
  refine or_congr_right ?_
  cases hstruct : (t.placeType? root p).bind t.struct? with
  | none => simp [TypeTable.structAt?, hstruct]
  | some type =>
    cases hclass : type.isClass with
    | true => simp [TypeTable.structAt?, hstruct, hclass]
    | false =>
      have hat : t.structAt? root p = some type := by
        simp [TypeTable.structAt?, hstruct, hclass]
      simp [hat, hclass, ← hfields hat]

/-- What is covered has all its leaves covered. -/
theorem exists_above_leaf {depth : Nat} (h : a.coversWithin t root depth p) {leaf : Place}
    (hleaf : t.IsLeaf root p leaf) : ∃ q ∈ a.places, q.Above leaf := by
  induction depth generalizing p with
  | zero => cases h
  | succ depth ih =>
    rcases coversWithin_succ_iff.1 h with ⟨q, hq, habove⟩ | ⟨type, hstruct, -, hfields⟩
    · exact ⟨q, hq, habove.trans hleaf.below.above⟩
    · rcases hleaf.cases_field with rfl | ⟨q, hfield, hleaf⟩
      · rw [hleaf.structAt?] at hstruct
        cases hstruct
      · exact ih (hfields q hfield) hleaf

/-- Where structs nest finitely deep and none is empty, what has its leaves covered is covered. -/
theorem coversWithin_of_leaves {depth : Nat} {id : TypeId} (hdepth : t.NestsWithin depth id)
    (hp : t.placeType? root p = some id) (hfields : t.Populated root p)
    (h : ∀ leaf, t.IsLeaf root p leaf → ∃ q ∈ a.places, q.Above leaf) :
    a.coversWithin t root depth p := by
  induction depth generalizing p id with
  | zero => cases hdepth
  | succ depth ih =>
    refine coversWithin_succ_iff.2 ?_
    cases hstruct : t.structAt? root p with
    | none => exact .inl (h p ⟨.refl, hstruct⟩)
    | some type =>
      refine .inr ⟨type, rfl, hfields p type .refl hstruct, fun q hfield ↦ ?_⟩
      obtain ⟨type', id', f, hp', hstruct', hclass, hf, hq⟩ := hfield.exists_type
      obtain rfl := Option.some.inj (hp.symm.trans hp')
      exact ih (hdepth type' hstruct' hclass f hf) hq (hfields.field hfield)
        fun leaf hleaf ↦ h leaf (hleaf.of_field hfield)

theorem covers_iff_leaves (ht : t.Finite) (hp : (t.placeType? root p).isSome)
    (hfields : t.Populated root p) :
    a.covers t root p ↔ ∀ leaf, t.IsLeaf root p leaf → ∃ q ∈ a.places, q.Above leaf := by
  obtain ⟨id, hid⟩ := Option.isSome_iff_exists.1 hp
  exact ⟨fun h _ ↦ exists_above_leaf h, coversWithin_of_leaves (ht id) hid hfields⟩

theorem assign_of_not_element {c : Context} {e : Expr} (h : e.isElement = false) :
    a.assign c e = match e.place? c.method.toBody with
      | some q => { a with places := q :: a.places }
      | none => a := by
  cases e with
  | element => cases h
  | _ => rfl

theorem mem_places_assign {c : Context} {e : Expr} : p ∈ (a.assign c e).places ↔
    p ∈ a.places ∨ e.isElement = false ∧ e.place? c.method.toBody = some p := by
  cases helement : e.isElement with
  | false =>
    rw [assign_of_not_element helement]
    cases e.place? c.method.toBody with
    | none => simp
    | some q => simp [or_comm, eq_comm]
  | true =>
    cases e with
    | element => simp [assign]
    | _ => cases helement

end Assignments

/-! ## Walks -/

namespace Context

variable {c : Context} {before : List AssignmentEvent} {e : Expr} {p : InlineArrays.Place}

/-- What a method does with its places, in order. -/
def events (c : Context) : List AssignmentEvent := c.method.statements.flatMap c.statementEvents

/-- What has been assigned and reported once some steps are done. -/
def walk (c : Context) (events : List AssignmentEvent) : Assignments :=
  events.foldl (Assignments.step c) {}

theorem walk_concat (event : AssignmentEvent) :
    c.walk (before ++ [event]) = (c.walk before).step c event := by
  rw [walk, List.foldl_append]
  rfl

theorem not_mem_checked (mode : Access.Mode) (e' : Expr) : .assign e ∉ c.checked mode e' := by
  simp [checked]

theorem mem_argumentEvents {arg : Argument Expr} :
    .assign e ∈ c.argumentEvents arg ↔ arg.modifier = .output ∧ arg.value = e := by
  unfold argumentEvents
  cases arg.modifier with
  | output => simpa [not_mem_checked] using eq_comm
  | _ => simp [not_mem_checked]

theorem not_mem_targetEvents (target : Expr) : .assign e ∉ c.targetEvents target := by
  unfold targetEvents
  split
  · exact List.not_mem_nil
  · exact List.not_mem_nil
  · exact not_mem_checked _ _

/-- Only assignments and `out` arguments assign. -/
theorem mem_statementEvents {s : Statement} : .assign e ∈ c.statementEvents s ↔ s.Assigns e := by
  cases s with
  | ret value => cases value <;> simp [statementEvents, Statement.Assigns, not_mem_checked]
  | _ =>
    simp [statementEvents, Statement.Assigns, not_mem_checked, not_mem_targetEvents,
      mem_argumentEvents]

/-- Once some steps are done, a check of `e` reports that `p` is not assigned. -/
def Reports (c : Context) (before : List AssignmentEvent) (e : Expr) (p : InlineArrays.Place) :
    Prop :=
  (c.walk (before ++ [.check e])).reported =
    (c.walk before).reported ++ [⟨Assignments.violation p, c.method.span e⟩]

/-- Some steps have assigned or reported the place. -/
inductive IsSettled (c : Context) (events : List AssignmentEvent) (p : InlineArrays.Place) : Prop
  /-- Elements are not tracked one by one, so to assign one settles nothing. -/
  | assigned {e : Expr} : .assign e ∈ events → e.isElement = false →
      e.place? c.method.toBody = some p → IsSettled c events p
  | reported {before after : List AssignmentEvent} {e : Expr} :
      events = before ++ .check e :: after → e.place? c.method.toBody = some p →
      c.Reports before e p → IsSettled c events p

theorem IsSettled.append (h : c.IsSettled before p) (after : List AssignmentEvent) :
    c.IsSettled (before ++ after) p := by
  cases h with
  | assigned hmem helement hplace =>
    exact .assigned (List.mem_append_left after hmem) helement hplace
  | reported hevents hplace hreports =>
    exact .reported (by rw [hevents, List.append_assoc, List.cons_append]) hplace hreports

/-- A check reports the place that it is about, or does nothing. -/
theorem walk_check (before : List AssignmentEvent) (hplace : e.place? c.method.toBody = some p) :
    (c.walk (before ++ [.check e]) = ⟨p :: (c.walk before).places,
        (c.walk before).reported ++ [⟨Assignments.violation p, c.method.span e⟩]⟩ ∧
      ∃ v, c.method.variableNamed? p.root = some v ∧ c.isTracked v ∧
        ¬ (c.walk before).covers c.types (c.method.var v).type p) ∨
    (c.walk (before ++ [.check e]) = c.walk before ∧
      ∀ v, c.method.variableNamed? p.root = some v → c.isTracked v →
        (c.walk before).covers c.types (c.method.var v).type p) := by
  simp only [walk_concat, Assignments.step, Assignments.check, hplace]
  cases c.method.variableNamed? p.root with
  | none => exact .inr ⟨rfl, fun _ h ↦ by cases h⟩
  | some v =>
    by_cases hskip :
      (!c.isTracked v || (c.walk before).covers c.types (c.method.var v).type p) = true
    · refine .inr ⟨if_pos hskip, ?_⟩
      rintro _ ⟨⟩ htracked
      simpa [htracked] using hskip
    · refine .inl ⟨if_neg hskip, v, rfl, ?_⟩
      simpa using hskip

theorem not_reports_of_walk_eq (h : c.walk (before ++ [.check e]) = c.walk before) :
    ¬ c.Reports before e p := by
  rw [Reports, h]
  simp

/-- A check reports a place exactly if the variable is tracked and the place not covered. -/
theorem reports_iff {v : VariableId} (hplace : e.place? c.method.toBody = some p)
    (hroot : c.method.variableNamed? p.root = some v) (htracked : c.isTracked v) :
    c.Reports before e p ↔ ¬ (c.walk before).covers c.types (c.method.var v).type p := by
  rcases walk_check before hplace with ⟨hwalk, w, hw, -, hcovers⟩ | ⟨hwalk, hcovers⟩
  · obtain rfl := Option.some.inj (hroot.symm.trans hw)
    exact iff_of_true (by rw [Reports, hwalk]) hcovers
  · exact iff_of_false (not_reports_of_walk_eq hwalk) (not_not_intro (hcovers v hroot htracked))

/-- What a further step settles. -/
theorem settled_concat {event : AssignmentEvent} : c.IsSettled (before ++ [event]) p ↔
    c.IsSettled before p ∨
      (∃ e, event = .assign e ∧ e.isElement = false ∧ e.place? c.method.toBody = some p) ∨
      ∃ e, event = .check e ∧ e.place? c.method.toBody = some p ∧ c.Reports before e p := by
  constructor
  · rintro (⟨hmem, helement, hplace⟩ | @⟨earlier, after, e, hevents, hplace, hreports⟩)
    · rcases List.mem_append.1 hmem with hmem | hmem
      · exact .inl (.assigned hmem helement hplace)
      · exact .inr (.inl ⟨_, (List.mem_singleton.1 hmem).symm, helement, hplace⟩)
    · rcases List.eq_nil_or_concat after with rfl | ⟨after, last, rfl⟩
      · obtain ⟨rfl, hlast⟩ := List.append_inj' hevents rfl
        exact .inr (.inr ⟨e, List.singleton_inj.1 hlast, hplace, hreports⟩)
      · rw [List.concat_eq_append, ← List.cons_append, ← List.append_assoc] at hevents
        exact .inl (.reported (List.append_inj' hevents rfl).1 hplace hreports)
  · rintro (h | ⟨e, rfl, helement, hplace⟩ | ⟨e, rfl, hplace, hreports⟩)
    · exact h.append [event]
    · exact .assigned (by simp) helement hplace
    · exact .reported rfl hplace hreports

/-- The places that a walk has recorded are those that are settled. -/
theorem mem_places_walk {events : List AssignmentEvent} :
    p ∈ (c.walk events).places ↔ c.IsSettled events p := by
  induction events using List.reverseRecOn with
  | nil =>
    refine iff_of_false List.not_mem_nil ?_
    rintro (⟨hmem, -, -⟩ | ⟨hevents, -, -⟩)
    · cases hmem
    · simp at hevents
  | append_singleton before event ih =>
    rw [settled_concat, ← ih]
    cases event with
    | check e =>
      cases hplace : e.place? c.method.toBody with
      | none => simp [walk_concat, Assignments.step, Assignments.check, hplace]
      | some q =>
        rcases walk_check before hplace with ⟨hwalk, -⟩ | ⟨hwalk, -⟩
        · have hreports : c.Reports before e q := by rw [Reports, hwalk]
          simp only [hwalk, List.mem_cons, reduceCtorEq, false_and, exists_false, false_or,
            AssignmentEvent.check.injEq]
          constructor
          · rintro (rfl | h)
            · exact .inr ⟨e, rfl, hplace, hreports⟩
            · exact .inl h
          · rintro (h | ⟨e', rfl, hplace', -⟩)
            · exact .inr h
            · exact .inl (Option.some.inj (hplace'.symm.trans hplace))
        · have hnot : ∀ q, ¬ c.Reports before e q := fun q ↦ not_reports_of_walk_eq hwalk
          simp only [hwalk, reduceCtorEq, false_and, exists_false, false_or,
            AssignmentEvent.check.injEq]
          refine (or_iff_left ?_).symm
          rintro ⟨e', rfl, -, hreports⟩
          exact hnot p hreports
    | assign e =>
      simp [walk_concat, Assignments.step, Assignments.mem_places_assign]

/-- Nothing is reported once it is settled, or what it is a part of. -/
theorem not_reports_of_settled {q : InlineArrays.Place} (hplace : e.place? c.method.toBody = some p)
    (habove : q.Above p) (hq : c.IsSettled before q) : ¬ c.Reports before e p := by
  rcases walk_check before hplace with ⟨-, v, -, -, hcovers⟩ | ⟨hwalk, -⟩
  · have hwhole : ∃ q ∈ (c.walk before).places, q.Above p := ⟨q, mem_places_walk.2 hq, habove⟩
    exact absurd (Assignments.coversWithin_succ_iff.2 (.inl hwhole)) hcovers
  · exact not_reports_of_walk_eq hwalk

/-- Whatever has been checked and assigned before, a check of a place in a tracked variable reports
it exactly if nothing settled has it as a part and some leaf of it neither is settled nor lies below
anything settled; otherwise the check does nothing.  So a struct is assigned once its leaves are, in
whatever order and however many at a time, and nothing is reported that lies at a settled place or
below it. -/
theorem reports_iff_unsettled_leaf {s : Scenario} {types : TypeTable}
    (hbuild : s.buildTypes = .ok types) (hspans : TypeTable.Spans types c.types)
    (before : List AssignmentEvent) :
    (∀ e p v, e.place? c.method.toBody = some p → c.method.variableNamed? p.root = some v →
      c.isTracked v → (c.types.placeType? (c.method.var v).type p).isSome →
      c.types.Populated (c.method.var v).type p →
        (c.Reports before e p ↔ (∀ q, q.Above p → ¬ c.IsSettled before q) ∧
          ∃ leaf, c.types.IsLeaf (c.method.var v).type p leaf ∧
            ∀ q, q.Above leaf → ¬ c.IsSettled before q) ∧
        (¬ c.Reports before e p → c.walk (before ++ [.check e]) = c.walk before) ∧
        ((∀ leaf, c.types.IsLeaf (c.method.var v).type p leaf → ∃ target q,
            .assign target ∈ before ∧ target.isElement = false ∧
              target.place? c.method.toBody = some q ∧ q.Above leaf) →
          ¬ c.Reports before e p)) ∧
    ∀ e p q, e.place? c.method.toBody = some p → q.Above p → c.IsSettled before q →
      ¬ c.Reports before e p := by
  have hfinite : c.types.Finite := hspans.finite (Scenario.buildTypes_sound hbuild).2
  refine ⟨fun e p v hplace hroot htracked htype hfields ↦ ?_,
    fun e p q hplace ↦ not_reports_of_settled hplace⟩
  have hreports : c.Reports before e p ↔ ∃ leaf, c.types.IsLeaf (c.method.var v).type p leaf ∧
      ∀ q, q.Above leaf → ¬ c.IsSettled before q := by
    rw [reports_iff hplace hroot htracked, Assignments.covers_iff_leaves hfinite htype hfields]
    push Not
    exact exists_congr fun leaf ↦ and_congr_right fun _ ↦ forall_congr' fun q ↦ by
      rw [mem_places_walk, imp_not_comm]
  refine ⟨⟨fun h ↦ ?_, fun h ↦ hreports.2 h.2⟩, fun h ↦ ?_, fun hleaves h ↦ ?_⟩
  · obtain ⟨leaf, hleaf, hunsettled⟩ := hreports.1 h
    exact ⟨fun q habove ↦ hunsettled q (habove.trans hleaf.below.above), leaf, hleaf, hunsettled⟩
  · rcases walk_check before hplace with ⟨hwalk, -⟩ | ⟨hwalk, -⟩
    · exact absurd (by rw [Reports, hwalk]) h
    · exact hwalk
  · obtain ⟨leaf, hleaf, hunsettled⟩ := hreports.1 h
    obtain ⟨target, q, hmem, helement, hq, habove⟩ := hleaves leaf hleaf
    exact hunsettled q habove (.assigned hmem helement hq)

end Context

/-- Declares a box with a corner and a tag. -/
def declaresBox : Scenario where
  options := {}
  arrays := []
  structs :=
    [⟨"Point", .value, [⟨"x", "int", false⟩, ⟨"y", "int", false⟩]⟩,
      ⟨"Box", .value, [⟨"corner", "Point", false⟩, ⟨"tag", "int", false⟩]⟩]
  methods := []
  inputs := []
  expect := none

def boxTypes : TypeTable :=
  ⟨[.struct ⟨"Point", .value, [⟨"x", TypeTable.int, false⟩, ⟨"y", TypeTable.int, false⟩]⟩,
    .struct ⟨"Box", .value, [⟨"corner", 7, false⟩, ⟨"tag", TypeTable.int, false⟩]⟩]⟩

theorem buildTypes_declaresBox : declaresBox.buildTypes = .ok boxTypes := by cbv

/-- The corner of the unassigned local, and its coordinates. -/
def corner (id : ExprId) : Expr := .field (id + 1) (.var id 0) "corner"

/-- Assigns one coordinate of a corner, and reads the corner and then the other coordinate. -/
def readsCorner : Context where
  types := boxTypes
  members := {}
  method := Body.finish
    { name := "Main"
      exprs := #[.var 0 0, corner 0, .field 2 (corner 0) "y", .int 3 1, .var 4 0, corner 4,
        .var 6 0, corner 6, .field 8 (corner 6) "x"]
      vars := #[{ name := "b", kind := .stackLocal, type := 8, assigned := false }]
      statements := [.assign (.field 2 (corner 0) "y") (.int 3 1), .expression (corner 4),
        .expression (.field 8 (corner 6) "x")] }

theorem populated_boxTypes (root : TypeId) (p : Place) : boxTypes.Populated root p := by
  intro q type _ hstruct
  obtain ⟨id, -, htype, -⟩ := TypeTable.structAt?_eq_some.1 hstruct
  have hall : ∀ id < boxTypes.size, (boxTypes.struct? id).all (!·.fields.isEmpty) := by decide
  have hlt : id < boxTypes.size := TypeTable.lt_size (by rw [TypeTable.get_of_struct? htype]; nofun)
  simpa [htype] using hall id hlt

/-- The corner is reported because of the coordinate that is not assigned; that is not reported any
more. -/
theorem readsCorner_reports :
    readsCorner.Reports [.assign (.field 2 (corner 0) "y")] (corner 4) ⟨"b", [.member "corner"]⟩ ∧
      ¬ readsCorner.Reports [.assign (.field 2 (corner 0) "y"), .check (corner 4)]
        (.field 8 (corner 6) "x") ⟨"b", [.member "corner", .member "x"]⟩ := by
  have hsettled {q : Place} (hq : readsCorner.IsSettled [.assign (.field 2 (corner 0) "y")] q) :
      q = ⟨"b", [.member "corner", .member "y"]⟩ :=
    List.mem_singleton.1 (Context.mem_places_walk.2 hq)
  have hleaf : readsCorner.types.IsLeaf 8 ⟨"b", [.member "corner"]⟩
      ⟨"b", [.member "corner", .member "x"]⟩ :=
    ⟨.single (.intro (f := ⟨"x", TypeTable.int, false⟩) rfl List.mem_cons_self), rfl⟩
  have hreports : readsCorner.Reports [.assign (.field 2 (corner 0) "y")] (corner 4)
      ⟨"b", [.member "corner"]⟩ := by
    refine ((Context.reports_iff_unsettled_leaf (c := readsCorner) buildTypes_declaresBox .refl _).1
      (corner 4) ⟨"b", [.member "corner"]⟩ 0 rfl (by cbv) rfl rfl (populated_boxTypes _ _)).1.2
        ⟨fun q habove hq ↦ ?_, _, hleaf, fun q habove hq ↦ ?_⟩
    · obtain rfl := hsettled hq
      exact absurd habove.2 (by decide)
    · obtain rfl := hsettled hq
      exact absurd habove.2 (by decide)
  exact ⟨hreports,
    (Context.reports_iff_unsettled_leaf (c := readsCorner) buildTypes_declaresBox .refl _).2 _ _
      ⟨"b", [.member "corner"]⟩ rfl ⟨rfl, by decide⟩ (.reported rfl rfl hreports)⟩

end InlineArrays
