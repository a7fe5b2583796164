import InlineArrays.Proofs.Resolution.Structure
import InlineArrays.Proofs.Scenario.Anchored
import InlineArrays.Proofs.Scenario.Faultless
import InlineArrays.Proofs.Validation.Accepted
import Mathlib

/-!
# Expressions without a type

An expression that cannot be typed has the error type, and so has what is built on it.  Access to
something that cannot be indexed is reported; a field that does not exist and the conversion of
something that is no inline array are not, unless the conversion is to a mutable span and its operand
could not be written to anyway.  Those apart, a method with an expression of the error type is
reported.
-/

namespace InlineArrays

namespace Context

variable {c : Context}

/-- What has no type and is not reported, although what it is made of has one: a field that the type
of its receiver lacks, or a conversion of something that is no inline array but could be written to
as far as a mutable span demands. -/
def Slips (c : Context) : Expr → Prop
  | .field _ receiver name =>
    c.types.Proper (c.typeOf receiver) ∧
      (c.types.struct? (c.typeOf receiver)).bind (·.field? name) = none
  | .span _ operand readonly =>
    c.types.Proper (c.typeOf operand) ∧ c.types.array? (c.typeOf operand) = none ∧
      (readonly = false → (c.storageOf operand).referenceable ∧ ¬ (c.storageOf operand).readonly)
  | _ => False

instance : (e : Expr) → Decidable (c.Slips e)
  | .field .. | .span .. => inferInstanceAs (Decidable (_ ∧ _))
  | .var .. | .call .. | .int .. | .bool .. | .string .. | .fromEnd .. | .range .. | .default ..
  | .element .. | .conditional .. | .placeholder .. => inferInstanceAs (Decidable False)

/-! ## Types by structure -/

/-- In a method that resolves, every recorded expression has a type and a storage. -/
theorem answered_of_resolves (h : c.resolves) {e : Expr} (he : c.method.Records e) :
    c.typeOf? e = some (c.typeOf e) ∧ c.storageOf? e = some (c.storageOf e) := by
  have hmem : e ∈ c.method.exprs := Array.mem_of_getElem? he
  obtain ⟨htype, hstorage⟩ := Bool.and_eq_true_iff.1 (Array.all_eq_true'.1 h e hmem)
  obtain ⟨t, ht⟩ := Option.isSome_iff_exists.1 htype
  obtain ⟨s, hs⟩ := Option.isSome_iff_exists.1 hstorage
  simp [typeOf, storageOf, ht, hs]

theorem typeOf_span {id : ExprId} {operand : Expr} {readonly : Bool}
    (h : c.typeOf? operand = some (c.typeOf operand)) :
    c.typeOf (.span id operand readonly) =
      ((c.types.array? (c.typeOf operand)).map fun type ↦
        c.findSpan type.element readonly).getD TypeTable.error := by
  have htype : c.typeOf? (.span id operand readonly) = (c.typeOf? operand).bind fun t ↦
      some (((c.types.array? t).map fun type ↦ c.findSpan type.element readonly).getD
        TypeTable.error) := rfl
  rw [typeOf, htype, h]
  rfl

theorem accessType_of_element {id : ExprId} {receiver : Expr} {args : List (Argument Expr)}
    {r t : TypeId} (hr : c.typeOf? receiver = some r)
    (h : c.typeOf? (.element id receiver args) = some t) :
    ∃ slicing?, c.accessType c.storageOf? receiver r slicing? = some t := by
  unfold typeOf? typeWith at h
  obtain ⟨r', hr', h⟩ := Option.bind_eq_some_iff.1 h
  obtain rfl : r = r' := Option.some.inj (hr.symm.trans hr')
  exact ⟨_, h⟩

/-- The span over the elements of an inline array is in the table. -/
theorem proper_findSpan (hc : c.types.WellFormed) {id : TypeId} {type : ArrayType}
    (h : c.types.array? id = some type) (readonly : Bool) :
    c.types.Proper (c.findSpan type.element readonly) := by
  obtain ⟨span, hspan, -⟩ := hc.findSpan_array h readonly
  rw [findSpan, hspan]
  exact TypeTable.proper_of_findSpan hspan

/-- The element or the slice of an inline array or a span has a type. -/
theorem proper_accessType (hc : c.types.WellFormed) (hfaultless : c.types.Faultless)
    {storage? : Expr → Option Storage} {receiver : Expr} {r t : TypeId} {slicing? : Option Bool}
    (hr : (c.types.array? r).isSome ∨ c.types.isSpan r)
    (h : c.accessType storage? receiver r slicing? = some t) : c.types.Proper t := by
  obtain ⟨slicing, -, h⟩ := Option.bind_eq_some_iff.1 h
  cases hget : c.types.get r with
  | array type =>
    have harray : c.types.array? r = some type := by rw [TypeTable.array?, hget]
    simp only [hget] at h
    split at h
    · obtain ⟨s, -, h⟩ := Option.bind_eq_some_iff.1 h
      cases h
      exact proper_findSpan hc harray _
    · cases h
      exact hfaultless r _ (by simp [hget, TypeData.refs])
  | span element readonly =>
    simp only [hget] at h
    cases h
    split
    · simp [TypeTable.Proper, hget]
    · exact hfaultless r _ (by simp [hget, TypeData.refs])
  | _ => simp [TypeTable.array?, TypeTable.isSpan, TypeTable.spanParts?, hget] at hr

/-- An access to something that has a type but no elements is reported. -/
theorem indexed_of_bindErrors {id : ExprId} {receiver : Expr} {args : List (Argument Expr)}
    (hreceiver : c.types.Proper (c.typeOf receiver))
    (h : c.bindErrors (.element id receiver args) = []) :
    (c.types.array? (c.typeOf receiver)).isSome ∨ c.types.isSpan (c.typeOf receiver) := by
  cases hget : c.types.get (c.typeOf receiver) with
  | array type => exact .inl (by simp [TypeTable.array?, hget])
  | span element readonly => exact .inr (by simp [TypeTable.isSpan, TypeTable.spanParts?, hget])
  | error => exact absurd hget hreceiver
  | _ => simp [bindErrors, bind, indexed, hget, Expr.isElement] at h

/-! ## Methods without a report -/

/-- What building gives the analysis of a method: its types are in order, and whatever is reachable is
recorded and used. -/
structure Grounded (c : Context) : Prop where
  wellFormed : c.types.WellFormed
  faultless : c.types.Faultless
  names : c.method.NamesProper c.types
  orderly : c.method.Orderly
  anchored : c.method.Anchored

section

variable (hc : c.Grounded)
include hc

theorem Grounded.proper_var {id : ExprId} {v : VariableId} (he : c.method.Reaches (.var id v)) :
    c.types.Proper (c.method.var v).type := by
  have hv : v < c.method.vars.size := hc.orderly.roots id v (he.records hc.orderly)
  have hvar : c.method.var v = c.method.vars[v] := by simp [Body.var, hv]
  rw [hvar]
  exact hc.names.vars _ (Array.getElem_mem hv)

theorem Grounded.proper_named {e : Expr} {type : TypeId} (he : c.method.Reaches e)
    (htype : type ∈ e.named) : c.types.Proper type :=
  hc.names.exprs e (Array.mem_of_getElem? (he.records hc.orderly)) type htype

variable (hvalid : c.validate? = some [])
include hvalid

theorem Grounded.bindErrors_eq_nil {e : Expr} (he : c.method.Reaches e) : c.bindErrors e = [] := by
  obtain ⟨use, huse, hfst⟩ := List.mem_map.1 (he.used hc.anchored)
  obtain ⟨-, hreports⟩ := Option.ite_some_none_eq_some.1 hvalid
  have hindexing : c.indexingErrors = [] := run_eq_nil (v := .indexing) hreports (by decide)
  rw [← hfst]
  exact List.flatMap_eq_nil_iff.1 hindexing use huse

theorem Grounded.innateError?_eq_none {e : Expr} (he : c.method.Reaches e) :
    c.innateError? e = none := by
  obtain ⟨use, huse, hfst⟩ := List.mem_map.1 (he.used hc.anchored)
  rw [← hfst]
  exact ((accepted_of_validate hvalid).uses use huse).innate

theorem Grounded.answered {e : Expr} (he : c.method.Reaches e) :
    c.typeOf? e = some (c.typeOf e) ∧ c.storageOf? e = some (c.storageOf e) :=
  answered_of_resolves (accepted_of_validate hvalid).resolves (he.records hc.orderly)

theorem Grounded.proper_element {id : ExprId} {receiver : Expr} {args : List (Argument Expr)}
    (he : c.method.Reaches (.element id receiver args))
    (hreceiver : c.types.Proper (c.typeOf receiver)) :
    c.types.Proper (c.typeOf (.element id receiver args)) := by
  have hindexed := indexed_of_bindErrors hreceiver (hc.bindErrors_eq_nil hvalid he)
  have hanswered := (hc.answered hvalid (he.child List.mem_cons_self)).1
  obtain ⟨slicing?, htype⟩ := accessType_of_element hanswered (hc.answered hvalid he).1
  exact proper_accessType hc.wellFormed hc.faultless hindexed htype

theorem Grounded.proper_span {id : ExprId} {operand : Expr} {readonly : Bool}
    (he : c.method.Reaches (.span id operand readonly)) (hslips : ¬ c.Slips (.span id operand readonly))
    (hoperand : c.types.Proper (c.typeOf operand)) :
    c.types.Proper (c.typeOf (.span id operand readonly)) := by
  have hanswered := (hc.answered hvalid (he.child List.mem_cons_self)).1
  rw [typeOf_span hanswered]
  cases harray : c.types.array? (c.typeOf operand) with
  | some type => exact proper_findSpan hc.wellFormed harray readonly
  | none =>
    refine absurd ⟨hoperand, harray, ?_⟩ hslips
    rintro rfl
    -- a mutable conversion of what cannot be written to is reported whatever its operand is
    have hinnate := hc.innateError?_eq_none hvalid he
    simp only [innateError?] at hinnate
    split at hinnate
    · cases hinnate
    · split at hinnate
      · cases hinnate
      · rename_i href hreadonly
        exact ⟨by simpa using href, by simpa using hreadonly⟩

variable (hslips : ∀ e, c.method.Reaches e → ¬ c.Slips e)
include hslips

omit hvalid in
theorem Grounded.proper_field {id : ExprId} {receiver : Expr} {name : String}
    (he : c.method.Reaches (.field id receiver name))
    (hreceiver : c.types.Proper (c.typeOf receiver)) :
    c.types.Proper (c.typeOf (.field id receiver name)) := by
  rw [typeOf_field]
  cases hfield : (c.types.struct? (c.typeOf receiver)).bind (·.field? name) with
  | none => exact absurd ⟨hreceiver, hfield⟩ (hslips _ he)
  | some field =>
    obtain ⟨type, hstruct, hfield⟩ := Option.bind_eq_some_iff.1 hfield
    refine hc.faultless (c.typeOf receiver) field.type ?_
    rw [TypeTable.get_of_struct? hstruct]
    exact List.mem_map_of_mem (List.mem_of_find?_eq_some hfield)

/-- Where nothing is reported and nothing slips through, whatever is reachable has a type.  The
induction is on the expression, whose children are reachable as well. -/
theorem Grounded.proper_typeOf : (e : Expr) → c.method.Reaches e → c.types.Proper (c.typeOf e)
  | .var .., he => hc.proper_var he
  | .call .., he | .default .., he => hc.proper_named he List.mem_cons_self
  | .int .., _ => c.types.proper_builtin TypeTable.int (by decide) (by decide)
  | .bool .., _ => c.types.proper_builtin TypeTable.bool (by decide) (by decide)
  | .string .., _ => c.types.proper_builtin TypeTable.string (by decide) (by decide)
  | .fromEnd .., _ => c.types.proper_builtin TypeTable.index (by decide) (by decide)
  | .range .., _ => c.types.proper_builtin TypeTable.range (by decide) (by decide)
  | .field _ receiver _, he =>
    hc.proper_field hslips he (proper_typeOf receiver (he.child List.mem_cons_self))
  | .element _ receiver _, he =>
    hc.proper_element hvalid he (proper_typeOf receiver (he.child List.mem_cons_self))
  | .span _ operand _, he =>
    hc.proper_span hvalid he (hslips _ he) (proper_typeOf operand (he.child List.mem_cons_self))
  | .conditional _ _ access, he =>
    proper_typeOf access (he.child (List.mem_cons_of_mem _ List.mem_cons_self))
  | .placeholder _ receiver, he => proper_typeOf receiver (he.child List.mem_cons_self)

end

end Context

theorem Scenario.build_grounded {s : Scenario} {p : Program} (h : s.build = .ok p)
    (members : MemberTable) {m : Method} (hm : m ∈ p.methods) : (p.context members m).Grounded where
  wellFormed := build_wellFormed h
  faultless := (build_faultless h).types
  names := (build_faultless h).methods m hm
  orderly := (build_orderly h).1 m hm
  anchored := build_anchored h m hm

/-- A method with an expression of the error type is reported, unless something slips through. -/
theorem Program.reports_untyped {s : Scenario} {p : Program} (h : s.build = .ok p)
    {members : MemberTable} {m : Method} (hm : m ∈ p.methods)
    (hresolves : (p.context members m).resolves)
    (hslips : ∀ e, m.Reaches e → ¬ (p.context members m).Slips e) {e : Expr} (he : m.Reaches e)
    (herror : (p.context members m).typeOf e = TypeTable.error) :
    ∃ d ds, (p.context members m).validate? = some (d :: ds) := by
  have hc := Scenario.build_grounded h members hm
  cases hvalid : (p.context members m).validateWith Validator.all with
  | nil =>
    have hreports : (p.context members m).validate? = some [] := by
      rw [Context.validate?, if_pos hresolves, hvalid]
    exact absurd herror (hc.proper_typeOf hreports hslips e he).ne_error
  | cons d ds => exact ⟨d, ds, by rw [Context.validate?, if_pos hresolves, hvalid]⟩

/-- Takes the first element of something reached from a local row of cells. -/
def takesElement (of : Term) : Scenario where
  options := {}
  arrays := [⟨"Buffer4", "int", 4⟩]
  structs := [⟨"Row", .value, [⟨"cells", "Buffer4", false⟩]⟩]
  methods :=
    [{ name := "Main", returns := .void, returnType := none, owner := none, parameters := []
       locals := [⟨"x", "Row", true⟩]
       body := [.expression (.index of (.int 0))] }]
  inputs := []
  expect := none

/-- The types that the scenario declares. -/
def rowTypes : TypeTable :=
  ⟨[.struct ⟨"Row", .value, [⟨"cells", 8, false⟩]⟩, .array ⟨"Buffer4", TypeTable.int, 4⟩,
    .span TypeTable.int false, .span TypeTable.int true]⟩

/-- The method that takes the element, of a receiver with the parts that are recorded for it. -/
def takesElementMethod (parts : List Expr) (receiver : Expr) : Method :=
  let position : Expr := .int (parts.length + 1) 0
  let element : Expr := .element (parts.length + 2) receiver [{ value := position }]
  Body.finish
    { name := "Main", exprs := (parts ++ [receiver, position, element]).toArray
      vars := #[{ name := "x", kind := .stackLocal, type := TypeTable.builtin.length }]
      statements := [.expression element] }

/-- The element of an element of the cells, which are integers. -/
def takesNested : Method :=
  takesElementMethod [.var 0 0, .field 1 (.var 0 0) "cells", .int 2 0]
    (.element 3 (.field 1 (.var 0 0) "cells") [{ value := .int 2 0 }])

theorem build_takesNested :
    (takesElement (.index (.field (.path "x") "cells") (.int 0))).build =
      .ok ⟨rowTypes, [takesNested]⟩ := by
  cbv

/-- The element of an integer is reported. -/
theorem takesNested_reported :
    ∃ e, takesNested.Reaches e ∧
      (Program.context ⟨rowTypes, [takesNested]⟩ {} takesNested).typeOf e = TypeTable.error ∧
        ∃ d ds, (Program.context ⟨rowTypes, [takesNested]⟩ {} takesNested).validate? =
          some (d :: ds) := by
  have hm : takesNested ∈ [takesNested] := List.mem_singleton.2 rfl
  have hused : ∀ e ∈ takesNested.uses.map (·.1),
      ¬ (Program.context ⟨rowTypes, [takesNested]⟩ {} takesNested).Slips e := by decide
  have hslips (e : Expr) (he : takesNested.Reaches e) :
      ¬ (Program.context ⟨rowTypes, [takesNested]⟩ {} takesNested).Slips e :=
    hused e (he.used (Scenario.build_anchored build_takesNested _ hm))
  have hreaches := Body.Reaches.statement (b := takesNested.toBody) List.mem_cons_self List.mem_cons_self
  exact ⟨_, hreaches, by cbv,
    Program.reports_untyped build_takesNested hm (by cbv) hslips hreaches (by cbv)⟩

/-- The element of a field that does not exist is not. -/
theorem takesMissing_unreported :
    ∃ p, (takesElement (.field (.path "x") "missing")).build = .ok p ∧
      ∃ m ∈ p.methods, (p.context {} m).resolves ∧
        (∃ e, m.Reaches e ∧ (p.context {} m).typeOf e = TypeTable.error) ∧
          (p.context {} m).validate? = some [] := by
  have hbuild : (takesElement (.field (.path "x") "missing")).build =
      .ok ⟨rowTypes, [takesElementMethod [.var 0 0] (.field 1 (.var 0 0) "missing")]⟩ := by cbv
  exact ⟨_, hbuild, _, List.mem_singleton.2 rfl, by cbv,
    ⟨_, .statement List.mem_cons_self List.mem_cons_self, by cbv⟩, by cbv⟩

end InlineArrays
