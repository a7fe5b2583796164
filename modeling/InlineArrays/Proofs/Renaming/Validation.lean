import InlineArrays.Proofs.Renaming.Access
import InlineArrays.Validation

/-!
# Validation under other type ids

Every validator reports the same.  Definite assignment descends into the fields of structs as far as
the size of the table allows, which is more than the depth to which structs nest in either table.
-/

namespace InlineArrays

namespace Context

variable {c : Context} {ρ : TypeId → TypeId} {u : TypeTable} (h : TypeTable.Embeds ρ c.types u)
include h

/-! ## Indexing -/

theorem bindErrors_rename (e : Expr) : (c.rename ρ u).bindErrors (e.rename ρ) = c.bindErrors e := by
  simp only [bindErrors, Expr.isElement_rename, bind_rename h]
  cases c.bind e <;> rfl

theorem uses_rename : (c.rename ρ u).method.uses = c.method.uses.map (Use.rename ρ) :=
  c.method.toBody.uses_rename h.error

theorem indexingErrors_rename : (c.rename ρ u).indexingErrors = c.indexingErrors := by
  rw [indexingErrors, indexingErrors, uses_rename h, List.flatMap_map]
  exact congrArg c.method.uses.flatMap (funext fun use ↦ bindErrors_rename h use.1)

/-! ## Ref safety -/

theorem outcome?_rename (e : Expr) : (c.rename ρ u).outcome? (e.rename ρ) = c.outcome? e := by
  have hspan : (c.rename ρ u).types.isSpan (ρ (c.typeOf e)) = _ := h.isSpan _
  simp only [outcome?, Expr.isElement_rename, bind_rename h, storageOf_rename h, typeOf_rename h, hspan]
  cases c.bind e with
  | error errors => rfl
  | ok a =>
    simp only [Except.map, Access.isSlice_rename]
    simp only [Access.rename, Indexed.kind_rename]
    cases a.indexed <;> rfl

omit h in
theorem objection?_rename (e : Expr) (usage : Usage) (o : Outcome) :
    (c.rename ρ u).objection? (e.rename ρ) usage o = c.objection? e usage o := by
  simp only [objection?, text_rename, Expr.isVariable_rename]

theorem advance_rename (e : Expr) (usage : Usage) (s : CheckState) :
    (c.rename ρ u).advance (e.rename ρ) usage s = c.advance e usage s := by
  cases s <;> simp only [advance, outcome?_rename h, objection?_rename, span_rename]

theorem useError?_rename (e : Expr) (usage : Usage) :
    (c.rename ρ u).useError? (e.rename ρ) usage = c.useError? e usage := by
  simp only [useError?, advance_rename h]

theorem innateError?_rename (e : Expr) :
    (c.rename ρ u).innateError? (e.rename ρ) = c.innateError? e := by
  have hspan := c.method.span_rename ρ e
  have hbind := bind_rename h e
  cases e with
  | span id operand readonly =>
    cases readonly with
    | false =>
      simp only [Expr.rename] at hspan ⊢
      simp only [innateError?, storageOf_rename h, text_rename, span_rename]
      exact congrArg (fun span ↦ if !(c.storageOf operand).referenceable then
        some (⟨.nonReferenceable, span⟩ : Diagnostic) else _) hspan
    | true => rfl
  | element id receiver args =>
    simp only [Expr.rename] at hspan hbind ⊢
    simp only [innateError?, hbind]
    cases c.bind (.element id receiver args) with
    | error errors => rfl
    | ok a =>
      simp only [Except.map, Access.isSlice_rename]
      simp only [Access.rename]
      cases a.indexed with
      | array p => exact congrArg (fun span ↦ if a.isSlice && p.viaTemporary then
          some (⟨.nonReferenceable, span⟩ : Diagnostic) else none) hspan
      | span => rfl
  | _ => rfl

end Context

namespace Rejections

theorem covers_rename (ρ : TypeId → TypeId) (r : Rejections) : (e : Expr) →
    r.covers (e.rename ρ) = r.covers e
  | .field _ receiver _ => by simp only [Expr.rename, covers, covers_rename ρ r receiver]
  | .element _ receiver _ => by simp only [Expr.rename, covers, covers_rename ρ r receiver]
  | .span _ operand _ => by simp only [Expr.rename, covers, covers_rename ρ r operand]
  | .var .. | .call .. | .int .. | .bool .. | .string .. | .fromEnd .. | .range .. | .default ..
  | .conditional .. | .placeholder .. => rfl
termination_by structural e => e

theorem reject_rename (ρ : TypeId → TypeId) (r : Rejections) (e : Expr) (reason : Diagnostic) :
    r.reject (e.rename ρ) reason = r.reject e reason := by
  rw [reject, reject, Expr.id_rename]

variable {c : Context} {ρ : TypeId → TypeId} {u : TypeTable} (h : TypeTable.Embeds ρ c.types u)
include h

theorem checkUse_rename (r : Rejections) (use : Use) :
    checkUse (c.rename ρ u) r (Use.rename ρ use) = checkUse c r use := by
  simp only [checkUse, Use.rename, Context.innateError?_rename h, Context.useError?_rename h,
    covers_rename, reject_rename]

theorem checkSpanLocal_rename (r : Rejections) (s : Statement) :
    r.checkSpanLocal (c.rename ρ u) (s.rename ρ) = r.checkSpanLocal c s := by
  cases s with
  | assign target value =>
    cases target with
    | var id v =>
      have hfirst : ((c.rename ρ u).method.firstAssignment? v).any
          (·.id == (value.rename ρ).id) = (c.method.firstAssignment? v).any (·.id == value.id) := by
        rw [Context.firstAssignment?_rename, Option.any_map]
        simp
      have hisSpan : (c.rename ρ u).types.isSpan ((c.method.var v).rename ρ).type =
          c.types.isSpan (c.method.var v).type := h.isSpan _
      have htarget := Context.storageOf_rename h (.var id v)
      simp only [Expr.rename] at htarget
      simp only [Statement.rename, Expr.rename, checkSpanLocal, Context.var_rename h, hisSpan, hfirst,
        htarget, covers_rename, reject_rename, Context.storageOf_rename h, Context.span_rename]
      rfl
    | _ => rfl
  | _ => rfl

theorem checkStatement_rename (r : Rejections) (s : Statement) :
    checkStatement (c.rename ρ u) r (s.rename ρ) = checkStatement c r s := by
  have huses : (s.rename ρ).usesAfterParts (c.rename ρ u).method.toBody =
      (s.usesAfterParts c.method.toBody).map (Use.rename ρ) :=
    s.usesAfterParts_rename h.error c.method.toBody
  simp only [checkStatement, huses, List.foldl_map, checkUse_rename h, checkSpanLocal_rename h]

end Rejections

/-! ## Definite assignment -/

namespace Context

variable {c : Context} {ρ : TypeId → TypeId} {u : TypeTable} (h : TypeTable.Embeds ρ c.types u)
include h

theorem refSafetyErrors_rename : (c.rename ρ u).refSafetyErrors = c.refSafetyErrors := by
  have hstatements : (c.rename ρ u).method.statements = c.method.statements.map (·.rename ρ) := rfl
  simp only [refSafetyErrors, hstatements, List.foldl_map, Rejections.checkStatement_rename h]

theorem place?_rename (e : Expr) :
    (e.rename ρ).place? (c.rename ρ u).method.toBody = e.place? c.method.toBody :=
  Expr.place?_rename h.error c.method.toBody e

theorem isSpanTyped_rename (e : Expr) : (c.rename ρ u).isSpanTyped (e.rename ρ) = c.isSpanTyped e := by
  rw [isSpanTyped, isSpanTyped, typeOf_rename h]
  exact h.isSpan _

theorem settle_rename (mode : Access.Mode) (e : Expr) :
    (c.rename ρ u).settle mode (e.rename ρ) = c.settle mode e := by
  cases mode <;> simp only [settle, isSpanTyped_rename h]

mutual

theorem checks_rename (mode : Access.Mode) : (e : Expr) →
    (c.rename ρ u).checks mode (e.rename ρ) = (c.checks mode e).map (·.rename ρ)
  | .var id target => by
    have hsettle := settle_rename h mode (.var id target)
    simp only [Expr.rename] at hsettle
    simp only [Expr.rename, checks, hsettle]
    cases c.settle mode (.var id target) <;> rfl
  | .field id receiver name => by
    have hsettle := settle_rename h mode (.field id receiver name)
    simp only [Expr.rename] at hsettle
    simp only [Expr.rename, checks, hsettle, place?_rename h, checks_rename .refer receiver,
      checks_rename .read receiver]
    cases c.settle mode (.field id receiver name) with
    | refer => rfl
    | read | readElement =>
      dsimp only
      split <;> rfl
  | .element id receiver args => by
    have hspan := isSpanTyped_rename h (.element id receiver args)
    simp only [Expr.rename] at hspan
    simp only [Expr.rename, checks, hspan, argumentChecks_rename args, List.map_append]
    cases mode with
    | read => simp only [checks_rename _ receiver]
    | readElement | refer => simp only [checks_rename _ receiver]
  | .span _ operand _ => checks_rename .refer operand
  | .fromEnd _ count => checks_rename .read count
  | .range _ none none => rfl
  | .range _ (some start) none => by
    simp only [Expr.rename, Expr.renameBound, checks, checks_rename .read start, List.map_append,
      List.map_nil]
  | .range _ none (some stop) => by
    simp only [Expr.rename, Expr.renameBound, checks, checks_rename .read stop, List.map_append,
      List.map_nil]
  | .range _ (some start) (some stop) => by
    simp only [Expr.rename, Expr.renameBound, checks, checks_rename .read start,
      checks_rename .read stop, List.map_append]
  | .conditional id receiver access => by
    have hsettle := settle_rename h mode (.conditional id receiver access)
    simp only [Expr.rename] at hsettle
    simp only [Expr.rename, checks, hsettle, checks_rename .read receiver, checks_rename _ access,
      List.map_append]
  | .call .. | .int .. | .bool .. | .string .. | .default .. | .placeholder .. => rfl
termination_by structural e => e

theorem argumentChecks_rename : (args : List (Argument Expr)) →
    (c.rename ρ u).argumentChecks (Expr.renameArguments ρ args) =
      (c.argumentChecks args).map (·.rename ρ)
  | [] => rfl
  | arg :: args => by
    simp only [Expr.renameArguments, argumentChecks, checks_rename .read arg.value,
      argumentChecks_rename args, List.map_append]
termination_by structural args => args

end

end Context

/-- The event with the types of its expression under other ids. -/
def AssignmentEvent.rename (ρ : TypeId → TypeId) : AssignmentEvent → AssignmentEvent
  | .check e => .check (e.rename ρ)
  | .assign e => .assign (e.rename ρ)

namespace Context

variable {c : Context} {ρ : TypeId → TypeId} {u : TypeTable} (h : TypeTable.Embeds ρ c.types u)
include h

theorem checked_rename (mode : Access.Mode) (e : Expr) :
    (c.rename ρ u).checked mode (e.rename ρ) = (c.checked mode e).map (·.rename ρ) := by
  simp only [checked, checks_rename h, List.map_map]
  rfl

theorem targetEvents_rename (e : Expr) :
    (c.rename ρ u).targetEvents (e.rename ρ) = (c.targetEvents e).map (·.rename ρ) := by
  have hchecked := checked_rename h .refer e
  cases e <;> first | rfl | exact hchecked

theorem argumentEvents_rename (arg : Argument Expr) :
    (c.rename ρ u).argumentEvents (arg.rename ρ) =
      (c.argumentEvents arg).map (·.rename ρ) := by
  unfold argumentEvents
  simp only [Argument.rename]
  cases arg.modifier with
  | none => exact checked_rename h .read arg.value
  | output => simp only [checked_rename h, List.map_append]; rfl
  | ref | input =>
    simp only [checked_rename h]
    refine congrArg (fun refers : Bool ↦ (c.checked (if refers then .refer else .read) arg.value).map
      (AssignmentEvent.rename ρ)) ?_
    have hspan := isSpanTyped_rename h arg.value
    revert hspan
    cases arg.value <;> intro hspan <;> first | rfl | exact hspan

theorem statementEvents_rename (s : Statement) :
    (c.rename ρ u).statementEvents (s.rename ρ) = (c.statementEvents s).map (·.rename ρ) := by
  have hreturns : (c.rename ρ u).method.returns = c.method.returns := rfl
  cases s with
  | expression value => exact checked_rename h .read value
  | assign target value =>
    simp only [Statement.rename, statementEvents, targetEvents_rename h, checked_rename h,
      List.map_append]
    rfl
  | compound target op value =>
    simp only [Statement.rename, statementEvents, checked_rename h, List.map_append]
  | refLocal bound init => exact checked_rename h .refer init
  | call callee args =>
    simp only [Statement.rename, statementEvents, List.flatMap_map, List.map_flatMap,
      argumentEvents_rename h]
  | ret value =>
    cases value with
    | none => rfl
    | some value => simp only [Statement.rename, Option.map_some, statementEvents, hreturns,
        checked_rename h]

end Context

namespace TypeTable

theorem Embeds.placeType? {t u : TypeTable} {ρ : TypeId → TypeId} (h : t.Embeds ρ u) (root : TypeId)
    (p : Place) : u.placeType? (ρ root) p = (t.placeType? root p).map ρ := by
  unfold TypeTable.placeType?
  induction p.segments generalizing root with
  | nil => rfl
  | cons segment segments ih =>
    simp only [List.foldlM_cons]
    cases segment with
    | member name =>
      simp only [h.struct?]
      cases t.struct? root with
      | none => rfl
      | some type =>
        simp only [Option.map_some, Option.bind_some, StructType.field?_rename, Option.map_map]
        cases type.field? name with
        | none => rfl
        | some f => exact ih f.type
    | subscript index =>
      simp only [h.array?, Option.map_map]
      cases t.array? root with
      | none => rfl
      | some type => exact ih type.element

theorem placeType?_push (t : TypeTable) (root : TypeId) (p : Place) (name : String) :
    t.placeType? root (p.push (.member name)) =
      (t.placeType? root p).bind fun type ↦
        ((t.struct? type).bind (·.field? name)).map (·.type) := by
  simp [placeType?, Place.push, List.foldlM_append]

end TypeTable

namespace Assignments

variable {t u : TypeTable} {ρ : TypeId → TypeId}

/-- Descending further than structs nest finds nothing more. -/
theorem coversWithin_of_nestsWithin (a : Assignments) {root : TypeId} {depth : Nat} {p : Place}
    {id : TypeId} (hp : t.placeType? root p = some id) (hdepth : t.NestsWithin depth id) {room : Nat}
    (hroom : depth ≤ room) : a.coversWithin t root room p = a.coversWithin t root depth p := by
  induction depth generalizing p id room with
  | zero => cases hdepth
  | succ depth ih =>
    obtain ⟨room, rfl⟩ := Nat.exists_eq_add_of_le' (Nat.le_trans (Nat.le_add_left 1 depth) hroom)
    simp only [coversWithin, hp, Option.bind_some]
    cases hstruct : t.struct? id with
    | none => rfl
    | some type =>
      cases hclass : type.isClass with
      | true => simp [hclass]
      | false =>
        have hfield : ∀ f ∈ type.fields, a.coversWithin t root room (p.push (.member f.name)) =
            a.coversWithin t root depth (p.push (.member f.name)) := by
          intro f hf
          obtain ⟨found, hfound⟩ : ∃ found, type.field? f.name = some found :=
            Option.isSome_iff_exists.1 (List.find?_isSome.2 ⟨f, hf, by simp⟩)
          have hmem : found ∈ type.fields := List.mem_of_find?_eq_some hfound
          have htype : t.placeType? root (p.push (.member f.name)) = some found.type := by
            simp [TypeTable.placeType?_push, hp, hstruct, hfound]
          exact ih htype (hdepth type hstruct hclass found hmem) (Nat.le_of_succ_le_succ hroom)
        have hall : type.fields.all
            (fun f ↦ a.coversWithin t root room (p.push (.member f.name))) =
            type.fields.all fun f ↦ a.coversWithin t root depth (p.push (.member f.name)) := by
          rw [Bool.eq_iff_iff, List.all_eq_true, List.all_eq_true]
          exact forall₂_congr fun f hf ↦ by rw [hfield f hf]
        simp only [hall]

theorem coversWithin_rename (h : t.Embeds ρ u) (a : Assignments) (root : TypeId) (room : Nat)
    (p : Place) : a.coversWithin u (ρ root) room p = a.coversWithin t root room p := by
  induction room generalizing p with
  | zero => rfl
  | succ room ih =>
    simp only [coversWithin, h.placeType?]
    cases t.placeType? root p with
    | none => rfl
    | some id =>
      simp only [Option.map_some, Option.bind_some, h.struct?]
      cases t.struct? id with
      | none => rfl
      | some type =>
        have hall : (type.rename ρ).fields.all
            (fun f ↦ a.coversWithin u (ρ root) room (p.push (.member f.name))) =
            type.fields.all fun f ↦ a.coversWithin t root room (p.push (.member f.name)) := by
          simp [StructType.rename, Field.rename, ih, List.all_map, Function.comp_def]
        have hempty : (type.rename ρ).fields.isEmpty = type.fields.isEmpty := by
          simp [StructType.rename]
        simp only [Option.map_some, hall, hempty]
        rfl

/-- Both tables leave room for the depth to which structs nest in the smaller one. -/
theorem covers_rename (h : t.Embeds ρ u) (a : Assignments) (root : TypeId) (p : Place) :
    a.covers u (ρ root) p = a.covers t root p := by
  unfold covers
  cases hp : t.placeType? root p with
  | none =>
    rw [coversWithin_rename h]
    simp only [coversWithin, hp, Option.bind_none]
  | some id =>
    have hp' : u.placeType? (ρ root) p = some (ρ id) := by rw [h.placeType?, hp]; rfl
    rcases Nat.le_total t.size u.size with hle | hle
    · rw [coversWithin_of_nestsWithin a hp' (h.nestsWithin.2 (h.sourceFinite id))
        (Nat.succ_le_succ hle), coversWithin_rename h]
    · rw [coversWithin_of_nestsWithin a hp (h.nestsWithin.1 (h.targetFinite (ρ id)))
        (Nat.succ_le_succ hle), coversWithin_rename h]

end Assignments

namespace Context

variable {c : Context} {ρ : TypeId → TypeId} {u : TypeTable} (h : TypeTable.Embeds ρ c.types u)

theorem variableNamed?_rename (name : String) :
    (c.rename ρ u).method.variableNamed? name = c.method.variableNamed? name := by
  have hvars : (c.rename ρ u).method.vars = c.method.vars.map (·.rename ρ) := rfl
  rw [Body.variableNamed?, Body.variableNamed?, hvars, Array.findIdx?_map]
  rfl

include h

theorem isTracked_rename (v : VariableId) : (c.rename ρ u).isTracked v = c.isTracked v := by
  simp only [isTracked, var_rename h]
  rfl

theorem step_rename (a : Assignments) (event : AssignmentEvent) :
    a.step (c.rename ρ u) (event.rename ρ) = a.step c event := by
  cases event with
  | check e =>
    simp only [AssignmentEvent.rename, Assignments.step, Assignments.check, place?_rename h,
      span_rename]
    cases e.place? c.method.toBody with
    | none => rfl
    | some p =>
      simp only [variableNamed?_rename]
      cases c.method.variableNamed? p.root with
      | none => rfl
      | some v =>
        have hcovers : a.covers (c.rename ρ u).types ((c.rename ρ u).method.var v).type p =
            a.covers c.types (c.method.var v).type p := by
          rw [var_rename h]
          exact Assignments.covers_rename h a _ p
        simp only [isTracked_rename h, hcovers]
  | assign e =>
    have hplace := place?_rename h e
    cases e with
    | element id receiver args => rfl
    | _ =>
      simp only [Expr.rename] at hplace
      simp only [AssignmentEvent.rename, Assignments.step, Expr.rename, Assignments.assign, hplace]

theorem assignmentErrors_rename : (c.rename ρ u).assignmentErrors = c.assignmentErrors := by
  have hstatements : (c.rename ρ u).method.statements = c.method.statements.map (·.rename ρ) := rfl
  rw [assignmentErrors, assignmentErrors, hstatements, List.flatMap_map]
  simp only [statementEvents_rename h]
  rw [← List.map_flatMap, List.foldl_map]
  simp only [step_rename h]

/-- The same is wrong with a method in both tables. -/
theorem validate?_rename : (c.rename ρ u).validate? = c.validate? := by
  have hrun (v : Validator) : v.run (c.rename ρ u) = v.run c := by
    cases v with
    | indexing => exact indexingErrors_rename h
    | refSafety => exact refSafetyErrors_rename h
    | definiteAssignment => exact assignmentErrors_rename h
  simp only [validate?, resolves_rename h, validateWith, hrun]

end Context

end InlineArrays
