import InlineArrays.Proofs.Parts
import InlineArrays.Proofs.Validation.Settled
import Mathlib

/-!
# Indices are read

Wherever an access stands in an expression, what its arguments read is read by the expression,
whether its value is wanted or a reference to it.  So a variable that is an index is checked by every
statement that it stands in, but where the statement assigns a field: what the field is reached by is
not looked at.
-/

namespace InlineArrays

def Expr.isField : Expr → Bool
  | .field .. => true
  | _ => false

/-- The subscripts of a place are literals. -/
theorem Expr.args_of_place? {b : Body} {id : ExprId} {receiver : Expr}
    {args : List (Argument Expr)} :
    (e : Expr) → (e.place? b).isSome → .element id receiver args ∈ e.parts →
      ∃ literal n name modifier, args = [⟨.int literal n, name, modifier⟩]
  | .field _ of _, hplace, hmem => by
    rw [parts_field, List.mem_cons, or_iff_right nofun] at hmem
    exact args_of_place? of (by simpa [place?] using hplace) hmem
  | .element _ of [⟨.int literal n, name, modifier⟩], hplace, hmem => by
    rw [parts_element, List.mem_cons, List.mem_append] at hmem
    rcases hmem with heq | hmem | hmem
    · cases heq
      exact ⟨literal, n, name, modifier, rfl⟩
    · exact args_of_place? of (by simpa [place?] using hplace) hmem
    · simp [parts, uses] at hmem
  | .var .., _, hmem => by simp [parts, uses] at hmem

namespace Context

variable {c : Context}

theorem mem_argumentChecks {args : List (Argument Expr)} {arg : Argument Expr} (harg : arg ∈ args)
    {read : Expr} (hread : read ∈ c.checks .read arg.value) : read ∈ c.argumentChecks args := by
  induction args with
  | nil => cases harg
  | cons first args ih =>
    rw [argumentChecks, List.mem_append]
    rcases List.mem_cons.1 harg with rfl | harg
    · exact .inl hread
    · exact .inr (ih harg)

mutual

/-- What the arguments of an access read is read wherever the access stands. -/
theorem mem_checks_of_access {id : ExprId} {receiver read : Expr} {args : List (Argument Expr)}
    (hread : read ∈ c.argumentChecks args) (mode : Access.Mode) :
    (e : Expr) → .element id receiver args ∈ e.parts → read ∈ c.checks mode e
  | .field _ of name, hmem => by
    rw [Expr.parts_field, List.mem_cons, or_iff_right nofun] at hmem
    unfold checks
    split
    · exact mem_checks_of_access hread .refer of hmem
    · split
      · rename_i hplace
        obtain ⟨literal, n, name, modifier, rfl⟩ := Expr.args_of_place? of hplace hmem
        cases hread
      · exact mem_checks_of_access hread .read of hmem
  | .element _ of others, hmem => by
    rw [Expr.parts_element, List.mem_cons, List.mem_append] at hmem
    unfold checks
    rw [List.mem_append]
    rcases hmem with heq | hmem | hmem
    · cases heq
      exact .inl hread
    · right
      cases mode <;> exact mem_checks_of_access hread _ of hmem
    · exact .inl (mem_argumentChecks_of_access hread others hmem)
  | .span _ operand _, hmem => by
    rw [Expr.parts_span, List.mem_cons, or_iff_right nofun] at hmem
    exact mem_checks_of_access hread .refer operand hmem
  | .fromEnd _ count, hmem => by
    rw [Expr.parts_fromEnd, List.mem_cons, or_iff_right nofun] at hmem
    exact mem_checks_of_access hread .read count hmem
  | .range _ start stop, hmem => by
    rw [Expr.parts_range, List.mem_cons, or_iff_right nofun, List.mem_append] at hmem
    unfold checks
    rw [List.mem_append]
    rcases hmem with hmem | hmem
    · cases start with
      | none => cases hmem
      | some bound => exact .inl (mem_checks_of_access hread .read bound hmem)
    · cases stop with
      | none => cases hmem
      | some bound => exact .inr (mem_checks_of_access hread .read bound hmem)
  | .conditional _ of access, hmem => by
    rw [Expr.parts_conditional, List.mem_cons, or_iff_right nofun, List.mem_append] at hmem
    unfold checks
    rw [List.mem_append]
    rcases hmem with hmem | hmem
    · exact .inl (mem_checks_of_access hread .read of hmem)
    · exact .inr (mem_checks_of_access hread _ access hmem)
  | .var .., hmem | .call .., hmem | .int .., hmem | .bool .., hmem | .string .., hmem
  | .default .., hmem | .placeholder .., hmem => by simp [Expr.parts, Expr.uses] at hmem
termination_by structural e => e

theorem mem_argumentChecks_of_access {id : ExprId} {receiver read : Expr}
    {args : List (Argument Expr)} (hread : read ∈ c.argumentChecks args) :
    (others : List (Argument Expr)) →
      .element id receiver args ∈ others.flatMap (·.value.parts) → read ∈ c.argumentChecks others
  | [], hmem => by cases hmem
  | other :: others, hmem => by
    rw [List.flatMap_cons, List.mem_append] at hmem
    unfold argumentChecks
    rw [List.mem_append]
    exact hmem.imp (mem_checks_of_access hread .read other.value)
      (mem_argumentChecks_of_access hread others)
termination_by structural others => others

end

theorem targetEvents_of_isField {target : Expr} (h : target.isField = false) :
    c.targetEvents target = c.checked .refer target := by
  cases target with
  | field => cases h
  | var => simp [targetEvents, checked, checks, settle]
  | _ => rfl

theorem exists_argumentEvents (arg : Argument Expr) :
    ∃ mode later, c.argumentEvents arg = c.checked mode arg.value ++ later := by
  unfold argumentEvents
  cases arg.modifier with
  | output => exact ⟨.refer, [.assign arg.value], rfl⟩
  | _ => exact ⟨_, [], (List.append_nil _).symm⟩

/-- A statement reads each of its operands, but not what an assigned field is reached by.  Before it
reads one, it has assigned only what is passed as an `out` argument further left. -/
theorem exists_checked {s : Statement} {left right : List Use} {operand : Expr} {usage : Usage}
    (hoperands : s.operands c.method.toBody = left ++ (operand, usage) :: right)
    (hfield : usage = .assignTarget → operand.isField = false) :
    ∃ earlier mode later, c.statementEvents s = earlier ++ c.checked mode operand ++ later ∧
      ∀ e, .assign e ∈ earlier → (e, .argument .output) ∈ left := by
  have hnone {left : List Use} : ∀ e, AssignmentEvent.assign e ∈ [] →
      (e, .argument .output) ∈ left := fun _ hmem ↦ absurd hmem List.not_mem_nil
  cases s with
  | expression value =>
    obtain ⟨rfl, ⟨rfl, rfl⟩, rfl⟩ := by
      simpa [Statement.operands, List.singleton_eq_append_iff] using hoperands
    exact ⟨[], .read, [], by simp [statementEvents], hnone⟩
  | assign target value =>
    rcases List.cons_eq_append_iff.1 hoperands with ⟨rfl, hfirst⟩ | ⟨rest, rfl, hsecond⟩
    · obtain ⟨⟨rfl, rfl⟩, rfl⟩ := by simpa using hfirst
      exact ⟨[], .refer, c.checked .read value ++ [.assign operand],
        by simp [statementEvents, targetEvents_of_isField (hfield rfl)], hnone⟩
    · obtain ⟨rfl, ⟨rfl, rfl⟩, rfl⟩ := by simpa [List.singleton_eq_append_iff] using hsecond
      exact ⟨c.targetEvents target, .read, [.assign target], rfl,
        fun e hmem ↦ absurd hmem (not_mem_targetEvents target)⟩
  | compound target op value =>
    rcases List.cons_eq_append_iff.1 hoperands with ⟨rfl, hfirst⟩ | ⟨rest, rfl, hsecond⟩
    · obtain ⟨⟨rfl, rfl⟩, rfl⟩ := by simpa using hfirst
      exact ⟨[], .read, c.checked .read value, rfl, hnone⟩
    · obtain ⟨rfl, ⟨rfl, rfl⟩, rfl⟩ := by simpa [List.singleton_eq_append_iff] using hsecond
      exact ⟨c.checked .read target, .read, [], by simp [statementEvents],
        fun e hmem ↦ absurd hmem (not_mem_checked _ _)⟩
  | refLocal bound init =>
    obtain ⟨rfl, ⟨rfl, rfl⟩, rfl⟩ := by
      simpa [Statement.operands, List.singleton_eq_append_iff] using hoperands
    exact ⟨[], .refer, [], by simp [statementEvents], hnone⟩
  | call callee args =>
    obtain ⟨earlier, rest, rfl, rfl, hrest⟩ := List.map_eq_append_iff.1 hoperands
    obtain ⟨arg, later, rfl, harg, rfl⟩ := List.map_eq_cons_iff.1 hrest
    obtain ⟨rfl, rfl⟩ := Prod.mk.inj harg
    obtain ⟨mode, after, hevents⟩ := c.exists_argumentEvents arg
    refine ⟨earlier.flatMap c.argumentEvents, mode, after ++ later.flatMap c.argumentEvents,
      by simp [statementEvents, hevents], fun e hmem ↦ ?_⟩
    obtain ⟨out, hout, hmem⟩ := List.mem_flatMap.1 hmem
    obtain ⟨hmodifier, rfl⟩ := mem_argumentEvents.1 hmem
    exact List.mem_map.2 ⟨out, hout, by rw [hmodifier]⟩
  | ret value =>
    cases value with
    | none => simp [Statement.operands] at hoperands
    | some value =>
      obtain ⟨rfl, ⟨rfl, rfl⟩, rfl⟩ := by
        simpa [Statement.operands, List.singleton_eq_append_iff] using hoperands
      exact ⟨[], if c.method.returns.isByRef then .refer else .read, [], by simp [statementEvents],
        hnone⟩

/-- A place is settled as a whole, or field by field. -/
inductive IsCovered (c : Context) (events : List AssignmentEvent) (root : TypeId) :
    InlineArrays.Place → Prop
  | whole {p q : InlineArrays.Place} : q.Above p → c.IsSettled events q → IsCovered c events root p
  | fields {p : InlineArrays.Place} {type : StructType} : c.types.structAt? root p = some type →
      type.fields ≠ [] → (∀ q, c.types.FieldOf root p q → IsCovered c events root q) →
      IsCovered c events root p

theorem isCovered_of_coversWithin {events : List AssignmentEvent} {root : TypeId} {depth : Nat}
    {p : InlineArrays.Place} (h : (c.walk events).coversWithin c.types root depth p) :
    c.IsCovered events root p := by
  induction depth generalizing p with
  | zero => cases h
  | succ depth ih =>
    rcases Assignments.coversWithin_succ_iff.1 h with
      ⟨q, hq, habove⟩ | ⟨type, hstruct, hne, hfields⟩
    · exact .whole habove (mem_places_walk.1 hq)
    · exact .fields hstruct hne fun q hfield ↦ ih (hfields q hfield)

/-- What is reported stays reported. -/
theorem reported_prefix_step (a : Assignments) (event : AssignmentEvent) :
    a.reported <+: (a.step c event).reported := by
  cases event with
  | check e =>
    simp only [Assignments.step, Assignments.check]
    split
    · exact List.prefix_rfl
    · split
      · exact List.prefix_rfl
      · split
        · exact List.prefix_rfl
        · exact List.prefix_append _ _
  | assign e =>
    simp only [Assignments.step, Assignments.assign]
    split
    · exact List.prefix_rfl
    · split <;> exact List.prefix_rfl

theorem reported_prefix_walk (before after : List AssignmentEvent) :
    (c.walk before).reported <+: (c.walk (before ++ after)).reported := by
  rw [walk, walk, List.foldl_append]
  generalize before.foldl (Assignments.step c) {} = a
  induction after generalizing a with
  | nil => exact List.prefix_rfl
  | cons event after ih => exact (reported_prefix_step a event).trans (ih _)

theorem mem_assignmentErrors {before after : List AssignmentEvent} {e : Expr}
    {p : InlineArrays.Place} (hevents : c.events = before ++ .check e :: after)
    (h : c.Reports before e p) :
    ⟨Assignments.violation p, c.method.span e⟩ ∈ c.assignmentErrors := by
  have hprefix := reported_prefix_walk (c := c) (before ++ [.check e]) after
  rw [List.append_assoc, List.singleton_append, ← hevents, h] at hprefix
  exact hprefix.subset (by simp)

/-- A variable that is an index of an access is checked wherever the access stands in a statement,
but for the field that the statement assigns.  So if it has to be assigned first, then it is reported
there, unless earlier statements, and what is passed as an `out` argument further left, have settled
it. -/
theorem reports_unassigned_index {earlier later : List Statement} {s : Statement}
    (hstatements : c.method.statements = earlier ++ s :: later) {left right : List Use}
    {operand : Expr} {usage : Usage}
    (hoperands : s.operands c.method.toBody = left ++ (operand, usage) :: right)
    (hfield : usage = .assignTarget → operand.isField = false) {id use : ExprId} {receiver : Expr}
    {args : List (Argument Expr)} (haccess : .element id receiver args ∈ operand.parts)
    {arg : Argument Expr} (harg : arg ∈ args) {v : VariableId} (hvar : arg.value = .var use v)
    (hnamed : c.method.variableNamed? (c.method.var v).name = some v) (htracked : c.isTracked v) :
    ∃ before after, c.events = before ++ .check (.var use v) :: after ∧
      (∀ e, .assign e ∈ before →
        (∃ s' ∈ earlier, s'.Assigns e) ∨ (e, .argument .output) ∈ left) ∧
      (¬ c.IsCovered before (c.method.var v).type ⟨(c.method.var v).name, []⟩ →
        ⟨.unassignedVariable (c.method.var v).name, c.method.span (.var use v)⟩ ∈
          c.assignmentErrors) := by
  obtain ⟨first, mode, rest, hevents, hfirst⟩ := exists_checked hoperands hfield
  have hread : .var use v ∈ c.checks .read arg.value := by
    rw [hvar, checks]
    exact List.mem_singleton_self _
  obtain ⟨sooner, afterwards, hchecks⟩ := List.append_of_mem
    (mem_checks_of_access (mem_argumentChecks harg hread) mode operand haccess)
  have hsplit : c.events =
      earlier.flatMap c.statementEvents ++ first ++ sooner.map .check ++ .check (.var use v) ::
        (afterwards.map .check ++ rest ++ later.flatMap c.statementEvents) := by
    simp [events, hstatements, hevents, checked, hchecks]
  refine ⟨_, _, hsplit, fun e he ↦ ?_, fun hcovered ↦ ?_⟩
  · rw [List.mem_append, List.mem_append] at he
    rcases he with (he | he) | he
    · obtain ⟨s', hs', he⟩ := List.mem_flatMap.1 he
      exact .inl ⟨s', hs', mem_statementEvents.1 he⟩
    · exact .inr (hfirst e he)
    · simp at he
  · have hreports : c.Reports _ (.var use v) ⟨(c.method.var v).name, []⟩ :=
      (reports_iff rfl hnamed htracked).2 fun h ↦ hcovered (isCovered_of_coversWithin h)
    exact mem_assignmentErrors hsplit hreports

end Context

/-- Has some cells, and a position that nothing assigns. -/
def withCells (action : Action) : Scenario where
  options := {}
  arrays := [⟨"Cells", "Cell", 4⟩]
  structs := [⟨"Cell", .value, [⟨"value", "int", false⟩]⟩]
  methods :=
    [{ name := "Main", returns := .void, returnType := none, owner := none, parameters := []
       locals := [⟨"c", "Cells", true⟩, ⟨"i", "int", false⟩]
       body := [action] }]
  inputs := []
  expect := none

def cellTypes : TypeTable :=
  ⟨[.struct ⟨"Cell", .value, [⟨"value", TypeTable.int, false⟩]⟩, .array ⟨"Cells", 7, 4⟩,
    .span 7 false, .span 7 true]⟩

/-- The cell at the position. -/
def cellAccess : Expr := .element 2 (.var 0 0) [{ value := .var 1 1 }]

def cellValue : Expr := .field 3 cellAccess "value"

theorem cellAccess_mem_parts : cellAccess ∈ cellValue.parts := by
  rw [cellValue, Expr.parts_field]
  exact List.mem_cons_of_mem _ (Expr.mem_parts_self cellAccess)

def changesCell (s : Statement) : Method :=
  Body.finish
    { name := "Main", exprs := #[.var 0 0, .var 1 1, cellAccess, cellValue, .int 4 3]
      vars := #[{ name := "c", kind := .stackLocal, type := 8 },
        { name := "i", kind := .stackLocal, type := TypeTable.int, assigned := false }]
      statements := [s] }

def addsToCell : Method := changesCell (.compound cellValue .add (.int 4 3))

/-- Adding to the value reads the position. -/
theorem addsToCell_reports :
    ∃ p, (withCells (.compound (.field (.index (.path "c") (.path "i")) "value") .add
      (.int 3))).build = .ok p ∧ ∃ m ∈ p.methods,
        ⟨.unassignedVariable "i", m.span (.var 1 1)⟩ ∈ (p.context {} m).assignmentErrors := by
  refine ⟨⟨cellTypes, [addsToCell]⟩, by cbv, addsToCell, List.mem_singleton.2 rfl, ?_⟩
  have hoperands : Statement.operands addsToCell.toBody (.compound cellValue .add (.int 4 3)) =
      [] ++ (cellValue, .compoundTarget) :: [(.int 4 3, .read)] := rfl
  obtain ⟨before, after, hevents, -, hreports⟩ :=
    Context.reports_unassigned_index (c := Program.context ⟨cellTypes, [addsToCell]⟩ {} addsToCell)
      (List.nil_append _).symm hoperands (fun h ↦ by cases h) cellAccess_mem_parts
      (List.mem_singleton.2 rfl) rfl (by cbv) rfl
  refine hreports ?_
  have hfirst : before = [] := by
    have hall : (Program.context ⟨cellTypes, [addsToCell]⟩ {} addsToCell).events =
        [.check (.var 1 1), .check (.var 0 0)] := rfl
    rw [hall] at hevents
    rcases before with - | ⟨first, - | ⟨second, before⟩⟩
    · rfl
    · simp at hevents
    · simp at hevents
  subst hfirst
  rintro (⟨-, hsettled⟩ | ⟨hstruct, -, -⟩)
  · exact absurd (Context.mem_places_walk.2 hsettled) List.not_mem_nil
  · cases hstruct

/-- Assigning the value does not, although it stands at the position as well. -/
theorem assignsCell_unreported :
    ∃ p, (withCells (.assign (.field (.index (.path "c") (.path "i")) "value")
      (.int 3))).build = .ok p ∧ ∃ m ∈ p.methods, ∃ target value,
        m.statements = [.assign target value] ∧ cellAccess ∈ target.parts ∧
        (p.context {} m).isTracked 1 ∧ (p.context {} m).validate? = some [] := by
  refine ⟨⟨cellTypes, [changesCell (.assign cellValue (.int 4 3))]⟩, by cbv, _,
    List.mem_singleton.2 rfl, cellValue, .int 4 3, rfl, cellAccess_mem_parts, rfl, by cbv⟩

end InlineArrays
