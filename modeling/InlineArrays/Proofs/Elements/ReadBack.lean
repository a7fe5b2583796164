import InlineArrays.Compilation
import InlineArrays.Proofs.Elements.Accepted
import InlineArrays.Proofs.Elements.Executed
import InlineArrays.Proofs.Machine.Entry
import InlineArrays.Proofs.Scenario.Arrays
import InlineArrays.Proofs.Scenario.Compiled
import InlineArrays.Proofs.Scenario.Names

/-!
# Reading back what was written

A method that writes integers to elements of inline arrays in a parameter, and then returns one of
them, is accepted, and a run of it returns what was last written to that element or else what was
given for it.
-/

namespace InlineArrays

namespace Context

variable {c : Context} {x : VariableId} {inputs : List (String × Data)}

/-! ## Starting the method -/

theorem mem_parameters {v : VariableId} :
    v ∈ c.parameters ↔ v < c.method.vars.size ∧ ∃ kind, (c.method.var v).kind = .parameter kind := by
  rw [parameters, List.mem_filter, List.mem_range]
  refine and_congr_right fun _ ↦ ?_
  cases (c.method.var v).kind <;> simp

theorem var_eq_getElem {b : Body} {v : VariableId} (hv : v < b.vars.size) : b.var v = b.vars[v] := by
  rw [Body.var, Array.getElem?_eq_getElem hv]
  rfl

/-- The receiver is the first variable, if there is one. -/
theorem receiver?_eq_some_iff (horderly : c.method.Orderly) {v : VariableId}
    (hv : v < c.method.vars.size) :
    c.method.receiver? = some v ↔ (c.method.var v).kind = .receiver := by
  rw [Body.receiver?, Array.findIdx?_eq_some_iff_getElem]
  constructor
  · rintro ⟨_, hkind, -⟩
    rw [var_eq_getElem hv]
    simpa using hkind
  · intro hkind
    obtain rfl := horderly.receiver v hv hkind
    rw [var_eq_getElem hv] at hkind
    exact ⟨hv, by simpa using hkind, fun j hj ↦ absurd hj (Nat.not_lt_zero j)⟩

/-- A parameter has an id of the body. -/
theorem IsStructByRef.lt_size (hx : c.IsStructByRef x) : x < c.method.vars.size := by
  refine Nat.lt_of_not_le fun hle ↦ ?_
  have hkind := hx.kind_eq
  rw [Body.var, Array.getElem?_eq_none hle] at hkind
  cases hkind

/-- Before the first statement the elements hold what the inputs give. -/
theorem holds_slots {X : Executable} (r : Routine) {args : List Value} (receiver : Option Value)
    {heap : List Value} (htypes : X.types = c.types) (hparameters : r.parameters = c.parameters)
    (hreceiver : r.receiver = c.method.receiver?) (horderly : c.method.Orderly)
    (hx : c.IsStructByRef x) (hlength : args.length = r.parameters.length)
    (hboxes : ∀ pair ∈ r.parameters.zip args, (c.method.var pair.1).kind = .parameter .ref →
      Value.Boxes X.types (c.method.var pair.1).type (valueAt? (c.method.var pair.1).name inputs)
        heap pair.2) :
    ∃ cell, Holds c x cell ⟨fun _ ↦ none, intAt (valueAt? (c.method.var x).name inputs)⟩
      ⟨X.slots c.method r args receiver, heap⟩ := by
  have hdeclared : ∀ v, v < c.method.vars.size →
      (lookup? v (X.slots c.method r args receiver)).isSome := by
    intro v hv
    refine Executable.lookup?_slots hlength (fun v kind hv hkind ↦ ?_) (fun v hv hkind ↦ ?_) hv
    · exact hparameters ▸ mem_parameters.2 ⟨hv, kind, hkind⟩
    · exact hreceiver ▸ (receiver?_eq_some_iff horderly hv).2 hkind
  have hall : ∀ entry ∈ X.slots c.method r args receiver, entry.1 = x →
      Value.Boxes c.types (c.method.var x).type (valueAt? (c.method.var x).name inputs) heap
        entry.2 := by
    refine Executable.slots_forall (P := fun v value ↦ v = x → Value.Boxes c.types
      (c.method.var x).type (valueAt? (c.method.var x).name inputs) heap value) ?_ ?_ ?_ ?_
    · rintro v hkind rfl
      rw [hx.kind_eq] at hkind
      cases hkind
    · rintro v readonly hkind rfl
      rw [hx.kind_eq] at hkind
      cases hkind
    · rintro pair hpair rfl
      exact htypes ▸ hboxes pair hpair hx.kind_eq
    · rintro v hv rfl
      rw [hreceiver, receiver?_eq_some_iff horderly hx.lt_size, hx.kind_eq] at hv
      cases hv
  obtain ⟨boxed, hboxed⟩ := Option.isSome_iff_exists.1 (hdeclared x hx.lt_size)
  obtain ⟨cell, value, rfl, hcell, hmatches⟩ := hall _ (lookup?_mem hboxed) rfl
  exact ⟨cell, hboxed, hdeclared, nofun, value, hcell, hmatches⟩

/-! ## Running the method -/

/-- The code of a tracked method returns what tracking says the element holds. -/
theorem Holds.exists_routine {cell : Nat} {view : View} {first last : Tracking}
    {body : List Statement} {value : Expr} {path : List Step} (hc : c.Analysed x)
    (htypes : c.types.LengthsFit) (hbody : c.TracksBody x first body value last path)
    (horderly : c.method.Orderly) (hdistinct : c.method.Distinct)
    (hreturns : c.method.returns = .value) (h : Holds c x cell first view)
    (hfirst : Tracking.Sound c x first) :
    ∃ r, c.routine = .ok r ∧ r.parameters = c.parameters ∧ r.receiver = c.method.receiver? ∧
      r.returns = .value ∧ ∀ (A : Activation) m, A.valueCount = r.valueCount →
        A.tempCount = r.tempCount → A.Sees view m →
          ∃ m', A.run r.code m = .ok (some (.int (last.held path))) m' := by
  obtain ⟨view', hruns⟩ :=
    h.returns_statements hc htypes hbody horderly hfirst c.map_fst_listed hreturns
  obtain ⟨⟨⟩, t, code, hlower, -⟩ :=
    hruns ⟨c.types, fun _ _ ↦ pure .unit, 0, 0, 0⟩ [] {} nofun
  have hroutine : c.routine = .ok
      { name := c.method.name, parameters := c.parameters, receiver := c.method.receiver?
        returns := c.method.returns, code := t.code, valueCount := t.valueCount
        tempCount := t.tempCount } := by
    unfold routine lowerBody
    rw [hbody.validate?_eq hc hfirst horderly hdistinct hreturns, hlower]
  refine ⟨_, hroutine, rfl, rfl, hreturns, fun A m hvalues htemps hsees ↦ ?_⟩
  obtain ⟨⟨⟩, t', code', hlower', hgrows, -, hrun⟩ := hruns A [] {} nofun
  rw [hlower] at hlower'
  cases hlower'
  obtain ⟨m', hm', -⟩ := hrun (Nat.le_of_eq hvalues.symm) (Nat.le_of_eq htemps.symm) m hsees nofun
  have hcode : t.code = code' := hgrows.code_eq
  exact ⟨m', hcode ▸ hm'⟩

end Context

/-! ## Scenarios -/

namespace Method

variable {types : TypeTable} {m : Method} {inputs : List (String × Data)}

theorem takes_parameter (h : m.takes types inputs = true) {v : VariableId} {kind : ParameterKind}
    (hv : v < m.vars.size) (hkind : (m.var v).kind = .parameter kind) :
    (valueAt? (m.var v).name inputs).all (·.fits types (m.var v).type) = true := by
  have hvars := List.all_eq_true.1 (Bool.and_eq_true_iff.1 h).1 (m.var v)
    (by rw [Context.var_eq_getElem hv]; simp)
  rwa [hkind] at hvars

theorem takes_receiver (h : m.takes types inputs = true) :
    (m.owner.all fun owner ↦ (valueAt? "this" inputs).all (·.fits types owner.type)) = true :=
  (Bool.and_eq_true_iff.1 h).2

end Method

/-- What the analysis of a method of a built program has to go on. -/
theorem Scenario.build_analysed {s : Scenario} {p : Program} {members : MemberTable} {m : Method}
    {x : VariableId} {first last : Tracking} {body : List Statement} {value : Expr}
    {path : List Step} (hbuild : s.build = .ok p) (hm : m ∈ p.methods)
    (hmembers : ∀ member, members.provides member = true)
    (hx : (p.context members m).IsStructByRef x)
    (hbody : (p.context members m).TracksBody x first body value last path) :
    (p.context members m).Analysed x where
  wellFormed := build_wellFormed hbuild
  parameter := hx
  variable_lt := hx.lt_size
  exprs_pos := by
    have horderly := (build_orderly hbuild).1 m hm
    have hret : .ret (some value) ∈ m.statements := by
      rw [show m.statements = _ from hbody.statements_eq]
      exact List.mem_append_right _ (List.mem_singleton_self _)
    have hrecords := horderly.exprs _ hret value (by simp [Statement.exprs])
    exact Nat.zero_lt_of_lt (Array.getElem?_eq_some_iff.1 hrecords).1
  provides := hmembers

/-- A tracked method is lowered, and a run that starts in it returns what tracking says. -/
theorem Scenario.build_run {s : Scenario} {p : Program} {members : MemberTable} {m : Method}
    {x : VariableId} {inputs : List (String × Data)} {last : Tracking} {body : List Statement}
    {value : Expr} {path : List Step} (hbuild : s.build = .ok p)
    (hlengths : ∀ d ∈ s.arrays, d.length < 2 ^ 63) (hm : m ∈ p.methods)
    (hc : (p.context members m).Analysed x) (hreturns : m.returns = .value)
    (hinputs : m.takes p.types inputs = true)
    (hbody : (p.context members m).TracksBody x
      ⟨fun _ ↦ none, intAt (valueAt? (m.var x).name inputs)⟩ body value last path) :
    ∃ r, (p.context members m).routine = .ok r ∧ ∃ execution,
      p.run (p.routines members) m.name inputs = ⟨m.name, .ok execution⟩ ∧
        execution.result = some (.int (last.held path)) := by
  have horderly : (p.context members m).method.Orderly := (build_orderly hbuild).1 m hm
  have hfinite : p.types.FinitePaths := build_finitePaths hbuild
  generalize hX : Executable.link p (p.routines members) = X
  have htypes : X.types = p.types := hX ▸ rfl
  rw [← htypes] at hfinite hinputs
  have hfits : ∀ id ∈ (p.context members m).parameters,
      (valueAt? (m.var id).name inputs).all (·.fits X.types (m.var id).type) = true := by
    intro id hid
    obtain ⟨hlt, kind, hkind⟩ := Context.mem_parameters.1 hid
    exact Method.takes_parameter hinputs hlt hkind
  -- Arguments and receiver do not depend on the code, so what is seen first is known before there is any.
  obtain ⟨args, afterArgs, hargs, hextends, hlength, hboxes⟩ :=
    Executable.entryArguments_eq_ok hfinite hfits {}
  obtain ⟨receiver, start, hreceiver, hextends', -⟩ :=
    Executable.entryReceiver?_yields hfinite (Method.takes_receiver hinputs) afterArgs
  have hframes : start.frames = [] := by
    obtain ⟨more, rfl⟩ := hextends.trans hextends'
    rfl
  have hboxes' : ∀ pair ∈ (p.context members m).parameters.zip args,
      (m.var pair.1).kind = .parameter .ref → Value.Boxes X.types (m.var pair.1).type
        (valueAt? (m.var pair.1).name inputs) start.heap pair.2 :=
    fun pair hpair hkind ↦ (hboxes pair hpair hkind).extends hextends'
  obtain ⟨entry, hentry, hentry'⟩ : ∃ entry : Routine,
      entry.parameters = (p.context members m).parameters ∧ entry.receiver = m.receiver? :=
    ⟨{ name := m.name, parameters := (p.context members m).parameters, receiver := m.receiver? },
      rfl, rfl⟩
  rw [← hentry] at hlength hboxes'
  obtain ⟨cell, hholds⟩ := Context.holds_slots entry receiver htypes hentry hentry' horderly
    hc.parameter hlength hboxes'
  obtain ⟨r, hroutine, hparameters, hthis, hvalue, hcode⟩ := hholds.exists_routine hc
    (build_lengthsFit hbuild hlengths) hbody horderly (build_distinct hbuild m hm) hreturns nofun
  have hfind : X.find? m.name = some (m, r) :=
    hX ▸ Executable.find?_link (build_orderly hbuild).2 hm hroutine
  have hslots : X.slots (p.context members m).method entry args receiver =
      X.slots m r args receiver := by
    unfold Executable.slots
    rw [hentry, hentry', hparameters, hthis]
    rfl
  rw [hslots] at hcode
  obtain ⟨after, hafter⟩ := hcode _ _ rfl rfl (Executable.sees_pushed (x := X)
    fun callee args ↦ X.invokeWithin Executable.leave (maxCallDepth - 1) callee args none)
  rw [hentry] at hlength
  rw [← hparameters] at hargs hlength
  have hshown : r.returns ≠ .void := by
    rw [hvalue]
    nofun
  obtain ⟨execution, mem, hrun, hresult⟩ :=
    Executable.run_eq_ok hfind hargs hreceiver hlength hframes hshown hafter
  refine ⟨r, hroutine, execution, ?_, hresult⟩
  rw [Program.run, hX, hrun]

/-- A method of a scenario that writes literals to elements of inline arrays in a plain struct passed by
reference, and then returns one of these elements, is accepted and lowered.  A run that starts in it, on
inputs that fit, returns what was last written to that element or else what the inputs give for it.
Lengths are bounded as the integers are that a scenario is written with. -/
theorem Scenario.compile_readBack {s : Scenario} {p : Program} {options : Options}
    {members : MemberTable} {m : Method} {x : VariableId} {n : Int64} (hbuild : s.build = .ok p)
    (hlengths : ∀ d ∈ s.arrays, d.length < 2 ^ 63) (hoptions : options.members = .ok members)
    (hmembers : ∀ member, members.provides member = true) (hrun : options.run = true)
    (hm : m ∈ p.methods) (hentry : options.start = m.name)
    (hx : (p.context members m).IsStructByRef x) (hreturns : m.returns = .value)
    (hinputs : m.takes p.types s.inputs = true)
    (hbody : (p.context members m).readBack? x
      ⟨fun _ ↦ none, intAt (valueAt? (m.var x).name s.inputs)⟩ m.statements = some n) :
    ∃ compilation, s.compile options = .ok compilation ∧
      (∃ outcome ∈ compilation.methods, outcome.method = m ∧ outcome.diagnostics = [] ∧
        ∃ r, outcome.routine = .ok r) ∧
      ∃ execution, compilation.run = some ⟨m.name, .ok execution⟩ ∧
        execution.result = some (.int n) := by
  obtain ⟨body, value, last, path, htracks, rfl⟩ := Context.exists_tracksBody hbody
  have hc := build_analysed hbuild hm hmembers hx htracks
  have haccepted : (p.context members m).validate? = some [] :=
    htracks.validate?_eq hc nofun ((build_orderly hbuild).1 m hm) (build_distinct hbuild m hm) hreturns
  obtain ⟨r, hroutine, execution, hresult, hvalue⟩ :=
    build_run hbuild hlengths hm hc hreturns hinputs htracks
  have hcompile : s.compile options = .ok
      ⟨p.methods.map (MethodOutcome.of p.types members),
        some (p.run (p.routines members) m.name s.inputs)⟩ := by
    unfold Scenario.compile
    rw [hoptions, hbuild, ← hentry]
    simp only [hrun, if_true]
    rfl
  refine ⟨_, hcompile, ⟨_, List.mem_map_of_mem hm, rfl, ?_, r, hroutine⟩, execution, ?_, hvalue⟩
  · exact congrArg (·.getD []) haccepted
  · rw [hresult]

/-- Writes to the cells of one row through a ref local, through a span and directly. -/
def writesRow : Scenario where
  options := { run := true }
  arrays := [⟨"Cells", "int", 4⟩, ⟨"Rows", "Row", 3⟩]
  structs := [⟨"Row", .value, [⟨"cells", "Cells", false⟩]⟩, ⟨"Grid", .value, [⟨"rows", "Rows", false⟩]⟩]
  methods :=
    [{ name := "Main", returns := .value, returnType := some "int", owner := none
       parameters := [⟨"g", .ref, "Grid", false⟩], locals := [⟨"s", "Span<int>", false⟩]
       body :=
        [.refLocal "r" false "Cells" (.field (.index (.field (.path "g") "rows") (.int 1)) "cells"),
          .assign (.path "s") (.index (.field (.index (.field (.path "g") "rows") (.fromEnd (.int 2))) "cells")
            (.range (some (.int 1)) (some (.int 3)))),
          .assign (.index (.path "r") (.fromEnd (.int 1))) (.int 5),
          .assign (.index (.path "s") (.int 0)) (.int 7),
          .assign (.index (.field (.index (.field (.path "g") "rows") (.int 0)) "cells") (.int 1)) (.int 9),
          .ret (some (.index (.path "r") (.int 1)))] }]
  inputs := [("g", .table [("rows", .list [.table [], .table [], .table []])])]
  expect := none

/-- What was written through the span is read through the ref local. -/
theorem writesRow_readBack :
    ∃ compilation, writesRow.compile writesRow.options = .ok compilation ∧
      ∃ execution, compilation.run = some ⟨"Main", .ok execution⟩ ∧
        execution.result = some (.int 7) := by
  have hfacts : writesRow.build.toOption.map (fun p ↦ p.methods.head?.map fun m ↦
      ((m.var 0).kind, (p.types.struct? (m.var 0).type).map (·.kind), m.returns, m.name,
        m.takes p.types writesRow.inputs, (p.context {} m).readBack? 0
          ⟨fun _ ↦ none, intAt (valueAt? (m.var 0).name writesRow.inputs)⟩ m.statements)) =
      some (some (.parameter .ref, some .value, .value, "Main", true, some 7)) := by cbv
  obtain ⟨p, hp, hfacts⟩ := Option.map_eq_some_iff.1 hfacts
  obtain ⟨m, hm, hfacts⟩ := Option.map_eq_some_iff.1 hfacts
  simp only [Prod.mk.injEq] at hfacts
  obtain ⟨hkind, hstruct, hreturns, hname, hinputs, hbody⟩ := hfacts
  have hlengths : ∀ d ∈ writesRow.arrays, d.length < 2 ^ 63 := by simp [writesRow]
  have hoptions : writesRow.options.members = .ok {} := rfl
  have hstart : writesRow.options.start = m.name := hname.symm
  obtain ⟨compilation, hcompile, -, hrun⟩ :=
    Scenario.compile_readBack (Except.toOption_eq_some.1 hp) hlengths hoptions (fun _ ↦ rfl) rfl
      (List.mem_of_mem_head? hm) hstart ⟨hkind, Option.map_eq_some_iff.1 hstruct⟩ hreturns hinputs
      hbody
  exact ⟨compilation, hcompile, hname ▸ hrun⟩

end InlineArrays
