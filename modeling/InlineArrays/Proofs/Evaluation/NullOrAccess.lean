import InlineArrays.Machine.Run
import InlineArrays.Proofs.Evaluation.Returned
import InlineArrays.Proofs.Scenario.Build

/-!
# Conditional access is null or access

Of two methods one returns a conditional access and the other the access itself, with the tested
receiver written out.  Run from one state, the first returns null where the receiver is null, and
otherwise both return one value or both fail.  They fail alike if the receiver has the shape of its
type: a copy that lacks parts may fail before an index out of range is noticed.
-/

namespace InlineArrays

open Context

/-! ## The methods -/

/-- Two methods over one table that differ in the expression that they return at last. -/
structure ReturnsInstead (c c' : Context) (before : List Statement) (x x' : Expr) : Prop where
  types : c'.types = c.types
  vars : c'.method.vars = c.method.vars
  owner : c'.method.owner = c.method.owner
  returns : c'.method.returns = c.method.returns
  statements : c.method.statements = before ++ [.ret (some x)]
  statements' : c'.method.statements = before ++ [.ret (some x')]

namespace ReturnsInstead

variable {c c' : Context} {before : List Statement} {x x' : Expr}
  (h : ReturnsInstead c c' before x x')
include h

theorem alongside : c.Alongside c' where
  types := h.types
  vars := h.vars
  owner := h.owner
  refLocalInit? v := by
    rw [Body.refLocalInit?, Body.refLocalInit?, h.statements, h.statements', List.findSome?_append,
      List.findSome?_append]
    rfl
  firstAssignment? v := by
    rw [Body.firstAssignment?, Body.firstAssignment?, h.statements, h.statements',
      List.findSome?_append, List.findSome?_append]
    rfl

theorem mem : .ret (some x) ∈ c.method.statements := by simp [h.statements]

theorem mem' : .ret (some x') ∈ c'.method.statements := by simp [h.statements']

end ReturnsInstead

/-! ## The states -/

/-- An activation of a routine. -/
def Routine.activation (r : Routine) (types : TypeTable) (invoke : String → List Value → Run Value)
    (frame : Nat) : Activation := ⟨types, invoke, frame, r.valueCount, r.tempCount⟩

/-- The running activation is one of the routine. -/
def Routine.RunsIn (r : Routine) (frame : Nat) (m : Memory) : Prop :=
  ∃ f rest, m.frames = f :: rest ∧ f.id = frame ∧ f.values.length = r.valueCount ∧
    f.temps.length = r.tempCount

/-- One state of memory for activations of two routines that have the temporaries before `count` in
common.  Nothing that is stored leads to later temporaries of theirs. -/
structure SameState (r r' : Routine) (frame : Nat) (count : TempId) (m m' : Memory) : Prop where
  runs : r.RunsIn frame m
  runs' : r'.RunsIn frame m'
  root? : ∀ root : Root, root.Before frame count → m'.root? root = m.root? root
  closed : m.Closed (Root.Before frame count)

/-- Both runs return one value, or both fail, with one error where `fits` holds. -/
inductive EndAlike (fits : Prop) : EStateM.Result RuntimeError Memory (Option Value) →
    EStateM.Result RuntimeError Memory (Option Value) → Prop
  | returned (v : Value) (m m' : Memory) : EndAlike fits (.ok (some v) m) (.ok (some v) m')
  | failed {e e' : RuntimeError} (h : fits → e = e') (m m' : Memory) :
    EndAlike fits (.error e m) (.error e' m')

/-- A run that returns a result, or fails with its error. -/
def ending (result : Except RuntimeError Value) (m : Memory) :
    EStateM.Result RuntimeError Memory (Option Value) :=
  match result with
  | .ok v => .ok (some v) m
  | .error e => .error e m

theorem Agree.endAlike {fits : Prop} {x y : Except RuntimeError Value} (h : Agree fits x y)
    (m m' : Memory) : EndAlike fits (ending x m) (ending y m') := by
  cases h with
  | ok v => exact .returned v m m'
  | error h => exact .failed h m m'

theorem Routine.RunsIn.sees {r : Routine} {frame : Nat} {m : Memory} (h : r.RunsIn frame m)
    (types : TypeTable) (invoke : String → List Value → Run Value) :
    ∃ view, (r.activation types invoke frame).Sees view m := by
  obtain ⟨f, rest, hframes, hid, hvalues, htemps⟩ := h
  exact ⟨⟨f.slots, m.heap⟩, f, rest, hframes, hid, rfl, hvalues, htemps, rfl⟩

namespace Activation

variable {A : Activation} {c : Context} {σ : Situation} {count : TempId} {r : Routine} {x : Expr}
  {m : Memory} {v : Value}

theorem run_ret {note : Note} {o : Operand} (h : m.operand? o = some v) :
    A.run [.ret note (some o)] m = .ok (some v) m := by
  have hret : Instr.run A.types A.invoke A.frame (.ret note (some o)) m = .ok (some v) m :=
    Run.operand_bind h
  exact Run.bind_eq hret

namespace Computes

variable {α β : Type} {act : Emit α} {R : Reading α β} {s t : Emission} {a : α} {code : List Instr}

/-- What is computed by the code that was emitted. -/
theorem run_of_ok {b : β} (h : A.Computes σ count [] act (.ok b) R) (hact : act s = .ok a t)
    (hgrows : s.Grows t code) (hvalues : t.valueCount ≤ A.valueCount)
    (htemps : t.tempCount ≤ A.tempCount) (hm : A.Ready σ count s m) :
    ∃ m' found, A.run code m = .ok none m' ∧ A.Extends σ.memory count m' ∧ m.Keeps s m' ∧
      R.Says found a b ∧ ∀ p ∈ found, m'.Has t p.1 p.2 := by
  obtain ⟨emitted, hemitted, hrun⟩ := h hact
  obtain rfl := hemitted.unique hgrows
  exact hrun hvalues htemps m hm (by simp)

theorem run_of_error {e : RuntimeError} (h : A.Computes σ count [] act (.error e) R)
    (hact : act s = .ok a t) (hgrows : s.Grows t code) (hvalues : t.valueCount ≤ A.valueCount)
    (htemps : t.tempCount ≤ A.tempCount) (hm : A.Ready σ count s m) :
    ∃ m', A.run code m = .error e m' := by
  obtain ⟨emitted, hemitted, hrun⟩ := h hact
  obtain rfl := hemitted.unique hgrows
  exact hrun hvalues htemps m hm (by simp)

/-- What a method returns is what the expression evaluates to. -/
theorem returns (h : A.Computes σ count [] (c.lower .value x) (c.valueOf σ x)
      (.value A.frame count)) (R : c.Returns x r) (hvalues : A.valueCount = r.valueCount)
    (htemps : A.tempCount = r.tempCount) (hm : A.Ready σ count R.start m) :
    ∃ m', A.run R.rest m = ending (c.valueOf σ x) m' := by
  have hvalues : R.last.valueCount ≤ A.valueCount := by rw [R.valueCount_eq, hvalues]
  have htemps : R.last.tempCount ≤ A.tempCount := by rw [R.tempCount_eq, htemps]
  cases hx : c.valueOf σ x with
  | error e =>
    rw [hx] at h
    obtain ⟨m', hfails⟩ := h.run_of_error R.lowered R.grows hvalues htemps hm
    exact ⟨m', run_append_error hfails⟩
  | ok v =>
    rw [hx] at h
    obtain ⟨m', found, hcode, -, -, ⟨hresult, -⟩, hfound⟩ :=
      h.run_of_ok R.lowered R.grows hvalues htemps hm
    exact ⟨m', (run_append hcode).trans (run_ret (hfound _ hresult).2)⟩

end Computes

/-- Where the tested receiver is null, the code of the access is not run, and null is returned. -/
theorem run_returning_null {e access : Expr} {s : Emission} {m₁ : Memory} (T : c.Tests e access s)
    (htested : A.run T.tested m = .ok none m₁) (hsees : ∃ view, A.Sees view m₁)
    (hreceiver : m₁.operand? T.receiver = some v) (hnull : v.isNull)
    (hvalues : T.mid.valueCount < A.valueCount) (note : Note) (body : List Instr) :
    A.run (T.returning note body) m =
      .ok (some .null) (m₁.updateTop (·.define T.mid.valueCount .null)) := by
  obtain ⟨view, hview⟩ := hsees
  obtain ⟨-, -, hdest⟩ := hview.define (s := T.mid) .null (Nat.le_refl _) hvalues
  calc A.run (T.returning note body) m
    _ = A.run ([T.guard body] ++ [.ret note (some (.computed T.mid.valueCount))]) m₁ :=
      run_append htested
    _ = A.run [.ret note (some (.computed T.mid.valueCount))] _ :=
      run_append (run_singleton (run_guard_null hreceiver hnull))
    _ = .ok (some .null) _ := run_ret hdest

end Activation

/-! ## Both evaluations -/

section

variable {c c' : Context} {before : List Statement} {e access x' : Expr} {id : ExprId} {r r' : Routine}

theorem Routine.RunsIn.ready {x : Expr} {frame : Nat} {count : TempId} {m : Memory} {σ : Situation}
    (h : r.RunsIn frame m) (R : c.Returns x r) (hcount : count ≤ R.start.tempCount)
    (hroot : ∀ root : Root, root.Before frame count → m.root? root = σ.memory.root? root)
    (types : TypeTable) (invoke : String → List Value → Run Value) :
    (r.activation types invoke frame).Ready σ count R.start m where
  sees := h.sees types invoke
  root? := hroot
  count_le := hcount
  receivers := by simp [R.unbound]

/-- In the access the receiver is remembered; the access with the receiver written out evaluates
alike. -/
theorem Replaces.agrees_written (hreplaces : Replaces e [(e, none)] access x') (halong : c.Alongside c')
    (hc : c.Regular) (hc' : c'.Regular) (he : SameChain e e) (hrecords : c.method.Records e)
    (haccess : c.Approves access) (hx' : c'.Approves x') {σ : Situation} {v : Value}
    (hv : c.valueOf σ e = .ok v) :
    Agree (c.types.Fits (c.typeOf e) v) (c.valueOf (σ.within e.id v) access) (c'.valueOf σ x') := by
  have hpair : Paired c c' (σ.within e.id v) σ := ⟨halong, hc, hc', rfl, rfl⟩
  have hholds : ReceiverPairs.Holds [(e, none)] c e (c.types.Fits (c.typeOf e) v) (σ.within e.id v) σ :=
    { bound := fun s s' h ↦ by cases List.mem_singleton.1 h
      written := fun _ ↦
        ⟨v, if_pos rfl, (he.valueOf_within hc hrecords e.id v).trans hv, fun h ↦ h⟩ }
  have htyped : ReceiverPairs.Typed [(e, none)] c c' := fun s s' h ↦ by
    cases List.mem_singleton.1 h
  exact (hreplaces.agrees hpair he hrecords htyped hholds haccess hx').value

/-- A conditional access has no address to return. -/
theorem Context.returns_of_conditional (h : c.routine = .ok r)
    (hmem : .ret (some (.conditional id e access)) ∈ c.method.statements) :
    c.method.returns.isByRef = false := by
  obtain ⟨s, o, t, hlower⟩ := (succeeds_of_lowerBody (routine_eq_ok.1 h).2 _ hmem).bind.1
  cases hreturns : c.method.returns.isByRef with
  | false => rfl
  | true =>
    rw [hreturns] at hlower
    cases hlower

/-- How the code that returns a conditional access ends, next to how the access itself does.  The
access is not run where the receiver is null: the guard may be around any other code. -/
inductive Context.Tests.NullOrAccess {s : Emission} (T : c.Tests e access s) (note : Note)
    (run : List Instr → Run (Option Value)) (m : Memory)
    (direct : EStateM.Result RuntimeError Memory (Option Value)) : Prop
  | fails {error : RuntimeError} {m₁ : Memory} (htested : run T.tested m = .error error m₁)
      (hends : run (T.returning note T.last.code) m = .error error m₁)
  | null {v : Value} {m₁ : Memory} (htested : run T.tested m = .ok none m₁)
      (hreceiver : m₁.operand? T.receiver = some v) (hnull : v.isNull)
      (hends : ∀ body, run (T.returning note body) m =
        .ok (some .null) (m₁.updateTop (·.define T.mid.valueCount .null)))
  | access {v : Value} {m₁ : Memory} (htested : run T.tested m = .ok none m₁)
      (hreceiver : m₁.operand? T.receiver = some v) (hnull : ¬ v.isNull)
      (hends : EndAlike (c.types.Fits (c.typeOf e) v) (run (T.returning note T.last.code) m) direct)

end

/-! ## A row from outside of the program -/

/-- Makes a row and returns one of its cells, at an index that is passed by reference. -/
def makesRow (cell : Term) : Scenario where
  options := {}
  arrays := [⟨"Buffer4", "int", 4⟩]
  structs := [⟨"Row", .value, [⟨"cells", "Buffer4", false⟩]⟩]
  methods :=
    [{ name := "Main", returns := .value, returnType := some "int", owner := none
       parameters := [⟨"i", .ref, "int", false⟩]
       locals := [⟨"x", "Row", true⟩]
       body := [.assign (.path "x") (.call "Make" .value "Row"), .ret (some cell)] }]
  inputs := []
  expect := none

def row : Expr := .var 2 1

/-- The cell of the receiver of a conditional access, and that of the row. -/
def cellOfReceiver : Expr :=
  .element 6 (.field 4 (.placeholder 3 row) "cells") [{ value := .var 5 0 }]

def cellOfRow : Expr := .element 5 (.field 3 row "cells") [{ value := .var 4 0 }]

def assignsRow : List Statement := [.assign (.var 0 1) (.call 1 "Make" .value 7)]

def bufferRowTypes : TypeTable :=
  ⟨[.struct ⟨"Row", .value, [⟨"cells", 8, false⟩]⟩, .array ⟨"Buffer4", TypeTable.int, 4⟩,
    .span TypeTable.int false, .span TypeTable.int true]⟩

/-- The method that returns `cell`, with what it records behind the row. -/
def makesRowMain (exprs : List Expr) (cell : Expr) : Context :=
  let body : Body :=
    { name := "Main", returns := .value, returnType := some TypeTable.int
      exprs := (.var 0 1 :: .call 1 "Make" .value 7 :: row :: exprs).toArray
      vars := #[{ name := "i", kind := .parameter .ref, type := TypeTable.int },
        { name := "x", kind := .stackLocal, type := 7 }]
      statements := assignsRow ++ [.ret (some cell)] }
  ⟨bufferRowTypes, {}, body.finish⟩

def guardedMain : Context :=
  makesRowMain [.placeholder 3 row, .field 4 (.placeholder 3 row) "cells", .var 5 0, cellOfReceiver,
    .conditional 7 row cellOfReceiver] (.conditional 7 row cellOfReceiver)

def directMain : Context := makesRowMain [.field 3 row "cells", .var 4 0, cellOfRow] cellOfRow

theorem build_guardedMain : (makesRow (.conditional (.path "x")
    (.index (.field .receiver "cells") (.path "i")))).build =
      .ok ⟨bufferRowTypes, [guardedMain.method]⟩ := by cbv

theorem build_directMain : (makesRow (.index (.field (.path "x") "cells") (.path "i"))).build =
    .ok ⟨bufferRowTypes, [directMain.method]⟩ := by cbv

theorem returnsInstead_makesRow :
    ReturnsInstead guardedMain directMain assignsRow (.conditional 7 row cellOfReceiver) cellOfRow :=
  ⟨rfl, rfl, rfl, rfl, rfl, rfl⟩

theorem replaces_cellOfReceiver : Replaces row [(row, none)] cellOfReceiver cellOfRow :=
  .element (.field (.written List.mem_cons_self .var)) .var

/-- An activation of `Main` with a row; the index of 9 is held by the heap, or looked for at
`index`. -/
def enteredMain (r : Routine) (row : Value) (index : Root := .heap 0) : Memory where
  frames :=
    [{ id := 0, slots := [(0, .address ⟨index, []⟩), (1, row)]
       temps := List.replicate r.tempCount .unit, values := List.replicate r.valueCount none }]
  heap := [.int 9]
  nextFrame := 1

/-- A row of four cells. -/
def fourCells : Value := .struct [("cells", .array (List.replicate 4 (.int 0)))]

theorem within_fourCells (P : Root → Prop) : fourCells.Within P := by
  simp [fourCells, Value.within_struct, Value.within_array]

theorem sameState_enteredMain (r r' : Routine) :
    SameState r r' 0 0 (enteredMain r fourCells) (enteredMain r' fourCells) where
  runs := ⟨_, _, rfl, rfl, List.length_replicate, List.length_replicate⟩
  runs' := ⟨_, _, rfl, rfl, List.length_replicate, List.length_replicate⟩
  root? root hroot := by
    cases root with
    | slot frame v =>
      by_cases hframe : 0 = frame <;>
        simp [Memory.root?, Memory.frame?, enteredMain, hframe, Frame.slot?]
    | heap cell => rfl
    | temp frame t =>
      have hframe : ¬ 0 = frame := fun h ↦ Nat.not_lt_zero t (hroot h.symm)
      simp [Memory.root?, Memory.frame?, enteredMain, hframe]
  closed root v _ hv := by
    cases root with
    | heap cell =>
      obtain rfl := List.mem_singleton.1 (List.mem_of_getElem? hv)
      exact Value.within_int 9
    | slot frame x =>
      obtain ⟨f, hf, hv⟩ := Option.bind_eq_some_iff.1 hv
      obtain rfl := List.mem_singleton.1 (List.mem_of_find?_eq_some hf)
      obtain ⟨entry, hentry, rfl⟩ := Option.map_eq_some_iff.1 hv
      rcases List.mem_pair.1 (List.mem_of_find?_eq_some hentry) with rfl | rfl
      · exact Value.within_address.2 trivial
      · exact within_fourCells _
    | temp frame t =>
      obtain ⟨f, hf, hv⟩ := Option.bind_eq_some_iff.1 hv
      obtain rfl := List.mem_singleton.1 (List.mem_of_find?_eq_some hf)
      obtain rfl := List.eq_of_mem_replicate (List.mem_of_getElem? hv)
      exact Value.within_unit

theorem validate_guardedMain : guardedMain.validate? = some [] := by decide +kernel

theorem validate_directMain : directMain.validate? = some [] := by decide +kernel

end InlineArrays
