import InlineArrays.Proofs.Machine.Entry
import InlineArrays.Proofs.Machine.Mirrored
import InlineArrays.Proofs.Scenario.Compiled

/-!
# Calling a method and entering it

A method whose code does not refer to its receiver, as that of a static method does not, does the
same when it is called as when a run starts in it.  A method that only returns what a call gives is
an activation of its own with cells of the heap for its parameters and its receiver, and a run that
starts in a method has such cells too; the method sees nothing of these.
-/

namespace InlineArrays

/-- The method only returns the value that a call without arguments gives. -/
def Body.Forwards (b : Body) (callee : String) : Prop :=
  b.returns = .value ∧
    ∃ id returns type, returns.isByRef = false ∧
      b.statements = [.ret (some (.call id callee returns type))]

/-- The code calls a method and returns what it gets. -/
structure Routine.Forwards (r : Routine) (callee : String) : Prop where
  returns : r.returns = .value
  valueCount : r.valueCount = 1
  code : ∃ note note', r.code = [.call note (some 0) callee [], .ret note' (some (.computed 0))]

open Context Emission in
theorem Context.routine_forwards {c : Context} {r : Routine} {callee : String}
    (h : c.routine = .ok r) (hforwards : c.method.Forwards callee) : r.Forwards callee := by
  obtain ⟨hreturns, id, returns, type, hvalue, hstatements⟩ := hforwards
  obtain ⟨s, hs, rfl⟩ := lowerBody_eq_ok (routine_eq_ok.1 h).2
  obtain ⟨⟨_, span⟩, hpair, rfl⟩ :=
    List.map_eq_singleton_iff.1 (c.map_fst_listed.trans hstatements)
  rw [hpair] at hs
  have hlower : c.lower .value (.call id callee returns type) = (do
      let dest ← freshValue
      emit (.call · (some dest) callee [])
      return .computed dest) := by
    rw [lower, callCode, hvalue, if_neg (by decide)]
    rfl
  have hlowered : c.lowerStatements [(.ret (some (.call id callee returns type)), span)] {} =
      .ok () { code := [.call ⟨some span, none⟩ (some 0) callee [],
                 .ret ⟨some span, none⟩ (some (.computed 0))]
               valueCount := 1, span := some span } := by
    rw [lowerStatements, lowerStatement, hreturns, if_neg (by decide), hlower]
    rfl
  rw [hlowered] at hs
  cases hs
  exact ⟨hreturns, rfl, _, _, rfl⟩

/-- The code neither takes the address of the slot of the receiver nor binds it. -/
def Routine.IgnoresReceiver (r : Routine) : Prop :=
  ∀ target ∈ r.receiver, ∀ i ∈ r.instrs, i.variable? ≠ some target

instance (r : Routine) : Decidable r.IgnoresReceiver :=
  inferInstanceAs (Decidable (∀ target ∈ r.receiver, ∀ i ∈ r.instrs, i.variable? ≠ some target))

theorem Body.kind_of_receiver? {b : Body} {v : VariableId} (h : b.receiver? = some v) :
    (b.var v).kind = .receiver := by
  obtain ⟨hv, hkind, -⟩ := Array.findIdx?_eq_some_iff_getElem.1 h
  rw [Body.var, Array.getElem?_eq_getElem hv]
  exact eq_of_beq hkind

/-- What a computation gives on a new machine. -/
def Run.outcome {α : Type} (act : Run α) : Except RuntimeError α :=
  match act {} with
  | .ok a _ => .ok a
  | .error e _ => .error e

theorem Program.outcome_run (p : Program) (routines : List Routine) (entry : String)
    (inputs : List (String × Data)) :
    (p.run routines entry inputs).outcome = ((Executable.link p routines).run entry inputs).outcome := by
  unfold Program.run Run.outcome
  cases (Executable.link p routines).run entry inputs {} <;> rfl

namespace Executable

open Run

variable {x : Executable} {m w : Method} {r forward : Routine} {callee entry : String}

/-! ## Runs without inputs -/

theorem entryArgument_yields (v : Variable) : (x.entryArgument [] v).Yields fun _ ↦ True := by
  have hvalue : (x.entryValue [] v.name v.type).Yields fun _ ↦ True := .pure trivial
  refine hvalue.bind fun value _ ↦ ?_
  split
  · split
    · exact Run.Yields.bind (.box fun _ ↦ trivial) fun _ _ ↦ .pure trivial
    · exact .pure trivial
  · exact .pure trivial

theorem entryReceiver?_yields_default : (x.entryReceiver? [] m).Yields fun _ ↦ True := by
  unfold entryReceiver?
  split
  · rename_i owner _
    have hvalue : (x.entryValue [] "this" owner.type).Yields fun _ ↦ True := .pure trivial
    exact (entryReceiver_yields hvalue).map fun _ _ ↦ trivial
  · exact .pure trivial

theorem shown_of_ok {v value : Value} {last : Memory} (hvoid : r.returns ≠ .void)
    (h : last.materialize v = .ok value) : shown r v last = .ok (some value) last := by
  rw [shown, if_neg hvoid, bind_eq (rfl : (get : Run Memory) last = .ok last last), h]
  rfl

theorem shown_of_error {v : Value} {e : RuntimeError} {last : Memory} (hvoid : r.returns ≠ .void)
    (h : last.materialize v = .error e) : shown r v last = .error e last := by
  rw [shown, if_neg hvoid, bind_eq (rfl : (get : Run Memory) last = .ok last last), h]
  rfl

/-- What a run shows of the call that it consists of. -/
def shownCall : EStateM.Result RuntimeError Memory Value → Except RuntimeError Execution
  | .ok v m => (m.materialize v).map fun shown ↦ ⟨some shown, m.output⟩
  | .error e _ => .error e

/-- A run is a call on memory in which there is nothing but what its arguments need. -/
theorem outcome_run {args : List Value} {receiver : Option Value} {mid start : Memory}
    (hfind : x.find? entry = some (m, r)) (hreturns : r.returns = .value)
    (hargs : (r.parameters.mapM fun id ↦ x.entryArgument [] (m.var id)) {} = .ok args mid)
    (hreceiver : x.entryReceiver? [] m mid = .ok receiver start) (hframes : start.frames = []) :
    (x.run entry []).outcome =
      shownCall (x.invokeWithin leave maxCallDepth entry args receiver start) := by
  have hinvoke : x.invoke leave entry args receiver start =
      x.invokeWithin leave maxCallDepth entry args receiver start := by
    change x.invokeWithin leave (maxCallDepth - start.frames.length) entry args receiver start = _
    rw [hframes]
    rfl
  unfold outcome run runWith
  rw [hfind]
  dsimp only
  rw [bind_eq hargs, bind_eq hreceiver]
  cases hcall : x.invokeWithin leave maxCallDepth entry args receiver start with
  | error e last => rw [bind_error (hinvoke.trans hcall)]; rfl
  | ok v last =>
    have hvoid : r.returns ≠ .void := by rw [hreturns]; nofun
    rw [bind_eq (hinvoke.trans hcall), shownCall]
    cases hvalue : last.materialize v with
    | error e => rw [bind_error (shown_of_error hvoid hvalue)]; rfl
    | ok value => rw [bind_eq (shown_of_ok hvoid hvalue)]; rfl

/-! ## Methods that ignore their receiver -/

/-- A call of a routine on top of other memory, with a receiver. -/
def setting (r : Routine) (receiver : Option Value) (base : Memory) (numbered : base.NumbersFrames)
    (slack : Nat) : Setting where
  base
  numbered
  slack
  seen target := r.receiver ≠ some target
  given target v := if r.receiver = some target then receiver.getD v else v
  given_of_seen h _ := if_neg h

section

variable (hm : x.find? callee = some (m, r)) (hparameters : r.parameters = [])
  (hkind : ∀ target ∈ r.receiver, (m.var target).kind = .receiver) (hignores : r.IgnoresReceiver)
  (receiver : Option Value) {base : Memory} (numbered : base.NumbersFrames) (slack : Nat)

include hparameters hkind in
/-- The receiver makes a difference to its own slot only. -/
theorem slots_given :
    x.slots m r [] receiver = (x.slots m r [] none).map fun entry ↦
      (entry.1, (setting r receiver base numbered slack).slot 0 entry.1 entry.2) := by
  let S := setting r receiver base numbered slack
  have hdeclared : (x.declared m).map (fun entry ↦ (entry.1, S.slot 0 entry.1 entry.2)) =
      x.declared m := by
    refine (List.map_congr_left fun entry hentry ↦ congrArg (entry.1, ·) ?_).trans (List.map_id _)
    have hinitial := mem_declared hentry
    have hseen : S.seen entry.1 := by
      intro hreceiver
      rw [initial?, hkind _ hreceiver] at hinitial
      cases hinitial
    exact (Setting.slot_of_reaches (Setting.reaches_slot fun _ ↦ hseen) _).trans
      (shift_of_initial? hinitial)
  rw [slots_eq, slots_eq, hparameters]
  change _ = List.map (fun entry : VariableId × Value ↦ (entry.1, S.slot 0 entry.1 entry.2)) _
  cases hreceiver : r.receiver with
  | none => exact hdeclared.symm
  | some target =>
    have hvalue : S.slot 0 target (defaultValue x.types (m.var target).type) =
        receiver.getD (defaultValue x.types (m.var target).type) := by
      change (if r.receiver = some target then receiver.getD (Value.shift _ _) else _) = _
      rw [if_pos hreceiver, Value.defaultValue_shift]
    have hassigned := assign_map (S.slot 0) target (defaultValue x.types (m.var target).type)
      (x.declared m)
    rw [hdeclared, hvalue] at hassigned
    exact hassigned

theorem pushed_encloses {S : Setting} {slots : List (VariableId × Value)}
    (hslots : ∀ entry ∈ slots, S.discipline.Admits entry.2) : S.Encloses 1 (pushed r slots {}) where
  length := rfl
  started := Nat.one_pos
  inner := List.not_mem_nil
  heap := nofun
  frames := List.forall_mem_cons.2 ⟨Frame.within_pushed (m := {}) hslots _ rfl, nofun⟩

include hm hparameters hkind hignores

/-- By itself, a call of a method that ignores its receiver gives what it gives on top of other
memory with any receiver, and nothing leads to the slot of the receiver. -/
theorem invokeWithin_ignoring (room : Nat) :
    let S := setting r receiver base numbered slack
    let result := x.invokeWithin leave (room + slack + 1) callee [] none {}
    (∀ v last, result = .ok v last → S.discipline.Admits v ∧ S.Encloses 0 last) ∧
      (x.invokeWithin leave (room + 1) callee [] receiver base =
          moved S (Value.shift S.extent) result ∨
        0 < slack ∧ ∃ last, x.invokeWithin leave (room + 1) callee [] receiver base =
          .error .stackOverflow last) := by
  intro S result
  have hcount : ([] : List Value).length = r.parameters.length := by rw [hparameters]; rfl
  have hnone : ∀ v ∈ ([] : List Value), S.discipline.Admits v := nofun
  have hstart : S.Encloses 1 (pushed r (x.slots m r [] none) {}) :=
    pushed_encloses (Discipline.slots_admitted hnone nofun)
  have hkeeps (callee : String) (args : List Value) (hargs : ∀ v ∈ args, S.discipline.Admits v) :
      S.discipline.Respects 1 (x.invokeWithin leave (room + slack) callee args none)
        S.discipline.Admits :=
    Discipline.invokeWithin Setting.respects_leave _ callee hargs nofun
  have hseen (i) (hi : i ∈ Instr.flattenAll r.code) (target) (ht : target ∈ i.variable?) :
      S.seen target := fun hreceiver ↦ hignores target hreceiver i hi ht
  have hcode : S.discipline.Respects 1 (Instr.runAll x.types
      (fun callee args ↦ x.invokeWithin leave (room + slack) callee args none) 0 r.code)
      fun returned ↦ ∀ v ∈ returned, S.discipline.Admits v :=
    Discipline.code hkeeps (Setting.reaches_temp 0) r.code fun i hi target ht ↦
      Setting.reaches_slot fun _ ↦ hseen i hi target ht
  change (∀ v last, x.invokeWithin leave (room + slack + 1) callee [] none {} = .ok v last → _) ∧
    (_ = moved S _ (x.invokeWithin leave (room + slack + 1) callee [] none {}) ∨ _)
  have hslots : x.slots m r [] receiver = (x.slots m r [] none).map fun entry ↦
      (entry.1, S.slot 0 entry.1 entry.2) := slots_given hparameters hkind receiver numbered slack
  have hempty : S.view {} = base := Setting.view_empty
  rw [invokeWithin_succ hm hcount, invokeWithin_succ hm hcount, hslots, ← hempty]
  refine ⟨fun v last ↦ activate_encloses hstart hcode, ?_⟩
  exact activate_mirrors hstart hcode (.code hkeeps
    (fun callee _ hargs ↦ invokeWithin_mirrors room callee hargs) r.code
      fun i hi target ht _ ↦ hseen i hi target ht)

end

/-! ## The activation of a method that forwards -/

theorem runAll_forward_error {types : TypeTable} {invoke : String → List Value → Run Value}
    {frame : Nat} {note note' : Note} {m last : Memory} {e : RuntimeError}
    (h : invoke callee [] m = .error e last) :
    Instr.runAll types invoke frame
      [.call note (some 0) callee [], .ret note' (some (.computed 0))] m = .error e last := by
  have hargs : List.mapM operand [] m = .ok [] m := rfl
  have hcall : Instr.run types invoke frame (.call note (some 0) callee []) m = .error e last :=
    (bind_eq hargs).trans (bind_error h)
  exact bind_error hcall

theorem runAll_forward_ok {types : TypeTable} {invoke : String → List Value → Run Value}
    {frame : Nat} {note note' : Note} {m last : Memory} {v : Value} {f : Frame}
    {frames : List Frame} (h : invoke callee [] m = .ok v last) (hframes : last.frames = f :: frames)
    (hvalues : 0 < f.values.length) :
    Instr.runAll types invoke frame
      [.call note (some 0) callee [], .ret note' (some (.computed 0))] m =
        .ok (some v) { last with frames := f.define 0 v :: frames } := by
  let defined : Memory := { last with frames := f.define 0 v :: frames }
  have hargs : List.mapM operand [] m = .ok [] m := rfl
  have hdefine : Run.define 0 v last = .ok () defined := by
    change EStateM.Result.ok () (last.updateTop _) = _
    unfold Memory.updateTop
    rw [hframes]
  have hcall : Instr.run types invoke frame (.call note (some 0) callee []) m = .ok none defined :=
    (bind_eq hargs).trans <| (bind_eq h).trans <| (bind_eq hdefine).trans rfl
  have hread : operand (.computed 0) defined = .ok v defined := by
    refine operand_computed ?_
    change ((f.values.set 0 (some v))[0]?).join = some v
    rw [List.getElem?_set_self hvalues]
    rfl
  have hret : Instr.run types invoke frame (.ret note' (some (.computed 0))) defined =
      .ok (some v) defined := (bind_eq hread).trans rfl
  exact (bind_eq hcall).trans <| (bind_eq hret).trans rfl

section

variable (hw : x.find? entry = some (w, forward)) (hforward : forward.Forwards callee)
  {args : List Value} (hargs : args.length = forward.parameters.length) {receiver : Option Value}
  {room : Nat} {m last : Memory}
include hw hforward hargs

theorem invokeWithin_forward_error {e : RuntimeError}
    (h : x.invokeWithin leave room callee [] none
      (pushed forward (x.slots w forward args receiver) m) = .error e last) :
    x.invokeWithin leave (room + 1) entry args receiver m = .error e last.below := by
  obtain ⟨note, note', hcode⟩ := hforward.code
  rw [invokeWithin_succ hw hargs, activate_eq, hcode, runAll_forward_error h]

/-- What a call gives is returned, without the activation that it was called from. -/
theorem invokeWithin_forward_ok {v : Value}
    (h : x.invokeWithin leave room callee [] none
      (pushed forward (x.slots w forward args receiver) m) = .ok v last)
    (hframes : last.frames = (pushed forward (x.slots w forward args receiver) m).frames) :
    x.invokeWithin leave (room + 1) entry args receiver m =
      .ok v { last with frames := m.frames } := by
  obtain ⟨note, note', hcode⟩ := hforward.code
  have hvalues : 0 < (List.replicate forward.valueCount (none : Option Value)).length := by
    rw [hforward.valueCount, List.length_replicate]
    exact Nat.zero_lt_one
  rw [invokeWithin_succ hw hargs, activate_eq, hcode, runAll_forward_ok h hframes hvalues]
  rfl

end

/-! ## Runs -/

/-- On top of other memory, a result is shown as it is by itself. -/
theorem shownCall_moved {S : Setting} {result : EStateM.Result RuntimeError Memory Value}
    (houtput : S.base.output = [])
    (h : ∀ v last, result = .ok v last → S.discipline.Admits v ∧ S.Encloses 0 last) :
    shownCall (moved S (Value.shift S.extent) result) = shownCall result := by
  cases result with
  | error e last => rfl
  | ok v last =>
    obtain ⟨hv, hlast⟩ := h v last rfl
    have hshown : (S.view last).materialize (v.shift S.extent) = last.materialize v :=
      Setting.materialize_view (fun _ _ _ ↦ hlast.root_within) hv
    have hrecorded : (S.view last).output = last.output := by
      change S.base.output ++ last.output = _
      rw [houtput, List.nil_append]
    unfold moved shownCall
    dsimp only
    rw [hshown, hrecorded]

section

variable (hm : x.find? callee = some (m, r)) (hreturns : r.returns = .value)
  (hparameters : r.parameters = [])
  (hkind : ∀ target ∈ r.receiver, (m.var target).kind = .receiver) (hignores : r.IgnoresReceiver)
include hm hreturns hparameters hkind hignores

/-- A run that starts in a method that ignores its receiver shows what a call without one gives. -/
theorem outcome_run_ignoring : (x.run callee []).outcome =
    shownCall (x.invokeWithin leave maxCallDepth callee [] none {}) := by
  have hargs : (r.parameters.mapM fun id ↦ x.entryArgument [] (m.var id)) {} = .ok [] {} := by
    rw [hparameters]
    rfl
  obtain ⟨receiver, start, hreceiver, ⟨cells, rfl⟩, -⟩ :=
    entryReceiver?_yields_default (x := x) (m := m) {}
  obtain ⟨hencloses, hmoved⟩ := invokeWithin_ignoring hm hparameters hkind hignores receiver
    (nofun : Memory.NumbersFrames { heap := [] ++ cells }) 0 255
  rw [outcome_run hm hreturns hargs hreceiver rfl]
  exact (congrArg shownCall (hmoved.resolve_right fun h ↦ Nat.lt_irrefl 0 h.1)).trans
    (shownCall_moved rfl hencloses)

/-- If what forwards a call has room for it, then a run of it shows what a run of the method that is
called does. -/
theorem outcome_run_forward (hw : x.find? entry = some (w, forward))
    (hforward : forward.Forwards callee) :
    (x.run entry []).outcome = (x.run callee []).outcome ∨
      (x.run entry []).outcome = .error .stackOverflow := by
  obtain ⟨args, mid, hargs, hmid, hlength⟩ :=
    (Run.Yields.mapM fun id (_ : id ∈ forward.parameters) ↦
      entryArgument_yields (x := x) (w.var id)) {}
  obtain ⟨receiver, start, hreceiver, hstart, -⟩ := entryReceiver?_yields_default (x := x) (m := w) mid
  obtain ⟨cells, hcells⟩ := hmid.trans hstart
  have hframes : start.frames = [] := congrArg Memory.frames hcells
  have houtput : start.output = [] := congrArg Memory.output hcells
  have hcount : args.length = forward.parameters.length := hlength.length_eq.symm
  rw [outcome_run hw hforward.returns hargs hreceiver hframes,
    outcome_run_ignoring hm hreturns hparameters hkind hignores]
  -- The call runs on top of the activation that forwards it, with room for one activation less.
  let base := pushed forward (x.slots w forward args receiver) start
  have hbase : base.NumbersFrames := by
    refine Memory.NumbersFrames.pushed (fun f hf ↦ ?_) forward _
    rw [hframes] at hf
    cases hf
  obtain ⟨-, hmoved⟩ := invokeWithin_ignoring hm hparameters hkind hignores none hbase 1 254
  rcases hmoved with hsame | ⟨-, last, hover⟩
  · left
    -- When it has returned, the activation that forwards it is not below it any more.
    obtain ⟨hencloses, -⟩ := invokeWithin_ignoring hm hparameters hkind hignores none hbase.below 1 254
    change shownCall (x.invokeWithin leave (255 + 1) entry args receiver start) =
      shownCall (x.invokeWithin leave (254 + 1 + 1) callee [] none {})
    rw [← shownCall_moved houtput hencloses]
    cases hrun : x.invokeWithin leave (254 + 1 + 1) callee [] none {} with
    | error e last =>
      rw [hrun] at hsame
      rw [invokeWithin_forward_error hw hforward hcount hsame]
      rfl
    | ok v last =>
      rw [hrun] at hsame
      obtain ⟨-, hlast⟩ := hencloses v last hrun
      have hempty : last.frames = [] :=
        List.eq_nil_of_length_eq_zero (last.length_ids.symm.trans hlast.length)
      rw [invokeWithin_forward_ok hw hforward hcount hsame]
      · unfold moved Setting.view
        dsimp only
        rw [hempty]
        rfl
      · change last.frames.map _ ++ base.frames = _
        rw [hempty]
        rfl
  · right
    change shownCall (x.invokeWithin leave (255 + 1) entry args receiver start) = _
    rw [invokeWithin_forward_error hw hforward hcount hover]
    rfl

end

end Executable

/-! ## Compiled programs -/

/-- A method without parameters whose code does not refer to its receiver gives the same result and
the same output, or fails with the same error, whether a run starts in it or in a method that only
returns what a call of it gives, as long as the calls do not nest too deep. -/
theorem Program.run_forward {p : Program} {members : MemberTable} {m w : Method}
    {r forward : Routine} (hnodup : (p.methods.map (·.name)).Nodup) (hm : m ∈ p.methods)
    (hr : (p.context members m).routine = .ok r) (hignores : r.IgnoresReceiver)
    (hparameters : r.parameters = []) (hreturns : m.returns = .value) (hw : w ∈ p.methods)
    (hforward : (p.context members w).routine = .ok forward) (hforwards : w.Forwards m.name)
    (hroom : (p.run (p.routines members) w.name []).outcome ≠ .error .stackOverflow) :
    (p.run (p.routines members) w.name []).outcome =
      (p.run (p.routines members) m.name []).outcome := by
  obtain ⟨hvalue, hkind⟩ : r.returns = .value ∧
      ∀ target ∈ r.receiver, (m.var target).kind = .receiver := by
    obtain ⟨s, -, rfl⟩ := Context.lowerBody_eq_ok (Context.routine_eq_ok.1 hr).2
    exact ⟨hreturns, fun _ ↦ Body.kind_of_receiver?⟩
  rw [Program.outcome_run] at hroom ⊢
  rw [Program.outcome_run]
  exact (Executable.outcome_run_forward (Executable.find?_link hnodup hm hr) hvalue hparameters hkind
    hignores (Executable.find?_link hnodup hw hforward)
    (Context.routine_forwards hforward hforwards)).resolve_right hroom

/-- A run of a method that only returns what another one gives, which is as given. -/
def returnsFirst (first : MethodDecl) : Scenario where
  options := { run := true }
  arrays := []
  structs := [⟨"Row", .value, [⟨"x", "int", false⟩]⟩]
  methods :=
    [{ name := "Main", returns := .value, returnType := some "int", owner := none, parameters := []
       locals := [], body := [.ret (some (.call "First" .value "int"))] }, first]
  inputs := []
  expect := none

/-- Records a call and returns a local, whatever it is called on. -/
def returnsLocal : MethodDecl where
  name := "First"
  returns := .value
  returnType := some "int"
  owner := some ⟨"Row", false, false⟩
  parameters := []
  locals := [⟨"x", "int", false⟩]
  body := [.assign (.path "x") (.int 5), .call "Log" [{ value := .path "x" }],
    .ret (some (.path "x"))]

/-- Returns a field of its receiver. -/
def returnsOwnField : MethodDecl :=
  { returnsLocal with
    locals := []
    body := [.ret (some (.field (.path "this") "x"))] }

/-- What a run shows. -/
def EntryRun.shown (run : EntryRun) : Except RuntimeError (Option String × List String) :=
  run.outcome.map fun execution ↦ (execution.result.map (·.text), execution.output)

theorem returnsLocal_forwarded :
    ∃ p, (returnsFirst returnsLocal).build = .ok p ∧
      (p.run (p.routines {}) "Main" []).outcome = (p.run (p.routines {}) "First" []).outcome ∧
      (p.run (p.routines {}) "Main" []).shown = .ok (some "5", ["Log(5)"]) := by
  have hfacts : (returnsFirst returnsLocal).build.toOption.map (fun p ↦
      (p.methods.map (fun m ↦
          (m.name, m.returns, (p.context {} m).routine.toOption.map fun r ↦
            (r.parameters, decide r.IgnoresReceiver))),
        p.methods.head?.map (·.statements), (p.run (p.routines {}) "Main" []).shown)) =
      some ([("Main", .value, some ([], true)), ("First", .value, some ([], true))],
        some [.ret (some (.call 0 "First" .value TypeTable.int))], .ok (some "5", ["Log(5)"])) := by
    cbv
  obtain ⟨p, hp, hfacts⟩ := Option.map_eq_some_iff.1 hfacts
  simp only [Prod.mk.injEq] at hfacts
  obtain ⟨hmethods, hstatements, hshown⟩ := hfacts
  obtain ⟨w, rest, hrest, hw, hmethods'⟩ := List.map_eq_cons_iff.1 hmethods
  obtain ⟨m, rest', rfl, hm, -⟩ := List.map_eq_cons_iff.1 hmethods'
  simp only [Prod.mk.injEq] at hw hm
  obtain ⟨hwname, hwreturns, hwroutine⟩ := hw
  obtain ⟨hname, hreturns, hroutine⟩ := hm
  obtain ⟨forward, hforward, -⟩ := Option.map_eq_some_iff.1 hwroutine
  obtain ⟨r, hr, hroutine⟩ := Option.map_eq_some_iff.1 hroutine
  simp only [Prod.mk.injEq, decide_eq_true_eq] at hroutine
  rw [hrest, List.head?_cons, Option.map_some, Option.some.injEq] at hstatements
  have hnodup : (p.methods.map (·.name)).Nodup := by
    have hnames := congrArg (List.map Prod.fst) hmethods
    rw [List.map_map] at hnames
    change p.methods.map (·.name) = ["Main", "First"] at hnames
    rw [hnames]
    decide
  have hroom : (p.run (p.routines {}) "Main" []).outcome ≠ .error .stackOverflow := by
    intro hover
    rw [EntryRun.shown, hover] at hshown
    cases hshown
  have hsame := Program.run_forward hnodup (by simp [hrest]) (Except.toOption_eq_some.1 hr)
    hroutine.2 hroutine.1 hreturns (w := w) (by simp [hrest]) (Except.toOption_eq_some.1 hforward)
    (hname.symm ▸ ⟨hwreturns, _, _, _, rfl, hstatements⟩) (hwname.symm ▸ hroom)
  rw [hwname, hname] at hsame
  exact ⟨p, Except.toOption_eq_some.1 hp, hsame, hshown⟩

/-- A struct that is not given is put in a box where a run starts in its method, but not where the
method is called. -/
theorem returnsOwnField_not_forwarded :
    ∃ p, (returnsFirst returnsOwnField).build = .ok p ∧
      (∃ w ∈ p.methods, w.name = "Main" ∧ w.owner = none ∧ w.Forwards "First") ∧
      (∃ m ∈ p.methods, m.name = "First" ∧ m.returns = .value ∧
        (p.context {} m).routine.toOption.map (·.parameters) = some []) ∧
      (p.run (p.routines {}) "First" []).shown = .ok (some "0", []) ∧
      (p.run (p.routines {}) "Main" []).outcome =
        .error (.typeMismatch "address or object" "struct") := by
  have hfacts : (returnsFirst returnsOwnField).build.toOption.map (fun p ↦
      (p.methods.map (fun m ↦
          (m.name, m.returns, m.owner.isNone, (p.context {} m).routine.toOption.map (·.parameters))),
        p.methods.head?.map (·.statements), (p.run (p.routines {}) "First" []).shown,
        (p.run (p.routines {}) "Main" []).outcome)) =
      some ([("Main", .value, true, some []), ("First", .value, false, some [])],
        some [.ret (some (.call 0 "First" .value TypeTable.int))], .ok (some "0", []),
        .error (.typeMismatch "address or object" "struct")) := by
    cbv
  obtain ⟨p, hp, hfacts⟩ := Option.map_eq_some_iff.1 hfacts
  simp only [Prod.mk.injEq] at hfacts
  obtain ⟨hmethods, hstatements, hentered, hcalled⟩ := hfacts
  obtain ⟨w, rest, hrest, hw, hmethods'⟩ := List.map_eq_cons_iff.1 hmethods
  obtain ⟨m, rest', rfl, hm, -⟩ := List.map_eq_cons_iff.1 hmethods'
  simp only [Prod.mk.injEq] at hw hm
  obtain ⟨hwname, hwreturns, howner, -⟩ := hw
  obtain ⟨hname, hreturns, -, hroutine⟩ := hm
  rw [hrest, List.head?_cons, Option.map_some, Option.some.injEq] at hstatements
  have hforwards : w.Forwards "First" := ⟨hwreturns, _, _, _, rfl, hstatements⟩
  exact ⟨p, Except.toOption_eq_some.1 hp,
    ⟨w, by simp [hrest], hwname, Option.isNone_iff_eq_none.1 howner, hforwards⟩,
    ⟨m, by simp [hrest], hname, hreturns, hroutine⟩, hentered, hcalled⟩

end InlineArrays
