import InlineArrays.Proofs.Machine.Steady

/-!
# The history of a machine

All that memory is while a machine executes code, calls methods and is run any number of times, in
order.  Each of these memories comes from the one before by a change that the stack of activations
allows, whether what is executed succeeds or fails.
-/

namespace InlineArrays

open Run (after)

namespace Run

variable {α β : Type}

/-- The memory that a computation leaves behind. -/
def leaves (act : Run α) (m : Memory) : List Memory := [act.after m]

/-- A computation passes through `passed`, and if it succeeds others follow. -/
def followed (act : Run α) (passed : Memory → List Memory) (next : α → Memory → List Memory)
    (m : Memory) : List Memory :=
  passed m ++
    match act m with
    | .ok a m' => next a m'
    | .error _ _ => []

end Run

section

variable (types : TypeTable) (invoke : String → List Value → Run Value)
  (called : String → List Value → Memory → List Memory) (frame : Nat)

mutual

/-- The memories that an instruction leads through, where a call leads through `called`. -/
def Instr.moments : Instr → Memory → List Memory
  | .call _ dest callee args =>
    Run.followed (args.mapM Run.operand) (fun _ ↦ []) fun args ↦
      Run.followed (invoke callee args) (called callee args) fun result ↦
        match dest with
        | some dest => Run.leaves (Run.define dest result)
        | none => fun _ ↦ []
  | .guard _ dest tested body result =>
    Run.followed (Run.operand tested) (fun _ ↦ []) fun v ↦
      if v.isNull then Run.leaves (Run.define dest .null)
      else Run.followed (Instr.runAll types invoke frame body) (Instr.momentsAll body) fun returned ↦
        match returned with
        | some _ => fun _ ↦ []
        | none =>
          Run.followed (Run.operand result) (fun _ ↦ []) fun v ↦ Run.leaves (Run.define dest v)
  | i => Run.leaves (i.run types invoke frame)
termination_by structural i => i

def Instr.momentsAll : List Instr → Memory → List Memory
  | [] => fun _ ↦ []
  | i :: code =>
    Run.followed (i.run types invoke frame) (Instr.moments i) fun returned ↦
      match returned with
      | some _ => fun _ ↦ []
      | none => Instr.momentsAll code
termination_by structural code => code

end

end

namespace Executable

/-- The memories that a call leads through, with room for so many activations. -/
def moments (x : Executable) (room : Nat) (callee : String) (args : List Value)
    (receiver : Option Value) : Memory → List Memory :=
  match x.find? callee with
  | none => Run.leaves (leave callee args)
  | some (m, r) =>
    if args.length ≠ r.parameters.length then fun _ ↦ []
    else
      match room with
      | 0 => fun _ ↦ []
      | room + 1 => fun start ↦
        let entered := pushed r (x.slots m r args receiver) start
        entered ::
          Instr.momentsAll x.types (fun callee args ↦ x.invokeWithin leave room callee args none)
            (fun callee args ↦ x.moments room callee args none) start.nextFrame r.code entered ++
          [(x.invokeWithin leave (room + 1) callee args receiver).after start]

/-- The memories that a run leads through. -/
def runMoments (x : Executable) (entry : String) (inputs : List (String × Data)) :
    Memory → List Memory :=
  match x.find? entry with
  | none => fun _ ↦ []
  | some (m, r) =>
    let arguments := r.parameters.mapM fun id ↦ x.entryArgument inputs (m.var id)
    Run.followed arguments (Run.leaves arguments) fun args ↦
      Run.followed (x.entryReceiver? inputs m) (Run.leaves (x.entryReceiver? inputs m)) fun receiver ↦
        Run.followed (x.invoke leave entry args receiver)
          (fun start ↦ x.moments (maxCallDepth - start.frames.length) entry args receiver start)
          fun returned ↦
            Run.followed (shown r returned) (fun _ ↦ []) fun _ ↦
              Run.leaves (modify fun m ↦ { m with output := [] } : Run Unit)

/-- An entry method and the inputs that it is run on. -/
abbrev Start := String × List (String × Data)

/-- What runs leave of memory, one after the other. -/
def session (x : Executable) (starts : List Start) (m : Memory) : Memory :=
  starts.foldl (fun m start ↦ (x.run start.1 start.2).after m) m

/-- All that memory is from `m` on while methods are run one after the other. -/
def history (x : Executable) : List Start → Memory → List Memory
  | [], m => [m]
  | start :: starts, m =>
    m :: x.runMoments start.1 start.2 m ++ x.history starts ((x.run start.1 start.2).after m)

end Executable

namespace Run

variable {α β : Type} {act : Run α} {f : α → Run β}

/-! ## Computations and what they lead through -/

/-- Where there are `depth` activations, a computation leads through these memories to the one that
it leaves behind, with the same activations. -/
def Traces (depth : Nat) (act : Run α) (passed : Memory → List Memory) : Prop :=
  ∀ m, m.frames.length = depth → m.Leads (passed m) (act.after m) ∧ (act.after m).ids = m.ids

namespace Traces

variable {depth : Nat} {passed : Memory → List Memory} {next : α → Memory → List Memory}

theorem quiet (h : Quiet act) : Traces depth act fun _ ↦ [] := by
  intro m _
  rw [h m]
  exact ⟨.nil m, rfl⟩

theorem leaves (h : Steady act) : Traces depth act act.leaves := fun m _ ↦
  ⟨.single (.stays (h m).1 (h m).2), (h m).1⟩

theorem followed (hact : Traces depth act passed) (hf : ∀ a, Traces depth (f a) (next a)) :
    Traces depth (act >>= f) (act.followed passed next) := by
  intro m hm
  obtain ⟨hleads, hids⟩ := hact m hm
  rw [after_bind]
  unfold Run.followed
  unfold Run.after at hleads hids
  cases hrun : act m with
  | ok a m' =>
    rw [hrun] at hleads hids
    have hm' : m'.frames.length = depth := by rw [← m'.length_ids, hids, m.length_ids, hm]
    obtain ⟨hnext, hids'⟩ := hf a m' hm'
    exact ⟨hleads.append hnext, hids'.trans hids⟩
  | error e m' =>
    rw [hrun] at hleads hids
    rw [List.append_nil]
    exact ⟨hleads, hids⟩

/-- Yielding something is not a change. -/
theorem yields (hact : Traces depth act passed) {g : α → β} :
    Traces depth (act >>= fun a ↦ Pure.pure (g a)) passed := by
  intro m hm
  have hafter : (act >>= fun a ↦ Pure.pure (g a)).after m = act.after m := by
    rw [after_bind]
    unfold Run.after
    cases act m <;> rfl
  rw [hafter]
  exact hact m hm

end Traces

end Run

section

open Run

variable {types : TypeTable} {invoke : String → List Value → Run Value}
  {called : String → List Value → Memory → List Memory} {frame depth : Nat}

mutual

/-- An instruction leads through its moments if calls do. -/
theorem Instr.traces (hcalled : ∀ callee args, Traces depth (invoke callee args) (called callee args)) :
    (i : Instr) → Traces depth (i.run types invoke frame) (i.moments types invoke called frame)
  | .define _ dest op =>
    .leaves ((operation_quiet op).steady.bind fun v ↦
      (define_steady dest v).bind fun _ ↦ (Quiet.pure none).steady)
  | .store _ target value =>
    .leaves ((address_quiet target).steady.bind fun a ↦ (operand_quiet value).steady.bind fun v ↦
      (write_steady a v).bind fun _ ↦ (Quiet.pure none).steady)
  | .storeTemp _ temp value =>
    .leaves ((operand_quiet value).steady.bind fun v ↦
      (updateTop_steady (·.setTemp temp v) fun _ ↦ rfl).bind fun _ ↦ (Quiet.pure none).steady)
  | .bind _ target _ source =>
    .leaves ((address_quiet source).steady.bind fun a ↦
      (updateTop_steady (·.setSlot target (.address a)) fun _ ↦ rfl).bind fun _ ↦ (Quiet.pure none).steady)
  | .call _ dest callee args => by
    refine (Traces.quiet (.mapM operand_quiet args)).followed fun args ↦
      (hcalled callee args).followed fun result ↦ ?_
    cases dest with
    | none => exact .quiet (.pure none)
    | some dest => exact (Traces.leaves (define_steady dest result)).yields
  | .guard _ dest tested body result => by
    refine (Traces.quiet (operand_quiet tested)).followed fun v ↦ ?_
    split
    · exact (Traces.leaves (define_steady dest .null)).yields
    · refine (Instr.tracesAll hcalled body).followed fun returned ↦ ?_
      cases returned with
      | some value => exact .quiet (.pure _)
      | none =>
        exact (Traces.quiet (operand_quiet result)).followed fun v ↦
          (Traces.leaves (define_steady dest v)).yields
  | .ret _ none => .leaves (Quiet.pure _).steady
  | .ret _ (some value) => .leaves ((operand_quiet value).bind fun _ ↦ .pure _).steady

theorem Instr.tracesAll
    (hcalled : ∀ callee args, Traces depth (invoke callee args) (called callee args)) :
    (code : List Instr) → Traces depth (Instr.runAll types invoke frame code)
      (Instr.momentsAll types invoke called frame code)
  | [] => .quiet (.pure none)
  | i :: code => by
    refine (Instr.traces hcalled i).followed fun returned ↦ ?_
    cases returned with
    | some value => exact .quiet (.pure _)
    | none => exact Instr.tracesAll hcalled code

end

end

namespace Executable

open Run

variable (x : Executable)

/-- An activation leaves behind what its code does, without its frame. -/
theorem after_activate {r : Routine} {slots : List (VariableId × Value)}
    {body : Nat → Run (Option Value)} (m : Memory) :
    (activate r slots body).after m = ((body m.nextFrame).after (pushed r slots m)).below := by
  unfold activate pushed Run.after
  dsimp only
  cases body m.nextFrame _ <;> rfl

/-- A call leads through its moments as long as the room is what the stack leaves. -/
theorem traces_invokeWithin (room : Nat) (callee : String) (args : List Value)
    (receiver : Option Value) {depth : Nat} (hroom : depth + room = maxCallDepth) :
    Traces depth (x.invokeWithin leave room callee args receiver)
      (x.moments room callee args receiver) := by
  induction room generalizing callee args receiver depth with
  | zero =>
    unfold moments
    cases hfind : x.find? callee with
    | none =>
      rw [invokeWithin_host hfind]
      exact .leaves (leave_steady callee args)
    | some p =>
      dsimp only
      split
      · rename_i hcount
        rw [invokeWithin_argumentCount hfind hcount]
        exact .quiet (.throw _)
      · rename_i hcount
        rw [invokeWithin_zero hfind (not_not.1 hcount)]
        exact .quiet (.throw _)
  | succ room ih =>
    unfold moments
    cases hfind : x.find? callee with
    | none =>
      rw [invokeWithin_host hfind]
      exact .leaves (leave_steady callee args)
    | some p =>
      dsimp only
      split
      · rename_i hcount
        rw [invokeWithin_argumentCount hfind hcount]
        exact .quiet (.throw _)
      · rename_i hcount
        intro m hm
        have hcalled (callee : String) (args : List Value) :
            Traces (depth + 1) (x.invokeWithin leave room callee args none)
              (x.moments room callee args none) := ih callee args none (by omega)
        have hpush : m.Moves (pushed p.2 (x.slots p.1 p.2 args receiver) m) :=
          .push rfl (Nat.lt_succ_self _) (by omega)
        obtain ⟨hcode, hids⟩ := Instr.tracesAll hcalled p.2.code
          (pushed p.2 (x.slots p.1 p.2 args receiver) m) (congrArg (· + 1) hm)
        have hafter := @after_activate p.2 (x.slots p.1 p.2 args receiver)
          (fun frame ↦ Instr.runAll x.types
            (fun callee args ↦ x.invokeWithin leave room callee args none) frame p.2.code) m
        rw [← invokeWithin_succ hfind (not_not.1 hcount)] at hafter
        refine ⟨.cons hpush (hcode.append (.single ?_)),
          (x.invokeWithin_steady (room + 1) callee args receiver m).1⟩
        rw [hafter]
        exact .pop (Memory.ids_below _) (Nat.le_refl _)

theorem traces_invoke (callee : String) (args : List Value) (receiver : Option Value) {depth : Nat}
    (hdepth : depth ≤ maxCallDepth) :
    Traces depth (x.invoke leave callee args receiver) fun m ↦
      x.moments (maxCallDepth - m.frames.length) callee args receiver m := by
  intro m hm
  have hroom : depth + (maxCallDepth - m.frames.length) = maxCallDepth := by omega
  exact x.traces_invokeWithin (maxCallDepth - m.frames.length) callee args receiver hroom m hm

theorem traces_run (entry : String) (inputs : List (String × Data)) {depth : Nat}
    (hdepth : depth ≤ maxCallDepth) :
    Traces depth (x.run entry inputs) (x.runMoments entry inputs) := by
  unfold run runWith runMoments
  cases x.find? entry with
  | none => exact .quiet (.throw _)
  | some p =>
    have harguments : Steady (p.2.parameters.mapM fun id ↦ x.entryArgument inputs (p.1.var id)) :=
      Discipline.steady_of_stacking (fun D args ↦ ∀ v ∈ args, D.Admits v) fun _ _ ↦
        .mapM fun id _ ↦ Discipline.entryArgument (p.1.var id)
    have hreceiver : Steady (x.entryReceiver? inputs p.1) :=
      Discipline.steady_of_stacking (fun D receiver ↦ ∀ v ∈ receiver, D.Admits v) fun _ _ ↦
        Discipline.entryReceiver? p.1
    refine (Traces.leaves harguments).followed fun args ↦
      (Traces.leaves hreceiver).followed fun receiver ↦
        (x.traces_invoke entry args receiver hdepth).followed fun returned ↦
          (Traces.quiet (shown_quiet returned)).followed fun result m _ ↦ ?_
    exact ⟨.single (.stays rfl (Nat.le_refl _)), rfl⟩

theorem ids_session (starts : List Start) {m : Memory} (hm : m.frames.length ≤ maxCallDepth) :
    (x.session starts m).ids = m.ids := by
  induction starts generalizing m with
  | nil => rfl
  | cons start starts ih =>
    have hids : ((x.run start.1 start.2).after m).ids = m.ids :=
      (x.traces_run start.1 start.2 hm m rfl).2
    have hlength : ((x.run start.1 start.2).after m).frames.length ≤ maxCallDepth := by
      rw [← Memory.length_ids, hids, Memory.length_ids]
      exact hm
    exact (ih hlength).trans hids

/-- The history is a sequence of changes, the last of which leaves what the session leaves. -/
theorem history_leads (starts : List Start) {m : Memory} (hm : m.frames.length ≤ maxCallDepth) :
    ∃ moments, x.history starts m = m :: moments ∧ m.Leads moments (x.session starts m) := by
  induction starts generalizing m with
  | nil => exact ⟨[], rfl, .nil m⟩
  | cons start starts ih =>
    obtain ⟨hrun, hids⟩ := x.traces_run start.1 start.2 hm m rfl
    have hlength : ((x.run start.1 start.2).after m).frames.length ≤ maxCallDepth := by
      rw [← Memory.length_ids, hids, Memory.length_ids]
      exact hm
    obtain ⟨moments, hhistory, hrest⟩ := ih hlength
    refine ⟨_, congrArg (m :: x.runMoments start.1 start.2 m ++ ·) hhistory, ?_⟩
    exact hrun.append (.cons (.stays rfl (Nat.le_refl _)) hrest)

/-- However often methods are run, afterwards there are no activations.  Each call ends with the
activations that it began with.  At any time there are at most so many as calls may nest, with
numbers that grow to the top of the stack; a number that is gone from it never comes back, and from
then on nothing is found through an address with that number. -/
theorem activations_of_runs (x : Executable) (starts : List Start) :
    (x.session starts {}).frames = [] ∧
    (∀ callee args receiver m, ((x.invoke leave callee args receiver).after m).ids = m.ids) ∧
    (∀ m ∈ x.history starts {}, m.frames.length ≤ maxCallDepth ∧
      m.ids.Pairwise fun above below ↦ below < above) ∧
    ∀ i j k : Nat, i ≤ j → j ≤ k → ∀ m m' m'' : Memory, (x.history starts {})[i]? = some m →
      (x.history starts {})[j]? = some m' → (x.history starts {})[k]? = some m'' →
      ∀ id ∈ m.ids, id ∉ m'.ids →
        id ∉ m''.ids ∧ ∀ a : Address, a.root.InFrame id → m''.Dangles a := by
  have hstart : ({} : Memory).frames.length ≤ maxCallDepth := Nat.zero_le _
  obtain ⟨moments, hhistory, hleads⟩ := x.history_leads starts hstart
  have hstacked : ∀ m ∈ x.history starts {}, m.Stacked := by
    rw [hhistory]
    exact List.forall_mem_cons.2 ⟨.start, hleads.stacked .start⟩
  refine ⟨?_, fun callee args receiver m ↦ ?_, fun m hm ↦ ?_, ?_⟩
  · exact List.map_eq_nil_iff.1 (x.ids_session starts hstart)
  · exact (x.invoke_steady callee args receiver m).1
  · exact ⟨(hstacked m hm).bounded, (hstacked m hm).increasing⟩
  · intro i j k hij hjk m m' m'' hm hm' hm'' id hid hgone
    have hstack := hstacked m (List.mem_of_getElem? hm)
    rw [hhistory] at hm hm' hm''
    have hback : id ∉ m''.ids :=
      (hleads.precedes_of_le hij hm hm').not_mem (hleads.precedes_of_le hjk hm' hm'') hstack hid hgone
    exact ⟨hback, fun a ha ↦ Memory.dangles_of_not_mem ha hback⟩

/-- The numbers of activations go on from run to run. -/
example : ((bump.history [("Bump", []), ("Bump", [])] {}).map (·.ids)).eraseReps =
    [[], [0], [], [1], []] := by
  cbv

end Executable

end InlineArrays
