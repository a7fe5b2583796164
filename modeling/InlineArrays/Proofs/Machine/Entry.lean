import InlineArrays.Proofs.Code.Realized
import InlineArrays.Proofs.Machine.Calls
import InlineArrays.Proofs.Machine.Inputs
import InlineArrays.Proofs.Machine.Slots

/-!
# Starting a run

On inputs that fit its parameters and its receiver a method is started: its parameters by reference
hold addresses of cells of the heap, in which there are the values that the inputs describe.
-/

namespace InlineArrays

/-- Whether what is given for the parameters and the receiver of a method fits their types. -/
def Method.takes (types : TypeTable) (m : Method) (inputs : List (String × Data)) : Bool :=
  (m.vars.toList.all fun v ↦
    match v.kind with
    | .parameter _ => (valueAt? v.name inputs).all (·.fits types v.type)
    | _ => true) &&
  m.owner.all fun owner ↦ (valueAt? "this" inputs).all (·.fits types owner.type)

/-- The address of a cell with a value that holds the integers that data gives. -/
def Value.Boxes (types : TypeTable) (type : TypeId) (data : Option Data) (heap : List Value)
    (v : Value) : Prop :=
  ∃ cell value, v = .address ⟨.heap cell, []⟩ ∧ heap[cell]? = some value ∧
    Matches types type data value

theorem Value.Boxes.extends {types : TypeTable} {type : TypeId} {data : Option Data} {v : Value}
    {m m' : Memory} (h : Boxes types type data m.heap v) (hextends : m.Extends m') :
    Boxes types type data m'.heap v := by
  obtain ⟨cell, value, rfl, hcell, hmatches⟩ := h
  refine ⟨cell, value, rfl, ?_, hmatches⟩
  rw [hextends.heap_of_lt (List.getElem?_eq_some_iff.1 hcell).1, hcell]

namespace Executable

variable {x : Executable} {inputs : List (String × Data)} {m : Method} {r : Routine}

/-- The receiver of a run is the object that the inputs give, or a new one, or in a box. -/
theorem entryReceiver_yields {owner : Owner} {P : Value → Prop}
    (h : (x.entryValue inputs "this" owner.type).Yields P) :
    (x.entryReceiver inputs owner).Yields fun _ ↦ True := by
  refine h.bind fun value _ ↦ ?_
  split
  · split
    · exact .allocateObject fun _ ↦ trivial
    · exact .pure trivial
  · exact Run.Yields.bind (.box fun _ ↦ trivial) fun base _ ↦ .pure trivial

section

variable (htypes : x.types.FinitePaths)
include htypes

theorem entryValue_yields {name : String} {type : TypeId}
    (h : (valueAt? name inputs).all (·.fits x.types type) = true) :
    (x.entryValue inputs name type).Yields
      (Value.Matches x.types type (valueAt? name inputs)) := by
  unfold entryValue
  cases hdata : valueAt? name inputs with
  | none => exact .pure (Value.matches_default htypes type)
  | some data =>
    rw [hdata] at h
    exact inputValue_yields name htypes type data h

/-- A parameter by reference is given a box. -/
theorem entryArgument_eq_ok {v : Variable}
    (h : (valueAt? v.name inputs).all (·.fits x.types v.type) = true) (start : Memory) :
    ∃ arg mem, x.entryArgument inputs v start = .ok arg mem ∧ start.Extends mem ∧
      (v.kind = .parameter .ref →
        Value.Boxes x.types v.type (valueAt? v.name inputs) mem.heap arg) := by
  obtain ⟨value, mem, hvalue, hextends, hmatches⟩ := entryValue_yields htypes h start
  have hplain : x.entryArgument inputs v start = _ := Run.bind_eq hvalue
  have hbox : (do return Value.address (← box value) : Run Value) mem =
      .ok (.address ⟨.heap mem.heap.length, []⟩) { mem with heap := mem.heap ++ [value] } := rfl
  have hboxes : Value.Boxes x.types v.type (valueAt? v.name inputs) (mem.heap ++ [value])
      (.address ⟨.heap mem.heap.length, []⟩) :=
    ⟨_, value, rfl, by simp, hmatches⟩
  rw [hplain]
  cases hkind : v.kind with
  | parameter kind =>
    dsimp only
    by_cases hbyRef : kind.isByRef = true
    · rw [if_pos hbyRef]
      exact ⟨_, _, hbox, hextends.trans ⟨[value], rfl⟩, fun _ ↦ hboxes⟩
    · rw [if_neg hbyRef]
      refine ⟨value, mem, rfl, hextends, fun href ↦ ?_⟩
      cases href
      exact absurd rfl hbyRef
  | stackLocal | refLocal | receiver => exact ⟨value, mem, rfl, hextends, nofun⟩

theorem entryArguments_eq_ok {l : List VariableId}
    (h : ∀ id ∈ l, (valueAt? (m.var id).name inputs).all (·.fits x.types (m.var id).type) = true)
    (start : Memory) :
    ∃ args mem, (l.mapM fun id ↦ x.entryArgument inputs (m.var id)) start = .ok args mem ∧
      start.Extends mem ∧ args.length = l.length ∧
        ∀ pair ∈ l.zip args, (m.var pair.1).kind = .parameter .ref →
          Value.Boxes x.types (m.var pair.1).type (valueAt? (m.var pair.1).name inputs) mem.heap
            pair.2 := by
  induction l generalizing start with
  | nil => exact ⟨[], start, rfl, .refl start, rfl, nofun⟩
  | cons id l ih =>
    obtain ⟨arg, mid, harg, hmid, hboxes⟩ :=
      entryArgument_eq_ok htypes (h id List.mem_cons_self) start
    obtain ⟨args, mem, hargs, hmem, hlength, hall⟩ :=
      ih (fun id hid ↦ h id (List.mem_cons_of_mem _ hid)) mid
    refine ⟨arg :: args, mem, ?_, hmid.trans hmem, by simp [hlength], ?_⟩
    · rw [List.mapM_cons, Run.bind_eq harg, Run.bind_eq hargs]
      rfl
    · intro pair hpair hkind
      rcases List.mem_cons.1 hpair with rfl | hpair
      · exact (hboxes hkind).extends hmem
      · exact hall pair hpair hkind

theorem entryReceiver?_yields
    (h : (m.owner.all fun owner ↦ (valueAt? "this" inputs).all (·.fits x.types owner.type)) = true) :
    (x.entryReceiver? inputs m).Yields fun _ ↦ True := by
  unfold entryReceiver?
  cases howner : m.owner with
  | none => exact .pure trivial
  | some owner =>
    rw [howner] at h
    have hreceiver : (x.entryReceiver inputs owner).Yields fun _ ↦ True :=
      entryReceiver_yields (entryValue_yields htypes h)
    exact hreceiver.map fun _ _ ↦ trivial

end

/-- The frame of a new activation sees its slots and the heap. -/
theorem sees_pushed {slots : List (VariableId × Value)} {mem : Memory}
    (invoke : String → List Value → Run Value) :
    (⟨x.types, invoke, mem.nextFrame, r.valueCount, r.tempCount⟩ : Activation).Sees
      ⟨slots, mem.heap⟩ (pushed r slots mem) :=
  ⟨_, _, rfl, rfl, rfl, by simp, by simp, rfl⟩

/-- A run shows the integer that the entry method returns. -/
theorem run_eq_ok {entry : String} {args : List Value} {receiver : Option Value} {n : Int64}
    {afterArgs start last : Memory} (hfind : x.find? entry = some (m, r))
    (hargs : (r.parameters.mapM fun id ↦ x.entryArgument inputs (m.var id)) {} = .ok args afterArgs)
    (hreceiver : x.entryReceiver? inputs m afterArgs = .ok receiver start)
    (hlength : args.length = r.parameters.length) (hframes : start.frames = [])
    (hreturns : r.returns ≠ .void)
    (hcode : Instr.runAll x.types
      (fun callee args ↦ x.invokeWithin leave (maxCallDepth - 1) callee args none) start.nextFrame
        r.code (pushed r (x.slots m r args receiver) start) = .ok (some (.int n)) last) :
    ∃ execution mem, x.run entry inputs {} = .ok execution mem ∧
      execution.result = some (.int n) := by
  have hinvoke : x.invoke leave entry args receiver start =
      .ok (.int n) { last with frames := last.frames.tail } := by
    have hroom : maxCallDepth - start.frames.length = maxCallDepth - 1 + 1 := by
      rw [hframes]
      rfl
    change x.invokeWithin leave (maxCallDepth - start.frames.length) entry args receiver start = _
    rw [hroom, invokeWithin_succ hfind hlength]
    unfold activate
    dsimp only
    unfold pushed at hcode
    rw [hcode]
    rfl
  have hshown : shown r (.int n) { last with frames := last.frames.tail } =
      .ok (some (.int n)) { last with frames := last.frames.tail } := by
    unfold shown
    rw [if_neg hreturns]
    rfl
  refine ⟨⟨some (.int n), last.output⟩, { last with frames := last.frames.tail, output := [] }, ?_, rfl⟩
  unfold run runWith
  rw [hfind]
  dsimp only
  rw [Run.bind_eq hargs, Run.bind_eq hreceiver, Run.bind_eq hinvoke, Run.bind_eq hshown]
  rfl

end Executable

end InlineArrays
