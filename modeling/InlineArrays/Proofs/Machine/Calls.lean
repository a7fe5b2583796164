import InlineArrays.Machine.Run
import InlineArrays.Proofs.Machine.Triple

/-!
# Calls, case by case

What a call does depends on whether the program has a routine of the name, whether the arguments
are as many as its parameters, and whether there is room for another activation.
-/

namespace InlineArrays.Executable

variable {x : Executable} {host : Host} {callee : String} {args : List Value} {receiver : Option Value}
  {method : Method} {r : Routine}

theorem find?_mem {p : Method × Routine} (h : x.find? callee = some p) : p ∈ x.routines := by
  simpa using List.mem_of_find?_eq_some h

theorem invokeWithin_host (h : x.find? callee = none) (room : Nat) :
    x.invokeWithin host room callee args receiver = host callee args := by
  cases room <;> (unfold invokeWithin; rw [h])

theorem invokeWithin_argumentCount (h : x.find? callee = some (method, r))
    (hargs : args.length ≠ r.parameters.length) (room : Nat) :
    x.invokeWithin host room callee args receiver =
      throw (.argumentCount callee r.parameters.length args.length) := by
  cases room <;> (unfold invokeWithin; simp only [h, ne_eq, hargs, not_false_eq_true, if_true])

theorem invokeWithin_zero (h : x.find? callee = some (method, r))
    (hargs : args.length = r.parameters.length) :
    x.invokeWithin host 0 callee args receiver = throw .stackOverflow := by
  rw [invokeWithin]
  simp only [h, ne_eq, hargs, not_true, if_false]

theorem invokeWithin_succ (h : x.find? callee = some (method, r))
    (hargs : args.length = r.parameters.length) (room : Nat) :
    x.invokeWithin host (room + 1) callee args receiver =
      activate r (x.slots method r args receiver) fun frame ↦
        Instr.runAll x.types (fun callee args ↦ x.invokeWithin host room callee args none) frame
          r.code := by
  rw [invokeWithin]
  simp only [h, ne_eq, hargs, not_true, if_false]

/-- The memory in which the body of a routine starts. -/
def pushed (r : Routine) (slots : List (VariableId × Value)) (m : Memory) : Memory :=
  { m with
    frames :=
      { id := m.nextFrame, slots, temps := List.replicate r.tempCount .unit
        values := List.replicate r.valueCount none } :: m.frames
    nextFrame := m.nextFrame + 1 }

/-- An activation does what its body does, under the frame pushed for it. -/
theorem activate_triple {slots : List (VariableId × Value)} {body : Nat → Run (Option Value)}
    {pre : Memory → Prop} {post : Value → Memory → Prop} {fail : RuntimeError → Memory → Prop}
    (h : ∀ m, pre m →
      match body m.nextFrame (pushed r slots m) with
      | .ok returned m => post (returned.getD .unit) { m with frames := m.frames.tail }
      | .error e m => fail e { m with frames := m.frames.tail }) :
    Run.Triple pre (activate r slots body) post fail := by
  intro m hm
  have hbody := h m hm
  unfold pushed at hbody
  unfold activate
  dsimp only
  generalize body m.nextFrame _ = result at hbody ⊢
  cases result with
  | ok returned m' => exact hbody
  | error e m' => exact hbody

end InlineArrays.Executable
