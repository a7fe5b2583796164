import InlineArrays.Proofs.Code.WellFormed
import InlineArrays.Proofs.Machine.Definedness
import Mathlib

/-!
# Values are defined before they are used

The code of a method defines each value it counts once, and before everything that depends on it; a
program of such code never stops at an undefined value.
-/

namespace InlineArrays

/-- What is promised of the code of a method: each value is defined exactly once, everything is read
in scope, nothing outside of a guard reads what the body of the guard defines, and no program in
which all code is that of methods fails on an undefined value. -/
theorem Context.routine_definedBeforeUse {c : Context} {r : Routine} (h : c.routine = .ok r) :
    (Instr.dests r.code).Perm (List.range r.valueCount) ∧
    Instr.AllWellScoped {} r.code ∧
    (∀ note dest tested body result others,
      Instr.Outside (.guard note dest tested body result) r.code others →
      ∀ id ∈ Instr.dests body, ∀ i ∈ others, .computed id ∉ i.operands) ∧
    ∀ (x : Executable) (method : Method) (entry : String) (inputs : List (String × Data))
      (m m' : Memory) (operand : String),
      (∀ p ∈ x.routines, ∃ c : Context, c.routine = .ok p.2) →
      x.find? entry = some (method, r) →
      x.run entry inputs m ≠ .error (.undefinedValue operand) m' := by
  have hr : r.WellFormed := wellFormed_of_routine h
  have hnodup : (Instr.dests r.code).Nodup := hr.dests_perm.nodup_iff.2 List.nodup_range
  refine ⟨hr.dests_perm, hr.wellScoped, ?_, ?_⟩
  · intro note dest tested body result others houtside id hid i hi
    exact Instr.not_mem_operands_of_outside hr.wellScoped hnodup (by simp) houtside hi hid
  · intro x method entry inputs m m' operand hx _ hrun
    have hwellFormed : ∀ p ∈ x.routines, p.2.WellFormed := fun p hp ↦ by
      obtain ⟨c, hc⟩ := hx p hp
      exact wellFormed_of_routine hc
    have hnever : Run.NeverUndefined (x.run entry inputs) :=
      Executable.run_neverUndefined hwellFormed entry
    have hfail := @hnever m trivial
    rw [hrun] at hfail
    exact hfail ⟨operand, rfl⟩

/-- A class with one field, to be read through a conditional access. -/
def nodeTypes : TypeTable :=
  ⟨[.struct ⟨"Node", .reference, [⟨"Value", TypeTable.int, false⟩]⟩]⟩

/-- Returns `n?.Value`, which is a guard with two values in its body. -/
def nodeValue : Context :=
  let node : Expr := .var 0 0
  let field : Expr := .field 2 (.placeholder 1 node) "Value"
  let access : Expr := .conditional 3 node field
  let body : Body :=
    { name := "Main", returns := .value, returnType := some TypeTable.int
      exprs := #[node, .placeholder 1 node, field, access]
      vars := #[{ name := "n", kind := .parameter .value, type := TypeTable.builtin.length }]
      statements := [.ret (some access)] }
  ⟨nodeTypes, {}, body.finish⟩

theorem nodeValue_definedBeforeUse :
    ∃ r, nodeValue.routine = .ok r ∧ (Instr.dests r.code).Perm (List.range 5) ∧
      ∀ inputs m m' operand,
        (Executable.mk nodeTypes [(nodeValue.method, r)]).run "Main" inputs m ≠
          .error (.undefinedValue operand) m' := by
  obtain ⟨r, hr, hcount, hname⟩ :
      ∃ r, nodeValue.routine = .ok r ∧ r.valueCount = 5 ∧ r.name = "Main" :=
    ⟨_, by cbv, by cbv, by cbv⟩
  obtain ⟨hdests, -, -, hrun⟩ := Context.routine_definedBeforeUse hr
  refine ⟨r, hr, hcount ▸ hdests, fun inputs m m' operand ↦ hrun _ nodeValue.method _ _ _ _ _ ?_ ?_⟩
  · rintro p hp
    rw [List.mem_singleton.1 hp]
    exact ⟨nodeValue, hr⟩
  · simp [Executable.find?, hname]

end InlineArrays
