import InlineArrays.Usage

/-!
# Parts of expressions

An expression is made of itself and of the parts of what it is built from.  A placeholder has no
parts: the receiver it stands for is part of the conditional access around it.
-/

namespace InlineArrays

namespace Expr

/-- The expressions that code of an expression is made of: itself and its parts. -/
def parts (e : Expr) : List Expr := (e.uses .read).map (·.1)

theorem map_fst_uses (usage : Usage) :
    (e : Expr) → (e.uses usage).map (·.1) = e.parts
  | .conditional id receiver access => by
    simp [parts, uses, map_fst_uses usage access]
  | .range .. => by
    unfold parts uses
    rfl
  | .var .. | .field .. | .call .. | .int .. | .bool .. | .string .. | .fromEnd .. | .default ..
  | .element .. | .span .. | .placeholder .. => by
    simp [parts, uses]

theorem mem_parts_self (e : Expr) : e ∈ e.parts := by
  unfold parts uses
  cases e <;> simp

theorem parts_field (id : ExprId) (receiver : Expr) (name : String) :
    (field id receiver name).parts = .field id receiver name :: receiver.parts := by
  rw [← map_fst_uses .receiver receiver]
  simp [parts, uses]

theorem parts_element (id : ExprId) (receiver : Expr) (args : List (Argument Expr)) :
    (element id receiver args).parts =
      .element id receiver args :: (receiver.parts ++ args.flatMap (·.value.parts)) := by
  have hargs : (argumentUses args).map (·.1) = args.flatMap (·.value.parts) := by
    induction args with
    | nil => rfl
    | cons arg args ih => simp [argumentUses, ih, parts]
  rw [← map_fst_uses .receiver receiver, ← hargs]
  simp [parts, uses]

theorem parts_span (id : ExprId) (operand : Expr) (readonly : Bool) :
    (span id operand readonly).parts = .span id operand readonly :: operand.parts := by
  rw [← map_fst_uses .receiver operand]
  simp [parts, uses]

theorem parts_fromEnd (id : ExprId) (count : Expr) :
    (fromEnd id count).parts = .fromEnd id count :: count.parts := by
  simp [parts, uses]

theorem parts_range (id : ExprId) (start stop : Option Expr) :
    (range id start stop).parts =
      .range id start stop :: (start.elim [] parts ++ stop.elim [] parts) := by
  have huses : (range id start stop).uses .read =
      (range id start stop, .read) ::
        (start.elim [] (uses .read) ++ stop.elim [] (uses .read)) := by
    cases start <;> cases stop <;> rfl
  rw [parts, huses]
  cases start <;> cases stop <;> simp [parts]

theorem parts_conditional (id : ExprId) (receiver access : Expr) :
    (conditional id receiver access).parts =
      .conditional id receiver access :: (receiver.parts ++ access.parts) := by
  simp [parts, uses]

end Expr

/-- What is gathered from the operands of statements comes from the expressions used, if it comes
from the parts of each operand. -/
theorem Body.mem_flatMap_operands (b : Body) {α : Type} {gather : Expr → List α} {a : α}
    {P : Expr → Prop} (h : ∀ e, a ∈ gather e ↔ ∃ part ∈ e.parts, P part) :
    (a ∈ b.statements.flatMap fun s ↦ (s.operands b).flatMap fun use ↦ gather use.1) ↔
      ∃ use ∈ b.uses, P use.1 := by
  have hoperand (operand : Use) :
      a ∈ gather operand.1 ↔ ∃ use ∈ operand.1.uses operand.2, P use.1 := by
    rw [h, ← Expr.map_fst_uses operand.2]
    simp
  simp only [uses, Statement.uses, List.mem_flatMap, hoperand]
  constructor
  · rintro ⟨s, hs, operand, hoperand, use, huse, hP⟩
    exact ⟨use, ⟨s, hs, operand, hoperand, huse⟩, hP⟩
  · rintro ⟨use, ⟨s, hs, operand, hoperand, huse⟩, hP⟩
    exact ⟨s, hs, operand, hoperand, use, huse, hP⟩

end InlineArrays
