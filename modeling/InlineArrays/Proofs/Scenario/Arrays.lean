import InlineArrays.Proofs.Renaming.Independence
import InlineArrays.Proofs.Types.Paths

/-!
# Inline arrays of programs

The types of a program are those that its scenario declares, and spans.  So its inline arrays are as
long as declared, and a path into a value takes no more steps than there are types.
-/

namespace InlineArrays

/-- Every length of an inline array of the table is an integer of programs. -/
def TypeTable.LengthsFit (types : TypeTable) : Prop :=
  ∀ t array, types.array? t = some array → array.length < 2 ^ 63

namespace Scenario

variable {s : Scenario} {p : Program}

theorem build_lengthsFit (h : s.build = .ok p) (hlengths : ∀ d ∈ s.arrays, d.length < 2 ^ 63) :
    p.types.LengthsFit := by
  obtain ⟨base, hbase, hspans, -⟩ := build_declares h
  intro t array harray
  rw [hspans.array?_eq] at harray
  obtain ⟨-, d, hd, hlength⟩ := buildTypes_arrays hbase t array harray
  exact hlength ▸ hlengths d hd

theorem build_finitePaths (h : s.build = .ok p) : p.types.FinitePaths := by
  intro a path hpath
  obtain ⟨base, hbase, hspans, -⟩ := build_declares h
  have hlayered : base.Layered := fun id array harray ↦ (buildTypes_arrays hbase id array harray).1
  have hnone := TypeTable.containsItself_eq_false hlayered (buildTypes_containsItself hbase)
  have hlt := (hpath.of_spans hspans).length_lt hnone (Nat.lt_of_lt_of_le (by decide) base.builtin_le)
  exact Nat.lt_of_lt_of_le hlt hspans.size_le

end Scenario

end InlineArrays
