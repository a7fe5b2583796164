import InlineArrays.Machine.Execute
import Mathlib.Algebra.Group.Int.Defs
import Mathlib.Algebra.Group.Nat.Defs

/-!
# Elements and parts of spans

An index and a slice are checked with the integers of the machine, whose sums and differences wrap
around.  As long as the length of a span is itself an integer of the machine, the checks are those of
the integers: nothing that wraps around is taken for a position in the span.
-/

namespace InlineArrays

namespace Int64

theorem toNat_toUInt64 {n : Int64} (h : 0 ≤ n.toInt) : n.toUInt64.toNat = n.toInt.toNat := by
  rw [Int64.toNat_toUInt64_of_le (Int64.le_iff_toInt_le.2 h), Int64.toNat_toInt]

theorem toInt_add_of_lt {a b : Int64} (ha : 0 ≤ a.toInt) (hb : 0 ≤ b.toInt)
    (h : a.toInt + b.toInt < 2 ^ 63) : (a + b).toInt = a.toInt + b.toInt := by
  rw [Int64.toInt_add]
  exact Int.bmod_eq_of_le (by omega) (by omega)

/-- A sum from zero on is flagged exactly if it wraps around. -/
theorem saddOverflow_eq_false {a b : Int64} (ha : 0 ≤ a.toInt) (hb : 0 ≤ b.toInt) :
    a.toBitVec.saddOverflow b.toBitVec = false ↔ a.toInt + b.toInt < 2 ^ 63 := by
  simp only [BitVec.saddOverflow, Int64.toInt_toBitVec, Bool.or_eq_false_iff, decide_eq_false_iff_not]
  omega

/-- A difference wraps around at most once. -/
theorem toInt_sub_eq (a b : Int64) : (a - b).toInt = a.toInt - b.toInt ∨
    (a - b).toInt = a.toInt - b.toInt + 2 ^ 64 ∨ (a - b).toInt = a.toInt - b.toInt - 2 ^ 64 := by
  have ha := a.toInt_lt
  have ha' := a.le_toInt
  have hb := b.toInt_lt
  have hb' := b.le_toInt
  rw [Int64.toInt_sub, Int.bmod_eq_emod]
  split <;> omega

end Int64

namespace Offset

/-- The position in a sequence, without wrapping around. -/
def position (offset : Offset) (length : Nat) : Int :=
  if offset.fromEnd then length - offset.value.toInt else offset.value.toInt

/-- A difference that wraps around is not a position. -/
theorem toInt_resolve_iff {offset : Offset} {length i : Nat} (hlength : length < 2 ^ 63)
    (hi : i ≤ length) :
    (offset.resolve (Int64.ofNat length)).toInt = i ↔ offset.position length = i := by
  unfold resolve position
  split
  · have htotal : (Int64.ofNat length).toInt = length := Int64.toInt_ofNat_of_lt hlength
    have hlt := offset.value.toInt_lt
    have hle := offset.value.le_toInt
    have hlt' := (Int64.ofNat length - offset.value).toInt_lt
    have hle' := (Int64.ofNat length - offset.value).le_toInt
    rcases Int64.toInt_sub_eq (Int64.ofNat length) offset.value with heq | heq | heq
    all_goals omega
  · exact Iff.rfl

end Offset

namespace SpanView

variable {view part : SpanView} {base : Address}

theorem index_of_base (hbase : view.base = some base) (i : Int64) :
    view.index i =
      if 0 ≤ i.toInt ∧ i.toInt < view.length then
        .ok (base.join (.element (view.start + i.toInt.toNat)))
      else .error (.indexOutOfRange i view.length) := by
  have hinside : (0 ≤ i ∧ i.toUInt64.toNat < view.length) ↔
      0 ≤ i.toInt ∧ i.toInt < view.length := by
    rw [Int64.le_iff_toInt_le]
    refine and_congr_right fun h ↦ ?_
    rw [Int64.toNat_toUInt64 h]
    exact Int.toNat_lt h
  unfold index
  rw [hbase]
  by_cases h : 0 ≤ i.toInt ∧ i.toInt < view.length
  · rw [if_pos h]
    refine (if_pos (hinside.2 h)).trans ?_
    rw [Int64.toNat_toUInt64 h.1]
  · rw [if_neg h]
    exact if_neg fun h' ↦ h (hinside.1 h')

variable (hlength : view.length < 2 ^ 63)
include hlength

theorem slice_of_lt (start count : Int64) :
    view.slice start count =
      if 0 ≤ start.toInt ∧ 0 ≤ count.toInt ∧ start.toInt + count.toInt ≤ view.length then
        .ok
          { view with
            start := view.start + start.toInt.toNat
            length := count.toInt.toNat }
      else .error (.sliceOutOfRange start count view.length) := by
  have hinside : (0 ≤ start ∧ 0 ≤ count ∧ !start.toBitVec.saddOverflow count.toBitVec ∧
      (start + count).toUInt64.toNat ≤ view.length) ↔
        0 ≤ start.toInt ∧ 0 ≤ count.toInt ∧ start.toInt + count.toInt ≤ view.length := by
    rw [Int64.le_iff_toInt_le, Int64.le_iff_toInt_le]
    refine and_congr_right fun hstart ↦ and_congr_right fun hcount ↦ ?_
    rw [Bool.not_eq_true', Int64.saddOverflow_eq_false hstart hcount]
    constructor
    · rintro ⟨hsum, hle⟩
      rw [Int64.toNat_toUInt64, Int64.toInt_add_of_lt hstart hcount hsum] at hle
      · omega
      · rw [Int64.toInt_add_of_lt hstart hcount hsum]
        exact Int.add_nonneg hstart hcount
    · intro hle
      have hsum : start.toInt + count.toInt < 2 ^ 63 := by omega
      refine ⟨hsum, ?_⟩
      rw [Int64.toNat_toUInt64, Int64.toInt_add_of_lt hstart hcount hsum]
      · omega
      · rw [Int64.toInt_add_of_lt hstart hcount hsum]
        exact Int.add_nonneg hstart hcount
  unfold slice
  by_cases h : 0 ≤ start.toInt ∧ 0 ≤ count.toInt ∧ start.toInt + count.toInt ≤ view.length
  · rw [if_pos h, if_pos (hinside.2 h), Int64.toNat_toUInt64 h.1, Int64.toNat_toUInt64 h.2.1]
  · rw [if_neg h, if_neg fun h' ↦ h (hinside.1 h')]

/-- The part between two positions: the difference is a count only if it does not wrap around. -/
theorem slice_sub (start stop : Int64) :
    view.slice start (stop - start) =
      if 0 ≤ start.toInt ∧ start.toInt ≤ stop.toInt ∧ stop.toInt ≤ view.length then
        .ok
          { view with
            start := view.start + start.toInt.toNat
            length := (stop.toInt - start.toInt).toNat }
      else .error (.sliceOutOfRange start (stop - start) view.length) := by
  have hstart := start.toInt_lt
  have hstop := stop.toInt_lt
  have hstop' := stop.le_toInt
  have hcount := (stop - start).toInt_lt
  have hcount' := (stop - start).le_toInt
  rw [slice_of_lt hlength]
  rcases Int64.toInt_sub_eq stop start with h | h | h
  · rw [h]
    congr 1
    exact propext (by omega)
  · rw [if_neg (by omega), if_neg (by omega)]
  · rw [if_neg (by omega), if_neg (by omega)]

/-- The elements of a part are elements of the whole. -/
theorem index_slice (hbase : view.base = some base) {start count i : Int64}
    (h : view.slice start count = .ok part) (hi : 0 ≤ i.toInt) (hi' : i.toInt < count.toInt) :
    part.index i = view.index (start + i) := by
  rw [slice_of_lt hlength] at h
  split at h
  · rename_i hinside
    obtain ⟨hstart, hcount, hle⟩ := hinside
    cases h
    have hsum := Int64.toInt_add_of_lt hstart hi (by omega)
    have hnat : (start + i).toInt.toNat = start.toInt.toNat + i.toInt.toNat := by
      rw [hsum, Int.toNat_add hstart hi]
    calc
      _ = .ok (base.join (.element (view.start + start.toInt.toNat + i.toInt.toNat))) := by
        refine (index_of_base ?_ i).trans (if_pos ⟨hi, ?_⟩)
        · exact hbase
        · dsimp only
          omega
      _ = .ok (base.join (.element (view.start + (start + i).toInt.toNat))) := by
        rw [hnat, Nat.add_assoc]
      _ = view.index (start + i) := by
        rw [index_of_base hbase, if_pos (by omega)]
  · cases h

end SpanView

end InlineArrays
