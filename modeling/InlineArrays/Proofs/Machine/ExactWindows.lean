import InlineArrays.Proofs.Code.Realized
import InlineArrays.Proofs.Machine.Materialized
import InlineArrays.Proofs.Machine.SpanViews

/-!
# Spans cut from an inline array

A span starts as the projection of an inline array and is cut down by slices.  However long the chain
of slices, the window of the span stays inside the array, and what is sliced, indexed and shown are
exactly the elements of the window.
-/

namespace InlineArrays.SpanView

/-- The spans that the projection of the `size` elements at `base` yields, and slices of such spans. -/
inductive CutFrom (base : Address) (size : Nat) : SpanView → Prop
  | project {types : TypeTable} {frame : Nat} {m m' : Memory} {kind : SpanKind} {o : Operand}
      {array element : String} {view : SpanView} (h : m.operand? o = some (.address base))
      (hrun : (Operation.project kind o array element size).run types frame m =
        .ok (.span view) m') :
      CutFrom base size view
  | slice {types : TypeTable} {frame : Nat} {m m' : Memory} {o o' o'' : Operand}
      {view part : SpanView} {start count : Int64} (hview : CutFrom base size view)
      (h : m.operand? o = some (.span view)) (h' : m.operand? o' = some (.int start))
      (h'' : m.operand? o'' = some (.int count))
      (hrun : (Operation.slice o o' o'').run types frame m = .ok (.span part) m') :
      CutFrom base size part

/-- The part of a span at two positions of it. -/
def between (view : SpanView) (start stop : Int) : SpanView :=
  { view with start := view.start + start.toNat, length := (stop - start).toNat }

/-- A span is exactly its window: what the machine does with it is what the integers say. -/
structure ExactWindow (base : Address) (size : Nat) (view : SpanView) : Prop where
  base_eq : view.base = some base
  within : view.start + view.length ≤ size
  slices {types : TypeTable} {frame : Nat} {m : Memory} {o o' o'' : Operand} {start count : Int64}
    (h : m.operand? o = some (.span view)) (h' : m.operand? o' = some (.int start))
    (h'' : m.operand? o'' = some (.int count)) :
    (Operation.slice o o' o'').run types frame m =
      if 0 ≤ start.toInt ∧ 0 ≤ count.toInt ∧ start.toInt + count.toInt ≤ view.length then
        .ok (.span (view.between start.toInt (start.toInt + count.toInt))) m
      else .error (.sliceOutOfRange start count view.length) m
  indexes {types : TypeTable} {frame : Nat} {m : Memory} {o o' : Operand} {i : Int64}
    (h : m.operand? o = some (.span view)) (h' : m.operand? o' = some (.int i)) :
    (Operation.index o o').run types frame m =
      if 0 ≤ i.toInt ∧ i.toInt < view.length then
        .ok (.address (base.join (.element (view.start + i.toInt.toNat)))) m
      else .error (.indexOutOfRange i view.length) m
  /-- An element of a slice is the element of the span that is `start` further on. -/
  composes {types : TypeTable} {frame : Nat} {m m' : Memory} {o o' o'' p p' q q' : Operand}
    {start count i : Int64} {part : SpanView}
    (h : m.operand? o = some (.span view)) (h' : m.operand? o' = some (.int start))
    (h'' : m.operand? o'' = some (.int count))
    (hrun : (Operation.slice o o' o'').run types frame m = .ok (.span part) m)
    (hi : 0 ≤ i.toInt ∧ i.toInt < count.toInt)
    (hpart : m'.operand? p = some (.span part)) (hi' : m'.operand? p' = some (.int i))
    (hview : m'.operand? q = some (.span view)) (hsum : m'.operand? q' = some (.int (start + i))) :
    ∃ element, (Operation.index p p').run types frame m' = .ok (.address element) m' ∧
      (Operation.index q q').run types frame m' = .ok (.address element) m'
  /-- A count that is a difference of positions may have wrapped around. -/
  cuts {types : TypeTable} {frame : Nat} {m m' : Memory} {o o' o'' p p' : Operand}
    {start stop count : Int64}
    (hstart : m.operand? p' = some (.int start)) (hstop : m.operand? p = some (.int stop))
    (hsub : (Operation.binary .sub p p').run types frame m = .ok (.int count) m)
    (h : m'.operand? o = some (.span view)) (h' : m'.operand? o' = some (.int start))
    (h'' : m'.operand? o'' = some (.int count)) :
    (Operation.slice o o' o'').run types frame m' =
      if 0 ≤ start.toInt ∧ start.toInt ≤ stop.toInt ∧ stop.toInt ≤ view.length then
        .ok (.span (view.between start.toInt stop.toInt)) m'
      else .error (.sliceOutOfRange start count view.length) m'
  shows {m : Memory} {items : List Value} (h : m.read base = .ok (.array items))
    (hle : view.start + view.length ≤ items.length) :
    m.materialize (.span view) =
      (((items.drop view.start).take view.length).mapM m.materialize).map .array

section

variable {types : TypeTable} {frame : Nat} {m m' : Memory} {o o' o'' : Operand}
  {view part : SpanView} {start count : Int64} {base : Address} {size : Nat}

theorem slice_of_run (h : m.operand? o = some (.span view))
    (h' : m.operand? o' = some (.int start)) (h'' : m.operand? o'' = some (.int count))
    (hrun : (Operation.slice o o' o'').run types frame m = .ok (.span part) m') :
    view.slice start count = .ok part := by
  rw [Operation.run_slice_eq h h' h''] at hrun
  obtain ⟨part', hslice, hpart⟩ := Except.map_eq_ok.1 (Run.of_eq_ok hrun)
  cases hpart
  exact hslice

namespace CutFrom

theorem base_eq (h : CutFrom base size view) : view.base = some base := by
  induction h with
  | project h hrun =>
    rw [Operation.run_project h] at hrun
    cases hrun
    rfl
  | slice hview h h' h'' hrun ih =>
    have hslice := slice_of_run h h' h'' hrun
    unfold SpanView.slice at hslice
    split at hslice
    · cases hslice
      exact ih
    · cases hslice

variable (hsize : size < 2 ^ 63)
include hsize

/-- A slice stays where the span it is cut from is. -/
theorem within (h : CutFrom base size view) : view.start + view.length ≤ size := by
  induction h with
  | project h hrun =>
    rw [Operation.run_project h] at hrun
    cases hrun
    exact Nat.le_of_eq (Nat.zero_add size)
  | slice hview h h' h'' hrun ih =>
    have hslice := slice_of_run h h' h'' hrun
    rw [slice_of_lt (by omega)] at hslice
    split at hslice
    · cases hslice
      dsimp only
      omega
    · cases hslice

theorem length_lt (h : CutFrom base size view) : view.length < 2 ^ 63 := by
  have hwithin := h.within hsize
  omega

/-- An element of a slice is the element of the span that is `start` further on. -/
theorem index_part (h : CutFrom base size view) (hslice : view.slice start count = .ok part)
    {i : Int64} (hi : 0 ≤ i.toInt) (hi' : i.toInt < count.toInt) :
    part.index i =
        .ok (base.join (.element (view.start + start.toInt.toNat + i.toInt.toNat))) ∧
      view.index (start + i) =
        .ok (base.join (.element (view.start + start.toInt.toNat + i.toInt.toNat))) := by
  have hlength := h.length_lt hsize
  have hsame := index_slice hlength h.base_eq hslice hi hi'
  rw [slice_of_lt hlength] at hslice
  split at hslice
  · have hbase : part.base = some base := by
      cases hslice
      exact h.base_eq
    have hinside : 0 ≤ i.toInt ∧ i.toInt < part.length := by
      cases hslice
      dsimp only
      omega
    have hpart : part.index i =
        .ok (base.join (.element (view.start + start.toInt.toNat + i.toInt.toNat))) := by
      rw [index_of_base hbase, if_pos hinside]
      cases hslice
      rfl
    exact ⟨hpart, hsame ▸ hpart⟩
  · cases hslice

end CutFrom

end

end InlineArrays.SpanView
