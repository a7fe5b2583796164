import InlineArrays.Code.OfExpr
import InlineArrays.Proofs.Code.Selected
import InlineArrays.Proofs.Elements.Locals
import InlineArrays.Proofs.Machine.SpanViews

/-!
# Code of constant subscripts

A constant subscript of a span of some length is emitted without code of its own; with it, the span
is indexed at the position, or sliced to the extent, that the constant stands for.
-/

namespace InlineArrays

theorem Int64.toInt_sub_of_toInt_le {a b : Int64} (hb : 0 ≤ b.toInt) (h : b.toInt ≤ a.toInt) :
    (a - b).toInt = a.toInt - b.toInt :=
  Int64.toInt_sub_of_le a b (Int64.le_iff_toInt_le.2 hb) (Int64.le_iff_toInt_le.2 h)

namespace SpanView

variable {view : SpanView} {base : Address}

theorem index_eq (hbase : view.base = some base) {n : Int64} {i : Nat} (hn : n.toInt = i)
    (hi : i < view.length) : view.index n = .ok (base.join (.element (view.start + i))) := by
  rw [index_of_base hbase, hn]
  simp [hi]

theorem slice_eq (hlength : view.length < 2 ^ 63) {n n' : Int64} {start length : Nat}
    (hn : n.toInt = start) (hn' : n'.toInt = length) (hle : start + length ≤ view.length) :
    view.slice n n' = .ok { view with start := view.start + start, length } := by
  have hinside : (start : Int) + length ≤ view.length := by omega
  rw [slice_of_lt hlength, hn, hn']
  simp [hinside]

end SpanView

/-! ## Constants as operands -/

/-- A constant subscript that selects the position `i` of `length` elements. -/
inductive Subscript.Selects (length : Nat) : Subscript Operand → Nat → Prop
  | int {n : Int64} {i : Nat} : n.toInt = i → i < length → Selects length (.int (.int n)) i
  | fromEnd {n : Int64} : 1 ≤ n.toInt → n.toInt ≤ length →
      Selects length (.fromEnd (.int n)) (length - n.toInt.toNat)

/-- A constant bound at the boundary `i` of `length` elements. -/
inductive Bound.Stands (isStop : Bool) (length : Nat) : Bound Operand → Nat → Prop
  | omitted : Stands isStop length .omitted (if isStop then length else 0)
  | int {n : Int64} {i : Nat} : n.toInt = i → Stands isStop length (.int (.int n)) i
  | fromEnd {n : Int64} : 0 ≤ n.toInt → n.toInt ≤ length →
      Stands isStop length (.fromEnd (.int n)) (length - n.toInt.toNat)

theorem Int64.eq_ofNat {n : Int64} {i : Nat} (h : n.toInt = i) : n = Int64.ofNat i := by
  rw [← Int64.ofInt_eq_ofNat, ← h, Int64.ofInt_toInt]

theorem Int64.toInt_ofNat_sub {length : Nat} {n : Int64} (hlength : length < 2 ^ 63)
    (hn : 0 ≤ n.toInt) (hle : n.toInt ≤ length) :
    (Int64.ofNat length - n).toInt = (length - n.toInt.toNat : Nat) := by
  have htotal : (Int64.ofNat length).toInt = length := Int64.toInt_ofNat_of_lt hlength
  rw [Int64.toInt_sub_of_toInt_le hn (by omega), htotal]
  omega

/-- A constant bound is the offset that its position is. -/
theorem Bound.Stands.means {known : List (Operand × Value)} {isStop : Bool} {b : Bound Operand}
    {size i : Nat} (h : b.Stands isStop size i) (hsize : size < 2 ^ 63) :
    ∃ offset : Offset, b.Means known isStop offset ∧
      offset.resolve (Int64.ofNat size) = Int64.ofNat i := by
  cases h with
  | omitted =>
    refine ⟨_, .omitted, ?_⟩
    cases isStop <;> simp [Offset.resolve]
  | int hn => exact ⟨_, .int (.literal _), Int64.eq_ofNat hn⟩
  | fromEnd hn hle =>
    exact ⟨_, .fromEnd (.literal _), Int64.eq_ofNat (Int64.toInt_ofNat_sub hsize hn hle)⟩

namespace Activation.Realizes

variable {A : Activation} {view : View} {known : List (Operand × Value)} {o : Operand}
  {span : SpanView} {base : Address}

/-- The span `o` indexed by a constant. -/
theorem select_position {s : Subscript Operand} {i : Nat} (h : s.Selects span.length i)
    (hspan : (o, .span span) ∈ known) (hbase : span.base = some base)
    (hlength : span.length < 2 ^ 63) :
    A.Realizes view known (s.select o) view fun r ↦
      [(r, .address (base.join (.element (span.start + i))))] := by
  obtain ⟨offset, hmeans, hposition, hi⟩ : ∃ offset : Offset, s.Means known (.index offset) ∧
      (offset.resolve (Int64.ofNat span.length)).toInt = i ∧ i < span.length := by
    cases h with
    | int hn hi => exact ⟨_, .int (.literal _), hn, hi⟩
    | @fromEnd n hn hle =>
      have hnonneg : 0 ≤ n.toInt := by omega
      exact ⟨_, .fromEnd (.literal n), Int64.toInt_ofNat_sub hlength hnonneg hle, by omega⟩
  have hselect : span.select (.index offset) =
      .ok (.address (base.join (.element (span.start + i)))) := by
    rw [SpanView.select, SpanView.index_eq hbase hposition hi]
    rfl
  have hevaluates : A.Evaluates view known (s.select o) (span.select (.index offset)) :=
    .select hmeans (.mem hspan)
  rw [hselect] at hevaluates
  exact hevaluates

/-- The span `o` sliced by constants. -/
theorem select_extent {start stop : Bound Operand} {first last : Nat}
    (hstart : start.Stands false span.length first) (hstop : stop.Stands true span.length last)
    (hle : first ≤ last) (hlast : last ≤ span.length) (hspan : (o, .span span) ∈ known)
    (hlength : span.length < 2 ^ 63) :
    A.Realizes view known (Subscript.select o (.rangeLiteral start stop)) view fun r ↦
      [(r, .span { span with start := span.start + first, length := last - first })] := by
  obtain ⟨offset, hmeans, hfirst⟩ := hstart.means hlength
  obtain ⟨offset', hmeans', hend⟩ := hstop.means hlength
  have hselect : span.select (.range offset offset') =
      .ok (.span { span with start := span.start + first, length := last - first }) := by
    have hfirst' : (Int64.ofNat first).toInt = first := Int64.toInt_ofNat_of_lt (by omega)
    have hend' : (Int64.ofNat last).toInt = last := Int64.toInt_ofNat_of_lt (by omega)
    have hcount : (Int64.ofNat last - Int64.ofNat first).toInt = (last - first : Nat) := by
      rw [Int64.toInt_sub_of_toInt_le (by omega) (by omega)]
      omega
    rw [SpanView.select, hfirst, hend, SpanView.slice_eq hlength hfirst' hcount (by omega)]
    rfl
  have hevaluates : A.Evaluates view known (Subscript.select o (.rangeLiteral start stop))
      (span.select (.range offset offset')) :=
    .select (.rangeLiteral hmeans hmeans') (.mem hspan)
  rw [hselect] at hevaluates
  exact hevaluates

end Activation.Realizes

namespace Context

variable {c : Context} {a : Access} {length i : Nat}

/-- A constant subscript has no code. -/
theorem lowerSubscript_position {position : Expr} (h : position.position? length = some i)
    (ha : a.subscript = position.constantSubscript) :
    ∃ s, c.lowerSubscript a [⟨position, none, .none⟩] = pure s ∧ s.Selects length i := by
  rcases Expr.position?_eq_some h with ⟨id, n, rfl, hle, hlt, rfl⟩ | ⟨id, id', n, rfl, hle, hlt, rfl⟩
  · refine ⟨.int (.int n), ?_, .int (Int.toNat_of_nonneg hle).symm (by omega)⟩
    unfold lowerSubscript
    rw [ha]
    rfl
  · refine ⟨.fromEnd (.int n), ?_, .fromEnd hle hlt⟩
    unfold lowerSubscript
    rfl

/-- A constant bound has no code. -/
theorem lowerBound_boundary {bound : Option Expr} (isStop : Bool)
    (h : bound.elim (some (if isStop then length else 0)) (·.boundary? length) = some i) :
    ∃ b, c.lowerBound bound = pure b ∧ b.Stands isStop length i := by
  cases bound with
  | none =>
    obtain rfl := Option.some.inj h
    exact ⟨.omitted, rfl, .omitted⟩
  | some bound =>
    rcases Expr.boundary?_eq_some h with ⟨id, n, rfl, hle, -, rfl⟩ | ⟨id, id', n, rfl, hle, hlt, rfl⟩
    · exact ⟨.int (.int n), rfl, .int (Int.toNat_of_nonneg hle).symm⟩
    · exact ⟨.fromEnd (.int n), rfl, .fromEnd hle hlt⟩

/-- A constant range has no code. -/
theorem lowerSubscript_extent {range : Expr} {first count : Nat}
    (h : range.extent? length = some (first, count)) :
    ∃ start stop last, c.lowerSubscript a [⟨range, none, .none⟩] = pure (.rangeLiteral start stop) ∧
      start.Stands false length first ∧ stop.Stands true length last ∧ first ≤ last ∧
        last ≤ length ∧ count = last - first := by
  obtain ⟨id, start, stop, last, rfl, hstart, hstop, hle, hlast, hcount⟩ := Expr.extent?_eq_some h
  obtain ⟨start', hlower, hfirst⟩ := lowerBound_boundary (c := c) false hstart
  obtain ⟨stop', hlower', hend⟩ := lowerBound_boundary (c := c) true hstop
  refine ⟨start', stop', last, ?_, hfirst, hend, hle, hlast, hcount⟩
  unfold lowerSubscript rangeLiteralCode
  rw [hlower, hlower']
  rfl

end Context

end InlineArrays
