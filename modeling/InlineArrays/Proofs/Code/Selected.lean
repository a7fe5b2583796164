import InlineArrays.Code.OfExpr
import InlineArrays.Proofs.Access
import InlineArrays.Proofs.Code.Evaluated

/-!
# Code of subscripts

Whatever form a subscript has, its code works out the same thing: an index selects an element of a
span and a range selects a part of it, each by its offsets from the start of the span.
-/

namespace InlineArrays

open Emission

/-- What selects in a span. -/
inductive Selector where
  | index (offset : Offset)
  | range (start stop : Offset)
  deriving DecidableEq, Repr

def Selector.value : Selector → Value
  | .index offset => .index offset
  | .range start stop => .range start stop

/-- The address of the element, or the part, that is selected. -/
def SpanView.select (view : SpanView) : Selector → Except RuntimeError Value
  | .index offset => (view.index (offset.resolve (Int64.ofNat view.length))).map .address
  | .range start stop =>
    let first := start.resolve (Int64.ofNat view.length)
    (view.slice first (stop.resolve (Int64.ofNat view.length) - first)).map .span

/-- An operand whose value is known; that of a literal always is. -/
inductive Operand.Known (known : List (Operand × Value)) : Operand → Value → Prop
  | mem {o : Operand} {v : Value} (h : (o, v) ∈ known) : Known known o v
  | literal (n : Int64) : Known known (.int n) (.int n)

namespace Operand.Known

variable {known more : List (Operand × Value)} {o : Operand} {v v' : Value}

theorem mono (h : o.Known known v) (hknown : known ⊆ more) : o.Known more v := by
  cases h with
  | mem h => exact .mem (hknown h)
  | literal n => exact .literal n

theorem cons {p : Operand × Value} (h : o.Known known v) : o.Known (p :: known) v :=
  h.mono (List.subset_cons_self p known)

theorem head : o.Known ((o, v) :: known) v := .mem List.mem_cons_self

theorem operand?_eq (h : o.Known known v) {m : Memory}
    (hvalues : ∀ p ∈ known, m.operand? p.1 = some p.2) : m.operand? o = some v := by
  cases h with
  | mem h => exact hvalues _ h
  | literal n => rfl

end Operand.Known

/-- The offset that a bound stands for, as the known operands say. -/
inductive Bound.Means (known : List (Operand × Value)) (isStop : Bool) :
    Bound Operand → Offset → Prop
  | omitted : Means known isStop .omitted ⟨0, isStop⟩
  | int {o : Operand} {n : Int64} (h : o.Known known (.int n)) :
      Means known isStop (.int o) ⟨n, false⟩
  | fromEnd {o : Operand} {n : Int64} (h : o.Known known (.int n)) :
      Means known isStop (.fromEnd o) ⟨n, true⟩
  | index {o : Operand} {offset : Offset} (h : o.Known known (.index offset)) :
      Means known isStop (.index o) offset

theorem Bound.Means.mono {known more : List (Operand × Value)} {isStop : Bool} {b : Bound Operand}
    {offset : Offset} (h : b.Means known isStop offset) (hknown : known ⊆ more) :
    b.Means more isStop offset := by
  cases h with
  | omitted => exact .omitted
  | int h => exact .int (h.mono hknown)
  | fromEnd h => exact .fromEnd (h.mono hknown)
  | index h => exact .index (h.mono hknown)

/-- What a subscript stands for, as the known operands say. -/
inductive Subscript.Means (known : List (Operand × Value)) : Subscript Operand → Selector → Prop
  | int {o : Operand} {n : Int64} (h : o.Known known (.int n)) :
      Means known (.int o) (.index ⟨n, false⟩)
  | fromEnd {o : Operand} {n : Int64} (h : o.Known known (.int n)) :
      Means known (.fromEnd o) (.index ⟨n, true⟩)
  | index {o : Operand} {offset : Offset} (h : o.Known known (.index offset)) :
      Means known (.index o) (.index offset)
  | dynamic {o : Operand} {n : Int64} (h : o.Known known (.int n)) :
      Means known (.dynamic o) (.index ⟨n, false⟩)
  | rangeLiteral {start stop : Bound Operand} {first last : Offset}
      (hstart : start.Means known false first) (hstop : stop.Means known true last) :
      Means known (.rangeLiteral start stop) (.range first last)
  | range {o : Operand} {first last : Offset} (h : o.Known known (.range first last)) :
      Means known (.range o) (.range first last)

theorem Subscript.Means.mono {known more : List (Operand × Value)} {s : Subscript Operand}
    {selector : Selector} (h : s.Means known selector) (hknown : known ⊆ more) :
    s.Means more selector := by
  cases h with
  | int h => exact .int (h.mono hknown)
  | fromEnd h => exact .fromEnd (h.mono hknown)
  | index h => exact .index (h.mono hknown)
  | dynamic h => exact .dynamic (h.mono hknown)
  | rangeLiteral hstart hstop => exact .rangeLiteral (hstart.mono hknown) (hstop.mono hknown)
  | range h => exact .range (h.mono hknown)

namespace Activation

variable {A : Activation} {view : View} {known : List (Operand × Value)} {o o' total : Operand}
  {span : SpanView} {size : Int64}

namespace Realizes

/-- A known operand is what it is known to be. -/
theorem operand {v : Value} (h : o.Known known v) :
    A.Realizes view known (Pure.pure o) view fun r ↦ [(r, v)] := by
  cases h with
  | mem h => exact pure (by simpa using h)
  | literal n => exact literal n

/-- The length of a span. -/
theorem length (hspan : o.Known known (.span span)) :
    A.Realizes view known (Emission.define (.length o)) view fun total ↦
      [(total, .int (Int64.ofNat span.length))] :=
  define fun _ _ hvalues ↦ Operation.run_length (hspan.operand?_eq hvalues)

/-- The difference of two integers. -/
theorem sub {n n' : Int64} (h : o.Known known (.int n)) (h' : o'.Known known (.int n')) :
    A.Realizes view known (Emission.define (.binary .sub o o')) view fun r ↦ [(r, .int (n - n'))] :=
  define fun _ _ hvalues ↦ Operation.run_binary (h.operand?_eq hvalues) (h'.operand?_eq hvalues)

/-- The position of an index in a sequence. -/
theorem getOffset {offset : Offset} (h : o.Known known (.index offset))
    (htotal : total.Known known (.int size)) :
    A.Realizes view known (Emission.define (.getOffset o total)) view fun r ↦
      [(r, .int (offset.resolve size))] :=
  define fun _ _ hvalues ↦
    Operation.run_getOffset (h.operand?_eq hvalues) (htotal.operand?_eq hvalues)

theorem convert {n : Int64} (h : o.Known known (.int n)) :
    A.Realizes view known (Emission.define (.convert o)) view fun r ↦ [(r, .int n)] :=
  define fun _ _ hvalues ↦ Operation.run_convert (h.operand?_eq hvalues)

theorem rangeStart {start stop : Offset} (h : o.Known known (.range start stop)) :
    A.Realizes view known (Emission.define (.rangeStart o)) view fun r ↦ [(r, .index start)] :=
  define fun _ _ hvalues ↦ Operation.run_rangeStart (h.operand?_eq hvalues)

theorem rangeEnd {start stop : Offset} (h : o.Known known (.range start stop)) :
    A.Realizes view known (Emission.define (.rangeEnd o)) view fun r ↦ [(r, .index stop)] :=
  define fun _ _ hvalues ↦ Operation.run_rangeEnd (h.operand?_eq hvalues)

/-- The offset of a bound; the length is known if the bound needs it. -/
theorem boundOffset {isStop : Bool} {b : Bound Operand} {offset : Offset}
    (h : b.Means known isStop offset)
    (htotal : b.needsLength isStop = true → total.Known known (.int size)) :
    A.Realizes view known (b.offset isStop total) view fun r ↦
      [(r, .int (offset.resolve size))] := by
  cases h with
  | omitted =>
    cases isStop with
    | false => exact literal 0
    | true =>
      have hwhole : (⟨0, true⟩ : Offset).resolve size = size := by simp [Offset.resolve]
      rw [hwhole]
      exact Realizes.operand (htotal rfl)
  | int h => exact Realizes.operand h
  | fromEnd h => exact sub (htotal rfl) h
  | index h => exact getOffset h (htotal rfl)

end Realizes

namespace Evaluates

/-- The address of an element of a span. -/
theorem index {n : Int64} (hspan : o.Known known (.span span)) (h : o'.Known known (.int n)) :
    A.Evaluates view known (Emission.define (.index o o')) ((span.index n).map .address) :=
  define fun _ hvalues ↦
    Operation.run_index_eq (hspan.operand?_eq hvalues) (h.operand?_eq hvalues)

/-- The part of a span between two positions. -/
theorem sliceBetween {start stop : Operand} {n n' : Int64} (hspan : o.Known known (.span span))
    (hstart : start.Known known (.int n)) (hstop : stop.Known known (.int n')) :
    A.Evaluates view known
      (Emission.define (.binary .sub stop start) >>= fun count ↦
        Emission.define (.slice o start count))
      ((span.slice n (n' - n)).map .span) :=
  of_bind (.sub hstop hstart) fun count ↦ define fun _ hvalues ↦
    Operation.run_slice_eq (hspan.cons.operand?_eq hvalues) (hstart.cons.operand?_eq hvalues)
      (hvalues (count, _) List.mem_cons_self)

theorem selectIn {s : Subscript Operand} {selector : Selector} (h : s.Means known selector)
    (hspan : o.Known known (.span span))
    (htotal : s.needsLength = true → total.Known known (.int (Int64.ofNat span.length))) :
    A.Evaluates view known (s.selectIn o total) (span.select selector) := by
  cases h with
  | int h => exact index hspan h
  | fromEnd h => exact of_bind (.sub (htotal rfl) h) fun position ↦ index hspan.cons .head
  | index h => exact of_bind (.getOffset h (htotal rfl)) fun position ↦ index hspan.cons .head
  | dynamic h => exact of_bind (.convert h) fun position ↦ index hspan.cons .head
  | rangeLiteral hstart hstop =>
    refine of_bind (.boundOffset hstart fun hneeds ↦ htotal ?_) fun start ↦
      of_bind (.boundOffset (hstop.mono (List.subset_cons_self _ _)) fun hneeds ↦ (htotal ?_).cons)
        fun stop ↦ sliceBetween hspan.cons.cons Operand.Known.head.cons .head
    · exact Bool.or_eq_true_iff.2 (.inl hneeds)
    · exact Bool.or_eq_true_iff.2 (.inr hneeds)
  | range h =>
    have hlength := htotal rfl
    exact of_bind (.rangeStart h) fun _ ↦ of_bind (.getOffset .head hlength.cons) fun start ↦
      of_bind (.rangeEnd h.cons.cons) fun _ ↦
        of_bind (.getOffset .head hlength.cons.cons.cons) fun stop ↦
          sliceBetween hspan.cons.cons.cons.cons Operand.Known.head.cons.cons .head

/-- A span is indexed or sliced as the subscript says. -/
theorem select {s : Subscript Operand} {selector : Selector} (h : s.Means known selector)
    (hspan : o.Known known (.span span)) :
    A.Evaluates view known (s.select o) (span.select selector) := by
  unfold Subscript.select
  split
  · exact of_bind (.length hspan) fun total ↦
      selectIn (h.mono (List.subset_cons_self _ _)) hspan.cons fun _ ↦ .head
  · rename_i hneeds
    exact selectIn h hspan fun h ↦ absurd h hneeds

end Evaluates

end Activation

/-- What an access is lowered to if it ends with what it selects. -/
def Access.demand (a : Access) : Demand := if a.isSlice then .value else .address

namespace Context

variable {c : Context} {id : ExprId} {receiver : Expr} {args : List (Argument Expr)} {a : Access}

theorem lower_element {demand : Demand} (hbind : c.bind (.element id receiver args) = .ok a) :
    c.lower demand (.element id receiver args) =
      c.accessCode demand a (c.lower (c.receiverDemand a) receiver) (c.lowerSubscript a args) := by
  conv_lhs => unfold lower
  rw [hbind]

/-- What an access yields of what it selects; a part of a span has no address. -/
def yieldSelected (c : Context) (demand : Demand) (a : Access) (selected : Operand) : Emit Operand :=
  if a.isSlice then
    match demand with
    | .value => return selected
    | .address => throw (.notAddressable (c.method.text a.expr))
  else demand.fromAddress selected

theorem yieldSelected_element {demand : Demand} (hslice : a.isSlice = false) :
    c.yieldSelected demand a = demand.fromAddress := by
  funext selected
  unfold yieldSelected
  simp only [hslice, Bool.false_eq_true, if_false]

theorem yieldSelected_demand : c.yieldSelected a.demand a = pure := by
  funext selected
  unfold yieldSelected Access.demand
  cases a.isSlice <;> rfl

/-- The code of an access: its receiver as a span, kept in a temporary, its subscript, what the
subscript selects, and what is yielded of it. -/
theorem lower_yielded {demand : Demand} (hbind : c.bind (.element id receiver args) = .ok a) :
    c.lower demand (.element id receiver args) =
      (c.lower (c.receiverDemand a) receiver >>= c.receiverSpan a) >>= fun span ↦
        spill span >>= fun temp ↦ c.lowerSubscript a args >>= fun s ↦
          s.select (.temp temp) >>= c.yieldSelected demand a := by
  rw [lower_element hbind, bind_assoc]
  rfl

theorem lower_selected (hbind : c.bind (.element id receiver args) = .ok a) :
    c.lower a.demand (.element id receiver args) =
      (c.lower (c.receiverDemand a) receiver >>= c.receiverSpan a) >>= fun span ↦
        spill span >>= fun temp ↦ c.lowerSubscript a args >>= fun s ↦ s.select (.temp temp) := by
  simp only [lower_yielded hbind, yieldSelected_demand, bind_pure]

/-- An access that selects in the span that its receiver is. -/
theorem evaluates_access {A : Activation} {view : View} {known : List (Operand × Value)}
    {span : SpanView} {result : Except RuntimeError Value}
    (hbind : c.bind (.element id receiver args) = .ok a)
    (hspan : A.Realizes view known (c.lower (c.receiverDemand a) receiver >>= c.receiverSpan a) view
      fun o ↦ [(o, .span span)])
    (hselect : ∀ o known, o.Known known (.span span) →
      A.Evaluates view known (c.lowerSubscript a args >>= fun s ↦ s.select o) result) :
    A.Evaluates view known (c.lower a.demand (.element id receiver args)) result := by
  rw [lower_selected hbind]
  exact .of_bind hspan fun o ↦ .of_bind (.spill List.mem_cons_self) fun temp ↦
    hselect (.temp temp) _ .head

end Context

end InlineArrays
