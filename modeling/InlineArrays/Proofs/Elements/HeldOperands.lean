import InlineArrays.Proofs.Elements.Reached

/-!
# Literals and what they are kept as

An access whose subscript is written as `^n` or as a range works out offsets from what is written.
A variable that was given the same index or range holds offsets that were made before, from counts
that must not be negative; an access by the variable works out the same offsets from them.  Either
way the same element or part is selected, or nothing is: a count that no index can be made of is
never inside a span.
-/

namespace InlineArrays

open Emission

/-! ## Offsets that are made -/

namespace Offset

variable {offset offset' : Offset} {n : Int64} {fromEnd : Bool} {length : Nat}

/-- An index is made of a count that is not negative. -/
def made (n : Int64) (fromEnd : Bool) : Except RuntimeError Offset :=
  if n < 0 then .error (.negativeIndex n) else .ok ⟨n, fromEnd⟩

theorem made_eq_ok (h : made n fromEnd = .ok offset) : offset = ⟨n, fromEnd⟩ := by
  unfold made at h
  split at h
  · cases h
  · cases h
    rfl

theorem made_of_nonneg (h : 0 ≤ n.toInt) : made n fromEnd = .ok ⟨n, fromEnd⟩ := by
  have hn : ¬ n < 0 := fun hlt ↦ by
    rw [Int64.lt_iff_toInt_lt] at hlt
    exact absurd h (Int.not_le.2 hlt)
  exact if_neg hn

/-- A negative count is outside whatever it counts in, even where the difference wraps around. -/
theorem value_nonneg (hlength : length < 2 ^ 63)
    (h : 0 ≤ (offset.resolve (Int64.ofNat length)).toInt)
    (h' : (offset.resolve (Int64.ofNat length)).toInt ≤ length) : 0 ≤ offset.value.toInt := by
  obtain ⟨i, hi⟩ := Int.eq_ofNat_of_zero_le h
  have hposition := (toInt_resolve_iff hlength (by omega)).1 hi
  unfold position at hposition
  split at hposition <;> omega

end Offset

namespace SpanView

variable {view : SpanView} {v : Value} {offset start stop : Offset} (hlength : view.length < 2 ^ 63)
include hlength

theorem value_nonneg_of_index (h : view.select (.index offset) = .ok v) :
    0 ≤ offset.value.toInt := by
  obtain ⟨element, hindex, -⟩ := Except.map_eq_ok.1 h
  cases hbase : view.base with
  | none =>
    rw [index, hbase] at hindex
    cases hindex
  | some base =>
    rw [index_of_base hbase] at hindex
    split at hindex
    · rename_i hinside
      exact Offset.value_nonneg hlength hinside.1 (Int.le_of_lt hinside.2)
    · cases hindex

theorem value_nonneg_of_range (h : view.select (.range start stop) = .ok v) :
    0 ≤ start.value.toInt ∧ 0 ≤ stop.value.toInt := by
  obtain ⟨part, hslice, -⟩ := Except.map_eq_ok.1 h
  rw [slice_sub hlength] at hslice
  split at hslice
  · rename_i hinside
    obtain ⟨hstart, hle, hstop⟩ := hinside
    exact ⟨Offset.value_nonneg hlength hstart (Int.le_trans hle hstop),
      Offset.value_nonneg hlength (Int.le_trans hstart hle) hstop⟩
  · cases hslice

end SpanView

/-- The index that is made of a count. -/
theorem Activation.Evaluates.makeIndex {A : Activation} {view : View}
    {known : List (Operand × Value)} {o : Operand} {n : Int64} {fromEnd : Bool}
    (h : o.Known known (.int n)) :
    A.Evaluates view known (Emission.define (.makeIndex o fromEnd))
      ((Offset.made n fromEnd).map .index) := by
  refine .define fun m hvalues ↦ ?_
  rw [Operation.run_makeIndex (h.operand?_eq hvalues), Offset.made]
  split <;> rfl

namespace Context

variable {c : Context} {A : Activation} {view : View}

/-! ## Code of operands -/

/-- A bound that is not written as `^n` is lowered to its value. -/
theorem lowerBound_value {e : Expr} (hform : ∀ id count, e ≠ .fromEnd id count) :
    c.lowerBound (some e) = c.boundBy e <$> c.lower .value e := by
  cases e with
  | fromEnd id count => exact absurd rfl (hform id count)
  | _ => rfl

/-- An argument that is no literal of its own is lowered to its value. -/
theorem lowerSubscript_value {a : Access} {arg : Argument Expr}
    (hform : ∀ id count, arg.value ≠ .fromEnd id count)
    (hform' : ∀ id start stop, arg.value ≠ .range id start stop) :
    c.lowerSubscript a [arg] = a.subscript.withValue <$> c.lower .value arg.value := by
  obtain ⟨e, name, modifier⟩ := arg
  cases e with
  | fromEnd id count => exact absurd rfl (hform id count)
  | range id start stop => exact absurd rfl (hform' id start stop)
  | _ => rfl

theorem lower_fromEnd (id : ExprId) (count : Expr) :
    c.lower .value (.fromEnd id count) =
      c.lower .value count >>= fun o ↦ define (.makeIndex o true) := rfl

/-! ## Bounds -/

/-- A bound of a range literal, the offset it stands for, and the index that is made of it.  An
`Index` is an offset as it is; the other bounds have an index made of them. -/
inductive BoundYields (c : Context) (A : Activation) (view : View) (isStop : Bool) :
    Option Expr → Offset → Except RuntimeError Offset → Prop
  | omitted : BoundYields c A view isStop none ⟨0, isStop⟩ (Offset.made 0 isStop)
  | int {e : Expr} {n : Int64} (htype : c.typeOf e = TypeTable.int)
      (h : A.Realizes view [] (c.lower .value e) view fun o ↦ [(o, .int n)]) :
      BoundYields c A view isStop (some e) ⟨n, false⟩ (Offset.made n false)
  | fromEnd {id : ExprId} {count : Expr} {n : Int64}
      (h : A.Realizes view [] (c.lower .value count) view fun o ↦ [(o, .int n)]) :
      BoundYields c A view isStop (some (.fromEnd id count)) ⟨n, true⟩ (Offset.made n true)
  | index {e : Expr} {offset : Offset} (htype : c.typeOf e = TypeTable.index)
      (hform : ∀ id count, e ≠ .fromEnd id count)
      (h : A.Realizes view [] (c.lower .value e) view fun o ↦ [(o, .index offset)]) :
      BoundYields c A view isStop (some e) offset (.ok offset)

namespace BoundYields

variable {isStop : Bool} {bound : Option Expr} {offset : Offset}
  {made : Except RuntimeError Offset} {known : List (Operand × Value)}

theorem eq_of_made (h : c.BoundYields A view isStop bound offset made) {offset' : Offset}
    (hmade : made = .ok offset') : offset' = offset := by
  cases h with
  | omitted | int | fromEnd => exact Offset.made_eq_ok hmade
  | index => exact (Except.ok.inj hmade).symm

theorem made_of_nonneg (h : c.BoundYields A view isStop bound offset made)
    (hvalue : 0 ≤ offset.value.toInt) : made = .ok offset := by
  cases h with
  | omitted | int | fromEnd => exact Offset.made_of_nonneg hvalue
  | index => rfl

/-- The code of a bound of an access ends with what stands for its offset. -/
theorem lowerBound (h : c.BoundYields A view isStop bound offset made)
    {f : Bound Operand → Emit Operand} {result : Except RuntimeError Value}
    (hf : ∀ b more, known ⊆ more → b.Means more isStop offset → A.Evaluates view more (f b) result) :
    A.Evaluates view known (c.lowerBound bound >>= f) result := by
  have hbind {make : Operand → Bound Operand} {e : Expr} {v : Value}
      (hlower : c.lowerBound bound = make <$> c.lower .value e)
      (h : A.Realizes view [] (c.lower .value e) view fun o ↦ [(o, v)])
      (hmeans : ∀ o, (make o).Means ((o, v) :: known) isStop offset) :
      A.Evaluates view known (c.lowerBound bound >>= f) result := by
    rw [hlower, bind_map_left]
    exact .of_bind (h.mono (List.nil_subset known)) fun o ↦
      hf _ _ (List.subset_cons_self _ known) (hmeans o)
  cases h with
  | omitted => exact hf .omitted known (List.Subset.refl known) .omitted
  | @int e n htype h =>
    have hform : ∀ id count, e ≠ .fromEnd id count := by
      rintro id count rfl
      cases htype
    refine hbind (lowerBound_value hform) h fun o ↦ ?_
    rw [show c.boundBy e o = .int o from if_pos htype]
    exact .int .head
  | @fromEnd id count n h => exact hbind rfl h fun o ↦ .fromEnd .head
  | @index e offset htype hform h =>
    refine hbind (lowerBound_value hform) h fun o ↦ ?_
    rw [show c.boundBy e o = .index o from if_neg (by rw [htype]; decide)]
    exact .index .head

/-- The code of a bound of a range ends with the index that is made of it. -/
theorem lowerIndex (h : c.BoundYields A view isStop bound offset made) :
    A.Evaluates view [] (c.lowerIndex isStop bound) (made.map .index) := by
  cases h with
  | omitted => exact .makeIndex (.literal 0)
  | @int e n htype h =>
    have hindexBy (o : Operand) : c.indexBy e o = define (.makeIndex o false) := if_pos htype
    exact .of_bind h fun o ↦ hindexBy o ▸ .makeIndex .head
  | @fromEnd id count n h =>
    have hlower : c.lowerIndex isStop (some (.fromEnd id count)) =
        c.lower .value (.fromEnd id count) := bind_pure _
    rw [hlower, lower_fromEnd]
    exact .of_bind h fun o ↦ .makeIndex .head
  | @index e offset htype hform h =>
    have hindexBy (o : Operand) : c.indexBy e o = pure o := if_neg (by rw [htype]; decide)
    exact .of_bind h fun o ↦ hindexBy o ▸ .operand .head

end BoundYields

/-! ## Literals -/

/-- A literal that selects, what it stands for, and the value that is made of it. -/
inductive LiteralYields (c : Context) (A : Activation) (view : View) :
    Expr → Selector → Except RuntimeError Selector → Prop
  | fromEnd {id : ExprId} {count : Expr} {n : Int64}
      (h : A.Realizes view [] (c.lower .value count) view fun o ↦ [(o, .int n)]) :
      LiteralYields c A view (.fromEnd id count) (.index ⟨n, true⟩)
        ((Offset.made n true).map .index)
  | range {id : ExprId} {start stop : Option Expr} {first last : Offset}
      {first' last' : Except RuntimeError Offset}
      (hstart : c.BoundYields A view false start first first')
      (hstop : c.BoundYields A view true stop last last') :
      LiteralYields c A view (.range id start stop) (.range first last)
        (first' >>= fun first ↦ last'.map fun last ↦ .range first last)

namespace LiteralYields

variable {literal : Expr} {selector : Selector} {made : Except RuntimeError Selector}
  {known : List (Operand × Value)}

/-- The code of a literal ends with the value that is made of it. -/
theorem lower (h : c.LiteralYields A view literal selector made) :
    A.Evaluates view [] (c.lower .value literal) (made.map Selector.value) := by
  cases h with
  | @fromEnd id count n h =>
    have hvalue : ((Offset.made n true).map Selector.index).map Selector.value =
        (Offset.made n true).map .index := by
      cases Offset.made n true <;> rfl
    rw [lower_fromEnd, hvalue]
    exact .of_bind h fun o ↦ .makeIndex .head
  | @range id start stop first last first' last' hstart hstop =>
    have hvalue : (first' >>= fun first ↦ last'.map fun last ↦ Selector.range first last).map
          Selector.value =
        first' >>= fun first ↦ last' >>= fun last ↦ .ok (.range first last) := by
      cases first' <;> cases last' <;> rfl
    rw [hvalue]
    refine .bind hstart.lowerIndex (fun o first ↦ ?_) fun o ↦ ?_
    · refine .bind (hstop.lowerIndex.mono (List.nil_subset _)) (fun o' last ↦ ?_) fun _ ↦ .define
      exact .define fun m hvalues ↦ Operation.run_makeRange
        (hvalues (o, _) (List.mem_cons_of_mem _ List.mem_cons_self)) (hvalues (o', _) List.mem_cons_self)
    · exact hstop.lowerIndex.alwaysEmits.bind fun _ ↦ .define

/-- The code of a literal subscript ends with what stands for its offsets. -/
theorem lowerSubscript (h : c.LiteralYields A view literal selector made) {a : Access}
    {name : Option String} {modifier : Modifier} {f : Subscript Operand → Emit Operand}
    {result : Except RuntimeError Value}
    (hf : ∀ s more, known ⊆ more → s.Means more selector → A.Evaluates view more (f s) result) :
    A.Evaluates view known (c.lowerSubscript a [⟨literal, name, modifier⟩] >>= f) result := by
  cases h with
  | @fromEnd id count n h =>
    have hlower : c.lowerSubscript a [⟨.fromEnd id count, name, modifier⟩] =
        Subscript.fromEnd <$> c.lower .value count := rfl
    rw [hlower, bind_map_left]
    exact .of_bind (h.mono (List.nil_subset known)) fun o ↦
      hf _ _ (List.subset_cons_self _ known) (.fromEnd .head)
  | @range id start stop first last first' last' hstart hstop =>
    have hlower : c.lowerSubscript a [⟨.range id start stop, name, modifier⟩] =
        c.lowerBound start >>= fun start ↦ c.lowerBound stop >>= fun stop ↦
          pure (.rangeLiteral start stop) := rfl
    rw [hlower, bind_assoc]
    refine hstart.lowerBound fun b more hmore hfirst ↦ ?_
    rw [bind_assoc]
    refine hstop.lowerBound fun b' more' hmore' hlast ↦ ?_
    rw [pure_bind]
    exact hf _ more' (List.Subset.trans hmore hmore') (.rangeLiteral (hfirst.mono hmore') hlast)

theorem eq_of_made (h : c.LiteralYields A view literal selector made) {selector' : Selector}
    (hmade : made = .ok selector') : selector' = selector := by
  cases h with
  | fromEnd =>
    obtain ⟨offset, hoffset, rfl⟩ := Except.map_eq_ok.1 hmade
    rw [Offset.made_eq_ok hoffset]
  | range hstart hstop =>
    obtain ⟨first, hfirst, hmade⟩ := Except.bind_eq_ok.1 hmade
    obtain ⟨last, hlast, rfl⟩ := Except.map_eq_ok.1 hmade
    rw [hstart.eq_of_made hfirst, hstop.eq_of_made hlast]

/-- A value can be made of a literal that selects anything. -/
theorem made_of_select (h : c.LiteralYields A view literal selector made) {span : SpanView}
    (hlength : span.length < 2 ^ 63) {v : Value} (hselect : span.select selector = .ok v) :
    made = .ok selector := by
  cases h with
  | fromEnd =>
    rw [Offset.made_of_nonneg (SpanView.value_nonneg_of_index hlength hselect)]
    rfl
  | range hstart hstop =>
    obtain ⟨hfirst, hlast⟩ := SpanView.value_nonneg_of_range hlength hselect
    rw [hstart.made_of_nonneg hfirst, hstop.made_of_nonneg hlast]
    rfl

/-- If a literal selects anything, then the value that is made of it selects the same. -/
theorem toOption_select (h : c.LiteralYields A view literal selector made) {span : SpanView}
    (hlength : span.length < 2 ^ 63) :
    (span.select selector).toOption = (made >>= span.select).toOption := by
  cases hmade : made with
  | ok selector' =>
    rw [h.eq_of_made hmade]
    rfl
  | error e =>
    cases hselect : span.select selector with
    | error e' => rfl
    | ok v =>
      rw [h.made_of_select hlength hselect] at hmade
      cases hmade

end LiteralYields

/-! ## Operands that hold a value -/

/-- The form of a subscript that has a value of its own. -/
def heldSubscript (held : Expr) : Selector → Subscript Expr
  | .index _ => .index held
  | .range .. => .range held

/-- The code of an access by a value selects what the value says. -/
theorem evaluates_held {id : ExprId} {receiver : Expr} {arg : Argument Expr} {a : Access}
    {span : SpanView} {selector : Selector}
    (hbind : c.bind (.element id receiver [arg]) = .ok a)
    (hsubscript : a.subscript = heldSubscript arg.value selector)
    (hspan : A.Realizes view [] (c.lower (c.receiverDemand a) receiver >>= c.receiverSpan a) view
      fun o ↦ [(o, .span span)])
    (harg : A.Realizes view [] (c.lower .value arg.value) view fun o ↦ [(o, selector.value)]) :
    A.Evaluates view [] (c.lower a.demand (.element id receiver [arg])) (span.select selector) := by
  obtain ⟨-, -, -, arg', hargs, hform, -⟩ := bind_eq_ok hbind
  obtain rfl : arg = arg' := (List.cons.inj hargs).1
  rw [hsubscript] at hform
  have hlower : c.lowerSubscript a [arg] = a.subscript.withValue <$> c.lower .value arg.value := by
    refine lowerSubscript_value (fun id count heq ↦ ?_) fun id start stop heq ↦ ?_
    · rw [heq, Context.subscript] at hform
      obtain ⟨_, -, heq'⟩ := Except.map_eq_ok.1 hform
      cases selector <;> cases heq'
    · rw [heq, Context.subscript] at hform
      obtain ⟨_, -, hform⟩ := Except.bind_eq_ok.1 hform
      obtain ⟨_, -, heq'⟩ := Except.bind_eq_ok.1 hform
      cases selector <;> cases heq'
  refine evaluates_access hbind hspan fun o known ho ↦ ?_
  rw [hlower, bind_map_left, hsubscript]
  refine .of_bind (harg.mono (List.nil_subset known)) fun o' ↦ ?_
  cases selector with
  | index => exact .select (.index .head) ho.cons
  | range => exact .select (.range .head) ho.cons

end Context

/-- A method that slices a span by `1..^1` and by a range that a local holds. -/
def slicesTwice : Context :=
  let span : Expr := .var 0 0
  let range : Expr := .range 1 (some (.int 2 1)) (some (.fromEnd 3 (.int 4 1)))
  let held : Expr := .var 5 1
  let body : Body :=
    { name := "Main"
      exprs := #[span, range, .int 2 1, .fromEnd 3 (.int 4 1), .int 4 1, held,
        .element 6 span [{ value := range }], .element 7 span [{ value := held }]]
      vars := #[{ name := "s", kind := .stackLocal, type := TypeTable.builtin.length + 1 },
        { name := "r", kind := .stackLocal, type := TypeTable.range }] }
  ⟨bufferTypes, {}, body.finish⟩

/-- An activation of the method, with room for what the slices compute. -/
def slicesTwiceActivation : Activation where
  types := bufferTypes
  invoke callee _ := throw (.unknownMethod callee)
  frame := 0
  valueCount := 20
  tempCount := 2

end InlineArrays
