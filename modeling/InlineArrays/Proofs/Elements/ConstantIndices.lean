import InlineArrays.Proofs.Elements.Offsets
import Mathlib

/-!
# Constant indices

A constant index into an inline array is checked when the access is bound, without wrapping around.
At run time the offset is a difference that may wrap around and is checked by the span.  The two
checks agree: an access is refused for its constant index exactly if it would fail for it.
-/

namespace InlineArrays

open Emission

/-- An integer literal or `^` of one, and the offset it stands for. -/
inductive Expr.Constant : Expr → Offset → Prop
  | int (id : ExprId) (n : Int64) : Constant (.int id n) ⟨n, false⟩
  | fromEnd (id id' : ExprId) (n : Int64) : Constant (.fromEnd id (.int id' n)) ⟨n, true⟩

namespace Offset

/-- The offset is that of an element of a sequence. -/
def Inside (offset : Offset) (length : Nat) : Prop :=
  0 ≤ offset.position length ∧ offset.position length < length

theorem resolve_inside {offset : Offset} {length : Nat} (hlength : length < 2 ^ 63) :
    (0 ≤ (offset.resolve (Int64.ofNat length)).toInt ∧
      (offset.resolve (Int64.ofNat length)).toInt < length) ↔ offset.Inside length := by
  constructor
  · rintro ⟨h, h'⟩
    obtain ⟨i, hi⟩ := Int.eq_ofNat_of_zero_le h
    have hposition := (toInt_resolve_iff hlength (by omega)).1 hi
    exact ⟨by omega, by omega⟩
  · rintro ⟨h, h'⟩
    obtain ⟨i, hi⟩ := Int.eq_ofNat_of_zero_le h
    have hresolve := (toInt_resolve_iff hlength (by omega)).2 hi
    exact ⟨by omega, by omega⟩

end Offset

/-- An offset selects an element exactly if it is inside. -/
theorem SpanView.select_index {span : SpanView} {base : Address} {offset : Offset}
    (hlength : span.length < 2 ^ 63) (hbase : span.base = some base) :
    (offset.Inside span.length → ∃ i, i < span.length ∧
      span.select (.index offset) = .ok (.address (base.join (.element (span.start + i))))) ∧
    (¬ offset.Inside span.length → ∃ i,
      span.select (.index offset) = .error (.indexOutOfRange i span.length)) := by
  have hselect := index_of_base hbase (offset.resolve (Int64.ofNat span.length))
  constructor
  · intro hinside
    have hposition := (Offset.resolve_inside hlength).2 hinside
    rw [if_pos hposition] at hselect
    refine ⟨(offset.resolve (Int64.ofNat span.length)).toInt.toNat, by omega, ?_⟩
    rw [select, hselect]
    rfl
  · intro houtside
    rw [if_neg fun hposition ↦ houtside ((Offset.resolve_inside hlength).1 hposition)] at hselect
    refine ⟨offset.resolve (Int64.ofNat span.length), ?_⟩
    rw [select, hselect]
    rfl

namespace Context

variable {c : Context} {id : ExprId} {receiver : Expr} {arg : Argument Expr} {offset : Offset}
  {array : ArrayType}

/-- What a constant argument is bound to. -/
theorem subscript_constant (h : arg.value.Constant offset) :
    c.subscript arg.value = .ok arg.value.constantSubscript := by
  obtain ⟨e, name, modifier⟩ := arg
  cases h <;> rfl

theorem outOfBounds?_constant (h : arg.value.Constant offset) (length : Nat) :
    outOfBounds? length arg.value.constantSubscript = none ↔ offset.Inside length := by
  obtain ⟨e, name, modifier⟩ := arg
  cases h with
  | int => exact ite_eq_left_iff.trans (by simp [Offset.Inside, Offset.position])
  | fromEnd id id' n =>
    refine ite_eq_left_iff.trans ?_
    simp only [reduceCtorEq, imp_false, not_not, Offset.Inside, Offset.position, if_true]
    omega

/-- The access is refused for an index outside of its array. -/
def ReportsOutside (c : Context) (e : Expr) : Prop :=
  ∃ errors written length, c.bind e = .error errors ∧
    ⟨.indexOutOfBounds written length, c.method.span e⟩ ∈ errors

theorem not_mem_formErrors {e : Expr} {written : String} {length : Nat} {span : SourceSpan} :
    ⟨.indexOutOfBounds written length, span⟩ ∉ c.formErrors e arg := by
  intro hmem
  rcases List.mem_append.1 hmem with hmem | hmem
  · obtain ⟨name, -, heq⟩ := Option.map_eq_some_iff.1 (Option.mem_toList.1 hmem)
    cases heq
  · split at hmem
    · cases hmem
    · cases List.mem_singleton.1 hmem

theorem not_mem_missing {a : Access} {written : String} {length : Nat} {span : SourceSpan} :
    ⟨.indexOutOfBounds written length, span⟩ ∉ c.missing a := by
  intro hmem
  obtain ⟨m, -, heq⟩ := List.mem_map.1 hmem
  cases heq

theorem reportsOutside_iff (harray : c.types.array? (c.typeOf receiver) = some array)
    (h : arg.value.Constant offset) :
    c.ReportsOutside (.element id receiver [arg]) ↔ ¬ offset.Inside array.length := by
  obtain ⟨p, hindexed, hlength⟩ : ∃ p, c.indexed receiver = .ok (.array p) ∧
      p.length = array.length := by
    simp only [Context.indexed, TypeTable.get_of_array? harray, project?, harray, Option.map_some]
    exact ⟨_, rfl, rfl⟩
  rw [← hlength]
  have hbind : c.bind (.element id receiver [arg]) =
      c.bindOne (.element id receiver [arg]) receiver arg (.array p) := by
    unfold Context.bind
    dsimp only
    rw [hindexed]
  rw [← outOfBounds?_constant h]
  unfold ReportsOutside
  rw [hbind, bindOne, subscript_constant h]
  dsimp only [Indexed.length?, Option.bind_some]
  cases outOfBounds? p.length arg.value.constantSubscript with
  | none =>
    refine iff_of_false ?_ (not_not_intro rfl)
    rintro ⟨errors, written, length, hbind, hmem⟩
    simp only [Option.map_none, Option.toList_none, List.append_nil] at hbind
    split at hbind
    · split at hbind
      · cases hbind
      · cases hbind
        exact not_mem_missing hmem
    · cases hbind
      exact not_mem_formErrors hmem
  | some written =>
    refine iff_of_true ?_ nofun
    simp only [Option.map_some, Option.toList_some]
    split
    · rename_i hnil
      cases (List.append_eq_nil_iff.1 hnil).2
    · exact ⟨_, written, p.length, rfl, List.mem_append_right _ (List.mem_singleton_self _)⟩

theorem not_reportsOutside_of_bind {e : Expr} {a : Access} (hbind : c.bind e = .ok a) :
    ¬ c.ReportsOutside e := by
  rintro ⟨errors, written, length, herror, -⟩
  rw [hbind] at herror
  cases herror

/-- The code of a constant index computes with the offset that the index stands for. -/
theorem evaluates_constant {A : Activation} {view : View} {known : List (Operand × Value)}
    {o : Operand} {span : SpanView} {a : Access} (h : arg.value.Constant offset)
    (hsubscript : c.subscript arg.value = .ok a.subscript) (ho : o.Known known (.span span)) :
    A.Evaluates view known (c.lowerSubscript a [arg] >>= fun s ↦ s.select o)
      (span.select (.index offset)) := by
  obtain ⟨e, name, modifier⟩ := arg
  cases h with
  | int id n =>
    have hint : Subscript.int (.int id n) = a.subscript := Except.ok.inj hsubscript
    have hlower : c.lowerSubscript a [⟨.int id n, name, modifier⟩] = pure (.int (.int n)) := by
      change a.subscript.withValue <$> (pure (.int n) : Emit Operand) = _
      rw [← hint]
      rfl
    rw [hlower, pure_bind]
    exact .select (.int (.literal n)) ho
  | fromEnd id id' n =>
    have hlower : c.lowerSubscript a [⟨.fromEnd id (.int id' n), name, modifier⟩] =
        pure (.fromEnd (.int n)) := rfl
    rw [hlower, pure_bind]
    exact .select (.fromEnd (.literal n)) ho

/-- The constant bounds check is exact: an access to an inline array by a constant index is refused
for it exactly if the code of the index fails on a span of the length of the array.  An access that
binds has the address of an element. -/
theorem constantIndex_exact (harray : c.types.array? (c.typeOf receiver) = some array)
    (hlength : array.length < 2 ^ 63) (h : arg.value.Constant offset) {a : Access}
    (hsubscript : c.subscript arg.value = .ok a.subscript) {span : SpanView} {base : Address}
    (hspan : span.length = array.length) (hbase : span.base = some base) :
    (∀ (A : Activation) (view : View) (o : Operand),
        A.Evaluates view [(o, .span span)] (c.lowerSubscript a [arg] >>= fun s ↦ s.select o)
          (span.select (.index offset))) ∧
      (c.ReportsOutside (.element id receiver [arg]) ↔
        ∃ i, span.select (.index offset) = .error (.indexOutOfRange i array.length)) ∧
      (c.bind (.element id receiver [arg]) = .ok a → ∃ i, i < array.length ∧
        ∀ (A : Activation) (view : View),
          A.Realizes view [] (c.lower (c.receiverDemand a) receiver >>= c.receiverSpan a) view
            (fun o ↦ [(o, .span span)]) →
          A.Realizes view [] (c.lower a.demand (.element id receiver [arg])) view fun r ↦
            [(r, .address (base.join (.element (span.start + i))))]) := by
  rw [← hspan] at hlength
  obtain ⟨hinside, houtside⟩ := SpanView.select_index hlength hbase
  refine ⟨fun A view o ↦ evaluates_constant h hsubscript .head, ?_, fun hbind ↦ ?_⟩
  · rw [reportsOutside_iff harray h, ← hspan]
    refine ⟨houtside, fun ⟨i, hi⟩ hin ↦ ?_⟩
    obtain ⟨j, -, hj⟩ := hinside hin
    rw [hj] at hi
    cases hi
  · have hin : offset.Inside span.length := by
      rw [hspan]
      exact not_not.1 fun hout ↦
        not_reportsOutside_of_bind hbind ((reportsOutside_iff harray h).2 hout)
    obtain ⟨i, hi, hselect⟩ := hinside hin
    refine ⟨i, hspan ▸ hi, fun A view hreceiver ↦ ?_⟩
    have hevaluates := evaluates_access hbind hreceiver fun o known ho ↦
      evaluates_constant h hsubscript ho
    rw [hselect] at hevaluates
    exact hevaluates

end Context

/-- A method that asks a buffer of four elements for the one behind the last. -/
def indexesBehind : Context :=
  let buffer : Expr := .var 0 0
  let behind : Argument Expr := { value := .fromEnd 1 (.int 2 0) }
  let body : Body :=
    { name := "Main"
      exprs := #[buffer, behind.value, .int 2 0, .element 3 buffer [behind]]
      vars := #[{ name := "b", kind := .stackLocal, type := TypeTable.builtin.length }] }
  ⟨bufferTypes, {}, body.finish⟩

/-- The access is refused, and the code of its index fails. -/
theorem indexesBehind_exact :
    let behind : Argument Expr := { value := .fromEnd 1 (.int 2 0) }
    let span : SpanView := ⟨some ⟨.heap 0, []⟩, 0, 4, false⟩
    indexesBehind.ReportsOutside (.element 3 (.var 0 0) [behind]) ∧
      ∀ (A : Activation) (view : View) (o : Operand) (a : Access),
        a.subscript = .fromEnd (.int 2 0) →
        A.Fails view [(o, .span span)]
          (indexesBehind.lowerSubscript a [behind] >>= fun s ↦ s.select o)
          (.indexOutOfRange 4 4) := by
  intro behind span
  have harray : indexesBehind.types.array? (indexesBehind.typeOf (.var 0 0)) =
      some ⟨"Buffer4", TypeTable.int, 4⟩ := by cbv
  have hlength : (⟨"Buffer4", TypeTable.int, 4⟩ : ArrayType).length < 2 ^ 63 := by decide
  have hconstant : behind.value.Constant ⟨0, true⟩ := .fromEnd 1 2 0
  have hselect : span.select (.index ⟨0, true⟩) = .error (.indexOutOfRange 4 4) := by cbv
  have hexact (a : Access) (ha : a.subscript = .fromEnd (.int 2 0)) :=
    @Context.constantIndex_exact indexesBehind 3 (.var 0 0) behind ⟨0, true⟩ _ harray hlength
      hconstant a (congrArg Except.ok ha.symm) span ⟨.heap 0, []⟩ rfl rfl
  refine ⟨?_, fun A view o a ha ↦ ?_⟩
  · let access : Access :=
      ⟨.element 3 (.var 0 0) [behind], .var 0 0, .span .mutable TypeTable.int .temporary,
        .fromEnd (.int 2 0), TypeTable.int⟩
    exact (hexact access rfl).2.1.2 ⟨4, hselect⟩
  · have hevaluates := (hexact a ha).1 A view o
    rw [hselect] at hevaluates
    exact hevaluates

end InlineArrays
