import InlineArrays.Proofs.Code.Ranged
import InlineArrays.Proofs.Code.Misplaced
import InlineArrays.Proofs.Resolution.SpanLocals
import InlineArrays.Proofs.Scenario.Compiled
import InlineArrays.Proofs.Validation.SpanVariables

/-!
# Where spans are kept

Validation follows spans from whole variables to whole variables.  A program keeps its spans where it
follows them if they are no parts of other values, are assigned and passed as what they are, and are
never reached through references within a method.  What validation accepts of expressions and of their
uses then bounds the regions of what is written, bound, passed and returned.
-/

namespace InlineArrays

/-! ## Programs that keep their spans -/

/-- Whether a value of the one type can be held as the other as far as spans are concerned, which are
passed on with no more rights than they have. -/
def TypeTable.holds (t : TypeTable) (type value : TypeId) : Bool :=
  match t.spanParts? type, t.spanParts? value with
  | none, none => true
  | some (_, readonly), some (_, readonly') => !readonly' || readonly
  | _, _ => false

namespace Context

variable (c : Context)

/-- Whether an expression is a field of a span; there are none, but they are not reported. -/
def isFieldOfSpan : Expr → Bool
  | .field _ receiver _ => c.isSpanTyped receiver
  | _ => false

/-- Whether a span may be given to an expression: to a local, or to a parameter that is passed by value
and does not outlive what the span is over. -/
def replacesSpan (value : Expr) : Expr → Bool
  | .var id v =>
    match (c.method.var v).kind with
    | .stackLocal => true
    | .parameter .value => (c.storageOf value).scope.outlives (c.storageOf (.var id v)).scope
    | _ => false
  | _ => false

/-- Whether an argument is passed as its parameter is declared. -/
def takes (parameter : Variable) (arg : Argument Expr) : Bool :=
  c.types.holds parameter.type (c.typeOf arg.value) &&
    match parameter.kind with
    | .parameter .value => arg.modifier == .none
    | .parameter kind => arg.modifier != .none && (kind.isReadonly || arg.modifier != .input)
    | _ => false

/-- Whether a statement keeps spans in whole variables of their own. -/
def keepsSpans (p : Program) : Statement → Bool
  | .expression _ | .ret none => true
  | .assign target value =>
    c.types.holds (c.typeOf target) (c.typeOf value) &&
      (!c.isSpanTyped target || c.replacesSpan value target)
  | .compound target _ _ => !c.isSpanTyped target
  | .refLocal bound init => !c.types.isSpan (c.method.var bound).type && !c.isSpanTyped init
  | .call callee args =>
    (p.method? callee).all fun m ↦
      ((p.context c.members m).parameters.zip args).all fun (v, arg) ↦ c.takes (m.var v) arg
  | .ret (some value) => !(c.method.returns.isByRef && c.isSpanTyped value)

end Context

/-- Spans are parts of no other type, no field is taken of one, and no statement moves one out of sight
of validation. -/
structure Program.KeepsSpans (p : Program) (members : MemberTable) : Prop where
  apart : p.types.SpansApart
  fields : ∀ m ∈ p.methods, ∀ use ∈ m.uses, (p.context members m).isFieldOfSpan use.1 = false
  statements : ∀ m ∈ p.methods, ∀ s ∈ m.statements, (p.context members m).keepsSpans p s

instance (p : Program) (members : MemberTable) : Decidable (p.KeepsSpans members) :=
  decidable_of_iff (p.types.SpansApart ∧
    (∀ m ∈ p.methods, ∀ use ∈ m.uses, (p.context members m).isFieldOfSpan use.1 = false) ∧
    ∀ m ∈ p.methods, ∀ s ∈ m.statements, (p.context members m).keepsSpans p s)
    ⟨fun h ↦ ⟨h.1, h.2.1, h.2.2⟩, fun h ↦ ⟨h.apart, h.fields, h.statements⟩⟩

namespace TypeTable

variable {t : TypeTable} {type value : TypeId}

theorem isSpan_of_holds (h : t.holds type value) : t.isSpan value = t.isSpan type := by
  unfold holds at h
  unfold isSpan
  split at h <;> simp_all

theorem writable_le_of_holds (h : t.holds type value) {parts : TypeId × Bool}
    (hparts : t.spanParts? type = some parts) :
    ∃ parts', t.spanParts? value = some parts' ∧ (!parts.2) ≤ (!parts'.2) := by
  unfold holds at h
  rw [hparts] at h
  split at h
  · cases ‹some parts = none›
  · rename_i readonly element' readonly' htype hvalue
    obtain rfl := Option.some.inj htype
    refine ⟨_, hvalue, Bool.le_iff_imp.2 fun hwritable ↦ ?_⟩
    exact (Bool.or_eq_true_iff.1 h).resolve_right (by simpa using hwritable)
  · cases h

end TypeTable

theorem Usage.demandsRef_of_writes {usage : Usage} (h : usage.writes) : usage.demandsRef := by
  cases usage with
  | argument modifier => cases modifier <;> first | rfl | cases h
  | returned kind => cases kind <;> first | rfl | cases h
  | _ => first | rfl | cases h

namespace Context

variable {c : Context} {e : Expr} {usage : Usage} {o : Outcome}

/-! ## What validation computes -/

/-- Of an access, an element yields what it is stored as, and a slice a span over storage of its
scope. -/
theorem Vetted.outcome_element (hc : c.Vetted) {id : ExprId} {receiver : Expr}
    {args : List (Argument Expr)} {a : Access} (he : c.method.Reaches (.element id receiver args))
    (hbind : c.bind (.element id receiver args) = .ok a)
    (ho : c.outcome? (.element id receiver args) = some o) :
    (a.isSlice = false → o = ⟨shapeOf false (c.storageOf (.element id receiver args)),
      c.storageOf (.element id receiver args)⟩) ∧
    (a.isSlice → o.shape = .span ∧
      o.storage.isOwn = (c.storageOf (.element id receiver args)).isOwn) := by
  rw [hc.storageOf_element hc.valid hc.built hc.apart he hbind]
  obtain ⟨-, -, hindexed, arg, rfl, -⟩ := bind_eq_ok hbind
  cases hi : a.indexed with
  | array p =>
    obtain ⟨type, -, rfl⟩ := project?_of_indexed (hi ▸ hindexed)
    rw [outcome?_of_array hbind hi, hi, Indexed.kind, SpanKind.isReadonly_ofReadonly] at ho
    obtain rfl := Option.some.inj ho
    refine ⟨fun hslice ↦ ?_, fun hslice ↦ ?_⟩ <;> rw [hslice]
    · rfl
    · exact ⟨rfl, rfl⟩
  | span kind element s =>
    obtain ⟨readonly, hget, rfl⟩ := span_of_indexed (hi ▸ hindexed)
    have hstored := indexed_of_span hbind hget
    rw [hi] at hstored
    cases hstored
    rw [outcome?_of_span hbind hi, hi, Indexed.kind, SpanKind.isReadonly_ofReadonly] at ho
    obtain rfl := Option.some.inj ho
    refine ⟨fun hslice ↦ ?_, fun hslice ↦ ?_⟩ <;> rw [hslice]
    · simp only [Bool.false_eq_true, if_false, SpanKind.isReadonly_ofReadonly]
      rfl
    · exact ⟨rfl, rfl⟩

/-- What is computed of an expression that is no span is how it is stored. -/
theorem Vetted.outcome_eq (hc : c.Vetted) (he : c.method.Reaches e)
    (hspan : c.types.isSpan (c.typeOf e) = false) (ho : c.outcome? e = some o) :
    o = ⟨shapeOf false (c.storageOf e), c.storageOf e⟩ := by
  cases helement : e.isElement with
  | false =>
    rw [outcome?, helement, if_neg Bool.false_ne_true, hspan] at ho
    exact (Option.some.inj ho).symm
  | true =>
    cases e with
    | element id receiver args =>
      cases hbind : c.bind (.element id receiver args) with
      | error => simp [outcome?, helement, hbind] at ho
      | ok a =>
        rw [hc.isSpan_element hc.valid hc.built hc.apart he hbind] at hspan
        exact (hc.outcome_element he hbind ho).1 hspan
    | _ => cases helement

/-- A span is over storage of its scope. -/
theorem Vetted.outcome_of_isSpan (hc : c.Vetted) (he : c.method.Reaches e)
    (hspan : c.types.isSpan (c.typeOf e)) (ho : c.outcome? e = some o) :
    o.shape = .span ∧ o.storage.isOwn = (c.storageOf e).isOwn := by
  cases helement : e.isElement with
  | false =>
    rw [outcome?, helement, if_neg Bool.false_ne_true, hspan] at ho
    obtain rfl := Option.some.inj ho
    exact ⟨rfl, rfl⟩
  | true =>
    cases e with
    | element id receiver args =>
      cases hbind : c.bind (.element id receiver args) with
      | error => simp [outcome?, helement, hbind] at ho
      | ok a =>
        rw [hc.isSpan_element hc.valid hc.built hc.apart he hbind] at hspan
        exact (hc.outcome_element he hbind ho).2 hspan
    | _ => cases helement

/-- What has no outcome has no code. -/
theorem lower_eq_throw (h : c.outcome? e = none) (demand : Demand) :
    ∃ error, c.lower demand e = throw error := by
  unfold outcome? at h
  cases e with
  | element id receiver args =>
    unfold Context.lower
    cases hbind : c.bind (.element id receiver args) with
    | error => exact ⟨_, rfl⟩
    | ok a => simp [Expr.isElement, hbind] at h
  | _ => cases h

/-! ## What is held -/

section

variable {type : TypeId} {parts : TypeId × Bool} (hholds : c.types.holds type (c.typeOf e))
  (hparts : c.types.spanParts? type = some parts)
include hholds hparts

theorem valueRegion_le_of_holds {own : Bool} (howned : (c.storageOf e).isOwn ≤ own) :
    c.valueRegion e ≤ .data own (!parts.2) := by
  obtain ⟨parts', hparts', hle⟩ := TypeTable.writable_le_of_holds hholds hparts
  rw [valueRegion, hparts']
  exact Region.data_le_data howned hle

theorem placeRegion_le_of_holds : c.placeRegion e ≤ .spans true (!parts.2) := by
  obtain ⟨parts', hparts', hle⟩ := TypeTable.writable_le_of_holds hholds hparts
  rw [placeRegion, hparts']
  exact Region.spans_le_spans (Bool.le_refl _) hle

end

/-! ## What validation accepts -/

theorem shapeOf_false (s : Storage) : shapeOf false s = if s.referenceable then .ref else .value := rfl

/-- A reference is demanded only of what has an address, unless it may be that of a copy. -/
theorem referenceable_of_objection? {s : Storage} (hdemands : usage.demandsRef)
    (hinput : usage ≠ .argument .input) (h : c.objection? e usage ⟨shapeOf false s, s⟩ = none) :
    s.referenceable := by
  by_contra hnot
  rw [shapeOf_false, if_neg hnot] at h
  cases usage with
  | read | receiver => cases hdemands
  | assignTarget | compoundTarget | refLocalInit => cases h
  | argument modifier =>
    cases modifier with
    | none => cases hdemands
    | input => exact hinput rfl
    | ref | output => cases h
  | returned kind =>
    cases kind with
    | void | value => cases hdemands
    | ref | refReadonly => cases h

/-- What is accepted as something to be written has an address and is not read-only. -/
theorem Vetted.writable (hc : c.Vetted) (he : c.method.Reaches e)
    (hspan : c.types.isSpan (c.typeOf e) = false) (haccepts : c.AcceptsUse (e, usage))
    (husage : usage.writes) (ho : c.outcome? e = some o) :
    (c.storageOf e).projectsReadonly = false := by
  obtain rfl := hc.outcome_eq he hspan ho
  have hobjection := haccepts.objection?_eq_none (Usage.isChecked_of_writes husage) ho
  have hreferenceable : (c.storageOf e).referenceable :=
    referenceable_of_objection? (Usage.demandsRef_of_writes husage)
      (by rintro rfl; cases husage) hobjection
  rw [shapeOf_false, if_pos hreferenceable] at hobjection
  have hwritable := (writable_of_objection? husage hobjection).resolve_right fun h ↦ nomatch h.1
  rw [Storage.projectsReadonly, hwritable, hreferenceable]
  rfl

end Context

end InlineArrays
