import InlineArrays.Proofs.Resolution.Replacement
import InlineArrays.Proofs.Scenario.UsedOnce
import InlineArrays.Proofs.Validation.Untyped

/-!
# Rejections on receiver chains

What is wrong with an expression is reported once, and a report on one of the receivers that an
expression is built on stands for it: how the expression is used is not checked then.  A receiver is
used by value, so only what is wrong with it wherever it is used is ever reported for it.  A mutable
span conversion is the one expression that is rejected whatever its operand is built on; an array
without an address, which cannot be sliced, is not built on anything that is rejected.
-/

namespace InlineArrays

namespace Expr

/-- The receivers that an expression is built on. -/
def receivers : Expr → List Expr
  | .field _ receiver _ | .element _ receiver _ | .span _ receiver _ =>
    receiver :: receiver.receivers
  | _ => []
termination_by structural e => e

end Expr

theorem Rejections.covers_eq (r : Rejections) : (e : Expr) →
    r.covers e = (e :: e.receivers).any fun part ↦ r.rejected.contains part.id
  | .field _ receiver _ | .element _ receiver _ | .span _ receiver _ => by
    rw [covers, r.covers_eq receiver]
    rfl
  | .var .. | .call .. | .int .. | .bool .. | .string .. | .fromEnd .. | .range .. | .default ..
  | .conditional .. | .placeholder .. => (Bool.or_false _).symm

theorem Rejections.not_mem_of_covers {r : Rejections} {e part : Expr} (h : r.covers e = false)
    (hpart : part ∈ e :: e.receivers) : part.id ∉ r.rejected := by
  rw [r.covers_eq] at h
  simpa using List.any_eq_false.1 h part hpart

/-! ## Receivers come first -/

/-- Before each use, and after those in `seen`, the receivers of the expression have been used. -/
def ReceiversFirst (seen : List Use) : List Use → Prop
  | [] => True
  | use :: uses =>
    (∀ part ∈ use.1.receivers, (part, .receiver) ∈ seen) ∧ ReceiversFirst (seen ++ [use]) uses

namespace ReceiversFirst

variable {seen uses uses' : List Use}

theorem append : ReceiversFirst seen (uses ++ uses') ↔
    ReceiversFirst seen uses ∧ ReceiversFirst (seen ++ uses) uses' := by
  induction uses generalizing seen with
  | nil => simp [ReceiversFirst]
  | cons use uses ih => simp [ReceiversFirst, ih, and_assoc]

/-- All that is used has its receivers used. -/
theorem mem_of_mem (h : ReceiversFirst seen uses) {use : Use} (huse : use ∈ uses) {part : Expr}
    (hpart : part ∈ use.1.receivers) : (part, .receiver) ∈ seen ++ uses := by
  induction uses generalizing seen with
  | nil => cases huse
  | cons first uses ih =>
    rcases List.mem_cons.1 huse with rfl | huse
    · exact List.mem_append_left _ (h.1 part hpart)
    · have hmem := ih h.2 huse
      rwa [List.append_assoc] at hmem

theorem flatMap {α : Type} {l : List α} {f : α → List Use}
    (h : ∀ a ∈ l, ∀ seen, ReceiversFirst seen (f a)) (seen : List Use) :
    ReceiversFirst seen (l.flatMap f) := by
  induction l generalizing seen with
  | nil => trivial
  | cons a l ih =>
    rw [List.flatMap_cons]
    exact append.2 ⟨h a List.mem_cons_self seen, ih (fun a ha ↦ h a (List.mem_cons_of_mem _ ha)) _⟩

end ReceiversFirst

namespace Expr

theorem mem_usesAfterParts_self (e : Expr) (usage : Usage) : (e, usage) ∈ e.usesAfterParts usage := by
  cases e with
  | range => exact usesAfterParts_range .. ▸ List.mem_append_right _ (List.mem_singleton_self _)
  | field | element | span | fromEnd | conditional =>
    exact List.mem_append_right _ (List.mem_singleton_self _)
  | _ => exact List.mem_singleton_self _

theorem receivers_used : (e : Expr) → (usage : Usage) → ∀ part ∈ e.receivers,
    (part, .receiver) ∈ e.usesAfterParts usage
  | .field _ receiver _, _, part, hpart | .element _ receiver _, _, part, hpart
  | .span _ receiver _, _, part, hpart => by
    have hmem : (part, .receiver) ∈ receiver.usesAfterParts .receiver := by
      rcases List.mem_cons.1 hpart with rfl | hpart
      · exact part.mem_usesAfterParts_self _
      · exact receiver.receivers_used _ part hpart
    simp [usesAfterParts, hmem]

theorem receiversFirst_concat {e receiver : Expr} {usage : Usage} {seen uses : List Use}
    (he : e.receivers = receiver :: receiver.receivers) (h : ReceiversFirst seen uses)
    (huses : receiver.usesAfterParts .receiver ⊆ uses) :
    ReceiversFirst seen (uses ++ [(e, usage)]) := by
  refine ReceiversFirst.append.2 ⟨h, fun part hpart ↦ ?_, trivial⟩
  rw [he] at hpart
  refine List.mem_append_right _ (huses ?_)
  rcases List.mem_cons.1 hpart with rfl | hpart
  · exact part.mem_usesAfterParts_self _
  · exact receiver.receivers_used _ part hpart

theorem receiversFirst_leaf {e : Expr} (he : e.receivers = []) (seen : List Use) (usage : Usage) :
    ReceiversFirst seen [(e, usage)] := by
  refine ⟨fun part hpart ↦ ?_, trivial⟩
  rw [he] at hpart
  cases hpart

mutual

/-- The uses in an expression, which come after those in its parts. -/
theorem receiversFirst : (e : Expr) → (usage : Usage) → (seen : List Use) →
    ReceiversFirst seen (e.usesAfterParts usage)
  | .field _ receiver _, _, seen | .span _ receiver _, _, seen =>
    receiversFirst_concat rfl (receiver.receiversFirst _ seen) (List.Subset.refl _)
  | .element _ receiver args, _, seen =>
    receiversFirst_concat rfl (ReceiversFirst.append.2
      ⟨receiver.receiversFirst _ seen, argumentsReceiversFirst args _⟩)
      (List.subset_append_left _ _)
  | .fromEnd _ count, _, seen =>
    ReceiversFirst.append.2 ⟨count.receiversFirst _ seen, receiversFirst_leaf rfl _ _⟩
  | .range _ start stop, _, seen => by
    rw [usesAfterParts_range]
    refine ReceiversFirst.append.2 ⟨ReceiversFirst.append.2 ⟨?_, ?_⟩, receiversFirst_leaf rfl _ _⟩
    · cases start with
      | none => trivial
      | some bound => exact bound.receiversFirst _ _
    · cases stop with
      | none => trivial
      | some bound => exact bound.receiversFirst _ _
  | .conditional _ receiver access, _, seen =>
    ReceiversFirst.append.2 ⟨ReceiversFirst.append.2
      ⟨receiver.receiversFirst _ seen, access.receiversFirst _ _⟩, receiversFirst_leaf rfl _ _⟩
  | .var .., _, seen | .call .., _, seen | .int .., _, seen | .bool .., _, seen
  | .string .., _, seen | .default .., _, seen | .placeholder .., _, seen =>
    receiversFirst_leaf rfl seen _

theorem argumentsReceiversFirst : (args : List (Argument Expr)) → (seen : List Use) →
    ReceiversFirst seen (argumentUsesAfterParts args)
  | [], _ => trivial
  | arg :: args, seen =>
    ReceiversFirst.append.2 ⟨arg.value.receiversFirst _ seen, argumentsReceiversFirst args _⟩

end

end Expr

theorem Body.receiversFirst (b : Body) : ReceiversFirst [] b.usesAfterParts :=
  ReceiversFirst.flatMap (fun _ _ ↦ ReceiversFirst.flatMap fun operand _ ↦
    operand.1.receiversFirst operand.2) []

/-! ## What a rejection says -/

namespace Context

variable {c : Context}

/-- What speaks against a use that is rejected: the expression is wrong however it is used; or it is
not merely the receiver of another one, and nothing is wrong with the receivers that it is built on. -/
def Blames (c : Context) (use : Use) : Prop :=
  (c.innateError? use.1).isSome ∨
    ¬ Use.IsPassive use ∧ use.2 ≠ .receiver ∧ ∀ part ∈ use.1.receivers, c.innateError? part = none

theorem Blames.not_passive {use : Use} (h : c.Blames use) : ¬ Use.IsPassive use := by
  rcases h with h | h
  · rintro ⟨hplaceholder, -⟩
    obtain ⟨e, usage⟩ := use
    cases e with
    | placeholder => cases h
    | _ => cases hplaceholder
  · exact h.1

/-- The expressions rejected so far are among those seen, each rejected once and for a reason, and
include all that are wrong however they are used. -/
structure Judged (c : Context) (seen : List Use) (r : Rejections) : Prop where
  innate : ∀ use ∈ seen, (c.innateError? use.1).isSome → use.1.id ∈ r.rejected
  blamed : ∀ id ∈ r.rejected, ∃ use ∈ seen, use.1.id = id ∧ c.Blames use
  nodup : r.rejected.Nodup
  length : r.reasons.length = r.rejected.length

namespace Judged

variable {seen uses : List Use} {r : Rejections} {use : Use}

theorem empty : c.Judged [] {} := ⟨nofun, nofun, .nil, rfl⟩

theorem passes (h : c.Judged seen r) (hinnate : c.innateError? use.1 = none) :
    c.Judged (seen ++ [use]) r where
  innate use' huse' hsome := by
    rcases List.mem_append.1 huse' with huse' | huse'
    · exact h.innate use' huse' hsome
    · rw [List.mem_singleton.1 huse', hinnate] at hsome
      cases hsome
  blamed id hid := by
    obtain ⟨use', huse', hblames⟩ := h.blamed id hid
    exact ⟨use', List.mem_append_left _ huse', hblames⟩
  nodup := h.nodup
  length := h.length

/-- A rejection of a use that has been seen, or is seen now. -/
theorem rejects {seen' : List Use} (h : c.Judged seen r) (hseen : seen ⊆ seen')
    (hnew : ∀ use' ∈ seen', use' ∈ seen ∨ use' = use) (huse : use ∈ seen') (hblames : c.Blames use)
    (hid : use.1.id ∉ r.rejected) (reason : Diagnostic) :
    c.Judged seen' (r.reject use.1 reason) where
  innate use' huse' hsome := by
    rcases hnew use' huse' with huse' | rfl
    · exact List.mem_cons_of_mem _ (h.innate use' huse' hsome)
    · exact List.mem_cons_self
  blamed id hid' := by
    rcases List.mem_cons.1 hid' with rfl | hid'
    · exact ⟨use, huse, rfl, hblames⟩
    · obtain ⟨use', huse', hblames'⟩ := h.blamed id hid'
      exact ⟨use', hseen huse', hblames'⟩
  nodup := List.nodup_cons.2 ⟨hid, h.nodup⟩
  length := by simp [Rejections.reject, h.length]

/-- Nothing is wrong with receivers that are not rejected, once they have been seen. -/
theorem innateError?_eq_none (h : c.Judged seen r) {e part : Expr} (hcovers : r.covers e = false)
    (hseen : (part, .receiver) ∈ seen) (hpart : part ∈ e.receivers) :
    c.innateError? part = none := by
  by_contra hsome
  exact Rejections.not_mem_of_covers hcovers (List.mem_cons_of_mem _ hpart)
    (h.innate _ hseen (Option.isSome_iff_ne_none.2 hsome))

/-- A use that is not passive is of an expression that has not been rejected before. -/
theorem not_mem_of_apart (h : c.Judged seen r) (hapart : ∀ use' ∈ seen, Use.Apart use' use)
    (huse : ¬ Use.IsPassive use) : use.1.id ∉ r.rejected := by
  intro hid
  obtain ⟨use', huse', hsame, -⟩ := h.blamed _ hid
  exact huse (hapart use' huse' hsame).2

/-- The check of one use. -/
theorem checkUse (h : c.Judged seen r) (hapart : ∀ use' ∈ seen, Use.Apart use' use)
    (hreceivers : ∀ part ∈ use.1.receivers, (part, .receiver) ∈ seen) :
    c.Judged (seen ++ [use]) (r.checkUse c use) := by
  have hrejects (hblames : c.Blames use) (reason : Diagnostic) :
      c.Judged (seen ++ [use]) (r.reject use.1 reason) :=
    h.rejects (List.subset_append_left _ _) (by simp) (by simp) hblames
      (h.not_mem_of_apart hapart hblames.not_passive) reason
  unfold Rejections.checkUse
  cases hinnate : c.innateError? use.1 with
  | some reason => exact hrejects (.inl (by rw [hinnate]; rfl)) reason
  | none =>
    dsimp only
    split
    · rename_i hchecked
      obtain ⟨hchecked, hcovers⟩ := Bool.and_eq_true_iff.1 hchecked
      have hcovers : r.covers use.1 = false := by simpa using hcovers
      split
      · refine hrejects (.inr ⟨fun hpassive ↦ ?_, fun hreceiver ↦ ?_, fun part hpart ↦ ?_⟩) _
        · rw [hpassive.2] at hchecked
          cases hchecked
        · rw [hreceiver] at hchecked
          cases hchecked
        · exact h.innateError?_eq_none hcovers (hreceivers part hpart) hpart
      · exact h.passes hinnate
    · exact h.passes hinnate

theorem foldl_checkUse (h : c.Judged seen r) (hapart : (seen ++ uses).Pairwise Use.Apart)
    (hfirst : ReceiversFirst seen uses) :
    c.Judged (seen ++ uses) (uses.foldl (Rejections.checkUse c) r) := by
  induction uses generalizing seen r with
  | nil => rwa [List.append_nil]
  | cons use uses ih =>
    rw [← List.singleton_append, ← List.append_assoc] at hapart ⊢
    refine ih (h.checkUse (fun use' huse' ↦ ?_) hfirst.1) hapart hfirst.2
    have hpairs := (List.pairwise_append.1 (List.pairwise_append.1 hapart).1).2.2
    exact hpairs use' huse' use (List.mem_singleton_self _)

/-- The check of the value that a span-typed local is assigned. -/
theorem checkSpanLocal (h : c.Judged seen r) {s : Statement}
    (hvalue : ∀ target value, s = .assign target value → value.isPlaceholder = false ∧
      (value, .read) ∈ seen ∧ ∀ part ∈ value.receivers, (part, .receiver) ∈ seen) :
    c.Judged seen (r.checkSpanLocal c s) := by
  unfold Rejections.checkSpanLocal
  split
  · rename_i target value
    split
    · dsimp only
      split
      · rename_i hshrinks
        simp only [Bool.and_eq_true, Bool.not_eq_true'] at hshrinks
        have hcovers := hshrinks.1.2
        obtain ⟨hplaceholder, hseen, hreceivers⟩ := hvalue _ _ rfl
        have hblames : c.Blames (value, .read) :=
          .inr ⟨fun hpassive ↦ Bool.eq_false_iff.1 hplaceholder hpassive.1, nofun,
            fun part hpart ↦ h.innateError?_eq_none hcovers (hreceivers part hpart) hpart⟩
        exact h.rejects (List.Subset.refl _) (fun _ ↦ .inl) hseen hblames
          (Rejections.not_mem_of_covers hcovers List.mem_cons_self) _
      · exact h
    · exact h
  · exact h

theorem checkStatement (h : c.Judged seen r) {s : Statement}
    (hapart : (seen ++ s.usesAfterParts c.method.toBody).Pairwise Use.Apart)
    (hfirst : ReceiversFirst seen (s.usesAfterParts c.method.toBody))
    (hplaceholder : ∀ e ∈ s.exprs, e.isPlaceholder = false) :
    c.Judged (seen ++ s.usesAfterParts c.method.toBody) (r.checkStatement c s) := by
  refine (h.foldl_checkUse hapart hfirst).checkSpanLocal fun target value hs ↦ ?_
  subst hs
  have huse : (value, .read) ∈ (Statement.assign target value).usesAfterParts c.method.toBody := by
    simp [Statement.usesAfterParts, Statement.operands, value.mem_usesAfterParts_self]
  exact ⟨hplaceholder value (by simp [Statement.exprs]), List.mem_append_right _ huse,
    fun part hpart ↦ hfirst.mem_of_mem huse hpart⟩

theorem foldl_checkStatement (h : c.Judged seen r) {statements : List Statement}
    (hapart : (seen ++ statements.flatMap (·.usesAfterParts c.method.toBody)).Pairwise Use.Apart)
    (hfirst : ReceiversFirst seen (statements.flatMap (·.usesAfterParts c.method.toBody)))
    (hplaceholder : ∀ s ∈ statements, ∀ e ∈ s.exprs, e.isPlaceholder = false) :
    c.Judged (seen ++ statements.flatMap (·.usesAfterParts c.method.toBody))
      (statements.foldl (Rejections.checkStatement c) r) := by
  induction statements generalizing seen r with
  | nil => rwa [List.flatMap_nil, List.append_nil]
  | cons s statements ih =>
    rw [List.flatMap_cons] at hfirst hapart ⊢
    rw [← List.append_assoc] at hapart ⊢
    obtain ⟨hstatement, hrest⟩ := ReceiversFirst.append.1 hfirst
    obtain ⟨hhead, htail⟩ := List.forall_mem_cons.1 hplaceholder
    exact ih (h.checkStatement (List.pairwise_append.1 hapart).1 hstatement hhead) hapart hrest htail

end Judged

/-! ## Arrays without an address -/

/-- What has the type of an inline array or of a struct is no span. -/
def IsCompound (c : Context) (e : Expr) : Prop :=
  (c.types.array? (c.typeOf e)).isSome ∨ (c.types.struct? (c.typeOf e)).isSome

theorem IsCompound.isSpan_eq_false {e : Expr} (h : c.IsCompound e) :
    c.types.isSpan (c.typeOf e) = false := by
  rw [TypeTable.isSpan, TypeTable.spanParts?]
  rcases h with h | h
  · rw [TypeTable.array?] at h
    split at h
    · rename_i hget
      rw [hget]
      rfl
    · cases h
  · rw [TypeTable.struct?] at h
    split at h
    · rename_i hget
      rw [hget]
      rfl
    · cases h

/-- An access that is not fine however it is used slices an inline array without an address. -/
theorem exists_of_innateError?_element {id : ExprId} {receiver : Expr}
    {args : List (Argument Expr)} (h : (c.innateError? (.element id receiver args)).isSome) :
    ∃ a p, c.bind (.element id receiver args) = .ok a ∧ a.indexed = .array p ∧
      a.isSlice = true ∧ p.viaTemporary = true := by
  cases hbind : c.bind (.element id receiver args) with
  | error e =>
    rw [innateError?, hbind] at h
    cases h
  | ok a =>
    rw [innateError?, hbind] at h
    cases hindexed : a.indexed with
    | span =>
      simp only [hindexed] at h
      cases h
    | array p =>
      simp only [hindexed] at h
      by_cases hslice : (a.isSlice && p.viaTemporary) = true
      · obtain ⟨hslice, htemporary⟩ := Bool.and_eq_true_iff.1 hslice
        exact ⟨a, p, rfl, hindexed, hslice, htemporary⟩
      · rw [if_neg hslice] at h
        cases h

namespace Regular

variable (hc : c.Regular)
include hc

/-- A field of something without an address is a field of a struct without one. -/
theorem field_not_isStored {id : ExprId} {receiver : Expr} {name : String}
    (he : c.method.Records (.field id receiver name))
    (hcompound : c.IsCompound (.field id receiver name))
    (hstored : ¬ c.IsStored (.field id receiver name)) :
    c.IsCompound receiver ∧ ¬ c.IsStored receiver := by
  rw [hc.isStored_field he] at hstored
  cases hstruct : c.types.struct? (c.typeOf receiver) with
  | none =>
    have htype : c.typeOf (.field id receiver name) = TypeTable.error := by
      rw [typeOf_field, hstruct]
      rfl
    rw [IsCompound, htype] at hcompound
    rcases hcompound with h | h <;> cases h
  | some type =>
    exact ⟨.inr (by rw [hstruct]; rfl), fun h ↦ hstored (.inr ⟨type, hstruct, .inr h⟩)⟩

/-- An element without an address is one of an inline array without one. -/
theorem element_not_isStored {id : ExprId} {receiver : Expr} {args : List (Argument Expr)}
    (he : c.method.Records (.element id receiver args))
    (hcompound : c.IsCompound (.element id receiver args))
    (hstored : ¬ c.IsStored (.element id receiver args)) :
    c.IsCompound receiver ∧ ¬ c.IsStored receiver := by
  have hr := hc.orderly.children _ he receiver List.mem_cons_self
  rw [IsStored, hc.storageOf_element he, hcompound.isSpan_eq_false] at hstored
  cases hget : c.types.get (c.typeOf receiver) with
  | array type =>
    rw [hget] at hstored
    exact ⟨.inl (by simp [TypeTable.array?, hget]), hstored⟩
  | span element readonly =>
    rw [hget] at hstored
    exact absurd rfl hstored
  | _ =>
    obtain ⟨slicing?, htype⟩ := accessType_of_element (answered_of_resolves hc.resolves hr).1
      (answered_of_resolves hc.resolves he).1
    obtain ⟨slicing, -, htype⟩ := Option.bind_eq_some_iff.1 htype
    rw [hget] at htype
    rw [IsCompound, ← Option.some.inj htype] at hcompound
    rcases hcompound with h | h <;> cases h

theorem element_innateError? {id : ExprId} {receiver : Expr} {args : List (Argument Expr)}
    (he : c.method.Records (.element id receiver args))
    (hcompound : c.IsCompound (.element id receiver args)) :
    c.innateError? (.element id receiver args) = none := by
  refine Option.not_isSome_iff_eq_none.1 fun hinnate ↦ ?_
  obtain ⟨a, p, hbind, -, hslice, -⟩ := exists_of_innateError?_element hinnate
  obtain ⟨htype, hspan⟩ := hc.typeOf_element he hbind
  have hisSpan := hspan hslice
  rw [← htype, hcompound.isSpan_eq_false] at hisSpan
  cases hisSpan

theorem span_not_isCompound {id : ExprId} {operand : Expr} {readonly : Bool}
    (he : c.method.Records (.span id operand readonly)) :
    ¬ c.IsCompound (.span id operand readonly) := by
  intro hcompound
  have hr := hc.orderly.children _ he operand List.mem_cons_self
  have hspan := hcompound.isSpan_eq_false
  rw [IsCompound, typeOf_span (answered_of_resolves hc.resolves hr).1] at hcompound
  rw [typeOf_span (answered_of_resolves hc.resolves hr).1] at hspan
  cases harray : c.types.array? (c.typeOf operand) with
  | none =>
    rw [harray] at hcompound
    rcases hcompound with h | h <;> cases h
  | some type =>
    obtain ⟨span, hfind, -⟩ := hc.built.wellFormed.findSpan_array harray readonly
    rw [harray, Option.map_some, Option.getD_some, findSpan, hfind, Option.getD_some,
      TypeTable.isSpan, TypeTable.spanParts?, TypeTable.findSpan_eq_some hfind] at hspan
    cases hspan

/-- Nothing is wrong with an inline array or a struct that has no address, nor with what it is built
on: it is reached by fields and elements from a value. -/
theorem innateError?_of_not_isStored : (e : Expr) → c.method.Records e → c.IsCompound e →
    ¬ c.IsStored e → ∀ part ∈ e :: e.receivers, c.innateError? part = none
  | .field id receiver name, he, hcompound, hstored, part, hpart => by
    obtain ⟨hcompound', hstored'⟩ := hc.field_not_isStored he hcompound hstored
    rcases List.mem_cons.1 hpart with rfl | hpart
    · rfl
    · exact innateError?_of_not_isStored receiver
        (hc.orderly.children _ he receiver List.mem_cons_self) hcompound' hstored' part hpart
  | .element id receiver args, he, hcompound, hstored, part, hpart => by
    obtain ⟨hcompound', hstored'⟩ := hc.element_not_isStored he hcompound hstored
    rcases List.mem_cons.1 hpart with rfl | hpart
    · exact hc.element_innateError? he hcompound
    · exact innateError?_of_not_isStored receiver
        (hc.orderly.children _ he receiver List.mem_cons_self) hcompound' hstored' part hpart
  | .span .., he, hcompound, _, _, _ => absurd hcompound (hc.span_not_isCompound he)
  | .var .., _, _, _, _, hpart | .call .., _, _, _, _, hpart | .int .., _, _, _, _, hpart
  | .bool .., _, _, _, _, hpart | .string .., _, _, _, _, hpart | .fromEnd .., _, _, _, _, hpart
  | .range .., _, _, _, _, hpart | .default .., _, _, _, _, hpart
  | .conditional .., _, _, _, _, hpart | .placeholder .., _, _, _, _, hpart => by
    rw [List.mem_singleton.1 hpart]
    rfl

/-- Where something is wrong with an expression and with one that it is built on, however they are
used, it is a mutable span conversion. -/
theorem exists_span_of_innateError? {e part : Expr} (he : c.method.Records e)
    (hinnate : (c.innateError? e).isSome) (hpart : part ∈ e.receivers)
    (hpartInnate : (c.innateError? part).isSome) : ∃ id operand, e = .span id operand false := by
  cases e with
  | span id operand readonly =>
    cases readonly with
    | true => cases hinnate
    | false => exact ⟨id, operand, rfl⟩
  | element id receiver args =>
    obtain ⟨a, p, hbind, hp, -, htemporary⟩ := exists_of_innateError?_element hinnate
    obtain ⟨-, -, hindexed, -⟩ := bind_eq_ok hbind
    rw [hp] at hindexed
    obtain ⟨type, harray, rfl⟩ := project?_of_indexed hindexed
    have hstored : ¬ c.IsStored receiver := by
      rw [IsStored]
      simpa [Projection.viaTemporary] using htemporary
    rw [hc.innateError?_of_not_isStored receiver
      (hc.orderly.children _ he receiver List.mem_cons_self)
      (.inl (by rw [harray]; rfl)) hstored part hpart] at hpartInnate
    cases hpartInnate
  | _ => cases hinnate

end Regular

/-- The expressions that are rejected, with the reasons. -/
def rejected (c : Context) : Rejections :=
  c.method.statements.foldl (Rejections.checkStatement c) {}

theorem refSafetyErrors_eq (c : Context) : c.refSafetyErrors = c.rejected.reasons := rfl

end Context

theorem Expr.Anchored.isPlaceholder_eq_false {e : Expr} (h : e.Anchored none) :
    e.isPlaceholder = false := by
  cases e with
  | placeholder id receiver =>
    have hself : receiver ∈ (Expr.placeholder id receiver).parts :=
      (h id receiver (Expr.mem_parts_self _)).resolve_left nofun
    have hlt : sizeOf receiver < sizeOf (Expr.placeholder id receiver) := by simp +arith
    rw [Expr.parts_placeholder, List.mem_singleton] at hself
    rw [← hself] at hlt
    exact absurd hlt (Nat.lt_irrefl _)
  | _ => rfl

theorem Scenario.build_judged {s : Scenario} {p : Program} (h : s.build = .ok p)
    (members : MemberTable) {m : Method} (hm : m ∈ p.methods) :
    (p.context members m).Judged m.toBody.usesAfterParts (p.context members m).rejected :=
  Context.Judged.empty.foldl_checkStatement (build_usedOnce h m hm) m.toBody.receiversFirst
    fun s hs _ he ↦ (build_anchored h m hm s hs _ he).isPlaceholder_eq_false

namespace Context

variable {c : Context}

theorem records_of_mem_uses (horderly : c.method.Orderly) {use : Use}
    (huse : use ∈ c.method.toBody.usesAfterParts) : c.method.Records use.1 := by
  obtain ⟨s, hs, huse⟩ := List.mem_flatMap.1 huse
  have hused : use ∈ c.method.uses :=
    List.mem_flatMap.2 ⟨s, hs, Statement.mem_usesAfterParts.1 huse⟩
  exact (Body.reaches_of_used (List.mem_map_of_mem hused)).records horderly

/-- A receiver is rejected only where it is wrong however it is used, and the expression built on it
only where it is as well. -/
theorem Judged.innate_of_rejected {r : Rejections} (h : c.Judged c.method.toBody.usesAfterParts r)
    (horderly : c.method.Orderly) (honce : c.method.UsedOnce) {e part : Expr}
    (he : c.method.Records e) (hpart : part ∈ e.receivers) (hrejected : e.id ∈ r.rejected)
    (hpartRejected : part.id ∈ r.rejected) :
    (c.innateError? e).isSome ∧ (c.innateError? part).isSome := by
  obtain ⟨⟨_, usage⟩, huse, hid, hblames⟩ := h.blamed _ hrejected
  obtain rfl := he.eq_of_id (records_of_mem_uses horderly huse) hid.symm
  have hreceiver : (part, .receiver) ∈ c.method.toBody.usesAfterParts :=
    c.method.toBody.receiversFirst.mem_of_mem huse hpart
  have hinnate : (c.innateError? part).isSome := by
    obtain ⟨⟨_, usage'⟩, huse', hid', hblames'⟩ := h.blamed _ hpartRejected
    obtain rfl := (records_of_mem_uses horderly hreceiver).eq_of_id
      (records_of_mem_uses horderly huse') hid'.symm
    refine hblames'.resolve_right fun ⟨hpassive, husage, _⟩ ↦ ?_
    -- its use as a receiver would be another one
    have hne : (part, usage') ≠ (part, .receiver) := fun heq ↦ husage (Prod.ext_iff.1 heq).2
    exact hpassive (List.Pairwise.forall honce huse' hreceiver hne rfl).1
  refine ⟨hblames.resolve_right fun ⟨_, _, hnone⟩ ↦ ?_, hinnate⟩
  rw [hnone part hpart] at hinnate
  cases hinnate

end Context

/-- In a method that was built each expression is reported at most once, and no two on one chain of
receivers are, unless the outer one is a mutable span conversion: of an operand whose storage does not
allow it, which is reported for whatever reason the operand has that storage. -/
theorem Program.rejected_on_chain {s : Scenario} {p : Program} (h : s.build = .ok p)
    (members : MemberTable) {m : Method} (hm : m ∈ p.methods)
    (hresolves : (p.context members m).resolves) :
    let c := p.context members m
    c.rejected.rejected.Nodup ∧ c.refSafetyErrors.length = c.rejected.rejected.length ∧
      ∀ e part, m.Records e → part ∈ e.receivers → e.id ∈ c.rejected.rejected →
        part.id ∈ c.rejected.rejected →
          (∃ id operand, e = .span id operand false) ∧ (c.innateError? e).isSome ∧
            (c.innateError? part).isSome := by
  intro c
  have hc : c.Regular := ⟨Scenario.build_built h, (Scenario.build_orderly h).1 m hm, hresolves⟩
  have hjudged : c.Judged m.toBody.usesAfterParts c.rejected := Scenario.build_judged h members hm
  have hreported : c.refSafetyErrors.length = c.rejected.rejected.length := by
    rw [Context.refSafetyErrors_eq, hjudged.length]
  refine ⟨hjudged.nodup, hreported, fun e part he hpart hrejected hpartRejected ↦ ?_⟩
  obtain ⟨hinnate, hpartInnate⟩ := hjudged.innate_of_rejected hc.orderly
    (Scenario.build_usedOnce h m hm) he hpart hrejected hpartRejected
  exact ⟨hc.exists_span_of_innateError? he hinnate hpart hpartInnate, hinnate, hpartInnate⟩

/-- Does something with the first row of a slice of a grid that a call yields. -/
def takesRow (body : Term → Action) : Scenario where
  options := {}
  arrays := [⟨"Row", "int", 2⟩, ⟨"Grid", "Row", 2⟩]
  structs := []
  methods :=
    [{ name := "Main", returns := .void, returnType := none, owner := none, parameters := []
       locals := []
       body := [body (.index (.index (.call "MakeGrid" .value "Grid") (.range none none)) (.int 0))] }]
  inputs := []
  expect := none

/-- The types that the scenario declares. -/
def gridTypes : TypeTable :=
  ⟨[.array ⟨"Row", TypeTable.int, 2⟩, .span TypeTable.int false, .span TypeTable.int true,
    .array ⟨"Grid", 7, 2⟩, .span 7 false, .span 7 true]⟩

/-- The slice of the grid, and its first row. -/
def gridSlice : Expr := .element 2 (.call 0 "MakeGrid" .value 10) [{ value := .range 1 none none }]

def gridRow : Expr := .element 4 gridSlice [{ value := .int 3 0 }]

/-- The expressions that are recorded for the row. -/
def gridExprs : List Expr :=
  [.call 0 "MakeGrid" .value 10, .range 1 none none, gridSlice, .int 3 0, gridRow]

/-- Converts the row to a mutable span. -/
def convertsRow : Method :=
  Body.finish
    { name := "Main", exprs := (gridExprs ++ [Expr.span 5 gridRow false]).toArray
      statements := [.expression (Expr.span 5 gridRow false)] }

/-- Passes the row by reference. -/
def passesRow : Method :=
  Body.finish
    { name := "Main", exprs := gridExprs.toArray
      statements := [.call "Fill" [{ value := gridRow, modifier := .ref }]] }

theorem build_convertsRow :
    (takesRow fun row ↦ .expression (.span row false)).build = .ok ⟨gridTypes, [convertsRow]⟩ := by
  cbv

theorem build_passesRow :
    (takesRow fun row ↦ .call "Fill" [{ value := row, modifier := .ref }]).build =
      .ok ⟨gridTypes, [passesRow]⟩ := by
  cbv

/-- That the row cannot be passed by reference is not reported, as the slice is rejected. -/
theorem passesRow_reported :
    let c := Program.context ⟨gridTypes, [passesRow]⟩ {} passesRow
    c.resolves ∧ gridSlice ∈ gridRow.receivers ∧ gridSlice.id ∈ c.rejected.rejected ∧
      c.rejected.rejected.Nodup ∧ c.refSafetyErrors.length = c.rejected.rejected.length ∧
        gridRow.id ∉ c.rejected.rejected := by
  intro c
  have hresolves : c.resolves := by cbv
  have hpart : gridSlice ∈ gridRow.receivers := List.mem_cons_self
  have hslice : gridSlice.id ∈ c.rejected.rejected := by
    have hrejected : c.rejected.rejected = [2] := by cbv
    exact hrejected ▸ List.mem_singleton_self _
  obtain ⟨hnodup, hlength, hchain⟩ :=
    Program.rejected_on_chain build_passesRow {} (List.mem_singleton_self _) hresolves
  refine ⟨hresolves, hpart, hslice, hnodup, hlength, fun hrow ↦ ?_⟩
  obtain ⟨⟨_, _, hspan⟩, -⟩ := hchain gridRow gridSlice rfl hpart hrow hslice
  cases hspan

/-- A conversion of the row is reported besides the slice. -/
theorem convertsRow_cascades :
    let c := Program.context ⟨gridTypes, [convertsRow]⟩ {} convertsRow
    (takesRow fun row ↦ .expression (.span row false)).build = .ok ⟨gridTypes, [convertsRow]⟩ ∧
      c.resolves ∧ convertsRow.Records (.span 5 gridRow false) ∧
        gridSlice ∈ (Expr.span 5 gridRow false).receivers ∧
          (Expr.span 5 gridRow false).id ∈ c.rejected.rejected ∧
            gridSlice.id ∈ c.rejected.rejected ∧
              c.refSafetyErrors.map (·.violation) =
                [.nonReferenceable, .readonlyRefUse "MakeGrid()[..][0]"] := by
  intro c
  have hrejected : c.rejected.rejected = [5, 2] := by cbv
  refine ⟨build_convertsRow, by cbv, rfl, ?_, ?_, ?_, by cbv⟩
  · exact List.mem_cons_of_mem _ List.mem_cons_self
  · exact hrejected ▸ List.mem_cons_self
  · exact hrejected ▸ List.mem_cons_of_mem _ List.mem_cons_self

end InlineArrays
