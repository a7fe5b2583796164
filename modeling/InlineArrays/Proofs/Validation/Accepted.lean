import InlineArrays.Validation

/-!
# Accepted methods

A method is accepted if it validates without a diagnostic.  Since checks only ever add reasons to
reject something, each of them has then passed, whatever came before it.
-/

namespace InlineArrays

namespace Expr

mutual

/-- The two orders of uses list the same uses. -/
theorem usesAfterParts_perm (usage : Usage) :
    (e : Expr) → (e.usesAfterParts usage).Perm (e.uses usage)
  | .field _ receiver _ =>
    List.perm_append_comm.trans ((receiver.usesAfterParts_perm .receiver).cons _)
  | .element _ receiver args => by
    refine List.perm_append_comm.trans (List.Perm.cons _ ?_)
    exact (receiver.usesAfterParts_perm .receiver).append (argumentUsesAfterParts_perm args)
  | .span _ operand _ =>
    List.perm_append_comm.trans ((operand.usesAfterParts_perm .receiver).cons _)
  | .fromEnd _ count => List.perm_append_comm.trans ((count.usesAfterParts_perm .read).cons _)
  | .range _ start stop => by
    unfold usesAfterParts uses
    rw [List.append_assoc]
    refine (List.Perm.append ?_ (List.perm_append_comm.trans (List.Perm.cons _ ?_))).trans
      List.perm_middle
    · cases start with
      | none => exact .refl _
      | some bound => exact bound.usesAfterParts_perm .read
    · cases stop with
      | none => exact .refl _
      | some bound => exact bound.usesAfterParts_perm .read
  | .conditional _ receiver access => by
    refine List.perm_append_comm.trans (List.Perm.cons _ ?_)
    exact (receiver.usesAfterParts_perm .read).append (access.usesAfterParts_perm usage)
  | .var .. | .call .. | .int .. | .bool .. | .string .. | .default .. | .placeholder .. => .refl _

theorem argumentUsesAfterParts_perm :
    (args : List (Argument Expr)) → (argumentUsesAfterParts args).Perm (argumentUses args)
  | [] => .refl _
  | arg :: args => (arg.value.usesAfterParts_perm .read).append (argumentUsesAfterParts_perm args)

end

end Expr

theorem Statement.mem_usesAfterParts {b : Body} {s : Statement} {use : Use} :
    use ∈ s.usesAfterParts b ↔ use ∈ s.uses b := by
  simp only [usesAfterParts, uses, List.mem_flatMap]
  exact exists_congr fun operand ↦ and_congr_right fun _ ↦
    (operand.1.usesAfterParts_perm operand.2).mem_iff

namespace Rejections

/-- Where a step leaves a state with a property only by doing nothing, a run that ends in such a
state has done nothing. -/
theorem foldl_eq_self {ρ α : Type} {f : ρ → α → ρ} {P : ρ → Prop}
    (hkeep : ∀ r a, P (f r a) → f r a = r) {l : List α} {r : ρ} (h : P (l.foldl f r)) :
    l.foldl f r = r ∧ ∀ a ∈ l, f r a = r := by
  induction l generalizing r with
  | nil => exact ⟨rfl, by simp⟩
  | cons a l ih =>
    obtain ⟨hrest, hsame⟩ := ih h
    have hfirst : f r a = r := hkeep r a (hrest ▸ h)
    rw [hfirst] at hsame hrest
    exact ⟨by rw [List.foldl_cons, hfirst, hrest], by simpa [hfirst] using hsame⟩

def IsEmpty (r : Rejections) : Prop := r.reasons = []

theorem not_isEmpty_reject (r : Rejections) (e : Expr) (reason : Diagnostic) :
    ¬ (r.reject e reason).IsEmpty := by
  simp [IsEmpty, reject]

theorem covers_empty : (e : Expr) → ({} : Rejections).covers e = false
  | .field _ receiver _ | .element _ receiver _ | .span _ receiver _ => by
    simp [covers, covers_empty receiver]
  | .var .. | .call .. | .int .. | .bool .. | .string .. | .fromEnd .. | .range .. | .default ..
  | .conditional .. | .placeholder .. => rfl

variable {c : Context} {r : Rejections}

theorem checkUse_eq_self {use : Use} (h : (r.checkUse c use).IsEmpty) : r.checkUse c use = r := by
  unfold checkUse at h ⊢
  split
  · rw [‹c.innateError? use.1 = _›] at h
    exact (not_isEmpty_reject _ _ _ h).elim
  · rw [‹c.innateError? use.1 = _›] at h
    dsimp only at h
    split at h
    · split at h
      · exact (not_isEmpty_reject _ _ _ h).elim
      · rw [if_pos ‹_›]
    · rw [if_neg ‹_›]

theorem checkSpanLocal_eq_self {s : Statement} (h : (r.checkSpanLocal c s).IsEmpty) :
    r.checkSpanLocal c s = r := by
  unfold checkSpanLocal at h ⊢
  split
  · split
    · dsimp only at h ⊢
      split at h
      · exact (not_isEmpty_reject _ _ _ h).elim
      · rw [if_neg ‹_›]
    · rfl
  · rfl

/-- What an empty set of rejections says of a statement that has been checked. -/
theorem checkStatement_eq_self {s : Statement} (h : (r.checkStatement c s).IsEmpty) :
    r.checkStatement c s = r ∧ (∀ use ∈ s.uses c.method.toBody, r.checkUse c use = r) ∧
      r.checkSpanLocal c s = r := by
  unfold checkStatement at h ⊢
  have hlocal := checkSpanLocal_eq_self h
  rw [hlocal] at h ⊢
  obtain ⟨huses, hsame⟩ := foldl_eq_self (fun r use ↦ checkUse_eq_self) h
  rw [huses] at hlocal ⊢
  exact ⟨rfl, fun use huse ↦ hsame use (Statement.mem_usesAfterParts.2 huse), hlocal⟩

theorem checkUse_eq_empty {use : Use} (h : ({} : Rejections).checkUse c use = {}) :
    c.innateError? use.1 = none ∧ (use.2.isChecked → c.useError? use.1 use.2 = none) := by
  unfold checkUse at h
  cases hinnate : c.innateError? use.1 with
  | some reason => simp [hinnate, reject] at h
  | none =>
    refine ⟨rfl, fun hchecked ↦ ?_⟩
    simp only [hinnate, hchecked, covers_empty, Bool.not_false, Bool.and_true, if_true] at h
    cases huse : c.useError? use.1 use.2 with
    | none => rfl
    | some reason => simp [huse, reject] at h

/-- Where every step leaves a state alone, so does a run. -/
theorem foldl_fixed {ρ α : Type} {f : ρ → α → ρ} {r : ρ} {l : List α} (h : ∀ a ∈ l, f r a = r) :
    l.foldl f r = r := by
  induction l with
  | nil => rfl
  | cons a l ih =>
    rw [List.foldl_cons, h a List.mem_cons_self]
    exact ih fun a ha ↦ h a (List.mem_cons_of_mem _ ha)

end Rejections

namespace Context

variable {c : Context}

/-- Nothing speaks against an expression or its use. -/
structure AcceptsUse (c : Context) (use : Use) : Prop where
  innate : c.innateError? use.1 = none
  useError : use.2.isChecked → c.useError? use.1 use.2 = none

/-- A local that holds spans keeps the scope of the first. -/
def KeepsScope (c : Context) (target value : Expr) : Prop :=
  ∀ id v, target = .var id v → (c.method.var v).kind = .stackLocal →
    c.types.isSpan (c.method.var v).type →
    (c.method.firstAssignment? v).any (·.id == value.id) = false →
    (c.storageOf value).scope.outlives (c.storageOf target).scope

structure Accepted (c : Context) : Prop where
  resolves : c.resolves
  uses : ∀ use ∈ c.method.uses, c.AcceptsUse use
  spanLocal : ∀ target value, .assign target value ∈ c.method.statements → c.KeepsScope target value

theorem AcceptsUse.checkUse_eq {use : Use} (h : c.AcceptsUse use) :
    ({} : Rejections).checkUse c use = {} := by
  unfold Rejections.checkUse
  rw [h.innate]
  dsimp only
  split
  · rename_i hchecked
    rw [h.useError (Bool.and_eq_true_iff.1 hchecked).1]
  · rfl

theorem KeepsScope.checkSpanLocal_eq {target value : Expr} (h : c.KeepsScope target value) :
    ({} : Rejections).checkSpanLocal c (.assign target value) = {} := by
  cases target with
  | var id v =>
    refine if_neg fun hshrinks ↦ ?_
    simp only [Bool.and_eq_true, Bool.not_eq_true', beq_iff_eq] at hshrinks
    obtain ⟨⟨⟨⟨hkind, hspan⟩, hlater⟩, -⟩, hshrinks⟩ := hshrinks
    rw [h id v rfl hkind hspan hlater] at hshrinks
    cases hshrinks
  | _ => rfl

theorem keepsScope_of_checkSpanLocal {target value : Expr}
    (h : ({} : Rejections).checkSpanLocal c (.assign target value) = {}) :
    c.KeepsScope target value := by
  rintro id v rfl hkind hspan hfirst
  unfold Rejections.checkSpanLocal at h
  dsimp only at h
  rw [Rejections.covers_empty, hfirst, hkind, hspan] at h
  cases houtlives : (c.storageOf value).scope.outlives (c.storageOf (.var id v)).scope with
  | true => rfl
  | false => simp [houtlives, Rejections.reject] at h

/-- Where nothing is reported, no validator reports anything. -/
theorem run_eq_nil {validators : List Validator} (h : c.validateWith validators = [])
    {v : Validator} (hv : v ∈ validators) : v.run c = [] := by
  have hperm := Diagnostic.sort_perm (validators.flatMap (·.run c))
  rw [validateWith] at h
  rw [h] at hperm
  exact List.flatMap_eq_nil_iff.1 hperm.nil_eq.symm v hv

theorem accepted_of_validate (h : c.validate? = some []) : c.Accepted := by
  unfold validate? at h
  by_cases hresolves : c.resolves
  · rw [if_pos hresolves] at h
    have hrefSafety : c.refSafetyErrors = [] :=
      run_eq_nil (v := .refSafety) (Option.some.inj h) (by decide)
    obtain ⟨-, hstatements⟩ := Rejections.foldl_eq_self
      (fun r s h ↦ (Rejections.checkStatement_eq_self h).1) hrefSafety
    have hchecked : ∀ s ∈ c.method.statements,
        (∀ use ∈ s.uses c.method.toBody, ({} : Rejections).checkUse c use = {}) ∧
          ({} : Rejections).checkSpanLocal c s = {} := fun s hs ↦
      (Rejections.checkStatement_eq_self (by rw [hstatements s hs]; rfl)).2
    refine ⟨hresolves, fun use huse ↦ ?_, fun target value hmem ↦ ?_⟩
    · obtain ⟨s, hs, huse'⟩ := List.mem_flatMap.1 huse
      obtain ⟨hinnate, hcheck⟩ := Rejections.checkUse_eq_empty ((hchecked s hs).1 use huse')
      exact ⟨hinnate, hcheck⟩
    · exact keepsScope_of_checkSpanLocal (hchecked _ hmem).2
  · rw [if_neg hresolves] at h
    cases h

/-- What is accepted in every respect validates. -/
theorem Accepted.validate?_eq (h : c.Accepted) (hindexing : c.indexingErrors = [])
    (hassignment : c.assignmentErrors = []) : c.validate? = some [] := by
  have hstatement : ∀ s ∈ c.method.statements, ({} : Rejections).checkStatement c s = {} := by
    intro s hs
    have huses : (s.usesAfterParts c.method.toBody).foldl (Rejections.checkUse c) {} = {} :=
      Rejections.foldl_fixed fun use huse ↦ (h.uses use (List.mem_flatMap.2
        ⟨s, hs, Statement.mem_usesAfterParts.1 huse⟩)).checkUse_eq
    rw [Rejections.checkStatement, huses]
    cases s with
    | assign target value => exact (h.spanLocal target value hs).checkSpanLocal_eq
    | _ => rfl
  have hrefSafety : c.refSafetyErrors = [] := by
    rw [refSafetyErrors, Rejections.foldl_fixed hstatement]
  have hreports : c.validateWith Validator.all = [] := by
    simp [validateWith, Validator.all, Validator.run, hindexing, hrefSafety, hassignment,
      Diagnostic.sort]
  rw [validate?, if_pos h.resolves, hreports]

end Context

end InlineArrays
