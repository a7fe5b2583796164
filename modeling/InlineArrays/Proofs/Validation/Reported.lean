import InlineArrays.Proofs.Except
import InlineArrays.Proofs.Scenario.Anchored
import InlineArrays.Proofs.Validation.Accepted

/-!
# What validators report

Every validator has categories of its own.  It reports at the span of an expression that the method
uses, and a message that quotes an expression quotes the one it is reported at.
-/

namespace InlineArrays

/-- The validator that reports violations of a category. -/
def Category.validator : Category → Validator
  | .invalidIndexing | .missingRequiredMember => .indexing
  | .readonlyViolation | .refEscapeViolation | .lvalueExpected => .refSafety
  | .unassignedField => .definiteAssignment

def Code.validator (code : Code) : Validator := code.category.validator

/-- The expression that the message quotes. -/
def Violation.quoted? : Violation → Option String
  | .readonlyRefUse place | .readonlyAssignment place => some place
  | _ => none

theorem Violation.validator_of_quoted? {v : Violation} {text : String} (h : v.quoted? = some text) :
    v.code.validator = .refSafety := by
  cases v with
  | readonlyRefUse | readonlyAssignment => rfl
  | _ => cases h

namespace Context

variable {c : Context} {e : Expr} {d : Diagnostic}

/-- A diagnostic of a validator on an expression. -/
structure Concerns (c : Context) (v : Validator) (e : Expr) (d : Diagnostic) : Prop where
  validator_eq : d.code.validator = v
  span_eq : d.span = c.method.span e
  quotes : ∀ text, d.violation.quoted? = some text → text = c.method.text e

/-- Where no validator but that of references quotes, the others have to meet the span only. -/
theorem concerns_of_span {v : Validator} (hvalidator : d.code.validator = v) (hv : v ≠ .refSafety)
    (hspan : d.span = c.method.span e) : c.Concerns v e d :=
  ⟨hvalidator, hspan, fun _ hquoted ↦
    absurd (hvalidator.symm.trans (Violation.validator_of_quoted? hquoted)) hv⟩

theorem concerns_of_indexing (hvalidator : d.code.validator = .indexing)
    (hspan : d.span = c.method.span e) : c.Concerns .indexing e d :=
  concerns_of_span hvalidator (by decide) hspan

/-- A diagnostic of a validator on a part of an expression. -/
def ConcernsPart (c : Context) (v : Validator) (e : Expr) (d : Diagnostic) : Prop :=
  ∃ part ∈ e.parts, c.Concerns v part d

theorem Concerns.self {v : Validator} (h : c.Concerns v e d) : c.ConcernsPart v e d :=
  ⟨e, e.mem_parts_self, h⟩

theorem ConcernsPart.mono {v : Validator} {part : Expr} (h : c.ConcernsPart v part d)
    (hparts : part.parts ⊆ e.parts) : c.ConcernsPart v e d := by
  obtain ⟨part', hpart, hconcerns⟩ := h
  exact ⟨part', hparts hpart, hconcerns⟩

/-! ## Accesses that do not bind -/

theorem concerns_of_refused (h : c.refused e = some d) : c.Concerns .indexing e d := by
  unfold refused at h
  split at h
  · cases h
  · cases h
    exact concerns_of_indexing rfl rfl

theorem concerns_of_requireInt (h : c.requireInt e = .error (some d)) :
    c.Concerns .indexing e d := by
  unfold requireInt at h
  split at h
  · cases h
  · exact concerns_of_refused (Except.error.inj h)

theorem concerns_of_fromEnd {β : Type} {make : Unit → β} {id : ExprId} {count : Expr}
    (h : (c.requireInt count).map make = .error (some d)) :
    c.ConcernsPart .indexing (.fromEnd id count) d := by
  cases hcount : c.requireInt count with
  | ok _ =>
    rw [hcount] at h
    cases h
  | error refused =>
    rw [hcount] at h
    cases h
    refine (concerns_of_requireInt hcount).self.mono ?_
    rw [Expr.parts_fromEnd]
    exact List.subset_cons_self _ _

theorem concerns_of_bound {bound : Option Expr} (h : c.bound bound = .error (some d)) :
    ∃ e ∈ bound, c.ConcernsPart .indexing e d := by
  unfold Context.bound at h
  split at h
  · cases h
  · exact ⟨_, rfl, concerns_of_fromEnd h⟩
  · refine ⟨_, rfl, ?_⟩
    split at h
    · cases h
    · cases h
    · exact (concerns_of_refused (Except.error.inj h)).self

theorem concerns_of_subscript (h : c.subscript e = .error (some d)) :
    c.ConcernsPart .indexing e d := by
  unfold Context.subscript at h
  split at h
  · exact concerns_of_fromEnd h
  · rename_i id start stop
    have hbound {bound : Option Expr} (h : c.bound bound = .error (some d))
        (hparts : bound.elim [] Expr.parts ⊆ (Expr.range id start stop).parts) :
        c.ConcernsPart .indexing (.range id start stop) d := by
      obtain ⟨e, he, hconcerns⟩ := concerns_of_bound h
      cases he
      exact hconcerns.mono hparts
    rw [Expr.parts_range] at hbound
    rcases Except.bind_eq_error.1 h with hstart | ⟨first, -, h⟩
    · exact hbound hstart fun part hpart ↦
        List.mem_cons_of_mem _ (List.mem_append_left _ hpart)
    · rcases Except.bind_eq_error.1 h with hstop | ⟨last, -, h⟩
      · exact hbound hstop fun part hpart ↦
          List.mem_cons_of_mem _ (List.mem_append_right _ hpart)
      · cases h
  · split at h
    · cases h
    · cases h
    · cases h
    · cases h
    · exact (concerns_of_refused (Except.error.inj h)).self

theorem concerns_of_indexed {errors : List Diagnostic} (h : c.indexed e = .error errors)
    (hd : d ∈ errors) : c.Concerns .indexing e d := by
  unfold indexed at h
  split at h
  · split at h
    · cases h
    · cases h
      cases hd
  · cases h
  · cases h
    cases hd
  · cases h
    rw [List.mem_singleton.1 hd]
    exact concerns_of_indexing rfl rfl

theorem concerns_of_formErrors {arg : Argument Expr} (hd : d ∈ c.formErrors e arg) :
    c.Concerns .indexing e d ∨ c.Concerns .indexing arg.value d := by
  rcases List.mem_append.1 hd with hd | hd
  · obtain ⟨name, -, rfl⟩ := Option.map_eq_some_iff.1 (Option.mem_toList.1 hd)
    exact .inl (concerns_of_indexing rfl rfl)
  · split at hd
    · cases hd
    · rw [List.mem_singleton.1 hd]
      exact .inr (concerns_of_indexing rfl rfl)

theorem concerns_of_missing {a : Access} (hd : d ∈ c.missing a) :
    c.Concerns .indexing a.expr d := by
  obtain ⟨m, -, rfl⟩ := List.mem_map.1 hd
  exact concerns_of_indexing rfl rfl

theorem concerns_of_bindOne {receiver : Expr} {arg : Argument Expr} {indexed : Indexed}
    {errors : List Diagnostic} (h : c.bindOne e receiver arg indexed = .error errors)
    (hd : d ∈ errors) : c.Concerns .indexing e d ∨ c.ConcernsPart .indexing arg.value d := by
  have hform (hd : d ∈ c.formErrors e arg) :
      c.Concerns .indexing e d ∨ c.ConcernsPart .indexing arg.value d :=
    (concerns_of_formErrors hd).imp_right Concerns.self
  unfold bindOne at h
  dsimp only at h
  split at h
  · rename_i refused hsubscript
    cases h
    rcases List.mem_append.1 hd with hd | hd
    · exact hform hd
    · rw [Option.mem_toList.1 hd] at hsubscript
      exact .inr (concerns_of_subscript hsubscript)
  · split at h
    · split at h
      · cases h
      · cases h
        exact .inl (concerns_of_missing hd)
    · cases h
      rcases List.mem_append.1 hd with hd | hd
      · exact hform hd
      · obtain ⟨length, -, hwritten⟩ := Option.bind_eq_some_iff.1 (Option.mem_toList.1 hd)
        obtain ⟨written, -, rfl⟩ := Option.map_eq_some_iff.1 hwritten
        exact .inl (concerns_of_indexing rfl rfl)

theorem concerns_of_bind {errors : List Diagnostic} (h : c.bind e = .error errors)
    (hd : d ∈ errors) : c.ConcernsPart .indexing e d := by
  unfold Context.bind at h
  split at h
  · rename_i id receiver args
    split at h
    · rename_i hindexed
      cases h
      refine (concerns_of_indexed hindexed hd).self.mono ?_
      rw [Expr.parts_element]
      exact fun part hpart ↦ List.mem_cons_of_mem _ (List.mem_append_left _ hpart)
    · split at h
      · rename_i arg
        rcases concerns_of_bindOne h hd with hconcerns | hconcerns
        · exact hconcerns.self
        · refine hconcerns.mono ?_
          rw [Expr.parts_element, List.flatMap_singleton]
          exact fun part hpart ↦ List.mem_cons_of_mem _ (List.mem_append_right _ hpart)
      · cases h
        have hcount : c.Concerns .indexing (.element id receiver args) d := by
          rw [List.mem_singleton.1 hd]
          exact concerns_of_indexing rfl rfl
        exact hcount.self
  · cases h
    cases hd

/-! ## Unsafe references -/

/-- A violation that quotes nothing, reported at an expression. -/
theorem concerns_of_unquoted {v : Violation} (hvalidator : v.code.validator = .refSafety)
    (hquoted : v.quoted? = none) : c.Concerns .refSafety e ⟨v, c.method.span e⟩ :=
  ⟨hvalidator, rfl, fun text htext ↦ by
    rw [hquoted] at htext
    cases htext⟩

theorem escape?_eq_some {s : Storage} {v : Violation} (h : s.escape? = some v) :
    v.code.validator = .refSafety ∧ v.quoted? = none := by
  unfold Storage.escape? at h
  split at h
  · cases h
  · split at h <;> cases h <;> exact ⟨rfl, rfl⟩

theorem concerns_of_readonly {v : Violation}
    (h : v = .readonlyAssignment (c.method.text e) ∨ v = .readonlyRefUse (c.method.text e)) :
    c.Concerns .refSafety e ⟨v, c.method.span e⟩ := by
  rcases h with rfl | rfl <;> exact ⟨rfl, rfl, fun _ htext ↦ (Option.some.inj htext).symm⟩

/-- An objection names the expression as one that is read-only, or is one of these, or is that its
storage may not leave the method. -/
theorem objection?_cases {usage : Usage} {o : Outcome} {v : Violation}
    (h : c.objection? e usage o = some v) :
    (v = .readonlyAssignment (c.method.text e) ∨ v = .readonlyRefUse (c.method.text e)) ∨
      v ∈ [.lvalueExpected, .refArgumentNotAssignable, .nonReferenceable] ∨
      o.storage.escape? = some v := by
  unfold objection? at h
  cases usage with
  | read | receiver => cases h
  | argument modifier => cases modifier <;> grind
  | assignTarget | compoundTarget | refLocalInit | returned => grind

theorem concerns_of_objection? {usage : Usage} {o : Outcome} {v : Violation}
    (h : c.objection? e usage o = some v) : c.Concerns .refSafety e ⟨v, c.method.span e⟩ := by
  rcases objection?_cases h with h | h | h
  · exact concerns_of_readonly h
  · simp only [List.mem_cons, List.not_mem_nil, or_false] at h
    rcases h with rfl | rfl | rfl <;> exact concerns_of_unquoted rfl rfl
  · exact concerns_of_unquoted (escape?_eq_some h).1 (escape?_eq_some h).2

theorem concerns_of_useError? {usage : Usage} (h : c.useError? e usage = some d) :
    c.Concerns .refSafety e d := by
  unfold useError? at h
  cases ho : c.outcome? e with
  | none => simp [advance, ho] at h
  | some o =>
    cases hv : c.objection? e usage o with
    | none => simp [advance, ho, hv] at h
    | some v =>
      simp only [advance, ho, hv, Option.some.injEq] at h
      rw [← h]
      exact concerns_of_objection? hv

theorem concerns_of_innateError? (h : c.innateError? e = some d) :
    c.ConcernsPart .refSafety e d := by
  unfold innateError? at h
  split at h
  · rename_i id operand
    dsimp only at h
    split at h
    · cases h
      exact (concerns_of_unquoted rfl rfl).self
    · split at h
      · cases h
        refine (concerns_of_readonly (.inr rfl)).self.mono ?_
        rw [Expr.parts_span]
        exact List.subset_cons_self _ _
      · cases h
  · split at h
    · split at h
      · split at h
        · cases h
          exact (concerns_of_unquoted rfl rfl).self
        · cases h
      · cases h
    · cases h
  · cases h

variable {r : Rejections}

theorem mem_reasons_checkUse {use : Use} (hd : d ∈ (r.checkUse c use).reasons) :
    d ∈ r.reasons ∨ c.ConcernsPart .refSafety use.1 d := by
  have hreject {reason : Diagnostic} (hd : d ∈ (r.reject use.1 reason).reasons)
      (hreason : c.ConcernsPart .refSafety use.1 reason) :
      d ∈ r.reasons ∨ c.ConcernsPart .refSafety use.1 d := by
    refine (List.mem_append.1 hd).imp_right fun hd ↦ ?_
    rwa [List.mem_singleton.1 hd]
  unfold Rejections.checkUse at hd
  split at hd
  · rename_i hinnate
    exact hreject hd (concerns_of_innateError? hinnate)
  · split at hd
    · split at hd
      · rename_i huse
        exact hreject hd (concerns_of_useError? huse).self
      · exact .inl hd
    · exact .inl hd

theorem mem_reasons_checkSpanLocal {s : Statement} (hd : d ∈ (r.checkSpanLocal c s).reasons) :
    d ∈ r.reasons ∨ ∃ target value, s = .assign target value ∧ c.Concerns .refSafety value d := by
  unfold Rejections.checkSpanLocal at hd
  split at hd
  · rename_i target value
    split at hd
    · dsimp only at hd
      split at hd
      · refine (List.mem_append.1 hd).imp_right fun hd ↦ ⟨_, value, rfl, ?_⟩
        rw [List.mem_singleton.1 hd]
        exact concerns_of_unquoted rfl rfl
      · exact .inl hd
    · exact .inl hd
  · exact .inl hd

end Context

namespace Body

variable {b : Body} {e : Expr}

def Used (b : Body) (e : Expr) : Prop := e ∈ b.uses.map (·.1)

theorem used_of_mem_exprs {s : Statement} (hs : s ∈ b.statements) (he : e ∈ s.exprs) :
    b.Used e := by
  rw [Used, map_fst_uses]
  exact List.mem_flatMap.2 ⟨s, hs, List.mem_flatMap.2 ⟨e, he, e.mem_parts_self⟩⟩

theorem Used.part {part : Expr} (h : b.Used e) (hpart : part ∈ e.parts) : b.Used part := by
  rw [Used, map_fst_uses] at h ⊢
  obtain ⟨s, hs, h⟩ := List.mem_flatMap.1 h
  obtain ⟨root, hroot, he⟩ := List.mem_flatMap.1 h
  exact List.mem_flatMap.2 ⟨s, hs, List.mem_flatMap.2 ⟨root, hroot, root.parts_subset he hpart⟩⟩

theorem used_of_mem_usesAfterParts {s : Statement} {use : Use} (hs : s ∈ b.statements)
    (huse : use ∈ s.usesAfterParts b) : b.Used use.1 :=
  List.mem_map_of_mem (List.mem_flatMap.2 ⟨s, hs, Statement.mem_usesAfterParts.1 huse⟩)

end Body

namespace Context

variable {c : Context} {e : Expr} {d : Diagnostic}

/-- A diagnostic of a validator on something that the method uses. -/
def Finds (c : Context) (v : Validator) (d : Diagnostic) : Prop :=
  ∃ e, c.method.Used e ∧ c.Concerns v e d

theorem ConcernsPart.finds {v : Validator} (h : c.ConcernsPart v e d) (he : c.method.Used e) :
    c.Finds v d := by
  obtain ⟨part, hpart, hconcerns⟩ := h
  exact ⟨part, Body.Used.part he hpart, hconcerns⟩

theorem finds_of_mem_indexingErrors (hd : d ∈ c.indexingErrors) : c.Finds .indexing d := by
  obtain ⟨⟨e, usage⟩, huse, hd⟩ := List.mem_flatMap.1 hd
  dsimp only at hd
  unfold bindErrors at hd
  split at hd
  · cases hbind : c.bind e with
    | ok a =>
      rw [hbind] at hd
      cases hd
    | error errors =>
      rw [hbind] at hd
      exact (concerns_of_bind hbind hd).finds (List.mem_map_of_mem huse)
  · cases hd

theorem finds_of_mem_refSafetyErrors (hd : d ∈ c.refSafetyErrors) : c.Finds .refSafety d := by
  let inv (r : Rejections) : Prop := ∀ d ∈ r.reasons, c.Finds .refSafety d
  have hstatement (r : Rejections) (hr : inv r) (s : Statement) (hs : s ∈ c.method.statements) :
      inv (r.checkStatement c s) := by
    have huses : inv ((s.usesAfterParts c.method.toBody).foldl (Rejections.checkUse c) r) := by
      refine List.foldlRecOn (motive := inv) _ _ hr fun r hr use huse d hd ↦ ?_
      rcases mem_reasons_checkUse hd with hd | hconcerns
      · exact hr d hd
      · exact hconcerns.finds (Body.used_of_mem_usesAfterParts hs huse)
    intro d hd
    rcases mem_reasons_checkSpanLocal hd with hd | ⟨target, value, rfl, hconcerns⟩
    · exact huses d hd
    · exact ⟨value, Body.used_of_mem_exprs hs (by simp [Statement.exprs]), hconcerns⟩
  have hempty : inv {} := fun _ hmem ↦ absurd hmem List.not_mem_nil
  exact List.foldlRecOn (motive := inv) c.method.statements _ hempty hstatement d hd

/-! ## Unassigned places -/

mutual

/-- The places an expression checks are denoted by parts of it. -/
theorem checks_subset_parts (c : Context) (mode : Access.Mode) :
    (e : Expr) → c.checks mode e ⊆ e.parts
  | .var id target => by
    rw [checks]
    split
    · exact List.nil_subset _
    · exact List.Subset.refl _
  | .field id receiver name => by
    rw [checks, Expr.parts_field]
    split
    · exact List.subset_cons_of_subset _ (checks_subset_parts c .refer receiver)
    · split
      · simp
      · exact List.subset_cons_of_subset _ (checks_subset_parts c .read receiver)
  | .element id receiver args => by
    rw [Expr.parts_element]
    unfold checks
    refine List.subset_cons_of_subset _ (List.append_subset.2 ⟨?_, ?_⟩)
    · exact List.subset_append_of_subset_right _ (argumentChecks_subset_parts c args)
    · refine List.subset_append_of_subset_left _ ?_
      cases mode <;> exact checks_subset_parts c _ receiver
  | .span id operand readonly => by
    rw [checks, Expr.parts_span]
    exact List.subset_cons_of_subset _ (checks_subset_parts c .refer operand)
  | .fromEnd id count => by
    rw [checks, Expr.parts_fromEnd]
    exact List.subset_cons_of_subset _ (checks_subset_parts c .read count)
  | .range id start stop => by
    rw [Expr.parts_range]
    unfold checks
    refine List.subset_cons_of_subset _ (List.append_subset.2 ⟨?_, ?_⟩)
    · refine List.subset_append_of_subset_left _ ?_
      cases start with
      | none => exact List.nil_subset _
      | some bound => exact checks_subset_parts c .read bound
    · refine List.subset_append_of_subset_right _ ?_
      cases stop with
      | none => exact List.nil_subset _
      | some bound => exact checks_subset_parts c .read bound
  | .conditional id receiver access => by
    rw [checks, Expr.parts_conditional]
    refine List.subset_cons_of_subset _ (List.append_subset.2 ⟨?_, ?_⟩)
    · exact List.subset_append_of_subset_left _ (checks_subset_parts c .read receiver)
    · exact List.subset_append_of_subset_right _ (checks_subset_parts c _ access)
  | .call .. | .int .. | .bool .. | .string .. | .default .. | .placeholder .. => List.nil_subset _
termination_by structural e => e

theorem argumentChecks_subset_parts (c : Context) : (args : List (Argument Expr)) →
    c.argumentChecks args ⊆ args.flatMap (·.value.parts)
  | [] => List.nil_subset _
  | arg :: args => by
    rw [argumentChecks, List.flatMap_cons]
    exact List.append_subset.2
      ⟨List.subset_append_of_subset_left _ (checks_subset_parts c .read arg.value),
        List.subset_append_of_subset_right _ (argumentChecks_subset_parts c args)⟩
termination_by structural args => args

end

theorem mem_parts_of_checked {mode : Access.Mode} {part : Expr}
    (h : .check part ∈ c.checked mode e) : part ∈ e.parts := by
  obtain ⟨_, hpart, heq⟩ := List.mem_map.1 h
  cases heq
  exact checks_subset_parts c mode e hpart

/-- A statement checks parts of its operands. -/
theorem mem_parts_of_statementEvents {s : Statement} {part : Expr}
    (h : .check part ∈ c.statementEvents s) : ∃ e ∈ s.exprs, part ∈ e.parts := by
  have htarget {target : Expr} (h : .check part ∈ c.targetEvents target) : part ∈ target.parts := by
    unfold targetEvents at h
    split at h
    · cases h
    · cases h
    · exact mem_parts_of_checked h
  have hargument {arg : Argument Expr} (h : .check part ∈ c.argumentEvents arg) :
      part ∈ arg.value.parts := by
    unfold argumentEvents at h
    dsimp only at h
    cases hmodifier : arg.modifier with
    | output =>
      rw [hmodifier] at h
      rcases List.mem_append.1 h with h | h
      · exact mem_parts_of_checked h
      · cases List.mem_singleton.1 h
    | none | ref | input =>
      rw [hmodifier] at h
      exact mem_parts_of_checked h
  cases s with
  | expression value => exact ⟨value, List.mem_singleton_self _, mem_parts_of_checked h⟩
  | assign target value =>
    rcases List.mem_append.1 h with h | h
    · rcases List.mem_append.1 h with h | h
      · exact ⟨target, by simp [Statement.exprs], htarget h⟩
      · exact ⟨value, by simp [Statement.exprs], mem_parts_of_checked h⟩
    · cases List.mem_singleton.1 h
  | compound target op value =>
    rcases List.mem_append.1 h with h | h
    · exact ⟨target, by simp [Statement.exprs], mem_parts_of_checked h⟩
    · exact ⟨value, by simp [Statement.exprs], mem_parts_of_checked h⟩
  | refLocal bound init => exact ⟨init, List.mem_singleton_self _, mem_parts_of_checked h⟩
  | call callee args =>
    obtain ⟨arg, harg, h⟩ := List.mem_flatMap.1 h
    exact ⟨arg.value, List.mem_map_of_mem harg, hargument h⟩
  | ret value =>
    cases value with
    | none => cases h
    | some value => exact ⟨value, List.mem_singleton_self _, mem_parts_of_checked h⟩

theorem validator_violation (p : InlineArrays.Place) :
    (Assignments.violation p).code.validator = .definiteAssignment := by
  unfold Assignments.violation
  split <;> rfl

theorem mem_reported_step {a : Assignments} {event : AssignmentEvent}
    (hd : d ∈ (a.step c event).reported) :
    d ∈ a.reported ∨ ∃ e, event = .check e ∧ c.Concerns .definiteAssignment e d := by
  cases event with
  | check e =>
    unfold Assignments.step Assignments.check at hd
    dsimp only at hd
    split at hd
    · exact .inl hd
    · rename_i p _
      split at hd
      · exact .inl hd
      · split at hd
        · exact .inl hd
        · refine (List.mem_append.1 hd).imp_right fun hd ↦ ⟨e, rfl, ?_⟩
          rw [List.mem_singleton.1 hd]
          exact concerns_of_span (validator_violation p) (by decide) rfl
  | assign e =>
    unfold Assignments.step Assignments.assign at hd
    dsimp only at hd
    split at hd
    · exact .inl hd
    · split at hd <;> exact .inl hd

theorem finds_of_mem_assignmentErrors (hd : d ∈ c.assignmentErrors) :
    c.Finds .definiteAssignment d := by
  let inv (a : Assignments) : Prop := ∀ d ∈ a.reported, c.Finds .definiteAssignment d
  have hempty : inv {} := fun _ hmem ↦ absurd hmem List.not_mem_nil
  refine List.foldlRecOn (motive := inv) _ _ hempty (fun a ha event hevent d hd ↦ ?_) d hd
  rcases mem_reported_step hd with hd | ⟨e, rfl, hconcerns⟩
  · exact ha d hd
  · obtain ⟨s, hs, hevent⟩ := List.mem_flatMap.1 hevent
    obtain ⟨operand, hoperand, he⟩ := mem_parts_of_statementEvents hevent
    exact ⟨e, (Body.used_of_mem_exprs hs hoperand).part he, hconcerns⟩

/-- Every diagnostic is one of the validator that its code belongs to, on something that the method
uses. -/
theorem finds_of_mem_run {v : Validator} (hd : d ∈ v.run c) : c.Finds v d := by
  cases v with
  | indexing => exact finds_of_mem_indexingErrors hd
  | refSafety => exact finds_of_mem_refSafetyErrors hd
  | definiteAssignment => exact finds_of_mem_assignmentErrors hd

theorem finds_of_validate? {ds : List Diagnostic} (h : c.validate? = some ds) (hd : d ∈ ds) :
    ∃ v, c.Finds v d := by
  unfold validate? at h
  split at h
  · rw [← Option.some.inj h, validateWith, (Diagnostic.sort_perm _).mem_iff] at hd
    obtain ⟨v, -, hd⟩ := List.mem_flatMap.1 hd
    exact ⟨v, finds_of_mem_run hd⟩
  · cases h

end Context

end InlineArrays
