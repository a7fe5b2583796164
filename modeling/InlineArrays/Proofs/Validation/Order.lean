import InlineArrays.Proofs.Validation.Reported
import Mathlib

/-!
# The order of validators

Diagnostics are sorted by start and code, and those that tie stay in the order in which they were
found.  No two validators report violations of one code, so diagnostics that tie come from one
validator, and the order in which the validators run does not show.
-/

namespace InlineArrays

namespace Diagnostic

/-- At one start and of one code, so that the sort does not part them. -/
def ties (a b : Diagnostic) : Bool := a.span.start == b.span.start && a.code == b.code

variable {a b : Diagnostic} {l l' : List Diagnostic}

theorem ties_iff : a.ties b ↔ a.span.start = b.span.start ∧ a.code = b.code := by
  simp [ties]

theorem ties_self (a : Diagnostic) : a.ties a := ties_iff.2 ⟨rfl, rfl⟩

theorem precedes_iff : a.precedes b ↔
    a.span.start < b.span.start ∨ a.span.start = b.span.start ∧ a.code.number ≤ b.code.number := by
  simp [precedes]

theorem precedes_trans (a b d : Diagnostic) (h : a.precedes b) (h' : b.precedes d) :
    a.precedes d := by
  rw [precedes_iff] at h h' ⊢
  omega

theorem precedes_total (a b : Diagnostic) : a.precedes b || b.precedes a := by
  rw [Bool.or_eq_true, precedes_iff, precedes_iff]
  omega

theorem precedes_of_ties (h : a.ties b) : a.precedes b := by
  obtain ⟨hstart, hcode⟩ := ties_iff.1 h
  exact precedes_iff.2 (.inr ⟨hstart, hcode ▸ Nat.le_refl _⟩)

theorem ties_of_precedes (h : a.precedes b) (h' : b.precedes a) : a.ties b := by
  rw [precedes_iff] at h h'
  exact ties_iff.2 ⟨by omega, Code.number_injective (by omega)⟩

theorem sort_pairwise (l : List Diagnostic) : (sort l).Pairwise (·.precedes ·) :=
  List.pairwise_mergeSort precedes_trans precedes_total l

/-- The sort is stable. -/
theorem filter_ties_sort (a : Diagnostic) (l : List Diagnostic) :
    (sort l).filter a.ties = l.filter a.ties := by
  have hpairwise : (l.filter a.ties).Pairwise (·.precedes ·) := by
    refine List.pairwise_filter.2 (List.pairwise_of_forall fun b d hb hd ↦ precedes_of_ties ?_)
    rw [ties_iff] at hb hd ⊢
    exact ⟨hb.1.symm.trans hd.1, hb.2.symm.trans hd.2⟩
  have hsublist : (l.filter a.ties).Sublist (sort l) :=
    List.sublist_mergeSort precedes_trans precedes_total hpairwise List.filter_sublist
  have hfilter := hsublist.filter a.ties
  rw [List.filter_filter, List.filter_congr fun b _ ↦ Bool.and_self (a.ties b)] at hfilter
  exact (hfilter.eq_of_length ((sort_perm l).filter a.ties).length_eq.symm).symm

/-- What is sorted is determined by the runs of diagnostics that tie. -/
theorem eq_of_filter_ties (hl : l.Pairwise (·.precedes ·)) (hl' : l'.Pairwise (·.precedes ·))
    (h : ∀ a : Diagnostic, l.filter a.ties = l'.filter a.ties) : l = l' := by
  induction l generalizing l' with
  | nil =>
    cases l' with
    | nil => rfl
    | cons b l' =>
      have hb := h b
      rw [List.filter_cons_of_pos b.ties_self] at hb
      cases hb
  | cons a l ih =>
    cases l' with
    | nil =>
      have ha := h a
      rw [List.filter_cons_of_pos a.ties_self] at ha
      cases ha
    | cons b l' =>
      have hmem {a b : Diagnostic} {l l' : List Diagnostic}
          (h : (a :: l).filter a.ties = (b :: l').filter a.ties) : a ∈ b :: l' := by
        rw [List.filter_cons_of_pos a.ties_self] at h
        exact List.mem_of_mem_filter (h ▸ List.mem_cons_self)
      have hties : a.ties b := by
        rcases List.mem_cons.1 (hmem (h a)) with rfl | ha
        · exact a.ties_self
        · rcases List.mem_cons.1 (hmem (h b).symm) with rfl | hb
          · exact b.ties_self
          · exact ties_of_precedes (List.rel_of_pairwise_cons hl hb)
              (List.rel_of_pairwise_cons hl' ha)
      have hhead := h a
      rw [List.filter_cons_of_pos a.ties_self, List.filter_cons_of_pos hties] at hhead
      obtain ⟨rfl, -⟩ := List.cons.inj hhead
      refine congrArg (a :: ·) (ih hl.of_cons hl'.of_cons fun d ↦ ?_)
      have htail := h d
      rw [List.filter_cons, List.filter_cons] at htail
      split at htail
      · exact (List.cons.inj htail).2
      · exact htail

end Diagnostic

/-- Where one member alone of a list without repetitions yields something, that is all. -/
theorem flatMap_eq_of_mem {α β : Type} {l : List α} {f : α → List β} {a : α} (hl : l.Nodup)
    (ha : a ∈ l) (h : ∀ b ∈ l, b ≠ a → f b = []) : l.flatMap f = f a := by
  induction l with
  | nil => cases ha
  | cons b l ih =>
    obtain ⟨hb, hl⟩ := List.nodup_cons.1 hl
    obtain ⟨hhead, htail⟩ := List.forall_mem_cons.1 h
    rw [List.flatMap_cons]
    rcases List.mem_cons.1 ha with rfl | ha
    · have hnone : l.flatMap f = [] :=
        List.flatMap_eq_nil_iff.2 fun b' hb' ↦ htail b' hb' fun heq ↦ hb (heq ▸ hb')
      rw [hnone, List.append_nil]
    · have hne : b ≠ a := fun heq ↦ hb (heq ▸ ha)
      rw [hhead hne, List.nil_append, ih hl ha htail]

namespace Context

variable {c : Context} {validators : List Validator}

theorem filter_ties_run {v : Validator} {a : Diagnostic} (h : v ≠ a.code.validator) :
    (v.run c).filter a.ties = [] := by
  refine List.filter_eq_nil_iff.2 fun d hd hties ↦ h ?_
  obtain ⟨e, -, hconcerns⟩ := finds_of_mem_run hd
  rw [(Diagnostic.ties_iff.1 hties).2, hconcerns.validator_eq]

/-- In what the validators report together, diagnostics that tie are those of one validator. -/
theorem filter_ties_reported (h : validators.Perm Validator.all) (a : Diagnostic) :
    (validators.flatMap (·.run c)).filter a.ties = (a.code.validator.run c).filter a.ties := by
  rw [List.filter_flatMap]
  have hnodup : validators.Nodup := h.nodup_iff.2 (by decide)
  have hmem (v : Validator) : v ∈ validators := h.mem_iff.2 (by cases v <;> decide)
  exact flatMap_eq_of_mem hnodup (hmem _) fun v _ hv ↦ filter_ties_run hv

theorem filter_ties_validateWith (h : validators.Perm Validator.all) (a : Diagnostic) :
    (c.validateWith validators).filter a.ties = (a.code.validator.run c).filter a.ties := by
  rw [validateWith, Diagnostic.filter_ties_sort, filter_ties_reported h]

theorem validateWith_eq (h : validators.Perm Validator.all) :
    c.validateWith validators = c.validateWith Validator.all := by
  refine Diagnostic.eq_of_filter_ties (Diagnostic.sort_pairwise _) (Diagnostic.sort_pairwise _)
    fun a ↦ ?_
  exact (filter_ties_validateWith h a).trans (filter_ties_validateWith (.refl _) a).symm

/-- Whatever the order in which the validators run, a method is reported the same diagnostics in the
same order: all that the validators report, by start and then by code, and those that agree in both
as their validator found them. -/
theorem validators_commute (c : Context) {validators : List Validator}
    (h : validators.Perm Validator.all) :
    c.validate? = (if c.resolves then some (c.validateWith validators) else none) ∧
      c.validateWith validators = c.validateWith Validator.all ∧
      (c.validateWith validators).Perm (validators.flatMap (·.run c)) ∧
      (c.validateWith validators).Pairwise (fun a b ↦ a.span.start < b.span.start ∨
        a.span.start = b.span.start ∧ a.code.number ≤ b.code.number) ∧
      ∀ v : Validator, ∀ d ∈ v.run c,
        (c.validateWith validators).filter d.ties = (v.run c).filter d.ties := by
  refine ⟨?_, validateWith_eq h, Diagnostic.sort_perm _, ?_, fun v d hd ↦ ?_⟩
  · rw [validate?, validateWith_eq h]
  · exact (Diagnostic.sort_pairwise _).imp Diagnostic.precedes_iff.1
  · obtain ⟨e, -, hconcerns⟩ := finds_of_mem_run hd
    rw [filter_ties_validateWith h, hconcerns.validator_eq]

end Context

/-- Reads past the end of an inline array that is not assigned. -/
def readsPastEnd : Method :=
  let x : Expr := .var 0 0
  let access : Expr := .element 2 x [{ value := .int 1 5 }]
  Body.finish
    { name := "Main", exprs := #[x, .int 1 5, access]
      vars := #[{ name := "x", kind := .stackLocal, type := 7, assigned := false }]
      statements := [.expression access] }

/-- Validators that run in the other order find the unassigned local first, which comes second. -/
theorem readsPastEnd_commute :
    let c : Context :=
      ⟨⟨[.array ⟨"Row", TypeTable.int, 2⟩, .span TypeTable.int false, .span TypeTable.int true]⟩,
        {}, readsPastEnd⟩
    let validators : List Validator := [.definiteAssignment, .refSafety, .indexing]
    validators.Perm Validator.all ∧
      (validators.flatMap (·.run c)).map (·.violation) =
        [.unassignedVariable "x", .indexOutOfBounds "5" 2] ∧
      c.validate?.map (·.map (·.violation)) =
        some [.indexOutOfBounds "5" 2, .unassignedVariable "x"] ∧
      c.validate? = some (c.validateWith validators) := by
  intro c validators
  have hperm : validators.Perm Validator.all := by decide
  have hresolves : c.resolves := by cbv
  have hvalidate := (c.validators_commute hperm).1
  rw [if_pos hresolves] at hvalidate
  exact ⟨hperm, by cbv, by cbv, hvalidate⟩

end InlineArrays
