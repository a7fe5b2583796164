import InlineArrays.Proofs.Code.ArrayViews
import InlineArrays.Proofs.Validation.Accepted
import Mathlib

/-!
# Mutable views

An inline array that is viewed as a mutable span may be written through it.  An access makes such a
span only of storage that may be written and has an address; a conversion makes whichever is asked
for, and validation rejects a mutable one of other storage.  So no temporary is ever viewed as a
mutable span, and what is written through one is always the storage that the source names.
-/

namespace InlineArrays

/-! ## What is viewed as a mutable span -/

namespace Context

variable {c : Context}

/-- An access views its receiver as a mutable span only if that may be written. -/
theorem writable_of_access {a : Access} (hindexed : c.indexed a.receiver = .ok a.indexed)
    {v : ArrayView} (hv : v ∈ a.views) (hkind : v.kind = .mutable) :
    (c.storageOf v.of).referenceable ∧ (c.storageOf v.of).readonly = false := by
  unfold Access.views at hv
  split at hv
  · rename_i p hp
    obtain ⟨type, -, rfl⟩ := project?_of_indexed (hp ▸ hindexed)
    obtain rfl := List.mem_singleton.1 hv
    have hprojects : (c.storageOf a.receiver).projectsReadonly = false := by
      rw [← SpanKind.isReadonly_ofReadonly (c.storageOf a.receiver).projectsReadonly]
      exact congrArg SpanKind.isReadonly hkind
    simpa [Storage.projectsReadonly, and_comm] using hprojects
  · cases hv

/-- A conversion to a mutable span is accepted only of what may be written. -/
theorem writable_of_span {id : ExprId} {operand : Expr}
    (h : c.innateError? (.span id operand false) = none) :
    (c.storageOf operand).referenceable ∧ (c.storageOf operand).readonly = false := by
  unfold innateError? at h
  dsimp only at h
  split at h
  · cases h
  · split at h
    · cases h
    · rename_i hreferenceable hreadonly
      exact ⟨by simpa using hreferenceable, by simpa using hreadonly⟩

/-- What an accepted expression views as a mutable span may be written and has an address. -/
theorem writable_of_mem_ownViews {e : Expr} (h : c.innateError? e = none) {v : ArrayView}
    (hv : v ∈ c.ownViews e) (hkind : v.kind = .mutable) :
    (c.storageOf v.of).referenceable ∧ (c.storageOf v.of).readonly = false := by
  unfold ownViews at hv
  split at hv
  · rename_i id operand readonly
    obtain rfl := List.mem_singleton.1 hv
    cases readonly with
    | false => exact writable_of_span h
    | true => cases hkind
  · split at hv
    · rename_i a hbind
      cases e with
      | element id receiver args =>
        obtain ⟨-, rfl, hindexed, -⟩ := bind_eq_ok hbind
        exact writable_of_access hindexed hv hkind
      | _ => cases hbind
    · cases hv

/-- What has an address is never spilled; a placeholder has none. -/
theorem storageDemand_of_isStored {e : Expr} (h : c.IsStored e) : c.storageDemand e = .address := by
  have hplaceholder : e.isPlaceholder = false := by
    cases e with
    | placeholder => exact absurd h (not_isStored fun _ _ ↦ rfl)
    | _ => rfl
  have hstored : (c.storageOf e).referenceable := h
  simp [storageDemand, hplaceholder, hstored]

end Context

/-! ## Mutable views -/

/-- Members of a list that give the same are the same if nothing is given twice. -/
theorem eq_of_nodup_filterMap {α β : Type} {f : α → Option β} {l : List α}
    (h : (l.filterMap f).Nodup) {a b : α} (ha : a ∈ l) (hb : b ∈ l) {c : β} (hac : f a = some c)
    (hbc : f b = some c) : a = b := by
  by_contra hne
  have hsymm : Std.Symm fun a b ↦ ∀ c, f a = some c → ∀ c', f b = some c' → c ≠ c' :=
    ⟨fun a b hab c hc c' hc' heq ↦ hab c' hc' c hc heq.symm⟩
  exact (List.pairwise_filterMap.1 h).forall ha hb hne c hac c hbc rfl

namespace Routine.WellFormed

variable {r : Routine} {i j : Instr}

/-- No value is defined by two instructions. -/
theorem eq_of_dest? (h : r.WellFormed) (hi : i ∈ r.instrs) (hj : j ∈ r.instrs) {id : ValueId}
    (hdest : i.dest? = some id) (hdest' : j.dest? = some id) : i = j :=
  eq_of_nodup_filterMap (h.dests_perm.nodup_iff.2 List.nodup_range) hi hj hdest hdest'

/-- No temporary is stored to by two instructions. -/
theorem eq_of_stored? (h : r.WellFormed) (hi : i ∈ r.instrs) (hj : j ∈ r.instrs) {t : TempId}
    (hstored : i.stored? = some t) (hstored' : j.stored? = some t) : i = j :=
  eq_of_nodup_filterMap (h.stores_perm.nodup_iff.2 List.nodup_range) hi hj hstored hstored'

end Routine.WellFormed

/-- A temporary is only viewed as a read-only span. -/
theorem Context.Makes.readonly_of_tempAddress {c : Context} {r : Routine} (hr : r.WellFormed)
    {note : Note} {dest id : ValueId} {kind : SpanKind} {array element : String} {size : Nat}
    {v : ArrayView}
    (h : c.Makes r.instrs (.define note dest (.project kind (.computed id) array element size)) v)
    (hmutable : v.kind = .mutable → c.storageDemand v.of = .address) {note' : Note} {temp : TempId}
    (htemp : .define note' id (.tempAddress temp) ∈ r.instrs) : kind = .readonly := by
  obtain ⟨_, _, _, type, -, heq, i, hi, id', hdest, hcomputed, hheld⟩ := h
  cases heq
  cases hcomputed
  obtain rfl := hr.eq_of_dest? hi htemp hdest rfl
  have hvalue : c.storageDemand v.of = .value := hheld.1 rfl
  cases hkind : v.kind with
  | readonly => rfl
  | mutable =>
    rw [hmutable hkind] at hvalue
    cases hvalue

/-- The code of a method projects what its source views, one after the other.  What it views as a
mutable span may be written and is projected at its own address; what it projects at the address of
a temporary becomes a read-only span. -/
theorem Context.mutableViews_writable {c : Context} {r : Routine} (h : c.routine = .ok r) :
    List.Forall₂ (c.Makes r.instrs) (Instr.projections r.code) c.methodViews ∧
      (∀ v ∈ c.methodViews, v.kind = .mutable →
        (c.storageOf v.of).referenceable ∧ (c.storageOf v.of).readonly = false ∧
          c.storageDemand v.of = .address) ∧
      ∀ note dest kind id array element size note' temp,
        .define note dest (.project kind (.computed id) array element size) ∈ r.instrs →
        .define note' id (.tempAddress temp) ∈ r.instrs → kind = .readonly := by
  obtain ⟨hvalid, hbody⟩ := routine_eq_ok.1 h
  have hmakes : c.MakesAll r.code c.methodViews := makesAll_of_lowerBody hbody
  have hwritable : ∀ v ∈ c.methodViews, v.kind = .mutable →
      (c.storageOf v.of).referenceable ∧ (c.storageOf v.of).readonly = false ∧
        c.storageDemand v.of = .address := by
    intro v hv hkind
    obtain ⟨use, huse, hv⟩ := mem_methodViews.1 hv
    have hinnate := ((accepted_of_validate hvalid).uses use huse).innate
    obtain ⟨hstored, hreadonly⟩ := writable_of_mem_ownViews hinnate hv hkind
    exact ⟨hstored, hreadonly, storageDemand_of_isStored hstored⟩
  refine ⟨hmakes, hwritable, ?_⟩
  intro note dest kind id array element size note' temp hproject htemp
  have hprojection : Instr.define note dest (.project kind (.computed id) array element size) ∈
      Instr.projections r.code := List.mem_filter.2 ⟨hproject, rfl⟩
  obtain ⟨v, hv, hmade⟩ := hmakes.exists_view hprojection
  exact hmade.readonly_of_tempAddress (wellFormed_of_lowerBody hbody)
    (fun hkind ↦ (hwritable v hv hkind).2.2) htemp

/-- A method that indexes what a call returns by value, then converts a parameter to a span. -/
def indexThenConvert : Context :=
  let type := TypeTable.builtin.length
  let call : Expr := .call 0 "F" .value type
  let element : Expr := .element 2 call [{ value := .int 1 0 }]
  let buffer : Expr := .var 3 0
  let span : Expr := .span 4 buffer false
  let body : Body :=
    { name := "Main"
      exprs := #[call, .int 1 0, element, buffer, span]
      vars := #[{ name := "b", kind := .parameter .ref, type }]
      statements := [.expression element, .expression span] }
  ⟨bufferTypes, {}, body.finish⟩

/-- The result of the call is spilled and viewed read-only, the parameter is viewed where it is. -/
theorem indexThenConvert_views :
    ∃ r, indexThenConvert.routine = .ok r ∧ r.helpers = ["as_readonly_span", "index", "as_span"] ∧
      indexThenConvert.methodViews.map (·.kind) = [.readonly, .mutable] ∧
      (∀ v ∈ indexThenConvert.methodViews, v.kind = .mutable →
        (indexThenConvert.storageOf v.of).readonly = false) ∧
      ∀ note dest kind id array element size note' temp,
        .define note dest (.project kind (.computed id) array element size) ∈ r.instrs →
        .define note' id (.tempAddress temp) ∈ r.instrs → kind = .readonly := by
  obtain ⟨r, hr, hhelpers⟩ : ∃ r, indexThenConvert.routine = .ok r ∧
      r.helpers = ["as_readonly_span", "index", "as_span"] := ⟨_, by cbv, by cbv⟩
  obtain ⟨-, hwritable, htemp⟩ := Context.mutableViews_writable hr
  exact ⟨r, hr, hhelpers, by cbv, fun v hv hkind ↦ (hwritable v hv hkind).2.1, htemp⟩

end InlineArrays
