import InlineArrays.Proofs.Validation.Reported

/-!
# Bodies built step by step

A body is built by declaring variables, recording expressions and appending statements.  What is
recorded is made of what has been recorded before, and may be used any number of times.
-/

namespace InlineArrays.Body

variable {b : Body} {e : Expr}

/-- What can be built, whichever steps come when. -/
inductive Built : Body → Prop
  | empty (name : String) : Built { name }
  | own {b : Body} (owner : Owner) : Built b → Built (b.own owner).2
  | returning {b : Body} (returns : ReturnKind) (returnType : Option TypeId) :
      Built b → Built { b with returns, returnType }
  | declare {b : Body} (v : Variable) : Built b → Built (b.declare v).2
  | record {b : Body} {make : ExprId → Expr} : Built b → (∀ id, (make id).id = id) →
      (∀ part ∈ (b.record make).1.children, b.Records part) → Built (b.record make).2
  | append {b : Body} {s : Statement} : Built b → (∀ e ∈ s.exprs, b.Records e) →
      Built (b.append s)

/-- Every expression stands under its id, and with it what it is made of. -/
structure Coherent (b : Body) : Prop where
  ids : ∀ (i : Nat) e, b.exprs[i]? = some e → e.id = i
  children : ∀ e, b.Records e → ∀ part ∈ e.children, b.Records part
  exprs : ∀ s ∈ b.statements, ∀ e ∈ s.exprs, b.Records e

namespace Coherent

theorem of_exprs_eq {b' : Body} (h : b.Coherent) (hexprs : b'.exprs = b.exprs)
    (hstatements : b'.statements = b.statements) : b'.Coherent where
  ids i e he := h.ids i e (hexprs ▸ he)
  children e he part hpart := by
    rw [Records, hexprs] at he ⊢
    exact h.children e he part hpart
  exprs s hs e he := by
    rw [hstatements] at hs
    rw [Records, hexprs]
    exact h.exprs s hs e he

theorem record {make : ExprId → Expr} (h : b.Coherent) (hid : ∀ id, (make id).id = id)
    (hparts : ∀ part ∈ (b.record make).1.children, b.Records part) :
    (b.record make).2.Coherent where
  ids i e he := by
    unfold Body.record at he
    dsimp only at he
    rw [Array.getElem?_push] at he
    split at he
    · rename_i hi
      rw [← Option.some.inj he, hid, hi]
    · exact h.ids i e he
  children e he part hpart := by
    rcases records_of_record he with he | rfl
    · exact (h.children e he part hpart).record
    · exact (hparts part hpart).record
  exprs s hs e he := (h.exprs s hs e he).record

theorem append {s : Statement} (h : b.Coherent) (hs : ∀ e ∈ s.exprs, b.Records e) :
    (b.append s).Coherent where
  ids := h.ids
  children := h.children
  exprs s' hs' := by
    rcases List.mem_append.1 hs' with hs' | hs'
    · exact h.exprs s' hs'
    · rw [List.mem_singleton.1 hs']
      exact hs

theorem records_of_mem_parts (h : b.Coherent) (e : Expr) (he : b.Records e) :
    ∀ part ∈ e.parts, b.Records part := by
  intro part hpart
  cases hplaceholder : e.isPlaceholder with
  | true =>
    cases e with
    | placeholder id receiver =>
      rw [Expr.parts_placeholder, List.mem_singleton] at hpart
      rwa [hpart]
    | _ => cases hplaceholder
  | false =>
    rw [Expr.parts_eq hplaceholder] at hpart
    rcases List.mem_cons.1 hpart with rfl | hpart
    · exact he
    · obtain ⟨child, hchild, hpart⟩ := List.mem_flatMap.1 hpart
      exact h.records_of_mem_parts child (h.children e he child hchild) part hpart
termination_by sizeOf e
decreasing_by exact Expr.sizeOf_lt_of_mem_children hchild

theorem records_of_used (h : b.Coherent) (he : b.Used e) : b.Records e := by
  rw [Used, map_fst_uses] at he
  obtain ⟨s, hs, he⟩ := List.mem_flatMap.1 he
  obtain ⟨root, hroot, he⟩ := List.mem_flatMap.1 he
  exact h.records_of_mem_parts root (h.exprs s hs root hroot) e he

end Coherent

theorem Built.coherent (h : b.Built) : b.Coherent := by
  induction h with
  | empty name => exact ⟨by simp, by simp [Records], by simp⟩
  | own _ _ ih | returning _ _ _ ih | declare _ _ ih => exact ih.of_exprs_eq rfl rfl
  | record _ hid hparts ih => exact ih.record hid hparts
  | append _ hs ih => exact ih.append hs

end InlineArrays.Body
