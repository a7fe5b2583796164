import InlineArrays.Proofs.Resolution.RefLocals

/-!
# Span locals

A span local is as wide in scope as the first span it is given, which may be asked for afresh: only a
chain of locals that comes back to the span local could tell the difference, and such a chain stays
within the method.
-/

namespace InlineArrays.Context

variable {c : Context} {v : VariableId} {first : Expr}
  (hspan : c.types.isSpan (c.method.var v).type) (hkind : (c.method.var v).kind = .stackLocal)
  (hfirst : c.method.firstAssignment? v = some first)
include hspan hkind hfirst

theorem followed?_spanLocal : c.followed? v = some first := by
  obtain ⟨parts, hparts⟩ := Option.isSome_iff_exists.1 hspan
  rw [followed?, hparts, hkind]
  exact hfirst

/-- A span local has the scope of its first value. -/
theorem scope_spanLocal {id : ExprId} {s s' : Storage} (hs : c.storageOf? (.var id v) = some s)
    (hs' : c.storageOf? first = some s') : s.scope = s'.scope := by
  have hfollowed := followed?_spanLocal hspan hkind hfirst
  obtain ⟨parts, hparts⟩ := Option.isSome_iff_exists.1 hspan
  obtain ⟨jumps, hjumps⟩ : ∃ jumps, c.method.vars.size = jumps + 1 :=
    Nat.exists_eq_add_one.2 (Nat.zero_lt_of_lt (lt_of_followed hfollowed))
  have hresolve (e : Expr) :
      c.storageOf? e = c.followLocals c.typeForStorage? (jumps + 1) [] e := by
    rw [storageOf?, questions, freshStorage, hjumps]
    rfl
  rw [hresolve] at hs hs'
  change c.variableStorage v (c.method.var v).type false _ = some s at hs
  simp only [variableStorage, hparts, hkind, hfirst, Bool.false_eq_true, if_false] at hs
  obtain ⟨t, ht, rfl⟩ := Option.map_eq_some_iff.1 hs
  have ht := followLocals_le_succ _ jumps [v] first t ht
  rcases followLocals_eq_or_leads (r := v) (jumps + 1) (fun w hw ↦ by simp [hw]) ht hs' with
    rfl | ⟨w, hrests, hleads⟩
  · rfl
  · have hendless : c.Endless w :=
      ⟨v, hleads, Relation.TransGen.head' ⟨first, hfollowed, hrests⟩ hleads⟩
    exact (scope_of_restsOn_endless hrests hendless ht).trans
      (scope_of_restsOn_endless hrests hendless hs').symm

end InlineArrays.Context
