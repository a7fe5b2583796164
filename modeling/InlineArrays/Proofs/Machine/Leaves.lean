import InlineArrays.Proofs.Machine.Values

/-!
# Integers inside values

Replacing an integer inside a value changes what is read at its path and at no other path at which
there is an integer: no such path leads through another.
-/

namespace InlineArrays.Value

variable {v inner new : Value} {name : String} {step step' : Step} {text text' : String}

theorem find?_setField {k : String} (fields : List (String × Value))
    (h : (fields.find? (·.1 == name)).isSome) :
    ((setField name new fields).find? (·.1 == k)).map (·.2) =
      if name = k then some new else (fields.find? (·.1 == k)).map (·.2) := by
  induction fields with
  | nil => cases h
  | cons field fields ih =>
    obtain ⟨n, v⟩ := field
    by_cases hn : n = name
    · subst hn
      by_cases hk : n = k <;> simp [setField, hk]
    · have hrest : (fields.find? (·.1 == name)).isSome := by
        rwa [List.find?_cons_of_neg (by simpa using hn)] at h
      rw [setField, if_neg hn]
      by_cases hk : n = k
      · have hne : name ≠ k := fun h ↦ hn (hk.trans h.symm)
        simp [hk, hne]
      · rw [List.find?_cons_of_neg (by simpa using hk), ih hrest,
          List.find?_cons_of_neg (by simpa using hk)]

theorem child_field_eq_ok :
    v.child text (.field name) = .ok inner ↔
      ∃ fields, v = .struct fields ∧ (fields.find? (·.1 == name)).map (·.2) = some inner := by
  cases v with
  | struct fields =>
    have hfield : field? name (.struct fields) = (fields.find? (·.1 == name)).map (·.2) := rfl
    simp only [child, struct.injEq, exists_eq_left', ← hfield]
    cases field? name (.struct fields) <;> simp
  | _ => simp [child]

theorem child_element_eq_ok {position : Nat} :
    v.child text (.element position) = .ok inner ↔
      ∃ items, v = .array items ∧ items[position]? = some inner := by
  cases v with
  | array items =>
    rw [child]
    cases hitem : items[position]? with
    | none => simp [hitem]
    | some item => simp [hitem]
  | _ => simp [child]

/-- What is found one step inside a value does not depend on the text of errors. -/
theorem child_text (h : v.child text step = .ok inner) : v.child text' step = .ok inner := by
  cases step with
  | field name => rwa [child_field_eq_ok] at h ⊢
  | element position => rwa [child_element_eq_ok] at h ⊢

theorem child_withChild_self (h : v.child text step = .ok inner) :
    (v.withChild new step).child text step = .ok new := by
  cases step with
  | field name =>
    obtain ⟨fields, rfl, hfield⟩ := child_field_eq_ok.1 h
    have hsome : (fields.find? (·.1 == name)).isSome := by
      rw [← Option.isSome_map, hfield]
      rfl
    exact child_field_eq_ok.2 ⟨_, rfl, by rw [find?_setField fields hsome, if_pos rfl]⟩
  | element position =>
    obtain ⟨items, rfl, hitem⟩ := child_element_eq_ok.1 h
    have hlt : position < items.length := (List.getElem?_eq_some_iff.1 hitem).1
    exact child_element_eq_ok.2 ⟨_, rfl, by rw [List.getElem?_set_self hlt]⟩

theorem child_withChild_of_ne {old : Value} (hold : v.child text step = .ok old)
    (hne : step' ≠ step) (h : v.child text' step' = .ok inner) :
    (v.withChild new step).child text' step' = .ok inner := by
  cases step with
  | field name =>
    obtain ⟨fields, rfl, hfield⟩ := child_field_eq_ok.1 hold
    have hsome : (fields.find? (·.1 == name)).isSome := by
      rw [← Option.isSome_map, hfield]
      rfl
    cases step' with
    | field name' =>
      obtain ⟨_, heq, hinner⟩ := child_field_eq_ok.1 h
      cases heq
      have hname : name ≠ name' := fun heq ↦ hne (heq ▸ rfl)
      exact child_field_eq_ok.2 ⟨_, rfl, by rw [find?_setField fields hsome, if_neg hname, hinner]⟩
    | element position => cases h
  | element position =>
    obtain ⟨items, rfl, hitem⟩ := child_element_eq_ok.1 hold
    cases step' with
    | field name => cases h
    | element position' =>
      obtain ⟨_, heq, hinner⟩ := child_element_eq_ok.1 h
      cases heq
      have hposition : position ≠ position' := fun heq ↦ hne (heq ▸ rfl)
      exact child_element_eq_ok.2 ⟨_, rfl, by rw [List.getElem?_set_ne hposition, hinner]⟩

/-- An integer has nothing inside. -/
theorem child_int (n : Int64) : (Value.int n).child text step ≠ .ok inner := by
  cases step <;> nofun

/-- Where there is an integer another can be put, and all other integers stay. -/
theorem exists_set_int {path : List Step} {old : Int64} (n : Int64)
    (h : v.get path = .ok (.int old)) :
    ∃ v', set (.int n) v path = .ok v' ∧ ∀ path' m, v.get path' = .ok (.int m) →
      v'.get path' = .ok (.int (if path' = path then n else m)) := by
  induction path generalizing v with
  | nil =>
    obtain rfl : v = .int old := Except.ok.inj h
    refine ⟨.int n, rfl, fun path' m hm ↦ ?_⟩
    cases path' with
    | nil => rfl
    | cons step path' =>
      obtain ⟨inner, hchild, -⟩ := get_cons_eq_ok.1 hm
      exact absurd hchild (child_int old)
  | cons step path ih =>
    obtain ⟨inner, hchild, hinner⟩ := get_cons_eq_ok.1 h
    obtain ⟨inner', hset, hget⟩ := ih hinner
    obtain ⟨absent, hcons⟩ := set_cons (.int n) v step path
    refine ⟨v.withChild inner' step, ?_, fun path' m hm ↦ ?_⟩
    · rw [hcons, child_text hchild]
      change (do return v.withChild (← set (.int n) inner path) step) = _
      rw [hset]
      rfl
    · cases path' with
      | nil =>
        obtain rfl : v = .int m := Except.ok.inj hm
        exact absurd hchild (child_int m)
      | cons step' path' =>
        obtain ⟨inner₂, hchild', hm⟩ := get_cons_eq_ok.1 hm
        apply get_cons_eq_ok.2
        by_cases hstep : step' = step
        · subst hstep
          obtain rfl : inner = inner₂ := Except.ok.inj (hchild.symm.trans hchild')
          refine ⟨inner', child_withChild_self hchild, ?_⟩
          simpa using hget path' m hm
        · refine ⟨inner₂, child_withChild_of_ne hchild hstep hchild', ?_⟩
          simpa [hstep] using hm

end InlineArrays.Value
