/-!
# Computations that may fail

Where a composed computation succeeds, or fails, and how that comes about.
-/

namespace InlineArrays

namespace Except

variable {ε α β : Type} {x : Except ε α} {f : α → Except ε β}

theorem bind_eq_ok {b : β} : (x >>= f) = .ok b ↔ ∃ a, x = .ok a ∧ f a = .ok b := by
  cases x with
  | ok a => exact ⟨fun h ↦ ⟨a, rfl, h⟩, fun ⟨_, ha, h⟩ ↦ by cases ha; exact h⟩
  | error e => exact ⟨nofun, fun ⟨_, ha, _⟩ ↦ nomatch ha⟩

theorem map_eq_ok {f : α → β} {b : β} : x.map f = .ok b ↔ ∃ a, x = .ok a ∧ f a = b := by
  cases x <;> simp [Except.map]

theorem mapError_eq_ok {ε' : Type} {f : ε → ε'} {a : α} : x.mapError f = .ok a ↔ x = .ok a := by
  cases x <;> constructor <;> intro h <;> cases h <;> rfl

theorem toOption_eq_some {a : α} : x.toOption = some a ↔ x = .ok a := by
  cases x <;> simp [Except.toOption]

theorem bind_eq_error {e : ε} :
    (x >>= f) = .error e ↔ x = .error e ∨ ∃ a, x = .ok a ∧ f a = .error e := by
  cases x with
  | ok a =>
    refine ⟨fun h ↦ .inr ⟨a, rfl, h⟩, ?_⟩
    rintro (h | ⟨_, ha, h⟩)
    · cases h
    · cases ha
      exact h
  | error e' =>
    refine ⟨fun h ↦ .inl ?_, ?_⟩
    · cases h
      rfl
    · rintro (h | ⟨_, ha, _⟩)
      · cases h
        rfl
      · cases ha

/-- An error of a list is that of one of its elements. -/
theorem mapM_eq_error {l : List α} {e : ε} (h : l.mapM f = .error e) : ∃ a ∈ l, f a = .error e := by
  induction l with
  | nil => cases h
  | cons a l ih =>
    rw [List.mapM_cons] at h
    rcases bind_eq_error.1 h with h | ⟨b, -, h⟩
    · exact ⟨a, by simp, h⟩
    · rcases bind_eq_error.1 h with h | ⟨bs, -, h⟩
      · obtain ⟨a', ha', h⟩ := ih h
        exact ⟨a', List.mem_cons_of_mem _ ha', h⟩
      · cases h

theorem mapM_congr {g : α → Except ε β} {l : List α} (h : ∀ a ∈ l, f a = g a) :
    l.mapM f = l.mapM g := by
  induction l with
  | nil => rfl
  | cons a l ih =>
    rw [List.mapM_cons, List.mapM_cons, h a List.mem_cons_self,
      ih fun a ha ↦ h a (List.mem_cons_of_mem _ ha)]

/-- Where `f` does not end with the error, it has not met an element that tells it from `g`. -/
theorem mapM_eq_of_ne_error {g : α → Except ε β} {l : List α} {e : ε}
    (h : ∀ a ∈ l, f a ≠ .error e → f a = g a)
    (hl : l.mapM f ≠ .error e) : l.mapM f = l.mapM g := by
  induction l with
  | nil => rfl
  | cons a l ih =>
    rw [List.mapM_cons] at hl
    rw [List.mapM_cons, List.mapM_cons]
    have ha : f a ≠ .error e := fun ha ↦ hl (by rw [ha]; rfl)
    rw [← h a List.mem_cons_self ha]
    cases hfa : f a with
    | error e' => rfl
    | ok b =>
      have htail : l.mapM f ≠ .error e := fun htail ↦ hl (by rw [hfa, htail]; rfl)
      rw [ih (fun a ha ↦ h a (List.mem_cons_of_mem _ ha)) htail]

/-- An invariant of the state of a fold that can fail, kept by each element of the list. -/
theorem foldlM_inv_of_mem {f : β → α → Except ε β} {inv : β → Prop} {l : List α} {b b' : β}
    (hstep : ∀ b, ∀ a ∈ l, ∀ b', inv b → f b a = .ok b' → inv b') (hb : inv b)
    (h : l.foldlM f b = .ok b') : inv b' := by
  induction l generalizing b with
  | nil =>
    cases h
    exact hb
  | cons a l ih =>
    rw [List.foldlM_cons] at h
    obtain ⟨mid, hmid, h⟩ := bind_eq_ok.1 h
    exact ih (fun b a ha ↦ hstep b a (List.mem_cons_of_mem _ ha))
      (hstep b a List.mem_cons_self mid hb hmid) h

theorem foldlM_inv {f : β → α → Except ε β} {inv : β → Prop}
    (hstep : ∀ b a b', inv b → f b a = .ok b' → inv b') {l : List α} {b b' : β} (hb : inv b)
    (h : l.foldlM f b = .ok b') : inv b' :=
  foldlM_inv_of_mem (fun b a _ ↦ hstep b a) hb h

end Except

end InlineArrays
