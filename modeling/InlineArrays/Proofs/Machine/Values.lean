import InlineArrays.Machine.Execute
import InlineArrays.Machine.Materialize
import InlineArrays.Proofs.Except

/-!
# Steps into values

Reading along a path and replacing what is there fail at the first step that does not exist; both
are inverted one step at a time.
-/

namespace InlineArrays

namespace RuntimeError

/-- Something was read before it was defined. -/
def Undefined (e : RuntimeError) : Prop := ∃ operand, e = .undefinedValue operand

/-- An error that is about the values found, not about finding them. -/
def Benign : RuntimeError → Prop
  | .undefinedValue _ | .danglingReference => False
  | _ => True

theorem Benign.ne_dangling {e : RuntimeError} (h : e.Benign) : e ≠ .danglingReference := by
  rintro rfl
  exact h

theorem Benign.not_undefined {e : RuntimeError} (h : e.Benign) : ¬ e.Undefined := by
  rintro ⟨operand, rfl⟩
  exact h

end RuntimeError

namespace Value

theorem get_cons_eq_ok {v w : Value} {step : Step} {path : List Step} :
    v.get (step :: path) = .ok w ↔ ∃ inner, v.child "struct" step = .ok inner ∧
      inner.get path = .ok w := Except.bind_eq_ok

theorem get_cons_eq_error {v : Value} {step : Step} {path : List Step} {e : RuntimeError} :
    v.get (step :: path) = .error e ↔ v.child "struct" step = .error e ∨
      ∃ inner, v.child "struct" step = .ok inner ∧ inner.get path = .error e :=
  Except.bind_eq_error

/-- Replacing something fails where reading it does, with a text of its own. -/
theorem exists_set_cons (step : Step) : ∃ absent, ∀ (new v : Value) (path : List Step),
    set new v (step :: path) = (do
      let inner ← v.child absent step
      return v.withChild (← set new inner path) step) := ⟨_, fun _ _ _ ↦ rfl⟩

theorem set_cons (new v : Value) (step : Step) (path : List Step) :
    ∃ absent, set new v (step :: path) = (do
      let inner ← v.child absent step
      return v.withChild (← set new inner path) step) :=
  (exists_set_cons step).imp fun _ h ↦ h new v path

theorem child_benign {absent : String} {v : Value} {step : Step} {e : RuntimeError}
    (h : v.child absent step = .error e) : e.Benign := by
  unfold child at h
  split at h <;> split at h <;> try split at h
  all_goals cases h <;> trivial

theorem get_benign {v : Value} {path : List Step} {e : RuntimeError}
    (h : v.get path = .error e) : e.Benign := by
  induction path generalizing v with
  | nil => cases h
  | cons step path ih =>
    rcases get_cons_eq_error.1 h with h | ⟨inner, -, h⟩
    · exact child_benign h
    · exact ih h

theorem set_benign {new v : Value} {path : List Step} {e : RuntimeError}
    (h : set new v path = .error e) : e.Benign := by
  induction path generalizing v with
  | nil => cases h
  | cons step path ih =>
    obtain ⟨absent, hset⟩ := set_cons new v step path
    rw [hset] at h
    rcases Except.bind_eq_error.1 h with h | ⟨inner, -, h⟩
    · exact child_benign h
    · rcases Except.bind_eq_error.1 h with h | ⟨inner', -, h⟩
      · exact ih h
      · cases h

end Value

namespace SpanView

theorem index_benign {view : SpanView} {position : Int64} {e : RuntimeError}
    (h : view.index position = .error e) : e.Benign := by
  unfold index at h
  split at h
  · split at h <;> cases h
    trivial
  · cases h
    trivial

theorem slice_benign {view : SpanView} {start count : Int64} {e : RuntimeError}
    (h : view.slice start count = .error e) : e.Benign := by
  unfold slice at h
  split at h <;> cases h
  trivial

end SpanView

/-- The elements of a range fail where one of them does. -/
theorem Memory.eachElement_eq_error {f : Nat → Except RuntimeError Value} {e : RuntimeError}
    {position count : Nat} (h : eachElement f position count = .error e) :
    ∃ i, f i = .error e := by
  induction count generalizing position with
  | zero => cases h
  | succ count ih =>
    rcases Except.bind_eq_error.1 h with h | ⟨item, -, h⟩
    · exact ⟨position, h⟩
    · rcases Except.bind_eq_error.1 h with h | ⟨items, -, h⟩
      · exact ih h
      · cases h

end InlineArrays
