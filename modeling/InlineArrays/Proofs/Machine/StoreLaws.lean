import InlineArrays.Proofs.Machine.Leaves
import InlineArrays.Proofs.Machine.Materialized
import InlineArrays.Proofs.Machine.Roots

/-!
# Reading after writing

A write succeeds exactly where a read does.  Afterwards what was written is read at its address, what
is above it is what it was with that one part replaced, and everything that is neither above nor
inside is as it was, errors included.  No two activations need to have different numbers for this:
only the first one of a number is ever read.
-/

namespace InlineArrays

namespace Value

/-- `w` is `v` with what is at the end of the path replaced by `new`.  Of several fields of a name
the first is meant. -/
inductive Replaced (new : Value) : List Step → Value → Value → Prop
  | here (old : Value) : Replaced new [] old new
  | field {name : String} {path : List Step} {old changed : Value}
      {before after : List (String × Value)} (first : ∀ field ∈ before, field.1 ≠ name)
      (inside : Replaced new path old changed) :
      Replaced new (.field name :: path) (.struct (before ++ (name, old) :: after))
        (.struct (before ++ (name, changed) :: after))
  | element {path : List Step} {old changed : Value} {before after : List Value}
      (inside : Replaced new path old changed) :
      Replaced new (.element before.length :: path) (.array (before ++ old :: after))
        (.array (before ++ changed :: after))

variable {new v w inner : Value} {name text text' : String} {step : Step} {path : List Step}

section

variable {before after : List (String × Value)}

theorem child_of_first (first : ∀ field ∈ before, field.1 ≠ name) :
    (struct (before ++ (name, inner) :: after)).child text (.field name) = .ok inner := by
  have hnone : before.find? (·.1 == name) = none := by simpa using first
  exact child_field_eq_ok.2 ⟨_, rfl, by simp [hnone]⟩

/-- What the field holds is nothing to the other steps. -/
theorem child_of_ne_field (h : step ≠ .field name) (inner' : Value) :
    (struct (before ++ (name, inner) :: after)).child text step =
      (struct (before ++ (name, inner') :: after)).child text step := by
  cases step with
  | field k =>
    have hk : ¬ name = k := fun hk ↦ h (hk ▸ rfl)
    simp [child, field?, List.find?_append, hk]
  | element position => rfl

theorem setField_of_first (first : ∀ field ∈ before, field.1 ≠ name) (changed : Value) :
    setField name changed (before ++ (name, inner) :: after) =
      before ++ (name, changed) :: after := by
  induction before with
  | nil => simp [setField]
  | cons field before ih =>
    obtain ⟨n, value⟩ := field
    have hn : ¬ n = name := first (n, value) List.mem_cons_self
    rw [List.cons_append, setField, if_neg hn,
      ih fun field h ↦ first field (List.mem_cons_of_mem _ h), List.cons_append]

/-- The field that is found splits the fields. -/
theorem exists_first_of_child (h : v.child text (.field name) = .ok inner) :
    ∃ before after, v = .struct (before ++ (name, inner) :: after) ∧
      ∀ field ∈ before, field.1 ≠ name := by
  obtain ⟨fields, rfl, hfield⟩ := child_field_eq_ok.1 h
  obtain ⟨⟨n, value⟩, hfind, rfl⟩ := Option.map_eq_some_iff.1 hfield
  obtain ⟨hn, before, after, rfl, hbefore⟩ := List.find?_eq_some_iff_append.1 hfind
  obtain rfl : n = name := by simpa using hn
  exact ⟨before, after, rfl, fun field hmem ↦ by simpa using hbefore field hmem⟩

end

section

variable {before after : List Value}

theorem child_of_length :
    (array (before ++ inner :: after)).child text (.element before.length) = .ok inner :=
  child_element_eq_ok.2 ⟨_, rfl, by simp⟩

theorem child_of_ne_element (h : step ≠ .element before.length) (inner' : Value) :
    (array (before ++ inner :: after)).child text step =
      (array (before ++ inner' :: after)).child text step := by
  cases step with
  | field k => rfl
  | element position =>
    have hne : position ≠ before.length := fun hposition ↦ h (hposition ▸ rfl)
    have hitem : (before ++ inner :: after)[position]? = (before ++ inner' :: after)[position]? := by
      rw [List.getElem?_append, List.getElem?_append]
      split
      · rfl
      · obtain ⟨k, hk⟩ : ∃ k, position - before.length = k + 1 :=
          Nat.exists_eq_add_one_of_ne_zero (by omega)
        rw [hk, List.getElem?_cons_succ, List.getElem?_cons_succ]
    simp only [child, hitem, List.length_append, List.length_cons]

theorem exists_length_of_child {position : Nat}
    (h : v.child text (.element position) = .ok inner) :
    ∃ before after, v = .array (before ++ inner :: after) ∧ before.length = position := by
  obtain ⟨items, rfl, hitem⟩ := child_element_eq_ok.1 h
  obtain ⟨hlt, rfl⟩ := List.getElem?_eq_some_iff.1 hitem
  refine ⟨items.take position, items.drop (position + 1), ?_, List.length_take_of_le (Nat.le_of_lt hlt)⟩
  rw [List.getElem_cons_drop, List.take_append_drop]

end

/-- A replacement is one step inside a value, and the other steps do not see it. -/
theorem Replaced.exists_of_cons (h : Replaced new (step :: path) v w) :
    ∃ old changed, Replaced new path old changed ∧
      (∀ text, v.child text step = .ok old ∧ w.child text step = .ok changed) ∧
      ∀ step' ≠ step, ∀ text, w.child text step' = v.child text step' := by
  cases h with
  | field first inside =>
    exact ⟨_, _, inside, fun _ ↦ ⟨child_of_first first, child_of_first first⟩,
      fun _ h _ ↦ child_of_ne_field h _⟩
  | element inside =>
    exact ⟨_, _, inside, fun _ ↦ ⟨child_of_length, child_of_length⟩,
      fun _ h _ ↦ child_of_ne_element h _⟩

/-- What is one step inside a value can be replaced. -/
theorem Replaced.withChild {old changed : Value} (h : v.child text step = .ok old)
    (inside : Replaced new path old changed) :
    Replaced new (step :: path) v (v.withChild changed step) := by
  cases step with
  | field name =>
    obtain ⟨before, after, rfl, first⟩ := exists_first_of_child h
    rw [Value.withChild, withField, setField_of_first first]
    exact .field first inside
  | element position =>
    obtain ⟨before, after, rfl, rfl⟩ := exists_length_of_child h
    rw [Value.withChild, List.set_append_right _ _ (Nat.le_refl _), Nat.sub_self, List.set_cons_zero]
    exact .element inside

theorem Replaced.get_self (h : Replaced new path v w) : w.get path = .ok new := by
  induction path generalizing v w with
  | nil =>
    cases h
    rfl
  | cons step path ih =>
    obtain ⟨old, changed, inside, hchild, -⟩ := h.exists_of_cons
    exact get_cons_eq_ok.2 ⟨changed, (hchild _).2, ih inside⟩

/-- Beside the path everything is as it was, also what fails. -/
theorem Replaced.get_of_diverges (h : Replaced new path v w) {other : List Step}
    (habove : ¬ other <+: path) (hinside : ¬ path <+: other) : w.get other = v.get other := by
  induction path generalizing v w other with
  | nil => exact absurd List.nil_prefix hinside
  | cons step path ih =>
    obtain ⟨old, changed, inside, hchild, hother⟩ := h.exists_of_cons
    cases other with
    | nil => exact absurd List.nil_prefix habove
    | cons step' other =>
      rw [get, get]
      by_cases hstep : step' = step
      · subst hstep
        rw [(hchild _).1, (hchild _).2]
        exact ih inside (fun h ↦ habove (List.cons_prefix_cons.2 ⟨rfl, h⟩))
          fun h ↦ hinside (List.cons_prefix_cons.2 ⟨rfl, h⟩)
      · rw [hother step' hstep]

/-- Above the end of the path is what was there, with that one part replaced. -/
theorem Replaced.get_above {rest : List Step} (h : Replaced new (path ++ rest) v w) :
    ∃ old changed, v.get path = .ok old ∧ w.get path = .ok changed ∧
      Replaced new rest old changed := by
  induction path generalizing v w with
  | nil => exact ⟨v, w, rfl, rfl, h⟩
  | cons step path ih =>
    obtain ⟨old, changed, inside, hchild, -⟩ := h.exists_of_cons
    obtain ⟨old', changed', hold, hchanged, hrest⟩ := ih inside
    exact ⟨old', changed', get_cons_eq_ok.2 ⟨old, (hchild _).1, hold⟩,
      get_cons_eq_ok.2 ⟨changed, (hchild _).2, hchanged⟩, hrest⟩

/-- The text of errors aside, replacing takes the steps that reading takes. -/
theorem set_cons_of_ok (new : Value) (h : v.child text step = .ok inner) (path : List Step) :
    set new v (step :: path) = (set new inner path).map (v.withChild · step) := by
  obtain ⟨absent, hcons⟩ := set_cons new v step path
  rw [hcons, child_text h]
  rfl

theorem exists_set_replaced {old : Value} (new : Value) (h : v.get path = .ok old) :
    ∃ w, set new v path = .ok w ∧ Replaced new path v w := by
  induction path generalizing v with
  | nil => exact ⟨new, rfl, .here v⟩
  | cons step path ih =>
    obtain ⟨inner, hchild, hinner⟩ := get_cons_eq_ok.1 h
    obtain ⟨changed, hset, inside⟩ := ih hinner
    refine ⟨v.withChild changed step, ?_, inside.withChild hchild⟩
    rw [set_cons_of_ok new hchild, hset]
    rfl

/-- Only the text of an error depends on what is named as found. -/
theorem child_error_name {e : RuntimeError} (h : v.child text step = .error e) (text' : String) :
    ∃ e', v.child text' step = .error e' ∧ e'.name = e.name := by
  cases step with
  | element position => exact ⟨e, h, rfl⟩
  | field name =>
    cases v with
    | struct fields =>
      simp only [child] at h ⊢
      cases hfield : field? name (.struct fields) with
      | some inner =>
        rw [hfield] at h
        cases h
      | none =>
        rw [hfield] at h
        cases h
        exact ⟨_, rfl, rfl⟩
    | _ => exact ⟨e, h, rfl⟩

/-- A replacement fails where reading does, with an error of the same kind. -/
theorem exists_set_error {e : RuntimeError} (new : Value) (h : v.get path = .error e) :
    ∃ e', set new v path = .error e' ∧ e'.name = e.name := by
  induction path generalizing v with
  | nil => cases h
  | cons step path ih =>
    rcases get_cons_eq_error.1 h with h | ⟨inner, hchild, h⟩
    · obtain ⟨absent, hcons⟩ := set_cons new v step path
      obtain ⟨e', hchild, hname⟩ := child_error_name h absent
      exact ⟨e', by rw [hcons, hchild]; rfl, hname⟩
    · obtain ⟨e', hset, hname⟩ := ih h
      exact ⟨e', by rw [set_cons_of_ok new hchild, hset]; rfl, hname⟩

end Value

namespace Memory

variable {m m' : Memory} {a : Address} {value : Value}

/-- What memory has become where `value` was written to `a`. -/
structure Stores (m : Memory) (a : Address) (value : Value) (m' : Memory) : Prop where
  read_self : m'.read a = .ok value
  read_apart : ∀ b : Address, b.root ≠ a.root ∨ ¬ b.path <+: a.path ∧ ¬ a.path <+: b.path →
    m'.read b = m.read b
  read_above : ∀ path rest, a.path = path ++ rest → ∃ old changed,
    m.read ⟨a.root, path⟩ = .ok old ∧ m'.read ⟨a.root, path⟩ = .ok changed ∧
      Value.Replaced value rest old changed

theorem read_eq_ok {v : Value} :
    m.read a = .ok v ↔ ∃ whole, m.root? a.root = some whole ∧ whole.get a.path = .ok v := by
  unfold read
  cases m.root? a.root <;> simp

theorem stores_setRoot {whole changed : Value} (hroot : m.root? a.root = some whole)
    (hchanged : Value.Replaced value a.path whole changed) :
    m.Stores a value (m.setRoot changed a.root) := by
  have hroots (root : Root) : (m.setRoot changed a.root).root? root =
      if root = a.root then some changed else m.root? root :=
    root?_setRoot (by rw [hroot]; rfl)
  have hself : (m.setRoot changed a.root).root? a.root = some changed := by rw [hroots, if_pos rfl]
  refine ⟨read_eq_ok.2 ⟨changed, hself, hchanged.get_self⟩, fun b hb ↦ ?_, fun path rest hpath ↦ ?_⟩
  · by_cases hsame : b.root = a.root
    · obtain ⟨habove, hinside⟩ := hb.resolve_left (not_not_intro hsame)
      simp only [read, hsame, hself, hroot, hchanged.get_of_diverges habove hinside]
    · rw [read, read, hroots, if_neg hsame]
  · obtain ⟨old, changed', hold, hchanged', hinside⟩ := (hpath ▸ hchanged).get_above
    exact ⟨old, changed', read_eq_ok.2 ⟨whole, hroot, hold⟩,
      read_eq_ok.2 ⟨changed, hself, hchanged'⟩, hinside⟩

/-- Where there is something to read it can be replaced. -/
theorem exists_write {old : Value} (value : Value) (h : m.read a = .ok old) :
    ∃ m', m.write a value = .ok m' ∧ m.Stores a value m' := by
  obtain ⟨whole, hroot, hget⟩ := read_eq_ok.1 h
  obtain ⟨changed, hset, hchanged⟩ := Value.exists_set_replaced value hget
  exact ⟨_, write_eq_ok.2 ⟨whole, changed, hroot, hset, rfl⟩, stores_setRoot hroot hchanged⟩

theorem exists_write_error {e : RuntimeError} (value : Value) (h : m.read a = .error e) :
    ∃ e', m.write a value = .error e' ∧ e'.name = e.name := by
  unfold read at h
  unfold write
  cases hroot : m.root? a.root with
  | none =>
    rw [hroot] at h
    cases h
    exact ⟨_, rfl, rfl⟩
  | some whole =>
    rw [hroot] at h
    obtain ⟨e', hset, hname⟩ := Value.exists_set_error value h
    exact ⟨e', by simp only [hset]; rfl, hname⟩

end Memory

/-- A write succeeds exactly where a read does, and then stores the value; one that fails changes
nothing and fails in the way that reading does. -/
theorem Run.write_laws (m : Memory) (a : Address) (value : Value) :
    ((∃ m', Run.write a value m = .ok () m') ↔ ∃ old, m.read a = .ok old) ∧
    (∀ m', Run.write a value m = .ok () m' → m.Stores a value m') ∧
    ∀ e m', Run.write a value m = .error e m' →
      m' = m ∧ ∃ e', m.read a = .error e' ∧ e.name = e'.name := by
  cases hread : m.read a with
  | ok old =>
    obtain ⟨m₁, hwrite, hstores⟩ := m.exists_write value hread
    rw [Run.write_of_ok hwrite]
    refine ⟨⟨fun _ ↦ ⟨old, rfl⟩, fun _ ↦ ⟨m₁, rfl⟩⟩, fun m' h ↦ ?_, nofun⟩
    cases h
    exact hstores
  | error e =>
    obtain ⟨e', hwrite, hname⟩ := m.exists_write_error value hread
    rw [Run.write_of_error hwrite]
    refine ⟨⟨nofun, nofun⟩, nofun, fun e₁ m' h ↦ ?_⟩
    cases h
    exact ⟨rfl, e, rfl, hname⟩

end InlineArrays
