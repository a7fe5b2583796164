import InlineArrays.Code.Routine

/-!
# Scopes of code

An operand may be read where it was defined earlier in the same list of instructions or in a list
around it.  What a guard's body defines or stores is out of scope after the guard, since the body
may not have run.  A routine is well formed if every value it counts is defined by exactly one
instruction, every temporary it counts is stored by exactly one, and everything is read in scope;
then no value of a guard's body is read outside of that guard.
-/

namespace InlineArrays

/-- The values defined and the temporaries stored so far. -/
structure Scope where
  values : List ValueId := []
  temps : List TempId := []

/-- Literals are always in scope. -/
def Operand.InScope (σ : Scope) : Operand → Prop
  | .int _ | .bool _ => True
  | .computed id => id ∈ σ.values
  | .temp id => id ∈ σ.temps

/-- What an operation depends on; taking the address of a temporary depends on it too. -/
def Operation.reads : Operation → List Operand
  | .tempAddress temp => [.temp temp]
  | operation => operation.operands

namespace Instr

/-- The temporary that the instruction stores to. -/
def stored? : Instr → Option TempId
  | .storeTemp _ temp _ => some temp
  | .define .. | .store .. | .bind .. | .call .. | .guard .. | .ret .. => none

/-- What the instruction depends on, apart from the body of a guard. -/
def reads : Instr → List Operand
  | .define _ _ operation => operation.reads
  | i => i.operands

/-- The values that code defines, bodies of guards included. -/
def dests (code : List Instr) : List ValueId := (flattenAll code).filterMap (·.dest?)

/-- The temporaries that code stores to, bodies of guards included. -/
def stores (code : List Instr) : List TempId := (flattenAll code).filterMap (·.stored?)

theorem flattenAll_append (code rest : List Instr) :
    flattenAll (code ++ rest) = flattenAll code ++ flattenAll rest := by
  induction code with
  | nil => rfl
  | cons i code ih => simp [flattenAll, ih]

@[simp]
theorem dests_append (code rest : List Instr) : dests (code ++ rest) = dests code ++ dests rest := by
  simp [dests, flattenAll_append]

@[simp]
theorem stores_append (code rest : List Instr) :
    stores (code ++ rest) = stores code ++ stores rest := by
  simp [stores, flattenAll_append]

theorem dest_mem_dests {i : Instr} {id : ValueId} (h : i.dest? = some id) : id ∈ dests [i] := by
  cases i <;> simp_all [dests, flattenAll, flatten, dest?]

end Instr

namespace Scope

/-- The scope after an instruction; the body of a guard leaves nothing behind. -/
def after (σ : Scope) (i : Instr) : Scope :=
  ⟨i.dest?.toList ++ σ.values, i.stored?.toList ++ σ.temps⟩

def afterAll (σ : Scope) (code : List Instr) : Scope := code.foldl after σ

@[simp]
theorem afterAll_nil (σ : Scope) : σ.afterAll [] = σ := rfl

@[simp]
theorem afterAll_cons (σ : Scope) (i : Instr) (code : List Instr) :
    σ.afterAll (i :: code) = (σ.after i).afterAll code := rfl

@[simp]
theorem afterAll_append (σ : Scope) (code rest : List Instr) :
    σ.afterAll (code ++ rest) = (σ.afterAll code).afterAll rest := List.foldl_append

theorem inScope_after {σ : Scope} {o : Operand} (i : Instr) (h : o.InScope σ) :
    o.InScope (σ.after i) := by
  cases o with
  | int | bool => trivial
  | computed id => exact List.mem_append_right _ h
  | temp id => exact List.mem_append_right _ h

theorem inScope_afterAll {σ : Scope} {o : Operand} (code : List Instr) (h : o.InScope σ) :
    o.InScope (σ.afterAll code) := by
  induction code generalizing σ with
  | nil => exact h
  | cons i code ih => exact ih (inScope_after i h)

theorem mem_values_after {σ : Scope} {i : Instr} {id : ValueId} :
    id ∈ (σ.after i).values ↔ i.dest? = some id ∨ id ∈ σ.values := by
  simp [after]

theorem mem_values_afterAll {σ : Scope} {code : List Instr} {id : ValueId} :
    id ∈ (σ.afterAll code).values ↔ id ∈ σ.values ∨ id ∈ code.filterMap (·.dest?) := by
  induction code generalizing σ with
  | nil => simp
  | cons i code ih =>
    have hcons : id ∈ (i :: code).filterMap (·.dest?) ↔
        i.dest? = some id ∨ id ∈ code.filterMap (·.dest?) := by
      simp [List.filterMap_cons]
      cases i.dest? <;> simp [eq_comm]
    rw [afterAll_cons, ih, mem_values_after, hcons]
    rw [or_assoc, or_left_comm]

end Scope

namespace Instr

mutual

/-- Everything the instruction reads is in scope; the result of a guard may come from its body. -/
def WellScoped (σ : Scope) : Instr → Prop
  | .define _ _ operation => ∀ o ∈ operation.reads, o.InScope σ
  | .store _ address value => address.InScope σ ∧ value.InScope σ
  | .storeTemp _ _ value => value.InScope σ
  | .bind _ _ _ address => address.InScope σ
  | .call _ _ _ args => ∀ o ∈ args, o.InScope σ
  | .guard _ _ tested body result =>
    tested.InScope σ ∧ AllWellScoped σ body ∧ result.InScope (σ.afterAll body)
  | .ret _ value => ∀ o ∈ value, o.InScope σ
termination_by structural i => i

def AllWellScoped (σ : Scope) : List Instr → Prop
  | [] => True
  | i :: code => i.WellScoped σ ∧ AllWellScoped (σ.after i) code
termination_by structural code => code

end

theorem allWellScoped_append {σ : Scope} {code rest : List Instr} :
    AllWellScoped σ (code ++ rest) ↔
      AllWellScoped σ code ∧ AllWellScoped (σ.afterAll code) rest := by
  induction code generalizing σ with
  | nil => simp [AllWellScoped]
  | cons i code ih => simp [AllWellScoped, ih, and_assoc]

end Instr

/-- What holds of the code of every routine. -/
structure Routine.WellFormed (r : Routine) : Prop where
  dests_perm : (Instr.dests r.code).Perm (List.range r.valueCount)
  stores_perm : (Instr.stores r.code).Perm (List.range r.tempCount)
  wellScoped : Instr.AllWellScoped {} r.code

namespace Instr

theorem mem_dests_of_mem {code : List Instr} {id : ValueId}
    (h : id ∈ code.filterMap (·.dest?)) : id ∈ dests code := by
  induction code with
  | nil => simp at h
  | cons i code ih =>
    rw [show i :: code = [i] ++ code from rfl, List.filterMap_append, List.mem_append] at h
    rw [show i :: code = [i] ++ code from rfl, dests_append, List.mem_append]
    rcases h with hi | hcode
    · exact .inl (dest_mem_dests (by simpa using hi))
    · exact .inr (ih hcode)

/-- The values of a guard: its own, and those of its body. -/
theorem dests_guard_cons (note : Note) (dest : ValueId) (tested result : Operand)
    (body code : List Instr) :
    dests (.guard note dest tested body result :: code) = dest :: (dests body ++ dests code) := by
  simp [dests, flattenAll, flatten, dest?]

mutual

theorem mem_of_wellScoped {σ : Scope} {id : ValueId} {j : Instr} :
    (i : Instr) → i.WellScoped σ → j ∈ i.flatten → .computed id ∈ j.operands →
      id ∈ σ.values ∨ id ∈ dests [i]
  | .define _ _ operation, hi, hj, hid => by
    obtain rfl : j = _ := by simpa [flatten] using hj
    cases operation <;> simp_all [WellScoped, operands, Operation.operands, Operation.reads,
      Operand.InScope]
    all_goals grind [Operand.InScope]
  | .store _ _ _, hi, hj, hid => by
    obtain rfl : j = _ := by simpa [flatten] using hj
    rcases hi with ⟨haddress, hvalue⟩
    rcases (by simpa [operands] using hid) with rfl | rfl
    · exact .inl haddress
    · exact .inl hvalue
  | .storeTemp _ _ _, hi, hj, hid => by
    obtain rfl : j = _ := by simpa [flatten] using hj
    obtain rfl : _ = Operand.computed id := by simpa [operands, eq_comm] using hid
    exact .inl hi
  | .bind .., hi, hj, hid => by
    obtain rfl : j = _ := by simpa [flatten] using hj
    obtain rfl : _ = Operand.computed id := by simpa [operands, eq_comm] using hid
    exact .inl hi
  | .call _ _ _ _, hi, hj, hid => by
    obtain rfl : j = _ := by simpa [flatten] using hj
    exact .inl (show Operand.InScope σ (.computed id) from hi _ hid)
  | .guard note dest tested body result, hi, hj, hid => by
    rcases hi with ⟨htested, hbody, hresult⟩
    rw [dests_guard_cons]
    rcases List.mem_cons.1 hj with rfl | hj
    · rcases (by simpa [operands] using hid) with rfl | rfl
      · exact .inl htested
      · rcases Scope.mem_values_afterAll.1 hresult with hσ | hdest
        · exact .inl hσ
        · simp [mem_dests_of_mem hdest]
    · rcases mem_of_allWellScoped body hbody hj hid with hσ | hdest
      · exact .inl hσ
      · simp [hdest]
  | .ret _ _, hi, hj, hid => by
    obtain rfl : j = _ := by simpa [flatten] using hj
    exact .inl (show Operand.InScope σ (.computed id) from hi _ (by simpa [operands] using hid))
termination_by structural i => i

/-- What well scoped code reads is defined by it, or in scope before it. -/
theorem mem_of_allWellScoped {σ : Scope} {id : ValueId} {j : Instr} :
    (code : List Instr) → AllWellScoped σ code → j ∈ flattenAll code →
      .computed id ∈ j.operands → id ∈ σ.values ∨ id ∈ dests code
  | [], _, hj, _ => by simp [flattenAll] at hj
  | i :: code, ⟨hi, hcode⟩, hj, hid => by
    rw [show i :: code = [i] ++ code from rfl, dests_append, List.mem_append]
    rcases List.mem_append.1 hj with hj | hj
    · rcases mem_of_wellScoped i hi hj hid with hσ | hdest
      · exact .inl hσ
      · exact .inr (.inl hdest)
    · rcases mem_of_allWellScoped code hcode hj hid with hafter | hdest
      · rcases Scope.mem_values_after.1 hafter with hdest | hσ
        · exact .inr (.inl (dest_mem_dests hdest))
        · exact .inl hσ
      · exact .inr (.inr hdest)
termination_by structural code => code

end

/-- `others` are the instructions of `code` outside of an instruction `i` in it. -/
inductive Outside (i : Instr) : List Instr → List Instr → Prop
  | here (before after : List Instr) :
    Outside i (before ++ i :: after) (flattenAll before ++ flattenAll after)
  | inside (before after : List Instr) (note : Note) (dest : ValueId) (tested result : Operand)
    {body others : List Instr} : Outside i body others →
    Outside i (before ++ .guard note dest tested body result :: after)
      (flattenAll before ++ .guard note dest tested body result :: others ++ flattenAll after)

section

variable {note : Note} {dest : ValueId} {tested result : Operand}
  {before after body code others : List Instr} {id : ValueId}

/-- Where nothing is defined twice, what a guard's body defines is defined nowhere around it. -/
theorem ne_of_mem_guard
    (hnodup : (dests (before ++ .guard note dest tested body result :: after)).Nodup)
    (hid : id ∈ dests body) : id ∉ dests before ∧ id ≠ dest ∧ id ∉ dests after := by
  rw [dests_append, dests_guard_cons, List.nodup_append, List.nodup_cons, List.nodup_append] at hnodup
  obtain ⟨-, ⟨hdest, -, -, hafter⟩, hbefore⟩ := hnodup
  refine ⟨fun h ↦ hbefore id h id (by simp [hid]) rfl, ?_, fun h ↦ hafter id hid id h rfl⟩
  rintro rfl
  exact hdest (List.mem_append_left _ hid)

theorem dests_subset_of_outside
    (h : Outside (.guard note dest tested body result) code others) : dests body ⊆ dests code := by
  induction h with
  | here before after =>
    rw [dests_append, dests_guard_cons]
    exact fun id hid ↦ by simp [hid]
  | inside before after note dest tested result _ ih =>
    rw [dests_append, dests_guard_cons]
    exact fun id hid ↦ by simp [ih hid]

/-- No list around a guard defines what the body of the guard defines. -/
theorem not_mem_filterMap_of_outside (hnodup : (dests code).Nodup)
    (h : Outside (.guard note dest tested body result) code others) (hid : id ∈ dests body) :
    id ∉ code.filterMap (·.dest?) := by
  have hguard : ∃ before note dest tested inner result after,
      code = before ++ .guard note dest tested inner result :: after ∧ id ∈ dests inner := by
    cases h with
    | here before after => exact ⟨before, _, _, _, _, _, after, rfl, hid⟩
    | inside before after note dest tested result h =>
      exact ⟨before, _, _, _, _, _, after, rfl, dests_subset_of_outside h hid⟩
  obtain ⟨before, note, dest, tested, inner, result, after, rfl, hid⟩ := hguard
  obtain ⟨hbefore, hdest, hafter⟩ := ne_of_mem_guard hnodup hid
  intro hmem
  simp only [List.filterMap_append, List.filterMap_cons, dest?, List.mem_append,
    List.mem_cons] at hmem
  rcases hmem with hmem | hmem | hmem
  · exact hbefore (mem_dests_of_mem hmem)
  · exact hdest hmem
  · exact hafter (mem_dests_of_mem hmem)

/-- A value of a guard's body is not read outside of the guard. -/
theorem not_mem_operands_of_outside {σ : Scope} {j : Instr} (hscoped : AllWellScoped σ code)
    (hnodup : (dests code).Nodup) (hfresh : ∀ id ∈ dests code, id ∉ σ.values)
    (h : Outside (.guard note dest tested body result) code others) (hj : j ∈ others)
    (hid : id ∈ dests body) : .computed id ∉ j.operands := by
  induction h generalizing σ with
  | here before after =>
    obtain ⟨hbefore, hdest, hafter⟩ := ne_of_mem_guard hnodup hid
    obtain ⟨hscoped, -, hrest⟩ := allWellScoped_append.1 hscoped
    have hσ : id ∉ σ.values := hfresh id (by simp [dests_guard_cons, hid])
    intro hread
    rcases List.mem_append.1 hj with hj | hj
    · rcases mem_of_allWellScoped _ hscoped hj hread with h | h
      · exact hσ h
      · exact hbefore h
    · rcases mem_of_allWellScoped _ hrest hj hread with h | h
      · rcases Scope.mem_values_after.1 h with h | h
        · exact hdest (by simpa [dest?, eq_comm] using h)
        · rcases Scope.mem_values_afterAll.1 h with h | h
          · exact hσ h
          · exact hbefore (mem_dests_of_mem h)
      · exact hafter h
  | @inside before after note dest tested result inner others h ih =>
    have hinner : id ∈ dests inner := dests_subset_of_outside h hid
    obtain ⟨hbefore, hdest, hafter⟩ := ne_of_mem_guard hnodup hinner
    have hσ : id ∉ σ.values := hfresh id (by simp [dests_guard_cons, hinner])
    have hlevel : id ∉ (σ.afterAll before).values := fun hmem ↦ by
      rcases Scope.mem_values_afterAll.1 hmem with h | h
      · exact hσ h
      · exact hbefore (mem_dests_of_mem h)
    obtain ⟨hscoped, ⟨htested, hbody, hresult⟩, hrest⟩ := allWellScoped_append.1 hscoped
    rw [dests_append, dests_guard_cons] at hnodup hfresh
    have hnodup' : (dests inner).Nodup := by
      simp only [List.nodup_append, List.nodup_cons] at hnodup
      exact hnodup.2.1.2.1
    have hfresh' : ∀ id ∈ dests inner, id ∉ (σ.afterAll before).values := by
      intro id hid hmem
      rcases Scope.mem_values_afterAll.1 hmem with h | h
      · exact hfresh id (by simp [hid]) h
      · simp only [List.nodup_append, List.nodup_cons] at hnodup
        exact hnodup.2.2 id (mem_dests_of_mem h) id (by simp [hid]) rfl
    intro hread
    simp only [List.mem_append, List.mem_cons] at hj
    rcases hj with (hj | rfl | hj) | hj
    · rcases mem_of_allWellScoped _ hscoped hj hread with h | h
      · exact hσ h
      · exact hbefore h
    · rcases (by simpa [operands] using hread) with rfl | rfl
      · exact hlevel htested
      · rcases Scope.mem_values_afterAll.1 hresult with hmem | hmem
        · exact hlevel hmem
        · exact not_mem_filterMap_of_outside hnodup' h hid hmem
    · exact ih hbody hnodup' hfresh' hj hread
    · rcases mem_of_allWellScoped _ hrest hj hread with h | h
      · rcases Scope.mem_values_after.1 h with h | h
        · exact hdest (by simpa [dest?, eq_comm] using h)
        · exact hlevel h
      · exact hafter h

end

end Instr

end InlineArrays
