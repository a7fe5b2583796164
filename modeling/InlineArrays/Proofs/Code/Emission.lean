import InlineArrays.Code.Emission
import InlineArrays.Proofs.Code.Scope

/-!
# What emitting code adds

A computation that emits code only ever appends to the list under construction.  `Emits known act
post` says that what it appends defines the values and stores the temporaries that it counts, each
once, and reads nothing but what is in scope as soon as the operands `known` are; afterwards the
operands `post` are in scope too.  These statements compose along the steps of a computation.
-/

namespace InlineArrays

open Emission

variable {α β : Type}

theorem Emit.bind_eq_ok {act : Emit α} {f : α → Emit β} {s u : Emission} {b : β} :
    (act >>= f) s = .ok b u ↔ ∃ a t, act s = .ok a t ∧ f a t = .ok b u := by
  change (EStateM.bind act f) s = _ ↔ _
  cases h : act s with
  | ok a t =>
    simp only [EStateM.bind, h, EStateM.Result.ok.injEq]
    exact ⟨fun hf ↦ ⟨a, t, ⟨rfl, rfl⟩, hf⟩, fun ⟨_, _, ⟨ha, ht⟩, hf⟩ ↦ ha ▸ ht ▸ hf⟩
  | error e t => simp [EStateM.bind, h]

theorem Emit.map_eq_ok {act : Emit α} {f : α → β} {s u : Emission} {b : β} :
    (f <$> act) s = .ok b u ↔ ∃ a, act s = .ok a u ∧ f a = b := by
  change (EStateM.map f act) s = _ ↔ _
  cases h : act s with
  | ok a t =>
    simp only [EStateM.map, h, EStateM.Result.ok.injEq]
    exact ⟨fun ⟨hb, hu⟩ ↦ ⟨a, ⟨rfl, hu⟩, hb⟩, fun ⟨_, ⟨ha, hu⟩, hb⟩ ↦ ⟨ha ▸ hb, hu⟩⟩
  | error e t => simp [EStateM.map, h]

theorem Emit.pure_eq_ok {a b : α} {s t : Emission} :
    (pure a : Emit α) s = .ok b t ↔ a = b ∧ s = t := by
  change EStateM.Result.ok a s = _ ↔ _
  simp

theorem Emission.guarded_eq_ok {receiver : ExprId} {tested : Operand} {body : Emit Operand}
    {s t : Emission} {code : List Instr} {result : Operand} :
    guarded receiver tested body s = .ok (code, result) t ↔
      ∃ u, body { s with
          code := [], receivers := (receiver, tested) :: s.receivers.filter (·.1 != receiver) } =
          .ok result u ∧
        code = u.code ∧
        t = { u with code := s.code, receivers := u.receivers.filter (·.1 != receiver) } := by
  simp only [guarded]
  cases h : body { s with
      code := [], receivers := (receiver, tested) :: s.receivers.filter (·.1 != receiver) } with
  | ok o u =>
    simp only [EStateM.Result.ok.injEq, Prod.mk.injEq]
    constructor
    · rintro ⟨⟨hcode, ho⟩, ht⟩
      exact ⟨u, ⟨ho, rfl⟩, hcode.symm, ht.symm⟩
    · rintro ⟨_, ⟨ho, rfl⟩, hcode, ht⟩
      exact ⟨⟨hcode.symm, ho⟩, ht.symm⟩
  | error e u => simp

theorem Emission.guarded_eq_error {receiver : ExprId} {tested : Operand} {body : Emit Operand}
    {s t : Emission} {e : LoweringError} :
    guarded receiver tested body s = .error e t ↔
      ∃ u, body { s with
          code := [], receivers := (receiver, tested) :: s.receivers.filter (·.1 != receiver) } =
          .error e u ∧
        t = { u with code := s.code, receivers := u.receivers.filter (·.1 != receiver) } := by
  simp only [guarded]
  cases h : body { s with
      code := [], receivers := (receiver, tested) :: s.receivers.filter (·.1 != receiver) } with
  | ok o u => simp
  | error e' u =>
    simp only [EStateM.Result.error.injEq]
    constructor
    · rintro ⟨he, ht⟩
      exact ⟨u, ⟨he, rfl⟩, ht.symm⟩
    · rintro ⟨_, ⟨he, rfl⟩, ht⟩
      exact ⟨he, ht.symm⟩

namespace Emission

/-- Exactly `code` was emitted between `s` and `t`. -/
structure Grows (s t : Emission) (code : List Instr) : Prop where
  code_eq : t.code = s.code ++ code
  value_le : s.valueCount ≤ t.valueCount
  temp_le : s.tempCount ≤ t.tempCount
  dests_perm : (Instr.dests code).Perm
    (List.range' s.valueCount (t.valueCount - s.valueCount))
  stores_perm : (Instr.stores code).Perm
    (List.range' s.tempCount (t.tempCount - s.tempCount))
  receivers_subset : t.receivers ⊆ s.receivers

/-- An operation appends the definition of the next value. -/
theorem grows_define (s : Emission) (operation : Operation) (comment : Option String) :
    ∃ t, define operation comment s = .ok (.computed s.valueCount) t ∧
      s.Grows t [.define ⟨s.span, comment⟩ s.valueCount operation] ∧
        t.valueCount = s.valueCount + 1 := by
  refine ⟨_, rfl, ?_, rfl⟩
  constructor <;>
    simp [Instr.dests, Instr.stores, Instr.flattenAll, Instr.flatten, Instr.dest?, Instr.stored?]

theorem Grows.refl (s : Emission) : s.Grows s [] := by
  constructor <;> simp [Instr.dests, Instr.stores, Instr.flattenAll]

/-- Consecutive stretches of numbers. -/
private theorem perm_range'_trans {l m : List Nat} {i j k : Nat} (hij : i ≤ j) (hjk : j ≤ k)
    (hl : l.Perm (List.range' i (j - i))) (hm : m.Perm (List.range' j (k - j))) :
    (l ++ m).Perm (List.range' i (k - i)) := by
  have hsplit : List.range' i (k - i) = List.range' i (j - i) ++ List.range' j (k - j) := by
    rw [show k - i = (j - i) + (k - j) by omega, ← List.range'_append_1,
      show i + (j - i) = j by omega]
  rw [hsplit]
  exact hl.append hm

theorem Grows.trans {s t u : Emission} {code rest : List Instr} (hst : s.Grows t code)
    (htu : t.Grows u rest) : s.Grows u (code ++ rest) where
  code_eq := by rw [htu.code_eq, hst.code_eq, List.append_assoc]
  value_le := Nat.le_trans hst.value_le htu.value_le
  temp_le := Nat.le_trans hst.temp_le htu.temp_le
  dests_perm := by
    rw [Instr.dests_append]
    exact perm_range'_trans hst.value_le htu.value_le hst.dests_perm htu.dests_perm
  stores_perm := by
    rw [Instr.stores_append]
    exact perm_range'_trans hst.temp_le htu.temp_le hst.stores_perm htu.stores_perm
  receivers_subset := List.Subset.trans htu.receivers_subset hst.receivers_subset

theorem Grows.unique {s t : Emission} {code code' : List Instr} (h : s.Grows t code)
    (h' : s.Grows t code') : code = code' :=
  List.append_cancel_left (h.code_eq.symm.trans h'.code_eq)

/-- The values of all bound receivers are in scope. -/
def Binds (s : Emission) (σ : Scope) : Prop := ∀ bound ∈ s.receivers, bound.2.InScope σ

theorem Grows.binds {s t : Emission} {code : List Instr} {σ : Scope} (h : s.Grows t code)
    (hs : s.Binds σ) : t.Binds (σ.afterAll code) :=
  fun bound hbound ↦ Scope.inScope_afterAll code (hs bound (h.receivers_subset hbound))

end Emission

/-- With the operands `known` in scope, `act` appends code that is in scope and ends with the
operands `post` in scope. -/
def Emits (known : List Operand) (act : Emit α) (post : α → List Operand) : Prop :=
  ∀ ⦃s : Emission⦄ ⦃a : α⦄ ⦃t : Emission⦄, act s = .ok a t → ∃ code, s.Grows t code ∧
    ∀ σ : Scope, (∀ o ∈ known, o.InScope σ) → s.Binds σ →
      Instr.AllWellScoped σ code ∧ ∀ o ∈ post a, o.InScope (σ.afterAll code)

namespace Emits

variable {known more : List Operand}

theorem pure {a : α} {post : α → List Operand} (h : ∀ o ∈ post a, o ∈ known) :
    Emits known (pure a) post := by
  intro s b t hrun
  obtain ⟨rfl, rfl⟩ := Emit.pure_eq_ok.1 hrun
  exact ⟨[], .refl s, fun σ hknown _ ↦ ⟨trivial, fun o ho ↦ hknown o (h o ho)⟩⟩

/-- What is known before a step is still known after it. -/
theorem bind {act : Emit α} {f : α → Emit β} {mid : α → List Operand} {post : β → List Operand}
    (hact : Emits known act mid) (hf : ∀ a, Emits (mid a ++ known) (f a) post) :
    Emits known (act >>= f) post := by
  intro s b u hrun
  obtain ⟨a, t, hfirst, hsecond⟩ := Emit.bind_eq_ok.1 hrun
  obtain ⟨code, hgrows, hcode⟩ := hact hfirst
  obtain ⟨rest, hgrows', hrest⟩ := hf a hsecond
  refine ⟨code ++ rest, hgrows.trans hgrows', fun σ hknown hbinds ↦ ?_⟩
  obtain ⟨hscoped, hmid⟩ := hcode σ hknown hbinds
  have hknown' : ∀ o ∈ mid a ++ known, o.InScope (σ.afterAll code) := by
    intro o ho
    rcases List.mem_append.1 ho with ho | ho
    · exact hmid o ho
    · exact Scope.inScope_afterAll code (hknown o ho)
  obtain ⟨hscoped', hpost⟩ := hrest _ hknown' (hgrows.binds hbinds)
  rw [Scope.afterAll_append]
  exact ⟨Instr.allWellScoped_append.2 ⟨hscoped, hscoped'⟩, hpost⟩

theorem mono {act : Emit α} {post post' : α → List Operand} (h : Emits known act post)
    (hknown : known ⊆ more) (hpost : ∀ a, post' a ⊆ post a) : Emits more act post' := by
  intro s a t hrun
  obtain ⟨code, hgrows, hcode⟩ := h hrun
  refine ⟨code, hgrows, fun σ hσ hbinds ↦ ?_⟩
  obtain ⟨hscoped, hin⟩ := hcode σ (fun o ho ↦ hσ o (hknown ho)) hbinds
  exact ⟨hscoped, fun o ho ↦ hin o (hpost a ho)⟩

theorem map {act : Emit α} {f : α → β} {mid : α → List Operand} {post : β → List Operand}
    (hact : Emits known act mid) (hf : ∀ a, post (f a) ⊆ mid a) :
    Emits known (f <$> act) post := by
  intro s b t hrun
  obtain ⟨a, hfirst, rfl⟩ := Emit.map_eq_ok.1 hrun
  obtain ⟨code, hgrows, hcode⟩ := hact hfirst
  refine ⟨code, hgrows, fun σ hknown hbinds ↦ ?_⟩
  obtain ⟨hscoped, hmid⟩ := hcode σ hknown hbinds
  exact ⟨hscoped, fun o ho ↦ hmid o (hf a ho)⟩

theorem throw {e : LoweringError} {post : α → List Operand} :
    Emits known (throw e : Emit α) post := by
  intro s a t hrun
  cases hrun

/-- An instruction that defines and stores nothing. -/
theorem emit {f : Note → Instr} {comment : Option String}
    (hflat : ∀ note, (f note).flatten = [f note]) (hdest : ∀ note, (f note).dest? = none)
    (hstored : ∀ note, (f note).stored? = none)
    (hscoped : ∀ note σ, (∀ o ∈ known, o.InScope σ) → (f note).WellScoped σ) :
    Emits known (Emission.emit f comment) fun _ ↦ [] := by
  intro s a t hrun
  cases hrun
  refine ⟨[f ⟨s.span, comment⟩], ?_, fun σ hknown _ ↦ ?_⟩
  · constructor <;> simp [Instr.dests, Instr.stores, Instr.flattenAll, hflat, hdest, hstored]
  · exact ⟨⟨hscoped _ _ hknown, trivial⟩, by simp⟩

/-- An instruction that defines the next value. -/
theorem fresh {f : ValueId → Note → Instr} {comment : Option String}
    (hflat : ∀ dest note, (f dest note).flatten = [f dest note])
    (hdest : ∀ dest note, (f dest note).dest? = some dest)
    (hstored : ∀ dest note, (f dest note).stored? = none)
    (hscoped : ∀ dest note σ, (∀ o ∈ known, o.InScope σ) → (f dest note).WellScoped σ) :
    Emits known
      (do
        let dest ← freshValue
        Emission.emit (f dest) comment
        return Operand.computed dest)
      fun o ↦ [o] := by
  intro s a t hrun
  cases hrun
  refine ⟨[f s.valueCount ⟨s.span, comment⟩], ?_, fun σ hknown _ ↦ ?_⟩
  · constructor <;> simp [Instr.dests, Instr.stores, Instr.flattenAll, hflat, hdest, hstored]
  · refine ⟨⟨hscoped _ _ _ hknown, trivial⟩, ?_⟩
    simp [Operand.InScope, Scope.after, hdest]

theorem define {operation : Operation} {comment : Option String}
    (h : ∀ o ∈ operation.reads, o ∈ known) :
    Emits known (define operation comment) fun o ↦ [o] :=
  fresh (f := fun dest note ↦ .define note dest operation) (fun _ _ ↦ rfl) (fun _ _ ↦ rfl)
    (fun _ _ ↦ rfl) fun _ _ _ hknown o ho ↦ hknown o (h o ho)

theorem spill {value : Operand} (h : value ∈ known) :
    Emits known (spill value) fun temp ↦ [.temp temp] := by
  intro s a t hrun
  cases hrun
  refine ⟨[.storeTemp ⟨s.span, none⟩ s.tempCount value], ?_, fun σ hknown _ ↦ ?_⟩
  · constructor <;>
      simp [Instr.dests, Instr.stores, Instr.flattenAll, Instr.flatten, Instr.dest?, Instr.stored?]
  · refine ⟨⟨hknown value h, trivial⟩, ?_⟩
    simp [Operand.InScope, Scope.after, Instr.stored?]

theorem spillAddress {value : Operand} (h : value ∈ known) :
    Emits known (spillAddress value) fun o ↦ [o] :=
  (spill h).bind fun _ ↦ define (by simp [Operation.reads])

end Emits

end InlineArrays
