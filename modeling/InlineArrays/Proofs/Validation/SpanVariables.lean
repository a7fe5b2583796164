import InlineArrays.Compilation
import InlineArrays.Proofs.Machine.Triple
import InlineArrays.Proofs.Scenario.Build
import InlineArrays.Proofs.Validation.Accepted
import Mathlib

/-!
# What accepted methods write and return

Of an accepted method, everything that is written through may be written, and everything that leaves
it may leave it, as far as its storage is known.  Variables that hold spans are the exception: one may
be given another span whatever it is declared to be, and what is stored through one is not followed.
-/

namespace InlineArrays

namespace Usage

/-- Whether the use writes through the expression, or lets others do it. -/
def writes : Usage → Bool
  | .assignTarget | .compoundTarget | .argument .ref | .argument .output | .refLocalInit false
  | .returned .ref => true
  | _ => false

theorem isChecked_of_writes {usage : Usage} (h : usage.writes) : usage.isChecked := by
  cases usage with
  | argument modifier => cases modifier <;> first | rfl | cases h
  | _ => first | rfl | cases h

end Usage

namespace Context

variable {c : Context} {e : Expr} {usage : Usage} {o : Outcome}

/-- What is computed for a use that nothing speaks against gives no reason to object. -/
theorem AcceptsUse.objection?_eq_none (h : c.AcceptsUse (e, usage)) (hchecked : usage.isChecked)
    (ho : c.outcome? e = some o) : c.objection? e usage o = none := by
  have huse := h.useError hchecked
  unfold useError? advance at huse
  rw [ho] at huse
  cases hobjection : c.objection? e usage o with
  | none => rfl
  | some violation =>
    dsimp only at huse
    rw [hobjection] at huse
    cases huse

theorem writable_of_objection? (hwrites : usage.writes) (h : c.objection? e usage o = none) :
    o.storage.readonly = false ∨ (o.shape = .span ∧ e.isVariable ∧ usage ≠ .returned .ref) := by
  unfold objection? at h
  cases hreadonly : o.storage.readonly with
  | false => exact .inl rfl
  | true =>
    right
    rw [hreadonly] at h
    cases usage with
    | read | receiver => cases hwrites
    | assignTarget | compoundTarget => cases hshape : o.shape <;> simp_all
    | argument modifier => cases modifier <;> cases hshape : o.shape <;> simp_all [Usage.writes]
    | refLocalInit bound => cases bound <;> cases hshape : o.shape <;> simp_all [Usage.writes]
    | returned kind =>
      cases kind <;> cases hshape : o.shape <;> simp_all [Usage.writes, ReturnKind.isByRef]

/-- An accepted method writes through nothing that is read-only, and hands nothing such on to be
written, except for whole variables that hold spans. -/
theorem writable_of_accepted (h : c.validate? = some []) :
    ∀ use ∈ c.method.uses, use.2.writes → ∀ o, c.outcome? use.1 = some o →
      o.storage.readonly = false ∨ (o.shape = .span ∧ use.1.isVariable) := by
  intro use huse hwrites o ho
  have haccepts := (accepted_of_validate h).uses use huse
  have hobjection := haccepts.objection?_eq_none (Usage.isChecked_of_writes hwrites) ho
  exact (writable_of_objection? hwrites hobjection).imp id fun h ↦ ⟨h.1, h.2.1⟩

theorem escape?_eq_none {s : Storage} (h : s.escape? = none) :
    s.referenceable ∧ s.scope.outlives .returnOnly := by
  unfold Storage.escape? at h
  split at h
  · rename_i hescapes
    simpa using hescapes
  · cases horigin : s.origin <;> rw [horigin] at h <;> cases h

theorem outlives_of_objection? {kind : ReturnKind} (hleaves : kind.isByRef ∨ o.shape = .span)
    (h : c.objection? e (.returned kind) o = none) :
    o.storage.referenceable ∧ o.storage.scope.outlives .returnOnly := by
  apply escape?_eq_none
  unfold objection? at h
  dsimp only at h
  cases hkind : kind.isByRef with
  | true =>
    rw [hkind, if_pos rfl] at h
    split at h
    · cases h
    · split at h
      · cases h
      · exact h
  | false =>
    have hspan : o.shape = .span := hleaves.resolve_left (by simp [hkind])
    rwa [hkind, if_neg (by simp), if_pos hspan] at h

/-- What leaves an accepted method by reference or as a span has storage that outlives the method, and
the values of a span local after its first one do not shrink its scope. -/
theorem outlives_of_accepted (h : c.validate? = some []) :
    (∀ e kind, (e, .returned kind) ∈ c.method.uses → ∀ o, c.outcome? e = some o →
      kind.isByRef ∨ o.shape = .span →
        o.storage.referenceable ∧ o.storage.scope.outlives .returnOnly) ∧
    ∀ target value, .assign target value ∈ c.method.statements → c.KeepsScope target value := by
  have haccepted := accepted_of_validate h
  refine ⟨fun e kind huse o ho hleaves ↦ ?_, haccepted.spanLocal⟩
  exact outlives_of_objection? hleaves ((haccepted.uses _ huse).objection?_eq_none rfl ho)

end Context

/-- A program with the code of its methods that can be lowered. -/
def Program.executable (p : Program) : Executable :=
  .link p (p.methods.filterMap fun m ↦ (p.context {} m).routine.toOption)

/-- Whether every method is accepted and lowered. -/
def Program.Lowers (p : Program) : Prop :=
  ∀ m ∈ p.methods, (p.context {} m).validate? = some [] ∧ (p.context {} m).routine.toOption.isSome

/-- A scenario of one method over an inline array, with a local of that type. -/
def withBuffer (m : MethodDecl) (inputs : List (String × Data)) : Scenario where
  options := {}
  arrays := [⟨"Buffer4", "int", 4⟩]
  structs := []
  methods := [{ m with locals := m.locals ++ [⟨"b", "Buffer4", true⟩] }]
  inputs
  expect := none

/-- What a program comes to that has one method, of which something is known. -/
theorem exists_lowers {s : Scenario} {α : Type} {f : Program → α} {a : α}
    (h : s.build.toOption.map (fun p ↦ (p.methods.map fun m ↦ ((p.context {} m).validate?,
      (p.context {} m).routine.toOption.isSome), f p)) = some ([(some [], true)], a)) :
    ∃ p, s.build = .ok p ∧ p.Lowers ∧ f p = a := by
  obtain ⟨p, hp, h⟩ := Option.map_eq_some_iff.1 h
  obtain ⟨hmethods, hf⟩ := Prod.mk.inj h
  refine ⟨p, Except.toOption_eq_some.1 hp, fun m hm ↦ ?_, hf⟩
  have hmem := List.mem_map_of_mem (f := fun m ↦ ((p.context {} m).validate?,
    (p.context {} m).routine.toOption.isSome)) hm
  rw [hmethods, List.mem_singleton] at hmem
  exact Prod.mk.inj hmem

/-- The error that a run ends with. -/
def failure? {ε σ α : Type} : EStateM.Result ε σ α → Option ε
  | .ok .. => none
  | .error e _ => some e

theorem exists_of_failure? {ε σ α : Type} {r : EStateM.Result ε σ α} {e : ε}
    (h : failure? r = some e) : ∃ m, r = .error e m := by
  cases r with
  | ok => cases h
  | error e' m =>
    cases h
    exact ⟨m, rfl⟩

/-- Returns the span that a ref local to a span local was given, which is over storage of its own. -/
def returnsRebound : Scenario :=
  withBuffer
    { name := "Main", returns := .value, returnType := some "Span<int>", owner := none
      parameters := [], locals := [⟨"s", "Span<int>", true⟩]
      body :=
        [.refLocal "r" false "Span<int>" (.path "s"), .assign (.path "r") (.span (.path "b") false),
          .ret (some (.path "s"))] }
    []

/-- The scope of a span local is not narrowed by what is assigned through a reference to it. -/
theorem returnsRebound_dangles :
    ∃ p, returnsRebound.build = .ok p ∧ p.Lowers ∧
      ∃ m, p.executable.run "Main" [] {} = .error .danglingReference m := by
  have hrun : returnsRebound.build.toOption.map (fun p ↦ (p.methods.map fun m ↦
      ((p.context {} m).validate?, (p.context {} m).routine.toOption.isSome),
      failure? (p.executable.run "Main" [] {}))) =
        some ([(some [], true)], some .danglingReference) := by cbv
  obtain ⟨p, hbuild, hlowers, hrun⟩ := exists_lowers hrun
  exact ⟨p, hbuild, hlowers, exists_of_failure? hrun⟩

/-- Gives a read-only parameter that holds a span another one. -/
def replacesSpan : Scenario :=
  withBuffer
    { name := "Main", returns := .value, returnType := some "int", owner := none
      parameters := [⟨"p", .input, "Span<int>", false⟩], locals := []
      body := [.assign (.path "p") (.span (.path "b") false),
        .ret (some (.index (.path "p") (.int 0)))] }
    [("p", .list [.int 7])]

/-- The cell that a read-only parameter is boxed in holds another span after the run. -/
theorem replacesSpan_writes :
    ∃ p, replacesSpan.build = .ok p ∧ p.Lowers ∧
      ∃ m, p.method? "Main" = some m ∧ (m.var 0).kind = .parameter .input ∧ ∃ boxed start,
        p.executable.entryArgument replacesSpan.inputs (m.var 0) {} =
          .ok (.address ⟨.heap 1, []⟩) start ∧ start.heap[1]? = some boxed ∧
        (Run.after (p.executable.run "Main" replacesSpan.inputs) {}).heap[1]? ≠ some boxed := by
  have hrun : replacesSpan.build.toOption.map (fun p ↦ (p.methods.map fun m ↦
      ((p.context {} m).validate?, (p.context {} m).routine.toOption.isSome),
      (p.method? "Main").map fun m ↦ ((m.var 0).kind,
        match p.executable.entryArgument replacesSpan.inputs (m.var 0) {} with
        | .ok (.address a) start => some (a, start.heap[1]?)
        | _ => none,
        (Run.after (p.executable.run "Main" replacesSpan.inputs) {}).heap[1]?))) =
      some ([(some [], true)], some (.parameter .input,
        some (⟨.heap 1, []⟩, some (.span ⟨some ⟨.heap 0, []⟩, 0, 1, false⟩)),
        some (.span ⟨some ⟨.slot 0 1, []⟩, 0, 4, false⟩))) := by cbv
  obtain ⟨p, hbuild, hlowers, hrun⟩ := exists_lowers hrun
  obtain ⟨m, hm, hrun⟩ := Option.map_eq_some_iff.1 hrun
  obtain ⟨hkind, hrun⟩ := Prod.mk.inj hrun
  obtain ⟨hboxed, hafter⟩ := Prod.mk.inj hrun
  refine ⟨p, hbuild, hlowers, m, hm, hkind, ?_⟩
  split at hboxed
  · rename_i a start heq
    obtain ⟨rfl, hcell⟩ := Prod.mk.inj (Option.some.inj hboxed)
    refine ⟨_, start, heq, hcell, ?_⟩
    rw [hafter]
    simp
  · cases hboxed

end InlineArrays
